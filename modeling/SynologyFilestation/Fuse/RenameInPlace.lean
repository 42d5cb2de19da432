import SynologyFilestation.Fuse.Callbacks

/-!
When a rename within a directory is atomic. The callback sends two requests and
nothing ties them together: what the first cleared stays cleared when the second
fails. On a server that folds case the two names may be one entry, and then the
first request deletes what is to be renamed.
-/

namespace SynologyFilestation.Fuse

open Core Library

variable {fold : String → String}

/-- A rename that fails leaves both names as they were, and one that fails or
not leaves what was renamed under one of them. -/
structure AtomicRename (fold : String → String) (old new : NasPath) (before : Volume)
    (answer : Except Errno Unit) (after : Volume) : Prop where
  failed : ∀ e, answer = .error e → after.entryAt fold old = before.entryAt fold old ∧
    after.entryAt fold new = before.entryAt fold new
  kept : ∀ tree, before.treeAt fold old = some tree →
    after.treeAt fold old = some tree ∨ after.treeAt fold new = some tree

/-! ### The two requests -/

/-- The first request takes away what stands under the new name. -/
def Clears (fold : String → String) (sc : InPlaceScript) (old new : NasPath)
    (c : Client Volume) : Prop :=
  old ≠ new ∧ ∃ p ∈ sc.delete.runs c.metadataBreakers, c.server.yields fold new p

/-- The breakers as the second request finds them. -/
def breakersBetween (sc : InPlaceScript) (old new : NasPath) (c : Client Volume) :
    List CircuitBreaker :=
  if old = new then c.metadataBreakers else sc.delete.breakersAfter c.metadataBreakers

/-- The second request is carried out and changes how the entry is called. -/
def Renames (fold : String → String) (sc : InPlaceScript) (dir : NasPath)
    (name newName : String) (c : Client Volume) : Prop :=
  ∃ e, c.server.entryAt fold (dir ++ [name]) = some e ∧
    sc.rename.runs (breakersBetween sc (dir ++ [name]) (dir ++ [newName]) c) ≠ [] ∧
    if fold newName = fold name then e.1 ≠ newName
    else Clears fold sc (dir ++ [name]) (dir ++ [newName]) c ∨
      c.server.entryAt fold (dir ++ [newName]) = none

/-- The second request is heard of, and did not find its own work done. -/
def Confirms (fold : String → String) (sc : InPlaceScript) (dir : NasPath)
    (name newName : String) (c : Client Volume) : Prop :=
  let breakers := breakersBetween sc (dir ++ [name]) (dir ++ [newName]) c
  sc.rename.heard breakers ∧ (fold newName ≠ fold name → (sc.rename.runs breakers).length = 1)

/-- The client between the two requests. -/
def cleared (fold : String → String) (sc : InPlaceScript) (old new : NasPath)
    (c : Client Volume) : Client Volume :=
  if old = new then c else (delete fold sc.delete new c).2

section Requests

variable {sc : InPlaceScript} {old new dir : NasPath} {name newName : String} {c : Client Volume}

theorem cleared_breakers :
    (cleared fold sc old new c).metadataBreakers = breakersBetween sc old new c := by
  rw [cleared, breakersBetween]
  split
  · rfl
  · rw [delete, (request_follows (deleteOp fold new) sc.delete c).1]

theorem cleared_server_of_clears (h : Clears fold sc old new c) :
    (cleared fold sc old new c).server = c.server.remove fold new := by
  rw [cleared, if_neg h.1, delete_server_runs, if_pos h.2]

theorem cleared_server_of_not_clears (h : ¬Clears fold sc old new c) :
    (cleared fold sc old new c).server = c.server := by
  rw [cleared]
  split
  case isTrue => rfl
  case isFalse hne => rw [delete_server_runs, if_neg fun hruns => h ⟨hne, hruns⟩]

/-- What is cleared was there. -/
theorem Clears.exists_entry (h : Clears fold sc old new c) :
    ∃ e, c.server.entryAt fold new = some e := by
  obtain ⟨_, p, _, hyields⟩ := h
  rw [← Option.isSome_iff_exists, Option.isSome_iff_ne_none, Ne, ← Volume.treeAt_eq_none]
  intro hnone
  simp [Volume.yields, hnone] at hyields

/-- **The second request.** Either it leaves what the first left, and fails, or
it renames, and succeeds if it is confirmed. -/
theorem renameInPlace_outcome (fold : String → String) (sc : InPlaceScript) (dir : NasPath)
    (name newName : String) (c : Client Volume) :
    let between := cleared fold sc (dir ++ [name]) (dir ++ [newName]) c
    let after := renameInPlace fold sc (dir ++ [name]) (dir ++ [newName]) newName c
    let runs := sc.rename.runs (breakersBetween sc (dir ++ [name]) (dir ++ [newName]) c)
    (¬(between.server.CanRename fold dir name newName ∧ runs ≠ []) ∧
        after.2.server = between.server ∧ after.1.isOk = false) ∨
      (between.server.CanRename fold dir name newName ∧ runs ≠ [] ∧
        between.server.Renamed fold dir name newName after.2.server ∧
        (after.1.isOk ↔ Confirms fold sc dir name newName c)) := by
  intro between after runs
  have hafter : after.2 = (Core.rename fold sc.rename (dir ++ [name]) newName between).2 ∧
      after.1.isOk = (Core.rename fold sc.rename (dir ++ [name]) newName between).1.isOk := by
    refine ⟨rfl, ?_⟩
    change ((Core.rename fold sc.rename (dir ++ [name]) newName between).1.map _).isOk = _
    cases (Core.rename fold sc.rename (dir ++ [name]) newName between).1 <;> rfl
  rw [hafter.1, hafter.2]
  have hruns : sc.rename.runs between.metadataBreakers = runs := by rw [cleared_breakers]
  by_cases hcan : between.server.CanRename fold dir name newName
  · by_cases hrun : runs = []
    · exact Or.inl ⟨fun h => h.2 hrun, rename_server_unrun (hruns.trans hrun)⟩
    · obtain ⟨hrenamed, hok⟩ := rename_server_run hcan (hruns ▸ hrun)
      refine Or.inr ⟨hcan, hrun, hrenamed, hok.trans ?_⟩
      rw [Confirms, cleared_breakers]
  · exact Or.inl ⟨fun h => hcan h.1, rename_server_blocked hcan⟩

end Requests

/-! ### When the two are one -/

section Atomic

variable {sc : InPlaceScript} {dir : NasPath} {name newName : String} {c : Client Volume}

/-- The two requests as one: what is cleared is another entry and the rename
takes its place, and a rename that takes place is confirmed. -/
def Undivided (fold : String → String) (sc : InPlaceScript) (dir : NasPath)
    (name newName : String) (c : Client Volume) : Prop :=
  (Clears fold sc (dir ++ [name]) (dir ++ [newName]) c →
    fold newName ≠ fold name ∧ Renames fold sc dir name newName c) ∧
  (Renames fold sc dir name newName c → Confirms fold sc dir name newName c)

/-- Nothing happened. -/
theorem AtomicRename.of_server {old new : NasPath} {v : Volume} {answer : Except Errno Unit} :
    AtomicRename fold old new v answer v :=
  ⟨fun _ _ => ⟨rfl, rfl⟩, fun _ h => Or.inl h⟩

/-- The destination is gone and the rename did not take place. -/
theorem not_atomic_of_cleared {old new : NasPath} {v w : Volume} {answer : Except Errno Unit}
    {e : Entry} (hdest : v.entryAt fold new = some e) (hgone : w.entryAt fold new = none)
    (hanswer : answer.isOk = false) : ¬AtomicRename fold old new v answer w := by
  intro h
  cases answer with
  | ok u => cases hanswer
  | error errno =>
      have hnew := (h.failed errno rfl).2
      rw [hgone, hdest] at hnew
      cases hnew

theorem reply_isOk (r : Except SynoFsError Unit × Client Volume) : (reply r).1.isOk = r.1.isOk := by
  rcases r with ⟨_ | _, _⟩ <;> rfl

/-- What the rename finds under the old name is what was there. -/
theorem cleared_entryAt_old
    (hcan : (cleared fold sc (dir ++ [name]) (dir ++ [newName]) c).server.CanRename fold dir
      name newName) :
    (cleared fold sc (dir ++ [name]) (dir ++ [newName]) c).server.entryAt fold (dir ++ [name]) =
        c.server.entryAt fold (dir ++ [name]) ∧
      (Clears fold sc (dir ++ [name]) (dir ++ [newName]) c → fold newName ≠ fold name) := by
  by_cases hclears : Clears fold sc (dir ++ [name]) (dir ++ [newName]) c
  · have hsource := hcan.1
    rw [cleared_server_of_clears hclears, Volume.entryAt_remove] at hsource ⊢
    have hdistinct : fold name ≠ fold newName := by
      intro hsame
      rw [if_pos hsame] at hsource
      cases hsource
    exact ⟨if_neg hdistinct, fun _ => hdistinct.symm⟩
  · rw [cleared_server_of_not_clears hclears]
    exact ⟨rfl, fun h => (hclears h).elim⟩

/-- A rename that takes place finds what it needs. -/
theorem Renames.canRename (h : Renames fold sc dir name newName c)
    (hdistinct : Clears fold sc (dir ++ [name]) (dir ++ [newName]) c → fold newName ≠ fold name) :
    (cleared fold sc (dir ++ [name]) (dir ++ [newName]) c).server.CanRename fold dir
      name newName := by
  obtain ⟨e, hsource, _, hchange⟩ := h
  by_cases hclears : Clears fold sc (dir ++ [name]) (dir ++ [newName]) c
  · rw [cleared_server_of_clears hclears, Volume.CanRename, Volume.entryAt_remove,
      Volume.entryAt_remove, if_neg (hdistinct hclears).symm, hsource, if_pos rfl]
    exact ⟨rfl, fun _ => rfl⟩
  · rw [cleared_server_of_not_clears hclears, Volume.CanRename, hsource]
    refine ⟨rfl, fun hne => ?_⟩
    rw [if_neg hne] at hchange
    exact hchange.resolve_left hclears

/-- A rename that ran left both names as they were if it had nothing to change. -/
theorem unchanged_iff_not_renames {w : Volume}
    (hcan : (cleared fold sc (dir ++ [name]) (dir ++ [newName]) c).server.CanRename fold dir
      name newName)
    (hruns : sc.rename.runs (breakersBetween sc (dir ++ [name]) (dir ++ [newName]) c) ≠ [])
    (hrenamed : (cleared fold sc (dir ++ [name]) (dir ++ [newName]) c).server.Renamed fold dir
      name newName w) :
    (w.entryAt fold (dir ++ [name]) = c.server.entryAt fold (dir ++ [name]) ∧
        w.entryAt fold (dir ++ [newName]) = c.server.entryAt fold (dir ++ [newName])) ↔
      ¬Renames fold sc dir name newName c := by
  obtain ⟨hold, hclears⟩ := cleared_entryAt_old hcan
  obtain ⟨e, hsource⟩ := Option.isSome_iff_exists.mp hcan.1
  have hbefore : c.server.entryAt fold (dir ++ [name]) = some e := hold.symm.trans hsource
  rw [hrenamed name, hrenamed.entryAt_new, hsource, hbefore, Option.map_some]
  by_cases hsame : fold newName = fold name
  · have hentry : c.server.entryAt fold (dir ++ [newName]) = some e := by
      rw [← hbefore, Volume.entryAt_concat, Volume.entryAt_concat]
      simp only [FileTree.findEntry_congr hsame]
    rw [if_pos hsame.symm, hentry, and_self]
    constructor
    · rintro heq ⟨e', he', _, hspelled⟩
      rw [if_pos hsame] at hspelled
      obtain rfl := Option.some.inj (hbefore.symm.trans he')
      exact hspelled (congrArg Prod.fst (Option.some.inj heq)).symm
    · intro hnot
      by_contra hne
      refine hnot ⟨e, hbefore, hruns, ?_⟩
      rw [if_pos hsame]
      rintro rfl
      exact hne rfl
  · rw [if_neg (Ne.symm hsame), if_pos rfl]
    refine iff_of_false (fun h => by cases h.1) fun hnot => hnot ⟨e, hbefore, hruns, ?_⟩
    rw [if_neg hsame]
    by_cases hcl : Clears fold sc (dir ++ [name]) (dir ++ [newName]) c
    · exact Or.inl hcl
    · apply Or.inr
      have hfree := hcan.2 hsame
      rwa [cleared_server_of_not_clears hcl] at hfree

/-- What was renamed is under the new name, so only a failure can break the rename. -/
theorem atomic_iff_of_renamed {v w : Volume} {answer : Except Errno Unit}
    (hkept : ∀ tree, v.treeAt fold (dir ++ [name]) = some tree →
      w.treeAt fold (dir ++ [newName]) = some tree) :
    AtomicRename fold (dir ++ [name]) (dir ++ [newName]) v answer w ↔
      (¬answer.isOk → w.entryAt fold (dir ++ [name]) = v.entryAt fold (dir ++ [name]) ∧
        w.entryAt fold (dir ++ [newName]) = v.entryAt fold (dir ++ [newName])) := by
  constructor
  · intro h hfailed
    cases answer with
    | ok u => exact (hfailed rfl).elim
    | error errno => exact h.failed errno rfl
  · intro h
    refine ⟨fun errno herr => h ?_, fun tree htree => Or.inr (hkept tree htree)⟩
    rw [herr]
    exact Bool.false_ne_true

variable (fold sc dir name newName c)

/-- **Exactly when the two requests are atomic.** -/
theorem renameInPlace_atomic_iff :
    AtomicRename fold (dir ++ [name]) (dir ++ [newName]) c.server
        (reply (renameInPlace fold sc (dir ++ [name]) (dir ++ [newName]) newName c)).1
        (renameInPlace fold sc (dir ++ [name]) (dir ++ [newName]) newName c).2.server ↔
      Undivided fold sc dir name newName c := by
  rcases renameInPlace_outcome fold sc dir name newName c with
    ⟨hblocked, hserver, hanswer⟩ | ⟨hcan, hruns, hrenamed, hok⟩
  · rw [hserver]
    by_cases hclears : Clears fold sc (dir ++ [name]) (dir ++ [newName]) c
    · obtain ⟨e, hdest⟩ := hclears.exists_entry
      refine iff_of_false (not_atomic_of_cleared hdest ?_ ((reply_isOk _).trans hanswer)) ?_
      · rw [cleared_server_of_clears hclears, Volume.entryAt_remove, if_pos rfl]
      · intro h
        obtain ⟨hdistinct, hrenames⟩ := h.1 hclears
        obtain ⟨_, _, hruns, _⟩ := id hrenames
        exact hblocked ⟨hrenames.canRename fun _ => hdistinct, hruns⟩
    · rw [cleared_server_of_not_clears hclears]
      refine iff_of_true AtomicRename.of_server ⟨fun h => (hclears h).elim, fun hrenames => ?_⟩
      obtain ⟨_, _, hruns, _⟩ := id hrenames
      exact (hblocked ⟨hrenames.canRename fun h => (hclears h).elim, hruns⟩).elim
  · obtain ⟨hold, hdistinct⟩ := cleared_entryAt_old hcan
    have hkept : ∀ tree, c.server.treeAt fold (dir ++ [name]) = some tree →
        (renameInPlace fold sc (dir ++ [name]) (dir ++ [newName]) newName c).2.server.treeAt fold
          (dir ++ [newName]) = some tree := by
      intro tree htree
      rw [Volume.treeAt, hrenamed.entryAt_new, hold, Option.map_map]
      exact htree
    rw [atomic_iff_of_renamed hkept, reply_isOk, hok,
      unchanged_iff_not_renames hcan hruns hrenamed, not_imp_not]
    refine ⟨fun h => ⟨fun hclears => ⟨hdistinct hclears, ?_⟩, h⟩, fun h => h.2⟩
    obtain ⟨e, hsource⟩ := Option.isSome_iff_exists.mp hcan.1
    refine ⟨e, hold.symm.trans hsource, hruns, ?_⟩
    rw [if_neg (hdistinct hclears)]
    exact Or.inl hclears

end Atomic

/-! ### The callback -/

section Callback

variable (fold : String → String) (archive : Tree → Core.Bytes) (limits : TransferLimits)
  (inodes : InodeCache) (sc : RenameScript) (name newName : FileName) (flags : RenameFlags)
  (c : Client Volume)

theorem rename_same_parent {parent : ℕ} {path : NasPath}
    (h : inodes.pathForIno parent = some path) :
    rename fold archive limits inodes sc parent name parent newName flags c =
      reply (renameInPlace fold sc.inPlace (joinPath path name.text) (joinPath path newName.text)
        newName.text c) := by
  simp only [rename, h, if_true]

/-- **Exactly when a rename within a directory is atomic.** -/
theorem rename_atomic_iff {parent : ℕ} {path : NasPath}
    (h : inodes.pathForIno parent = some path) :
    AtomicRename fold (joinPath path name.text) (joinPath path newName.text) c.server
        (rename fold archive limits inodes sc parent name parent newName flags c).1
        (rename fold archive limits inodes sc parent name parent newName flags c).2.server ↔
      Undivided fold sc.inPlace (trimEnd path) name.text newName.text c := by
  rw [rename_same_parent fold archive limits inodes sc name newName flags c h]
  exact renameInPlace_atomic_iff fold sc.inPlace (trimEnd path) name.text newName.text c

end Callback

/-! ### Two renames that lose -/

/-- A client without backends, and two files in a share. -/
def twoFiles : Client Volume :=
  ⟨[], [], [], { root := .dir [("share", .dir [("Photo", .file [1]), ("other", .file [2])])]
                 removals := [] }⟩

/-- As much of folding case as the two files need. -/
def foldPhoto (name : String) : String := if name = "Photo" then "photo" else name

/-- A move of which every request is answered at once. -/
def plainAcross : AcrossScript :=
  { move :=
      { backend := declining, source := .plain, dest := .plain, entries := fun _ => .answered
        rename := .plain, delete := .plain, start := .answered, polls := [.finished]
        renameBack := .plain }
    info := .plain
    copy :=
      { download := ⟨declining, fun _ => .answered⟩
        upload := ⟨declining, fun _ => ⟨⟨.plain, fun _ => .plain⟩, .answered⟩⟩
        delete := .plain } }

def shareInode : InodeCache := ⟨fun ino => if ino = 1 then some ["share"] else none, fun _ => none⟩

def photo : FileName := ⟨"Photo", by decide⟩

def respelled : FileName := ⟨"photo", by decide⟩

def otherFile : FileName := ⟨"other", by decide⟩

/-- A rename of which every request is answered is atomic between two entries. -/
theorem rename_onto_other_atomic :
    AtomicRename foldPhoto ["share", "Photo"] ["share", "other"] twoFiles.server
      (rename foldPhoto (fun _ => []) .standard shareInode ⟨⟨.plain, .plain⟩, plainAcross⟩
        1 photo 1 otherFile ⟨false⟩ twoFiles).1
      (rename foldPhoto (fun _ => []) .standard shareInode ⟨⟨.plain, .plain⟩, plainAcross⟩
        1 photo 1 otherFile ⟨false⟩ twoFiles).2.server := by
  refine (rename_atomic_iff foldPhoto (fun _ => []) .standard shareInode
    ⟨⟨.plain, .plain⟩, plainAcross⟩ photo otherFile ⟨false⟩ twoFiles
    (show shareInode.pathForIno 1 = some ["share"] from rfl)).mpr ?_
  have hclears : Clears foldPhoto ⟨.plain, .plain⟩ ["share", "Photo"] ["share", "other"] twoFiles :=
    ⟨by decide, .http, by decide, rfl⟩
  exact ⟨fun _ => ⟨by decide, ("Photo", .file [1]), rfl, by decide, Or.inl hclears⟩,
    fun _ => ⟨rfl, fun _ => rfl⟩⟩

/-- A rename that only respells the name deletes the file, and one whose second
request is not sent has deleted the destination. -/
theorem respelling_rename_loses :
    ¬ AtomicRename foldPhoto ["share", "Photo"] ["share", "photo"] twoFiles.server
        (rename foldPhoto (fun _ => []) .standard shareInode
          ⟨⟨.plain, .plain⟩, plainAcross⟩ 1 photo 1 respelled ⟨false⟩ twoFiles).1
        (rename foldPhoto (fun _ => []) .standard shareInode
          ⟨⟨.plain, .plain⟩, plainAcross⟩ 1 photo 1 respelled ⟨false⟩ twoFiles).2.server ∧
      ¬ AtomicRename foldPhoto ["share", "Photo"] ["share", "other"] twoFiles.server
        (rename foldPhoto (fun _ => []) .standard shareInode
          ⟨⟨.plain, .unreached⟩, plainAcross⟩ 1 photo 1 otherFile ⟨false⟩ twoFiles).1
        (rename foldPhoto (fun _ => []) .standard shareInode
          ⟨⟨.plain, .unreached⟩, plainAcross⟩ 1 photo 1 otherFile ⟨false⟩ twoFiles).2.server := by
  constructor
  · intro h
    rcases h.kept (.file [1]) (by rfl) with hkept | hkept
    · cases hkept
    · cases hkept
  · intro h
    cases (h.failed .eio (by rfl)).2

end SynologyFilestation.Fuse
