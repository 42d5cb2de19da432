import SynologyFilestation.Core.UndoneMove
import SynologyFilestation.Core.Removals
import SynologyFilestation.Core.ReplaceFile

/-!
When folders go with what is in them. A move never takes one: what it deletes, it
has seen to be empty. But where a move is declined, the caller copies: it uploads
under the new name and deletes the old one, and both the upload and that delete
recurse when FileStation answers them.

So what is followed here is where folders are bare (`Bare`), through the requests
of a move that is declined (`moveTo_declined`) and of an upload
(`KeepsBare.upload`); and, for the other direction, what the copy leaves in a
source that then goes with it (`Volume.isFullAt_stored`).
-/

namespace SynologyFilestation.Core

open Library

variable {fold : String → String}

/-- A folder with entries stands under the path. -/
def Volume.isFullAt (fold : String → String) (path : NasPath) (v : Volume) : Bool :=
  match v.treeAt fold path with
  | some tree => tree.isFull
  | none => false

/-- The folders that were removed with entries in them. -/
def Volume.fullGone (v : Volume) : List Removal := v.goneWith FileTree.isFull

/-- There is nothing under the path. -/
def Bare (fold : String → String) (v : Volume) (path : NasPath) : Prop :=
  ∀ name, v.treeAt fold (path ++ [name]) = none

/-- A file stands where the path would have a folder. -/
def FileOnWay (fold : String → String) (v : Volume) (path : NasPath) : Prop :=
  ∃ front content, front.map fold <+: path.map fold ∧
    v.treeAt fold front = some (.file content)

/-- The same names lead to the same files, however they are spelled. -/
def Alike (fold : String → String) (v w : Volume) : Prop :=
  ∀ path, (w.treeAt fold path).map FileTree.content = (v.treeAt fold path).map FileTree.content

section Below

variable {v w : Volume} {path rest : NasPath} {name : String}

theorem Volume.treeAt_append (hpath : path ≠ []) (hrest : rest ≠ []) :
    v.treeAt fold (path ++ rest) =
      (v.treeAt fold path).bind fun t => (FileTree.entryIn fold rest t).map (·.2) := by
  rw [Volume.treeAt, Volume.entryAt_append hpath hrest, Option.map_bind]
  rfl

theorem Volume.content_seen (v : Volume) (path : NasPath) :
    (v.treeAt fold path).map FileTree.content = (v.root.seen fold path).map (·.2) := by
  rw [Volume.seen_eq, Volume.treeAt, Option.map_map, Option.map_map]
  rfl

theorem bare_iff (hpath : path ≠ []) : Bare fold v path ↔ v.isFullAt fold path = false := by
  have hbelow : ∀ name, v.treeAt fold (path ++ [name]) =
      (v.treeAt fold path).bind fun t => (FileTree.entryIn fold [name] t).map (·.2) :=
    fun name => Volume.treeAt_append hpath (by simp)
  unfold Bare Volume.isFullAt
  simp only [hbelow]
  rcases v.treeAt fold path with _ | (content | (_ | ⟨e, rest⟩))
  · exact iff_of_true (fun _ => rfl) rfl
  · exact iff_of_true (fun _ => rfl) rfl
  · exact iff_of_true (fun _ => rfl) rfl
  · refine iff_of_false (fun h => ?_) (by rintro ⟨⟩)
    have hfirst := h e.1
    simp [FileTree.entryIn, FileTree.findEntry] at hfirst

/-- What is below a path is in its tree. -/
theorem Bare.of_treeAt {path' : NasPath} (hpath : path ≠ []) (hpath' : path' ≠ [])
    (htree : w.treeAt fold path' = v.treeAt fold path) (h : Bare fold v path) :
    Bare fold w path' := by
  rw [bare_iff hpath, Volume.isFullAt, ← htree] at h
  exact (bare_iff hpath').mpr h

theorem Bare.of_none (hpath : path ≠ []) (hnone : v.treeAt fold path = none) :
    Bare fold v path :=
  fun _ => Volume.treeAt_none_below hpath hnone (by
    rw [List.map_append]
    exact List.prefix_append _ _)

/-- There is nothing below a file. -/
theorem FileOnWay.treeAt_none (h : FileOnWay fold v path) :
    v.treeAt fold (path ++ [name]) = none := by
  obtain ⟨front, content, ⟨keys, hkeys⟩, hfile⟩ := h
  rw [eq_comm, List.map_eq_append_iff] at hkeys
  obtain ⟨front', rest, rfl, hfront, _⟩ := hkeys
  rw [Volume.treeAt_congr (show (front' ++ rest ++ [name]).map fold =
    (front ++ (rest ++ [name])).map fold by simp [hfront])]
  rcases eq_or_ne front [] with rfl | hne
  · cases hfile
  · rw [Volume.treeAt_append hne (by simp), hfile]
    simp

theorem Alike.none_iff (h : Alike fold v w) :
    w.treeAt fold path = none ↔ v.treeAt fold path = none := by
  rw [← Option.map_eq_none_iff, h path, Option.map_eq_none_iff]

theorem Alike.bare (h : Alike fold v w) (hbare : Bare fold v path) : Bare fold w path :=
  fun name => h.none_iff.mpr (hbare name)

theorem Alike.fileOnWay (h : Alike fold v w) (hway : FileOnWay fold v path) :
    FileOnWay fold w path := by
  obtain ⟨front, content, hfront, hfile⟩ := hway
  have hsame := h front
  rw [hfile] at hsame
  obtain ⟨tree, htree, hcontent⟩ := Option.map_eq_some_iff.mp hsame
  cases tree with
  | dir children => cases hcontent
  | file content' => exact ⟨front, content', hfront, htree⟩

/-- A removal is seen only under what it removes. -/
theorem Volume.seen_remove {gone : NasPath} (hout : ¬ gone.map fold <+: path.map fold) :
    (v.remove fold gone).root.seen fold path = v.root.seen fold path := by
  unfold Volume.remove
  split
  case h_1 parent name _ hsplit _ =>
    rw [eq_of_splitNasPath hsplit] at hout
    exact FileTree.seen_alterDir_beside (fun children other hother =>
      (FileTree.findEntry_eraseEntry other).trans (if_neg hother)) hout v.root
  case h_2 => rfl

/-- Nothing comes to be there by a removal. -/
theorem Volume.treeAt_remove_none {gone : NasPath} (h : v.treeAt fold path = none) :
    (v.remove fold gone).treeAt fold path = none := by
  by_cases hin : gone.map fold <+: path.map fold
  · rcases eq_or_ne gone [] with rfl | hne
    · exact h
    · exact Volume.treeAt_none_below hne Volume.treeAt_remove hin
  · rw [treeAt_none_iff_seen, Volume.seen_remove hin, ← treeAt_none_iff_seen]
    exact h

theorem Bare.remove {gone : NasPath} (h : Bare fold v path) :
    Bare fold (v.remove fold gone) path :=
  fun name => Volume.treeAt_remove_none (h name)

theorem Volume.fullGone_remove (hpath : path ≠ []) (h : Bare fold v path) :
    (v.remove fold path).fullGone = v.fullGone := by
  apply Volume.goneWith_remove
  intro tree htree
  rw [bare_iff hpath, Volume.isFullAt, htree] at h
  exact h

end Below

/-! ### After a rename -/

section Renamed

variable {m : MoveEnds} {last : String} {v x : Volume} {path : NasPath}

/-- A name that was respelled, and nothing else. -/
theorem EndsAs.alike (h : EndsAs fold m last v x) (hkey : fold last = fold m.oldName) :
    Alike fold v x := by
  intro path
  rcases List.eq_nil_or_concat path with rfl | ⟨path, name, rfl⟩
  · rfl
  rw [List.concat_eq_append]
  by_cases hin : m.srcDir.map fold <+: path.map fold
  case neg => rw [Volume.content_seen, Volume.content_seen, h.outside path name hin]
  obtain ⟨first, rest, hkeys⟩ := FileTree.exists_below hin name
  have hfirst : x.treeAt fold (m.srcDir ++ [first]) = v.treeAt fold (m.srcDir ++ [first]) := by
    rw [Volume.treeAt, Volume.treeAt, h.renamed first]
    by_cases hlast : fold first = fold last
    · rw [if_pos hlast, Option.map_map, Volume.entryAt_congr (show
        (m.srcDir ++ [m.oldName]).map fold = (m.srcDir ++ [first]).map fold by
          simp [hlast, hkey])]
      rfl
    · rw [if_neg hlast, if_neg fun hold => hlast (hold.trans hkey.symm)]
  rw [Volume.treeAt_congr hkeys, Volume.treeAt_congr hkeys]
  rcases eq_or_ne rest [] with rfl | hrest
  · rw [List.append_nil, hfirst]
  · rw [Volume.treeAt_append (by simp) hrest, Volume.treeAt_append (by simp) hrest, hfirst]

/-- A source with a new name is not under the old one. -/
theorem EndsAs.treeAt_old (h : EndsAs fold m last v x) (hkey : fold last ≠ fold m.oldName) :
    x.treeAt fold m.old = none := by
  rw [Volume.treeAt_eq_none]
  exact (h.renamed m.oldName).trans (by rw [if_neg (Ne.symm hkey), if_pos rfl])

/-- Nothing comes to be there but under the new name. -/
theorem EndsAs.treeAt_none (h : EndsAs fold m last v x)
    (hout : ¬ (m.srcDir ++ [last]).map fold <+: path.map fold)
    (hnone : v.treeAt fold path = none) : x.treeAt fold path = none := by
  rcases List.eq_nil_or_concat path with rfl | ⟨path, name, rfl⟩
  · rfl
  rw [List.concat_eq_append] at hout hnone ⊢
  by_cases hin : m.srcDir.map fold <+: path.map fold
  · obtain ⟨first, rest, hkeys⟩ := FileTree.exists_below hin name
    have hother : fold first ≠ fold last := by
      intro hlast
      apply hout
      rw [hkeys]
      exact ⟨rest.map fold, by simp [hlast]⟩
    rw [Volume.treeAt_eq_none] at hnone ⊢
    refine entryAt_none_below ?_ hkeys hnone
    rw [Volume.treeAt, Volume.treeAt, h.renamed first, if_neg hother]
    split
    case isTrue => exact Or.inr rfl
    case isFalse => exact Or.inl rfl
  · rw [treeAt_none_iff_seen] at hnone ⊢
    rw [h.outside path name hin, hnone]

/-- An empty folder at the destination is not filled by the rename in place. -/
theorem EndsAs.bare_new (h : EndsAs fold m m.newName v x)
    (hcan : v.CanRename fold m.srcDir m.oldName m.newName)
    (hempty : v.treeAt fold m.new = some (.dir [])) : Bare fold x m.new := by
  have hnew : m.new ≠ [] := by simp [MoveEnds.new]
  have hbare : Bare fold v m.new := by
    rw [bare_iff hnew, Volume.isFullAt, hempty]
    rfl
  by_cases hkey : fold m.newName = fold m.oldName
  · exact (h.alike hkey).bare hbare
  intro name
  apply h.treeAt_none ?_ (hbare name)
  rw [@List.map_append _ _ fold _ [name], List.map_singleton, List.prefix_concat_iff]
  rintro (hsame | hbelow)
  · -- The source would be in the empty folder.
    rw [List.map_append] at hsame
    have hdir : m.srcDir.map fold = m.new.map fold := (List.append_inj' hsame rfl).1
    have hsource := hbare m.oldName
    rw [Volume.treeAt_congr (show (m.new ++ [m.oldName]).map fold =
      (m.srcDir ++ [m.oldName]).map fold by simp [hdir]), Volume.treeAt_eq_none] at hsource
    have hthere := hcan.1
    rw [hsource] at hthere
    cases hthere
  · -- The new name was free.
    have hfree : v.treeAt fold (m.srcDir ++ [m.newName]) = none :=
      Volume.treeAt_eq_none.mpr (hcan.2 hkey)
    rw [Volume.treeAt_none_below (by simp) hfree hbelow] at hempty
    cases hempty

end Renamed

/-! ### A move -/

section Move

variable {sc : MoveScript} {m : MoveEnds} {plan : MovePlan} {old new path : NasPath}
  {c d : Client Volume} {v w : Volume}

theorem shows_fullGone : Shows FileTree.isFull (fun op => op) Volume.fullGone where
  spared hop p v := hop p v

/-- A delete of what is bare. -/
theorem delete_fullGone (sc : RequestScript) (hpath : path ≠ [])
    (h : Bare fold c.server path) :
    (delete fold sc path c).2.server.fullGone = c.server.fullGone := by
  rcases @delete_server fold sc path c with hsame | hgone
  · rw [hsame]
  · rw [hgone, Volume.fullGone_remove hpath h]

theorem MoveEnds.new_ne_nil (m : MoveEnds) : m.new ≠ [] := by simp [MoveEnds.new]

theorem MoveEnds.old_ne_nil (m : MoveEnds) : m.old ≠ [] := by simp [MoveEnds.old]

/-- **A move takes no folder with entries**, whoever carries it out and however it
ends. -/
theorem moveTo_fullGone (fold : String → String) (sc : MoveScript) (old new : NasPath)
    (c : Client Volume) :
    (moveTo fold sc old new c).2.server.fullGone = c.server.fullGone := by
  have hfile : ∀ content : Bytes, (FileTree.file content : Tree).isFull = false := fun _ => rfl
  have hplanned := @Shows.planFirst _ fold _ _ _ sc shows_fullGone hfile rfl old new c
  unfold moveTo moveWithin
  cases hplan : planFirst fold (fun op => op) sc old new c with
  | mk planned d =>
      rw [hplan] at hplanned
      rcases planned with r | ⟨m, plan⟩
      · exact hplanned
      obtain ⟨_, hempty, _⟩ := planFirst_found hplan
      have hrenamed := @Shows.renameFirst _ fold _ _ _ m shows_fullGone sc.rename d
      dsimp only
      unfold finishMove
      cases hrename : renameFirst fold (fun op => op) sc.rename m d with
      | mk renamed d' =>
          rw [hrename] at hrenamed
          rcases renamed with e | renamed
          · exact hrenamed.trans hplanned
          dsimp only
          rw [@Shows.settleMove _ fold _ _ _ sc m shows_fullGone,
            @Shows.carryMove _ fold _ _ _ sc m shows_fullGone hfile]
          split
          case isFalse => exact hrenamed.trans hplanned
          case isTrue hreplace =>
            refine (delete_fullGone sc.delete m.new_ne_nil ?_).trans (hrenamed.trans hplanned)
            rcases renameFirst_ok hrename with ⟨_, _, rfl⟩ | ⟨_, _, hcan, hends⟩
            · rw [bare_iff m.new_ne_nil, Volume.isFullAt, hempty hreplace]
              rfl
            · exact hends.bare_new hcan (hempty hreplace)

/-- Copying the source and deleting it takes no folder with entries: there is none
under the new name, and under the old one there is none and will be none, or the
copy cannot be made. -/
structure CopyKeepsFolders (fold : String → String) (m : MoveEnds) (v : Volume) : Prop where
  dest : Bare fold v m.new
  source : FileOnWay fold v m.destDir ∨
    Bare fold v m.old ∧ ¬ m.old.map fold <+: m.destDir.map fold

theorem Alike.copyKeepsFolders (h : Alike fold v w) (hv : CopyKeepsFolders fold m v) :
    CopyKeepsFolders fold m w :=
  ⟨h.bare hv.dest, hv.source.imp h.fileOnWay fun hsource => ⟨h.bare hsource.1, hsource.2⟩⟩

/-- Where a move comes to a plan, no backend has done anything. -/
theorem planFirst_same (h : CopyKeepsFolders fold m c.server)
    (hplan : planFirst fold (fun op => op) sc m.old m.new c = (.ok (m, plan), d)) :
    d.server = c.server := by
  obtain ⟨hsource, _, hunheard⟩ := planFirst_found hplan
  rcases hunheard with hsame | hgone | ⟨hin, hthere, habsent⟩
  · exact hsame
  · rw [Volume.treeAt_eq_none] at hgone
    rw [hgone] at hsource
    cases hsource
  · exfalso
    rcases h.source with hway | ⟨_, hout⟩
    · exact hthere (Volume.treeAt_eq_none.mp hway.treeAt_none)
    · rw [MoveEnds.new, List.map_append, List.map_singleton, List.prefix_concat_iff] at hin
      have hkeys : m.old.map fold = m.new.map fold := by
        rw [hin.resolve_right hout, MoveEnds.new, List.map_append, List.map_singleton]
      rw [Volume.entryAt_congr hkeys, habsent] at hsource
      cases hsource

theorem planFirst_still (hstill : ∀ p, ((moveOp fold old new).run p c.server).2 = c.server) :
    (planFirst fold (fun op => op) sc old new c).2.server = c.server := by
  have hladder := viaBackends_quiet hstill sc.backend c.metadataBreakers
  unfold planFirst
  dsimp only
  split
  case h_1 => exact hladder
  case h_2 =>
    split
    case h_1 => exact hladder
    case h_2 m' _ =>
      obtain ⟨hquiet, _, _⟩ := @lookAtEnds_spec fold sc m' { c with
        metadataBreakers := (viaBackends (moveOp fold old new) sc.backend c.metadataBreakers
          c.server).2.1
        server := (viaBackends (moveOp fold old new) sc.backend c.metadataBreakers
          c.server).2.2 }
      split <;> exact hquiet.trans hladder

/-- A move of what is not there does nothing, and is not declined. -/
theorem moveTo_absent (sc : MoveScript) (new : NasPath) (h : c.server.treeAt fold old = none) :
    (moveTo fold sc old new c).2.server = c.server ∧
      (moveTo fold sc old new c).1 ≠ .error .notSupported := by
  have hstill : ∀ p, ((moveOp fold old new).run p c.server).2 = c.server := by
    intro p
    change (c.server.moveTo fold old new).2 = c.server
    rw [Volume.moveTo, h]
  have hserver := @planFirst_still fold sc old new c hstill
  unfold moveTo moveWithin
  cases hplan : planFirst fold (fun op => op) sc old new c with
  | mk planned d =>
      rw [hplan] at hserver
      rcases planned with r | ⟨m, plan⟩
      · exact ⟨hserver, planFirst_error hplan⟩
      · exfalso
        obtain ⟨rfl, rfl⟩ := planFirst_ends hplan
        obtain ⟨hsource, _, _⟩ := planFirst_found hplan
        rw [show d.server = c.server from hserver, Volume.treeAt_eq_none.mp h] at hsource
        cases hsource

/-- The way back finds the source as bare as it was. -/
theorem bare_back (hends : EndsAs fold m m.newName v d.server)
    (hbare : Bare fold v m.old) (hserver : c.server = d.server.remove fold m.new)
    (hthere : (rename fold sc.renameBack m.renamed m.oldName c).2.server.treeAt fold m.old ≠
      none) :
    Bare fold (rename fold sc.renameBack m.renamed m.oldName c).2.server m.old := by
  by_cases hback : c.server.CanRename fold m.srcDir m.newName m.oldName ∧
      sc.renameBack.runs c.metadataBreakers ≠ []
  · have hrenamed := (rename_server_run hback.1 hback.2).1
    change c.server.Renamed fold m.srcDir m.newName m.oldName
      (rename fold sc.renameBack m.renamed m.oldName c).2.server at hrenamed
    have hcarried : d.server.treeAt fold m.renamed = v.treeAt fold m.old := by
      rw [Volume.treeAt, Volume.treeAt, MoveEnds.renamed, hends.renamed.entryAt_new,
        Option.map_map]
      rfl
    have hrenamedBare : Bare fold c.server m.renamed := by
      rw [hserver]
      exact (hbare.of_treeAt m.old_ne_nil (by simp [MoveEnds.renamed]) hcarried).remove
    refine hrenamedBare.of_treeAt (by simp [MoveEnds.renamed]) m.old_ne_nil ?_
    rw [Volume.treeAt, Volume.treeAt, MoveEnds.old, hrenamed.entryAt_new, Option.map_map]
    rfl
  · have hsame : (rename fold sc.renameBack m.renamed m.oldName c).2.server = c.server := by
      rw [not_and_or, not_not] at hback
      rcases hback with hblocked | hruns
      · exact (rename_server_blocked hblocked).1
      · exact (rename_server_unrun hruns).1
    rw [hsame, hserver] at hthere ⊢
    have hkey : fold m.newName = fold m.oldName := by
      by_contra hdistinct
      exact hthere (Volume.treeAt_remove_none (hends.treeAt_old hdistinct))
    exact ((hends.alike hkey).bare hbare).remove

/-- An empty folder under the new name may go. -/
theorem CopyKeepsFolders.bare_old (h : CopyKeepsFolders fold m v)
    (hthere : v.treeAt fold m.new ≠ none) :
    Bare fold v m.old ∧ ¬ m.old.map fold <+: m.destDir.map fold :=
  h.source.resolve_left fun hway => hthere hway.treeAt_none

theorem CopyKeepsFolders.cleared (h : CopyKeepsFolders fold m v)
    (hthere : v.treeAt fold m.new ≠ none) : CopyKeepsFolders fold m (v.remove fold m.new) :=
  ⟨h.dest.remove, Or.inr ⟨(h.bare_old hthere).1.remove, (h.bare_old hthere).2⟩⟩

/-- A source renamed, and in the end under its old name again. -/
theorem EndsAs.copyKeepsFolders {last : String} (hends : EndsAs fold m last v w)
    (h : CopyKeepsFolders fold m v) (hthere : w.treeAt fold m.old ≠ none) :
    CopyKeepsFolders fold m w := by
  have hkey : fold last = fold m.oldName := by
    by_contra hdistinct
    exact hthere (hends.treeAt_old hdistinct)
  exact (hends.alike hkey).copyKeepsFolders h

/-- What a move is left at that could not go on after its rename. -/
theorem settled_copyKeepsFolders (h : CopyKeepsFolders fold m v)
    (hempty : plan = .replaceEmptyDir → v.treeAt fold m.new = some (.dir []))
    (hcan : v.CanRename fold m.srcDir m.oldName m.newName)
    (hends : EndsAs fold m m.newName v d.server)
    (hcleared : ClearsAway fold sc m plan d → c.server = d.server.remove fold m.new)
    (hkept : ¬ ClearsAway fold sc m plan d → c.server = d.server)
    (hthere : (rename fold sc.renameBack m.renamed m.oldName c).2.server.treeAt fold m.old ≠
      none) :
    CopyKeepsFolders fold m (rename fold sc.renameBack m.renamed m.oldName c).2.server := by
  have hundone : c.server = d.server →
      CopyKeepsFolders fold m (rename fold sc.renameBack m.renamed m.oldName c).2.server := by
    intro hsame
    rw [← hsame] at hends
    exact (EndsAs.back hcan hends).copyKeepsFolders h hthere
  by_cases hclears : ClearsAway fold sc m plan d
  case neg => exact hundone (hkept hclears)
  have hserver := hcleared hclears
  by_cases hgone : d.server.entryAt fold m.new = none
  · rw [Volume.remove_of_none (Volume.treeAt_eq_none.mpr hgone)] at hserver
    exact hundone hserver
  · have hfolder : v.treeAt fold m.new ≠ none := by
      rw [hempty hclears.1]
      exact Option.some_ne_none _
    obtain ⟨hbare, hout⟩ := h.bare_old hfolder
    refine ⟨Bare.of_none m.new_ne_nil ?_, Or.inr ⟨bare_back hends hbare hserver hthere, hout⟩⟩
    exact Volume.treeAt_eq_none.mpr (hends.cleared hgone hserver)

/-- **A move that is declined.** The source is not under its old name any more, or
copying it takes no folder with entries still. -/
theorem moveTo_declined (hsplit : MoveEnds.split old new = some m)
    (h : CopyKeepsFolders fold m c.server)
    (hmove : moveTo fold sc old new c = (.error .notSupported, d)) :
    d.server.treeAt fold m.old = none ∨ CopyKeepsFolders fold m d.server := by
  obtain ⟨rfl, rfl⟩ := MoveEnds.split_eq hsplit
  rw [or_iff_not_imp_left]
  intro hthere
  unfold moveTo moveWithin at hmove
  cases hplan : planFirst fold (fun op => op) sc m.old m.new c with
  | mk planned d₁ =>
      rw [hplan] at hmove
      rcases planned with r | ⟨m', plan⟩
      · exact (planFirst_error hplan (congrArg Prod.fst hmove)).elim
      obtain rfl : m' = m := Option.some.inj ((planFirst_ok hplan).1.symm.trans hsplit)
      obtain ⟨_, hempty, _⟩ := planFirst_found hplan
      rw [← planFirst_same h hplan] at h
      dsimp only [finishMove] at hmove
      cases hrename : renameFirst fold (fun op => op) sc.rename m' d₁ with
      | mk renamed d₂ =>
          rw [hrename] at hmove
          rcases renamed with e | renamed
          · obtain rfl : d₂ = d := congrArg Prod.snd hmove
            obtain ⟨htakes, hnot⟩ := renameFirst_error hrename
            by_cases hran : TakesName fold sc m' d₁
            · exact (htakes hran).copyKeepsFolders h hthere
            · rw [hnot hran]
              exact h
          dsimp only at hmove
          cases hcarry : carryMove fold (fun op => op) sc m' plan (renamed.getD m'.old) d₂ with
          | mk outcome d₃ =>
              rw [hcarry] at hmove
              rcases outcome with ⟨e, _ | _⟩ | u
              case ok => cases hmove
              case error.false =>
                have hfst := congrArg Prod.fst hmove
                exact (carryMove_ran hcarry (by simpa [settleMove] using hfst)).elim
              case error.true =>
                obtain ⟨hcleared, hkept⟩ := carryMove_idle hcarry
                rcases renameFirst_ok hrename with ⟨_, rfl, rfl⟩ | ⟨_, rfl, hcan, hends⟩
                · obtain rfl : d₃ = d := congrArg Prod.snd hmove
                  by_cases hclears : ClearsAway fold sc m' plan d₂
                  · rw [hcleared hclears]
                    refine h.cleared ?_
                    rw [hempty hclears.1]
                    exact Option.some_ne_none _
                  · rw [hkept hclears]
                    exact h
                · have hback : (rename fold sc.renameBack m'.renamed m'.oldName d₃).2 = d :=
                    congrArg Prod.snd hmove
                  rw [← hback] at hthere ⊢
                  exact settled_copyKeepsFolders h hempty hcan hends hcleared hkept hthere

end Move

/-! ### An upload -/

section Upload

variable {limits : TransferLimits} {folder dir path old : NasPath} {name filename : String}
  {data content : Bytes} {c : Client Volume} {v : Volume} {gone : List Removal}

theorem Volume.treeAt_below_file (hfile : v.treeAt fold dir = some (.file content))
    (hin : dir.map fold <+: path.map fold) (hne : path.map fold ≠ dir.map fold) :
    v.treeAt fold path = none := by
  rcases List.eq_nil_or_concat path with rfl | ⟨path, last, rfl⟩
  · rfl
  rw [List.concat_eq_append] at hin hne ⊢
  rw [List.map_append, List.map_singleton] at hin hne
  refine FileOnWay.treeAt_none ⟨dir, content, ?_, hfile⟩
  exact (List.prefix_concat_iff.mp hin).resolve_left fun heq => hne heq.symm

/-- A write is seen where the file is. -/
theorem Volume.seen_write (hin : ¬ (dir ++ [name]).map fold <+: path.map fold) :
    (v.write fold (dir ++ [name]) data).2.root.seen fold path = v.root.seen fold path := by
  have hbeside : (v.setFile fold (dir ++ [name]) data).root.seen fold path =
      v.root.seen fold path := by
    rw [Volume.setFile, splitNasPath_concat]
    exact FileTree.seen_alterDir_beside (fun children other hother =>
      FileTree.findEntry_putEntry_of_ne hother children _) hin v.root
  unfold Volume.write
  rw [splitNasPath_concat]
  split
  case h_1 => rfl
  case h_2 =>
    split
    case h_1 => rfl
    case h_2 => rfl
    case h_3 => exact hbeside
    case h_4 => exact hbeside

/-- A write makes or replaces one file. -/
theorem Volume.treeAt_write_none (hne : path.map fold ≠ (dir ++ [name]).map fold)
    (h : v.treeAt fold path = none) :
    (v.write fold (dir ++ [name]) data).2.treeAt fold path = none := by
  cases hwrite : (v.write fold (dir ++ [name]) data).1 with
  | error e =>
      have hsame : (v.write fold (dir ++ [name]) data).2 = v := by
        revert hwrite
        unfold Volume.write
        split
        case h_1 =>
          intro _
          rfl
        case h_2 => split <;> rintro ⟨⟩ <;> rfl
      rw [hsame, h]
  | ok u =>
      by_cases hin : (dir ++ [name]).map fold <+: path.map fold
      · exact Volume.treeAt_below_file (Volume.write_ok hwrite) hin hne
      · rw [treeAt_none_iff_seen] at h ⊢
        rw [Volume.seen_write hin, h]

/-- An upload is seen where the file is, and on the way there. -/
theorem Volume.seen_store (hin : ¬ (dir ++ [name]).map fold <+: path.map fold)
    (hout : ¬ path.map fold <+: dir.map fold) :
    (v.store fold (dir ++ [name]) data).2.root.seen fold path = v.root.seen fold path := by
  rw [Volume.store, splitNasPath_concat]
  dsimp only
  split
  case h_1 => rfl
  case h_2 =>
    split
    case isTrue => rfl
    case isFalse =>
      exact (FileTree.seen_alterDir_beside (fun children other hother =>
        FileTree.findEntry_append_of_ne hother children _) hin _).trans
          (FileTree.seen_ensureDir hout v.root)

/-- An upload makes one file, and the folders it is in. -/
theorem Volume.treeAt_store_none (hne : path.map fold ≠ (dir ++ [name]).map fold)
    (hout : ¬ path.map fold <+: dir.map fold) (h : v.treeAt fold path = none) :
    (v.store fold (dir ++ [name]) data).2.treeAt fold path = none := by
  cases hstore : (v.store fold (dir ++ [name]) data).1 with
  | error e => rw [Volume.store_error hstore, h]
  | ok u =>
      by_cases hin : (dir ++ [name]).map fold <+: path.map fold
      · exact Volume.treeAt_below_file (Volume.store_ok hstore).2.1 hin hne
      · rw [treeAt_none_iff_seen] at h ⊢
        exact (Volume.seen_store hin hout).trans h

/-- Nothing full has gone, and nothing is in either of two folders. -/
structure KeepsBare (fold : String → String) (gone : List Removal) (new old : NasPath)
    (v : Volume) : Prop where
  gone : v.fullGone = gone
  new : Bare fold v new
  old : Bare fold v old

theorem Bare.of_file (hpath : path ≠ []) (h : v.treeAt fold path = some (.file content)) :
    Bare fold v path := by
  rw [bare_iff hpath, Volume.isFullAt, h]
  rfl

theorem KeepsBare.remove (h : KeepsBare fold gone (dir ++ [name]) old v) :
    KeepsBare fold gone (dir ++ [name]) old (v.remove fold (dir ++ [name])) :=
  ⟨(Volume.fullGone_remove (by simp) h.new).trans h.gone, h.new.remove, h.old.remove⟩

section Outside

variable (hout : ¬ old.map fold <+: dir.map fold)

include hout

/-- What is in a folder is not what is stored, nor what the stored file is in. -/
theorem below_ne_stored (below : String) :
    (old ++ [below]).map fold ≠ (dir ++ [name]).map fold ∧
      ¬ (old ++ [below]).map fold <+: dir.map fold := by
  constructor
  · intro heq
    rw [List.map_append, List.map_append] at heq
    exact hout ((List.append_inj' heq rfl).1 ▸ List.prefix_rfl)
  · intro hprefix
    apply hout
    refine List.IsPrefix.trans ?_ hprefix
    rw [List.map_append]
    exact List.prefix_append _ _

theorem KeepsBare.write (h : KeepsBare fold gone (dir ++ [name]) old v) :
    KeepsBare fold gone (dir ++ [name]) old (v.write fold (dir ++ [name]) data).2 := by
  refine ⟨Eq.trans ?_ h.gone, ?_, fun below => ?_⟩
  · exact gentle_write (fun _ => rfl) .backend v
  · rcases Volume.treeAt_write fold v (dir ++ [name]) data with hsame | hfile
    · exact h.new.of_treeAt (by simp) (by simp) hsame
    · exact Bare.of_file (by simp) hfile
  · exact Volume.treeAt_write_none (below_ne_stored hout below).1 (h.old below)

theorem KeepsBare.store (h : KeepsBare fold gone (dir ++ [name]) old v) :
    KeepsBare fold gone (dir ++ [name]) old (v.store fold (dir ++ [name]) data).2 := by
  cases hstore : (v.store fold (dir ++ [name]) data).1 with
  | error e =>
      rw [Volume.store_error hstore]
      exact h
  | ok u =>
      obtain ⟨_, hfile, hremovals⟩ := Volume.store_ok hstore
      refine ⟨Eq.trans ?_ h.gone, Bare.of_file (by simp) hfile, fun below => ?_⟩
      · rw [Volume.fullGone, Volume.goneWith, hremovals]
        rfl
      · obtain ⟨hne, hoff⟩ := @below_ne_stored fold dir old name hout below
        exact Volume.treeAt_store_none hne hoff (h.old below)

end Outside

theorem KeepsBare.clear (sc : ClearScript)
    (h : KeepsBare fold gone (joinPath folder filename) old c.server) :
    KeepsBare fold gone (joinPath folder filename) old
      (clearForOverwrite fold sc folder filename c).server := by
  rcases clearForOverwrite_server sc with hsame | hgone
  · rw [hsame]
    exact h
  · rw [hgone]
    exact h.remove

/-- Every attempt clears the name and stores the file. -/
theorem KeepsBare.httpUpload (hout : ¬ old.map fold <+: (trimEnd folder).map fold)
    (sc : ℕ → AttemptScript) (lastErr : SynoFsError) (attempt left : ℕ) {c : Client Volume}
    (h : KeepsBare fold gone (joinPath folder filename) old c.server) :
    KeepsBare fold gone (joinPath folder filename) old
      (httpUploadFrom fold sc folder filename data true lastErr attempt left c).2.server :=
  httpUploadFrom_rule true (fun sc _ hc => KeepsBare.clear sc hc)
    (fun _ hv => KeepsBare.store hout hv) sc lastErr attempt left h

theorem KeepsBare.upload (hout : ¬ old.map fold <+: (trimEnd folder).map fold)
    (sc : UploadScript) (h : KeepsBare fold gone (joinPath folder filename) old c.server) :
    KeepsBare fold gone (joinPath folder filename) old
      (upload fold limits sc folder filename data true c).2.server := by
  have hladder := viaBackends_rule (writeOp fold (joinPath folder filename) data)
    (P := KeepsBare fold gone (joinPath folder filename) old)
    (fun _ _ hv => KeepsBare.write hout hv) sc.backend c.writeBreakers h
  rw [Core.upload, if_pos rfl]
  dsimp only
  split
  case h_1 => exact hladder
  case h_2 => exact KeepsBare.httpUpload hout sc.http _ 0 limits.maxAttempts hladder

/-! A file where the folder should be keeps every upload out. -/

section Blocked

variable (hway : FileOnWay fold v dir)

include hway

theorem write_blocked (data : Bytes) :
    ∃ e, v.write fold (dir ++ [name]) data = (.error e, v) := by
  obtain ⟨front, content, hfront, hfile⟩ := hway
  have hnone : v.root.dirAt fold dir = none := by
    rw [← Option.not_isSome_iff_eq_none]
    intro hsome
    rcases eq_or_ne dir [] with rfl | hne
    · obtain rfl : front = [] := List.map_eq_nil_iff.mp (List.prefix_nil.mp hfront)
      cases hfile
    obtain ⟨spelled, hseen⟩ := (FileTree.dirAt_isSome hne).mp hsome
    have hcontent := @Volume.content_seen fold v dir
    rw [hseen] at hcontent
    by_cases hkeys : dir.map fold = front.map fold
    · rw [Volume.treeAt_congr hkeys, hfile] at hcontent
      cases hcontent
    · rw [Volume.treeAt_below_file hfile hfront hkeys] at hcontent
      cases hcontent
  exact ⟨.notFound, by simp only [Volume.write, splitNasPath_concat, hnone]⟩

theorem store_blocked (data : Bytes) :
    ∃ e, v.store fold (dir ++ [name]) data = (.error e, v) := by
  obtain ⟨front, content, hfront, hfile⟩ := hway
  have hnone : (v.root.ensureDir fold dir).dirAt fold dir = none := by
    obtain ⟨⟨spelled, tree⟩, hentry, rfl⟩ := Option.map_eq_some_iff.mp hfile
    rw [Volume.entryAt_eq_entryIn] at hentry
    exact (FileTree.dirAt_ensureDir_eq_none dir v.root).mpr
      (Or.inr ⟨front, spelled, content, hfront, hentry⟩)
  exact ⟨.apiError 1100, by simp only [Volume.store, splitNasPath_concat, hnone]⟩

end Blocked

theorem httpUpload_blocked (hway : FileOnWay fold v (trimEnd folder)) (sc : ℕ → AttemptScript)
    {lastErr : SynoFsError} (attempt left : ℕ) {c : Client Volume} (hc : c.server = v) :
    (httpUploadFrom fold sc folder filename data true lastErr attempt left c).2.server = v ∧
      (httpUploadFrom fold sc folder filename data true lastErr attempt left c).1 ≠ .ok () := by
  induction left generalizing attempt lastErr c with
  | zero => exact ⟨hc, by rintro ⟨⟩⟩
  | succ left ih =>
      have hnone : v.treeAt fold (joinPath folder filename) = none := hway.treeAt_none
      have hclear : (clearForOverwrite fold (sc attempt).clear folder filename c).server = v := by
        rcases clearForOverwrite_server (sc attempt).clear with hsame | hgone
        · rw [hsame, hc]
        · rw [hgone, hc, Volume.remove_of_none hnone]
      obtain ⟨e, hstore⟩ : ∃ e, v.store fold (joinPath folder filename) data = (.error e, v) :=
        store_blocked hway data
      rw [httpUploadFrom]
      simp only [if_true, hclear, hstore]
      cases (sc attempt).post with
      | answered => exact ⟨rfl, by rintro ⟨⟩⟩
      | refused code => exact ⟨hclear, by rintro ⟨⟩⟩
      | lost ran message =>
          apply ih
          cases ran with
          | false => exact hclear
          | true => rfl
      | garbled ran message =>
          cases ran with
          | false => exact ⟨hclear, by rintro ⟨⟩⟩
          | true => exact ⟨rfl, by rintro ⟨⟩⟩

theorem upload_blocked (hway : FileOnWay fold c.server (trimEnd folder)) (sc : UploadScript) :
    (upload fold limits sc folder filename data true c).2.server = c.server ∧
      (upload fold limits sc folder filename data true c).1 ≠ .ok () := by
  obtain ⟨e, hwrite⟩ : ∃ e, c.server.write fold (joinPath folder filename) data =
    (.error e, c.server) := write_blocked hway data
  have hstill : ∀ p, ((writeOp fold (joinPath folder filename) data).run p c.server).2 =
      c.server := fun _ => congrArg Prod.snd hwrite
  have hladder := viaBackends_quiet hstill sc.backend c.writeBreakers
  rw [Core.upload, if_pos rfl]
  dsimp only
  split
  case h_1 r hr =>
    refine ⟨hladder, ?_⟩
    rintro rfl
    obtain ⟨p, hrun⟩ := viaBackends_ok hstill hr
    cases hrun.symm.trans (congrArg Prod.fst hwrite)
  case h_2 => exact httpUpload_blocked hway sc.http 0 limits.maxAttempts hladder

end Upload

/-! ### What a delete over HTTP takes -/

section Taken

variable {v : Volume} {path below dir old : NasPath} {name : String} {data : Bytes} {tree : Tree}

theorem Volume.removals_remove (h : v.treeAt fold path = some tree) :
    (v.remove fold path).removals = v.removals ++ [⟨path, tree⟩] := by
  cases hsplit : splitNasPath path with
  | none => simp [Volume.treeAt, Volume.entryAt, hsplit] at h
  | some split =>
      obtain ⟨parent, name⟩ := split
      rw [eq_of_splitNasPath hsplit] at h ⊢
      rw [Volume.remove_of_some h]

theorem Volume.fullGone_remove_full (h : v.isFullAt fold path = true) :
    (v.remove fold path).fullGone ≠ v.fullGone := by
  unfold Volume.isFullAt at h
  split at h
  case h_1 tree htree =>
    rw [Volume.fullGone, Volume.goneWith, Volume.removals_remove htree, List.filter_append]
    simp [Volume.fullGone, Volume.goneWith, h]
  case h_2 => cases h

/-- Something in a folder makes it full. -/
theorem Volume.isFullAt_of_below (hpath : path ≠ []) (hin : path.map fold <+: below.map fold)
    (hne : below.map fold ≠ path.map fold) (hthere : v.treeAt fold below ≠ none) :
    v.isFullAt fold path = true := by
  by_contra hnot
  have hbare : Bare fold v path := (bare_iff hpath).mpr (by simpa using hnot)
  rcases List.eq_nil_or_concat below with rfl | ⟨parent, last, rfl⟩
  · exact hthere rfl
  rw [List.concat_eq_append] at hin hne hthere
  rw [List.map_append, List.map_singleton] at hin hne
  have hparent := (List.prefix_concat_iff.mp hin).resolve_left fun heq => hne heq.symm
  obtain ⟨first, rest, hkeys⟩ := FileTree.exists_below hparent last
  apply hthere
  rw [Volume.treeAt_congr hkeys]
  exact Volume.treeAt_none_below (by simp) (hbare first) (by
    rw [@List.map_append _ _ fold _ rest]
    exact List.prefix_append _ _)

theorem Volume.exists_below (hpath : path ≠ []) (h : v.isFullAt fold path = true) :
    ∃ name, v.treeAt fold (path ++ [name]) ≠ none := by
  by_contra hnone
  push Not at hnone
  have hempty := (bare_iff hpath).mp hnone
  rw [h] at hempty
  cases hempty

theorem Volume.content_root (h : v.treeAt fold path ≠ none) : v.root.content = none := by
  cases hroot : v.root with
  | dir children => rfl
  | file content =>
      rw [Ne, Volume.treeAt_eq_none, Volume.entryAt_eq_entryIn, hroot] at h
      exact (h (FileTree.entryIn_file path content)).elim

theorem Volume.content_remove : (v.remove fold path).root.content = v.root.content := by
  unfold Volume.remove
  split
  case h_1 => exact FileTree.content_alterDir _ _ _
  case h_2 => rfl

/-- What is in a folder is not on the way to it. -/
theorem concat_not_front (name : String) {front : NasPath}
    (hfront : front.map fold <+: dir.map fold) :
    ¬ (dir ++ [name]).map fold <+: front.map fold := by
  intro hin
  have hlength := (hin.trans hfront).length_le
  rw [List.length_map, List.length_map, List.length_append, List.length_singleton] at hlength
  exact Nat.not_succ_le_self _ hlength

/-- On a cleared name the file can be stored, unless a file is in the way. -/
theorem Volume.store_cleared (hroot : v.root.content = none) (hway : ¬ FileOnWay fold v dir) :
    ((v.remove fold (dir ++ [name])).store fold (dir ++ [name]) data).1 = .ok () := by
  have hfree : (v.remove fold (dir ++ [name])).treeAt fold (dir ++ [name]) = none :=
    Volume.treeAt_remove
  simp only [Volume.store, splitNasPath_concat]
  split
  case h_1 hnone =>
    exfalso
    rcases (FileTree.dirAt_ensureDir_eq_none dir _).mp hnone with
      ⟨content, hfile⟩ | ⟨front, spelled, content, hfront, hfile⟩
    · rw [← Volume.content_remove, hfile] at hroot
      cases hroot
    · have hseen := Volume.seen_remove (v := v) (concat_not_front name hfront)
      rw [FileTree.seen, hfile, FileTree.seen] at hseen
      obtain ⟨⟨spelled', tree⟩, hentry, heq⟩ := Option.map_eq_some_iff.mp hseen.symm
      obtain ⟨rfl, hcontent⟩ := Prod.mk.inj heq
      cases tree with
      | dir children => cases hcontent
      | file content' =>
          refine hway ⟨front, content', hfront, ?_⟩
          rw [Volume.treeAt, Volume.entryAt_eq_entryIn, hentry]
          rfl
  case h_2 children hdir =>
    rw [Volume.findEntry_of_free hfree hdir]
    rfl

/-- After a copy the source has entries that had some, or is a folder of the copy. -/
theorem Volume.isFullAt_stored (hold : old ≠ []) (hthere : v.treeAt fold old ≠ none)
    (hnew : v.isFullAt fold (dir ++ [name]) = false)
    (hsource : v.isFullAt fold old = true ∨ old.map fold <+: dir.map fold)
    (hstore : ((v.remove fold (dir ++ [name])).store fold (dir ++ [name]) data).1 = .ok ()) :
    ((v.remove fold (dir ++ [name])).store fold (dir ++ [name]) data).2.isFullAt fold old =
      true := by
  by_cases hin : old.map fold <+: dir.map fold
  · refine @Volume.isFullAt_of_below fold _ old (dir ++ [name]) hold ?_ ?_ ?_
    · rw [List.map_append]
      exact hin.trans (List.prefix_append _ _)
    · exact fun heq => concat_not_front name hin (heq ▸ List.prefix_rfl)
    · rw [(Volume.store_ok hstore).2.1]
      exact Option.some_ne_none _
  · obtain ⟨entry, hentry⟩ := Volume.exists_below hold (hsource.resolve_right hin)
    have hinto : ¬ (dir ++ [name]).map fold <+: (old ++ [entry]).map fold := by
      intro hbelow
      rw [@List.map_append _ _ fold _ [entry], List.map_singleton, List.prefix_concat_iff] at hbelow
      rcases hbelow with hsame | hbelow
      · rw [List.map_append, List.map_singleton] at hsame
        exact hin ((List.append_inj' hsame rfl).1 ▸ List.prefix_rfl)
      · by_cases hsame : old.map fold = (dir ++ [name]).map fold
        · rw [Volume.isFullAt, ← Volume.treeAt_congr hsame, ← Volume.isFullAt,
            hsource.resolve_right hin] at hnew
          cases hnew
        · rw [Volume.isFullAt_of_below (by simp) hbelow hsame hthere] at hnew
          cases hnew
    have hoff : ¬ (old ++ [entry]).map fold <+: dir.map fold := by
      intro hbelow
      apply hin
      refine List.IsPrefix.trans ?_ hbelow
      rw [List.map_append]
      exact List.prefix_append _ _
    refine @Volume.isFullAt_of_below fold _ old (old ++ [entry]) hold ?_ ?_ ?_
    · rw [List.map_append]
      exact List.prefix_append _ _
    · simp
    · rw [Ne, treeAt_none_iff_seen, Volume.seen_store hinto hoff, Volume.seen_remove hinto,
        ← treeAt_none_iff_seen]
      exact hentry

end Taken

end SynologyFilestation.Core
