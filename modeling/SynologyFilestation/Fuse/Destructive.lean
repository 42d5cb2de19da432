import SynologyFilestation.Core.FullFolders
import SynologyFilestation.Fuse.RenameInPlace

/-!
What the kernel expects of the calls that take something away: `rmdir` takes an
empty directory, `rename` replaces nothing but a file or an empty directory, and
nothing at all if it is told so. The callbacks leave both to the server. A metadata
backend removes "a file or an empty directory" (`MetadataTransport::delete`);
FileStation is told to recurse, and the flags of a rename are not looked at.
-/

namespace SynologyFilestation.Fuse

open Core Library

/-- A call of the kernel that may take something away. -/
inductive DestructiveCall
  | unlink (parent : ℕ) (name : FileName)
  | rmdir (parent : ℕ) (name : FileName)
  | rename (parent : ℕ) (name : FileName) (newParent : ℕ) (newName : FileName)
      (flags : RenameFlags)

/-- What becomes of the requests of one call, and what the mount last saw to be a
directory. -/
structure DestructiveScript where
  remove : RequestScript
  rename : RenameScript
  isDir : NasPath → Option Bool

section Calls

variable (fold : String → String) (archive : Tree → Core.Bytes) (limits : TransferLimits)
  (paths : ℕ → Option NasPath)

/-- The callback, where `paths` are the paths of the inodes. -/
def DestructiveCall.run (sc : DestructiveScript) (c : Client Volume) :
    DestructiveCall → Except Errno Unit × Client Volume
  | .unlink parent name => Fuse.unlink fold ⟨paths, sc.isDir⟩ sc.remove parent name c
  | .rmdir parent name => Fuse.rmdir fold ⟨paths, sc.isDir⟩ sc.remove parent name c
  | .rename parent name newParent newName flags =>
      Fuse.rename fold archive limits ⟨paths, sc.isDir⟩ sc.rename parent name newParent newName
        flags c

/-- Where a rename goes that must not replace. -/
def DestructiveCall.mustKeep : DestructiveCall → Option NasPath
  | .rename _ _ newParent newName flags =>
      if flags.noreplace then (paths newParent).map fun dir => joinPath dir newName.text
      else none
  | _ => none

/-- The removals of one name. -/
def goneAt (path : NasPath) (v : Volume) : List Removal :=
  v.removals.filter fun r => r.path.map fold = path.map fold

/-- What the kernel expects: no directory that has entries is removed, and nothing
where a rename must not replace what is there. -/
structure KeepsContract (mustKeep : Option NasPath) (before after : Volume) : Prop where
  full : after.fullGone = before.fullGone
  kept : ∀ path, mustKeep = some path → before.treeAt fold path ≠ none →
    goneAt fold path after = goneAt fold path before

/-! ### When nothing is at risk -/

/-- A rename may take what is under the path. -/
def Replaceable (flags : RenameFlags) (v : Volume) (path : NasPath) : Prop :=
  v.isFullAt fold path = false ∧ (flags.noreplace = true → v.treeAt fold path = none)

/-- A rename within a directory: the new name may be taken, if it is not the old
one. -/
def InPlaceSafe (flags : RenameFlags) (v : Volume) (old new : NasPath) : Prop :=
  old = new ∨ Replaceable fold flags v new

/-- A rename to another directory, which may come to copying: there is nothing to
rename, or the new name may be taken, and there is nothing in the source, before
the copy or after it, unless the copy cannot be made. -/
def AcrossSafe (flags : RenameFlags) (v : Volume) (old newDir : NasPath) (newName : String) :
    Prop :=
  v.treeAt fold old = none ∨ Replaceable fold flags v (newDir ++ [newName]) ∧
    (FileOnWay fold v newDir ∨
      v.isFullAt fold old = false ∧ ¬ old.map fold <+: newDir.map fold)

/-- The call finds nothing that it could take against what the kernel expects. -/
def NothingAtRisk (v : Volume) : DestructiveCall → Prop
  | .unlink parent name | .rmdir parent name => ∀ dir, paths parent = some dir →
      v.isFullAt fold (joinPath dir name.text) = false
  | .rename parent name newParent newName flags => ∀ dir newDir, paths parent = some dir →
      paths newParent = some newDir →
        if parent = newParent then
          InPlaceSafe fold flags v (joinPath dir name.text) (joinPath newDir newName.text)
        else AcrossSafe fold flags v (joinPath dir name.text) (trimEnd newDir) newName.text

/-! ### What one script does -/

/-- All is done in one directory, by at most one delete. -/
def DestructiveCall.InOneDirectory : DestructiveCall → Prop
  | .rename parent _ newParent _ _ => parent = newParent
  | _ => True

/-- Of the parties that carry a delete out, FileStation does not find a directory
with entries, and if the name is to be kept none finds anything that it takes. -/
def DeleteSpares (keep : Bool) (log : List Party) (v : Volume) (path : NasPath) : Prop :=
  (.http ∈ log → v.isFullAt fold path = false) ∧
    (keep = true → ∀ p ∈ log, v.yields fold path p = false)

/-- The delete of a call within one directory spares what it has to. -/
def SparedBy (sc : DestructiveScript) (c : Client Volume) : DestructiveCall → Prop
  | .unlink parent name | .rmdir parent name => ∀ dir, paths parent = some dir →
      DeleteSpares fold false (sc.remove.runs c.metadataBreakers) c.server
        (joinPath dir name.text)
  | .rename parent name newParent newName flags => ∀ dir newDir, paths parent = some dir →
      paths newParent = some newDir →
        joinPath dir name.text = joinPath newDir newName.text ∨
          DeleteSpares fold flags.noreplace
            (sc.rename.inPlace.delete.runs c.metadataBreakers) c.server
            (joinPath newDir newName.text)

end Calls

/-! ### One delete -/

section OneDirectory

variable {fold : String → String} {archive : Tree → Core.Bytes} {limits : TransferLimits}
  {c : Client Volume} {v w : Volume} {path old new : NasPath} {newName : String}
  {mustKeep : Option NasPath} {flags : RenameFlags} {call : DestructiveCall}
  {paths : ℕ → Option NasPath}

theorem KeepsContract.refl (v : Volume) : KeepsContract fold mustKeep v v :=
  ⟨rfl, fun _ _ _ => rfl⟩

/-- The contract is about what was removed. -/
theorem KeepsContract.congr {x : Volume}
    (hremovals : x.removals = w.removals) :
    KeepsContract fold mustKeep v x ↔ KeepsContract fold mustKeep v w := by
  have hfull : x.fullGone = w.fullGone := congrArg (List.filter _) hremovals
  have hgone : ∀ path, goneAt fold path x = goneAt fold path w :=
    fun path => congrArg (List.filter _) hremovals
  constructor
  · exact fun h => ⟨hfull.symm.trans h.full, fun path hpath hthere =>
      (hgone path).symm.trans (h.kept path hpath hthere)⟩
  · exact fun h => ⟨hfull.trans h.full, fun path hpath hthere =>
      (hgone path).trans (h.kept path hpath hthere)⟩

theorem not_keeps_of_full (h : v.isFullAt fold path = true) :
    ¬ KeepsContract fold mustKeep v (v.remove fold path) :=
  fun hkeeps => Volume.fullGone_remove_full h hkeeps.full

theorem goneAt_remove (h : v.treeAt fold path ≠ none) :
    goneAt fold path (v.remove fold path) ≠ goneAt fold path v := by
  obtain ⟨tree, htree⟩ := Option.ne_none_iff_exists'.mp h
  rw [goneAt, Volume.removals_remove htree, List.filter_append]
  simp [goneAt]

theorem yields_of_full (h : v.isFullAt fold path = true) (p : Party) :
    v.yields fold path p = true ↔ p = .http := by
  unfold Volume.isFullAt at h
  unfold Volume.yields
  cases htree : v.treeAt fold path with
  | none =>
      rw [htree] at h
      cases h
  | some tree =>
      rw [htree] at h
      simp [show tree.isFull = true from h]

/-- **One delete.** -/
theorem keeps_delete_iff (hpath : path ≠ []) (keep : Bool) (log : List Party) :
    KeepsContract fold (if keep then some path else none) v
        (if ∃ p ∈ log, v.yields fold path p then v.remove fold path else v) ↔
      DeleteSpares fold keep log v path := by
  by_cases htaken : ∃ p ∈ log, v.yields fold path p
  · rw [if_pos htaken]
    obtain ⟨p, hp, hyields⟩ := htaken
    by_cases hfull : v.isFullAt fold path = true
    · obtain rfl := (yields_of_full hfull p).mp hyields
      refine iff_of_false (not_keeps_of_full hfull) fun hspares => ?_
      rw [hspares.1 hp] at hfull
      cases hfull
    · have hempty : v.isFullAt fold path = false := by simpa using hfull
      have hthere : v.treeAt fold path ≠ none := by
        intro hnone
        rw [Volume.yields, hnone] at hyields
        cases hyields
      cases keep with
      | true =>
          refine iff_of_false (fun hkeeps => ?_) fun hspares => ?_
          · exact goneAt_remove hthere (hkeeps.kept path rfl hthere)
          · rw [hspares.2 rfl p hp] at hyields
            cases hyields
      | false =>
          refine iff_of_true ⟨?_, by rintro _ ⟨⟩⟩ ⟨fun _ => hempty, by rintro ⟨⟩⟩
          exact Volume.fullGone_remove hpath ((bare_iff hpath).mpr hempty)
  · rw [if_neg htaken]
    refine iff_of_true (KeepsContract.refl v) ⟨fun hhttp => ?_, fun _ p hp => ?_⟩
    · by_contra hfull
      exact htaken ⟨.http, hhttp, (yields_of_full (by simpa using hfull) .http).mpr rfl⟩
    · by_contra hyields
      exact htaken ⟨p, hp, by simpa using hyields⟩

/-! ### The calls within one directory -/

theorem joinPath_ne_nil (folder : NasPath) (name : String) : joinPath folder name ≠ [] := by
  simp [joinPath]

theorem rename_removals (sc : RequestScript) (c : Client Volume) :
    (Core.rename fold sc old newName c).2.server.removals = c.server.removals := by
  refine request_rule (renameOp fold old newName) (P := fun v => v.removals = c.server.removals)
    (fun p v hv => Eq.trans ?_ hv) sc rfl
  change (v.rename fold p old newName).2.removals = v.removals
  unfold Volume.rename
  split
  case h_1 => split <;> rfl
  case h_2 => rfl

theorem removeNamed_keeps_iff (inodes : InodeCache) (sc : RequestScript) (parent : ℕ)
    (name : FileName) :
    KeepsContract fold none c.server (removeNamed fold inodes sc parent name c).2.server ↔
      ∀ dir, inodes.pathForIno parent = some dir →
        DeleteSpares fold false (sc.runs c.metadataBreakers) c.server
          (joinPath dir name.text) := by
  unfold removeNamed
  split
  case h_1 dir hdir =>
    change KeepsContract fold none c.server (delete fold sc (joinPath dir name.text) c).2.server ↔ _
    rw [delete_server_runs, hdir]
    refine (keeps_delete_iff (joinPath_ne_nil _ _) false _).trans ⟨?_, fun h => h dir rfl⟩
    rintro h _ ⟨⟩
    exact h
  case h_2 hnone =>
    refine iff_of_true (KeepsContract.refl _) fun dir hdir => ?_
    rw [hnone] at hdir
    cases hdir

theorem renameInPlace_keeps_iff (sc : InPlaceScript) (hnew : new ≠ []) (keep : Bool) :
    KeepsContract fold (if keep then some new else none) c.server
        (renameInPlace fold sc old new newName c).2.server ↔
      old = new ∨ DeleteSpares fold keep (sc.delete.runs c.metadataBreakers) c.server new := by
  unfold renameInPlace
  dsimp only
  rw [KeepsContract.congr (rename_removals sc.rename _)]
  by_cases hsame : old = new
  · rw [if_pos hsame]
    exact iff_of_true (KeepsContract.refl _) (Or.inl hsame)
  · rw [if_neg hsame, delete_server_runs]
    exact (keeps_delete_iff hnew keep _).trans (or_iff_right hsame).symm

/-- Within one directory, a call keeps the contract if its delete spares what it
has to. -/
theorem keeps_iff_sparedBy (hone : call.InOneDirectory) (sc : DestructiveScript) :
    KeepsContract fold (call.mustKeep paths) c.server
        (call.run fold archive limits paths sc c).2.server ↔
      SparedBy fold paths sc c call := by
  cases call with
  | unlink parent name => exact removeNamed_keeps_iff ⟨paths, sc.isDir⟩ sc.remove parent name
  | rmdir parent name => exact removeNamed_keeps_iff ⟨paths, sc.isDir⟩ sc.remove parent name
  | rename parent name newParent newName flags =>
      obtain rfl : parent = newParent := hone
      cases hdir : paths parent with
      | none =>
          simp only [DestructiveCall.run, Fuse.rename, hdir]
          refine iff_of_true (KeepsContract.refl _) fun dir _ hdir' => ?_
          rw [hdir] at hdir'
          cases hdir'
      | some dir =>
          simp only [DestructiveCall.run, Fuse.rename, hdir, if_true, DestructiveCall.mustKeep,
            Option.map_some, SparedBy]
          refine (renameInPlace_keeps_iff sc.rename.inPlace (joinPath_ne_nil _ _)
            flags.noreplace).trans ⟨?_, fun h => h dir dir rfl rfl⟩
          rintro h _ _ ⟨⟩ ⟨⟩
          exact h

theorem Replaceable.deleteSpares (h : Replaceable fold flags v path) (log : List Party) :
    DeleteSpares fold flags.noreplace log v path := by
  refine ⟨fun _ => h.1, fun hnoreplace p _ => ?_⟩
  rw [Volume.yields, h.2 hnoreplace]

theorem NothingAtRisk.sparedBy (hone : call.InOneDirectory)
    (h : NothingAtRisk fold paths c.server call) (sc : DestructiveScript) :
    SparedBy fold paths sc c call := by
  cases call with
  | unlink parent name => exact fun dir hdir => ⟨fun _ => h dir hdir, nofun⟩
  | rmdir parent name => exact fun dir hdir => ⟨fun _ => h dir hdir, nofun⟩
  | rename parent name newParent newName flags =>
      intro dir newDir hdir hnewDir
      have hsafe := h dir newDir hdir hnewDir
      rw [if_pos (show parent = newParent from hone)] at hsafe
      exact hsafe.imp_right fun hreplaceable => hreplaceable.deleteSpares _

end OneDirectory

/-! ### A rename that comes to copying -/

section Safe

variable {fold : String → String} {archive : Tree → Core.Bytes} {limits : TransferLimits}
  {c : Client Volume} {old new path newParent : NasPath} {flags : RenameFlags}
  {name newName : String}

/-- A rename that may replace, or has nothing to replace. -/
theorem Replaceable.keeps {v w : Volume} (h : Replaceable fold flags v new)
    (hfull : w.fullGone = v.fullGone) {mustKeep : Option NasPath}
    (hkeep : mustKeep = if flags.noreplace then some new else none) :
    KeepsContract fold mustKeep v w := by
  refine ⟨hfull, fun path hpath hthere => ?_⟩
  rw [hkeep] at hpath
  split at hpath
  case isTrue hnoreplace =>
    obtain rfl := Option.some.inj hpath
    exact (hthere (h.2 hnoreplace)).elim
  case isFalse => cases hpath

/-- **A copy that keeps the folders.** -/
theorem copyAcrossDirs_fullGone {srcDir : NasPath} {oldName : String} (sc : CopyScript)
    (h : c.server.treeAt fold (srcDir ++ [oldName]) = none ∨
      CopyKeepsFolders fold ⟨srcDir, oldName, trimEnd newParent, newName⟩ c.server) :
    (copyAcrossDirs fold archive limits sc (srcDir ++ [oldName]) newParent newName
      c).2.server.fullGone = c.server.fullGone := by
  have hquiet : (download fold archive limits sc.download (srcDir ++ [oldName]) 0 0 c).2.server =
      c.server := download_server sc.download 0 0
  unfold copyAcrossDirs
  cases hdownload : download fold archive limits sc.download (srcDir ++ [oldName]) 0 0 c with
  | mk data d =>
      rw [hdownload] at hquiet
      rcases data with e | data
      · exact congrArg Volume.fullGone hquiet
      have hthere : c.server.treeAt fold (srcDir ++ [oldName]) ≠ none := by
        obtain ⟨p, hread⟩ := download_ok (congrArg Prod.fst hdownload)
        intro hnone
        unfold Volume.read at hread
        rw [hnone] at hread
        cases hread
      have hkeeps := h.resolve_left hthere
      rw [← show d.server = c.server from hquiet] at hkeeps ⊢
      dsimp only
      rcases hkeeps.source with hway | ⟨hbare, hout⟩
      · obtain ⟨hsame, herror⟩ := @upload_blocked fold limits newParent newName data d hway
          sc.upload
        cases hupload : upload fold limits sc.upload newParent newName data true d with
        | mk uploaded d' =>
            rw [hupload] at hsame herror
            rcases uploaded with e | u
            · exact congrArg Volume.fullGone hsame
            · exact (herror rfl).elim
      · have hkept := @KeepsBare.upload fold limits newParent _ newName data d _ hout sc.upload
          ⟨rfl, hkeeps.dest, hbare⟩
        cases hupload : upload fold limits sc.upload newParent newName data true d with
        | mk uploaded d' =>
            rw [hupload] at hkept
            rcases uploaded with e | u
            · exact hkept.gone
            · exact (@delete_fullGone fold (srcDir ++ [oldName]) d' sc.delete (by simp)
                hkept.old).trans hkept.gone

theorem sourceIsDir_server (inodes : InodeCache) (info : RequestScript) (c : Client Volume) :
    (sourceIsDir fold inodes info old c).2.server = c.server := by
  unfold sourceIsDir
  split
  case h_1 => rfl
  case h_2 =>
    dsimp only
    split <;> exact getInfo_server

/-- A rename to another directory, where the source is there. -/
theorem moveOrCopy_fullGone {srcDir : NasPath} {oldName : String} (inodes : InodeCache)
    (sc : AcrossScript) (hsplit : MoveEnds.split (srcDir ++ [oldName])
      (joinPath newParent newName) = some ⟨srcDir, oldName, trimEnd newParent, newName⟩)
    (h : CopyKeepsFolders fold ⟨srcDir, oldName, trimEnd newParent, newName⟩ c.server) :
    (moveOrCopy fold archive limits inodes sc (srcDir ++ [oldName]) newParent newName
      c).2.server.fullGone = c.server.fullGone := by
  have hmoved := moveTo_fullGone fold sc.move (srcDir ++ [oldName]) (joinPath newParent newName) c
  unfold moveOrCopy
  cases hmove : moveTo fold sc.move (srcDir ++ [oldName]) (joinPath newParent newName) c with
  | mk moved d =>
      rw [hmove] at hmoved
      dsimp only
      split
      case isFalse => exact hmoved
      case isTrue hdeclined =>
        subst hdeclined
        have hleft := moveTo_declined hsplit h hmove
        have hsame := @sourceIsDir_server fold (srcDir ++ [oldName]) inodes sc.info d
        cases hsource : sourceIsDir fold inodes sc.info (srcDir ++ [oldName]) d with
        | mk isdir d' =>
            rw [hsource] at hsame
            rw [← show d'.server = d.server from hsame] at hleft hmoved
            dsimp only
            split
            case isTrue => exact hmoved
            case isFalse => exact (copyAcrossDirs_fullGone sc.copy hleft).trans hmoved

theorem split_joinPath (dir newDir : NasPath) (name newName : FileName) :
    MoveEnds.split (joinPath dir name.text) (joinPath newDir newName.text) =
      some ⟨trimEnd dir, name.text, trimEnd newDir, newName.text⟩ := by
  rw [MoveEnds.split, splitParent_joinPath, splitParent_joinPath, if_neg name.nonempty,
    if_neg newName.nonempty]

theorem moveOrCopy_keeps (inodes : InodeCache) (sc : AcrossScript) (dir newDir : NasPath)
    (name newName : FileName)
    (h : AcrossSafe fold flags c.server (joinPath dir name.text) (trimEnd newDir) newName.text)
    {mustKeep : Option NasPath}
    (hkeep : mustKeep = if flags.noreplace then some (joinPath newDir newName.text) else none) :
    KeepsContract fold mustKeep c.server
      (moveOrCopy fold archive limits inodes sc (joinPath dir name.text) newDir newName.text
        c).2.server := by
  rcases h with hnone | ⟨hreplaceable, hsource⟩
  · obtain ⟨hsame, hmoved⟩ :=
      moveTo_absent sc.move (joinPath newDir newName.text) hnone
    unfold moveOrCopy
    dsimp only
    rw [if_neg hmoved, hsame]
    exact KeepsContract.refl c.server
  · refine hreplaceable.keeps ?_ hkeep
    refine moveOrCopy_fullGone inodes sc (split_joinPath dir newDir name newName) ⟨?_, ?_⟩
    · exact (bare_iff (by simp [MoveEnds.new])).mpr hreplaceable.1
    · refine hsource.imp_right ?_
      rintro ⟨hempty, hout⟩
      exact ⟨(bare_iff (by simp [MoveEnds.old])).mpr hempty, hout⟩

/-- **Calls that find nothing at risk keep the contract**, whoever answers them. -/
theorem NothingAtRisk.keeps {paths : ℕ → Option NasPath} {call : DestructiveCall}
    (h : NothingAtRisk fold paths c.server call) (sc : DestructiveScript) :
    KeepsContract fold (call.mustKeep paths) c.server
      (call.run fold archive limits paths sc c).2.server := by
  by_cases hone : call.InOneDirectory
  · exact (keeps_iff_sparedBy hone sc).mpr (h.sparedBy hone sc)
  cases call with
  | unlink parent name => exact (hone trivial).elim
  | rmdir parent name => exact (hone trivial).elim
  | rename parent name newParent newName flags =>
      change KeepsContract fold _ c.server (Fuse.rename fold archive limits ⟨paths, sc.isDir⟩
        sc.rename parent name newParent newName flags c).2.server
      unfold Fuse.rename
      split
      case h_2 => exact KeepsContract.refl c.server
      case h_1 dir newDir hdir hnewDir =>
        have hdistinct : ¬ parent = newParent := hone
        have hsafe := h dir newDir hdir hnewDir
        rw [if_neg hdistinct] at hsafe
        dsimp only
        rw [if_neg hdistinct]
        refine moveOrCopy_keeps _ sc.rename.across dir newDir name newName hsafe ?_
        rw [DestructiveCall.mustKeep, show paths newParent = some newDir from hnewDir]
        rfl

end Safe

/-! ### What takes against the contract

FileStation answers, and its delete recurses. A move is declined where DSM will not
show the destination and knows no CopyMove task; then the caller copies. -/

section Risky

variable {fold : String → String} {archive : Tree → Core.Bytes} {limits : TransferLimits}
  {c : Client Volume} {v w : Volume} {old newDir path : NasPath} {flags : RenameFlags}
  {newName : String} {data : Core.Bytes} {mustKeep : Option NasPath}

/-- A rename that clears a name it may not. -/
theorem not_keeps_of_cleared (h : ¬ Replaceable fold flags v path)
    (hkeep : mustKeep = if flags.noreplace then some path else none) :
    ¬ KeepsContract fold mustKeep v (v.remove fold path) := by
  by_cases hfull : v.isFullAt fold path = true
  · exact not_keeps_of_full hfull
  · rw [Replaceable, not_and, Classical.not_imp] at h
    obtain ⟨hnoreplace, hthere⟩ := h (by simpa using hfull)
    rw [if_pos hnoreplace] at hkeep
    exact fun hkeeps => goneAt_remove hthere (hkeeps.kept path hkeep hthere)

theorem delete_plain : (delete fold .plain path c).2.server = c.server.remove fold path := by
  obtain ⟨breakers, hdelete⟩ := request_plain (deleteOp fold path) c
  rw [delete, hdelete]
  exact Volume.delete_http

/-- A move for which no backend is there, nor a CopyMove task. -/
def unsupportedMove : MoveScript :=
  { MoveScript.plain with
    dest := ⟨declining, fun _ => .refused 414⟩
    rename := ⟨declining, fun _ => .refused 100⟩
    start := .refused 101 }

/-- The copy that follows, where all is answered but for the upload, as told. -/
def copyInstead (post : HttpFate) : AcrossScript where
  move := unsupportedMove
  info := .unreached
  copy :=
    { download := ⟨declining, fun _ => .answered⟩
      upload := ⟨declining, fun _ => ⟨⟨.plain, fun _ => .plain⟩, post⟩⟩
      delete := .plain }

/-- The move finds its source, and no destination. -/
theorem planFirst_unsupported {m : MoveEnds} {new : NasPath}
    (hsplit : MoveEnds.split old new = some m) (hthere : c.server.treeAt fold old ≠ none) :
    ∃ breakers, planFirst fold (fun op => op) unsupportedMove old new c =
      (.ok (m, .fresh), { c with metadataBreakers := breakers }) := by
  obtain ⟨rfl, rfl⟩ := MoveEnds.split_eq hsplit
  obtain ⟨e, hentry⟩ := Option.ne_none_iff_exists'.mp (mt Volume.treeAt_eq_none.mpr hthere)
  have hinfo : (getInfoOp fold m.old).run .http c.server = (.ok (e.info m.old), c.server) := by
    change c.server.getInfo fold .http m.old = _
    rw [Volume.getInfo, hentry]
  obtain ⟨backends, hladder⟩ := viaBackends_declining (moveOp fold m.old m.new)
    c.metadataBreakers c.server
  obtain ⟨asked, hsource⟩ := request_plain (getInfoOp fold m.old)
    { c with metadataBreakers := backends }
  rw [hinfo] at hsource
  obtain ⟨breakers, hdest⟩ := request_refused (getInfoOp fold m.new) 414
    { c with metadataBreakers := asked }
  refine ⟨breakers, ?_⟩
  simp only [planFirst, unsupportedMove, MoveScript.plain, hladder, hsplit, lookAtEnds, hsource,
    destination, hdest]
  rfl

/-- Neither the rename in place nor the task is supported. -/
theorem finishMove_unsupported (m : MoveEnds) :
    ∃ d, finishMove fold (fun op => op) unsupportedMove m .fresh c = (.error .notSupported, d) ∧
      d.server = c.server := by
  by_cases hname : m.oldName = m.newName
  · refine ⟨c, ?_, rfl⟩
    rw [finishMove, renameFirst, if_pos hname]
    rfl
  · obtain ⟨breakers, hrename⟩ := request_refused (renameOp fold m.old m.newName) 100 c
    refine ⟨{ c with metadataBreakers := breakers }, ?_, rfl⟩
    simp only [finishMove, renameFirst, if_neg hname, unsupportedMove, hrename]
    rfl

theorem moveTo_unsupported {m : MoveEnds} {new : NasPath}
    (hsplit : MoveEnds.split old new = some m) (hthere : c.server.treeAt fold old ≠ none) :
    ∃ d, moveTo fold unsupportedMove old new c = (.error .notSupported, d) ∧
      d.server = c.server := by
  obtain ⟨breakers, hplan⟩ := planFirst_unsupported hsplit hthere
  obtain ⟨d, hfinish, hserver⟩ := @finishMove_unsupported fold
    { c with metadataBreakers := breakers } m
  refine ⟨d, ?_, hserver⟩
  rw [moveTo, moveWithin, hplan]
  exact hfinish

theorem sourceIsDir_unanswered (paths : ℕ → Option NasPath) :
    ∃ d, sourceIsDir fold ⟨paths, fun _ => none⟩ .unreached old c = (false, d) ∧
      d.server = c.server := by
  obtain ⟨breakers, hinfo⟩ := request_unreached (getInfoOp fold old) c
  refine ⟨{ c with metadataBreakers := breakers }, ?_, rfl⟩
  simp only [sourceIsDir, getInfo, hinfo]

/-- FileStation reads out whatever stands there. -/
theorem download_there (hthere : c.server.treeAt fold old ≠ none) (length : ℕ) :
    ∃ data d, download fold archive limits ⟨declining, fun _ => .answered⟩ old 0 length c =
      (.ok data, d) ∧ d.server = c.server := by
  have hserver : (download fold archive limits ⟨declining, fun _ => .answered⟩ old 0 length
    c).2.server = c.server := download_server _ 0 length
  cases hdownload : download fold archive limits ⟨declining, fun _ => .answered⟩ old 0 length c with
  | mk r d =>
      rw [hdownload] at hserver
      cases r with
      | ok data => exact ⟨data, d, rfl, hserver⟩
      | error e =>
          exact (download_declining (Option.isSome_iff_ne_none.mpr hthere)
            (congrArg Prod.fst hdownload)).elim

/-- The upload clears the name, and then is refused or stores the file. -/
theorem upload_cleared (post : HttpFate) :
    ∃ d, d.server = c.server.remove fold (joinPath newDir newName) ∧
      (∀ code, post = .refused code → upload fold limits (copyInstead post).copy.upload newDir
        newName data true c = (.error (.apiError code), d)) ∧
      (post = .answered → upload fold limits (copyInstead post).copy.upload newDir newName data
        true c = ((d.server.store fold (joinPath newDir newName) data).1,
          { d with server := (d.server.store fold (joinPath newDir newName) data).2 })) := by
  obtain ⟨attempts, hattempts⟩ := Nat.exists_eq_succ_of_ne_zero limits.attempts_pos.ne'
  obtain ⟨breakers, hladder⟩ := viaBackends_declining
    (writeOp fold (joinPath newDir newName) data) c.writeBreakers c.server
  refine ⟨_, @clearForOverwrite_plain fold newDir newName { c with writeBreakers := breakers },
    ?_, ?_⟩
  · rintro code rfl
    simp only [upload, if_true, copyInstead, hladder, httpUpload, hattempts, httpUploadFrom]
  · rintro rfl
    simp only [upload, if_true, copyInstead, hladder, httpUpload, hattempts, httpUploadFrom]

section Across

variable {dir newDir : NasPath} {name newName : FileName} {paths : ℕ → Option NasPath}

/-- A declined move of what is there comes to its upload. -/
theorem moveOrCopy_copies (post : HttpFate)
    (hthere : c.server.treeAt fold (joinPath dir name.text) ≠ none) :
    ∃ data d, d.server = c.server ∧
      moveOrCopy fold archive limits ⟨paths, fun _ => none⟩ (copyInstead post)
        (joinPath dir name.text) newDir newName.text c =
      match upload fold limits (copyInstead post).copy.upload newDir newName.text data true d with
      | (.error e, d) => (.error e, d)
      | (.ok (), d) => (.ok (), (delete fold .plain (joinPath dir name.text) d).2) := by
  obtain ⟨d, hmove, hmoved⟩ := moveTo_unsupported (split_joinPath dir newDir name newName) hthere
  obtain ⟨d₁, hsource, hasked⟩ := @sourceIsDir_unanswered fold d (joinPath dir name.text) paths
  obtain ⟨data, d₂, hdownload, hread⟩ := @download_there fold archive limits d₁
    (joinPath dir name.text) (by rwa [hasked, hmoved]) 0
  refine ⟨data, d₂, hread.trans (hasked.trans hmoved), ?_⟩
  have hcopied : moveOrCopy fold archive limits ⟨paths, fun _ => none⟩ (copyInstead post)
      (joinPath dir name.text) newDir newName.text c =
      copyAcrossDirs fold archive limits (copyInstead post).copy (joinPath dir name.text) newDir
        newName.text d₁ := by
    rw [moveOrCopy, show (copyInstead post).move = unsupportedMove from rfl, hmove,
      show (copyInstead post).info = .unreached from rfl]
    simp only [hsource, if_true, Bool.false_eq_true, if_false]
  rw [hcopied, copyAcrossDirs,
    show (copyInstead post).copy.download = ⟨declining, fun _ => .answered⟩ from rfl, hdownload]
  dsimp only
  rcases upload fold limits (copyInstead post).copy.upload newDir newName.text data true d₂ with
    ⟨_ | _, _⟩ <;> rfl

/-- The upload is refused, and what it cleared is gone. -/
theorem moveOrCopy_clears (hthere : c.server.treeAt fold (joinPath dir name.text) ≠ none) :
    (moveOrCopy fold archive limits ⟨paths, fun _ => none⟩ (copyInstead (.refused 419))
        (joinPath dir name.text) newDir newName.text c).2.server =
      c.server.remove fold (joinPath newDir newName.text) := by
  obtain ⟨data, d, hserver, hcopies⟩ :=
    @moveOrCopy_copies fold archive limits c dir newDir name newName paths (.refused 419) hthere
  obtain ⟨d', hcleared, hrefused, _⟩ :=
    @upload_cleared fold limits d newDir newName.text data (.refused 419)
  rw [hcopies, hrefused 419 rfl, ← hserver]
  exact hcleared

/-- The file is stored, and the source deleted with all that is in it. -/
theorem moveOrCopy_deletes (hthere : c.server.treeAt fold (joinPath dir name.text) ≠ none)
    (hstore : ∀ data, ((c.server.remove fold (joinPath newDir newName.text)).store fold
      (joinPath newDir newName.text) data).1 = .ok ()) :
    ∃ data, (moveOrCopy fold archive limits ⟨paths, fun _ => none⟩ (copyInstead .answered)
        (joinPath dir name.text) newDir newName.text c).2.server =
      ((c.server.remove fold (joinPath newDir newName.text)).store fold
        (joinPath newDir newName.text) data).2.remove fold (joinPath dir name.text) := by
  obtain ⟨data, d, hserver, hcopies⟩ :=
    @moveOrCopy_copies fold archive limits c dir newDir name newName paths .answered hthere
  obtain ⟨d', hcleared, _, hanswered⟩ :=
    @upload_cleared fold limits d newDir newName.text data .answered
  refine ⟨data, ?_⟩
  rw [hcopies, hanswered rfl, hcleared, hserver, hstore data]
  exact delete_plain

/-- A move that may clear its destination, and whose copy takes a folder. -/
theorem not_keeps_of_copy {v : Volume} {data : Core.Bytes} (hold : old ≠ [])
    (hthere : v.treeAt fold old ≠ none)
    (hnew : v.isFullAt fold (newDir ++ [newName.text]) = false)
    (hsource : v.isFullAt fold old = true ∨ old.map fold <+: newDir.map fold)
    (hstore : ((v.remove fold (newDir ++ [newName.text])).store fold (newDir ++ [newName.text])
      data).1 = .ok ()) :
    ¬ KeepsContract fold mustKeep v (((v.remove fold (newDir ++ [newName.text])).store fold
      (newDir ++ [newName.text]) data).2.remove fold old) := by
  intro hkeeps
  have hfull := Volume.isFullAt_stored hold hthere hnew hsource hstore
  have hstored := congrArg (List.filter fun r : Removal => r.tree.isFull)
    (Volume.store_ok hstore).2.2
  have hcleared := @Volume.fullGone_remove fold v _ (by simp) ((bare_iff (by simp)).mpr hnew)
  exact Volume.fullGone_remove_full hfull (hkeeps.full.trans (hstored.trans hcleared).symm)

/-- A move to another directory that may not be made. -/
theorem exists_moveOrCopy_breaks
    (h : ¬ AcrossSafe fold flags c.server (joinPath dir name.text) (trimEnd newDir) newName.text)
    (hkeep : mustKeep = if flags.noreplace then some (joinPath newDir newName.text) else none) :
    ∃ post, ¬ KeepsContract fold mustKeep c.server
      (moveOrCopy fold archive limits ⟨paths, fun _ => none⟩ (copyInstead post)
        (joinPath dir name.text) newDir newName.text c).2.server := by
  rw [AcrossSafe, not_or, not_and] at h
  obtain ⟨hthere, hcopied⟩ := h
  by_cases hreplaceable : Replaceable fold flags c.server (joinPath newDir newName.text)
  case neg =>
    refine ⟨.refused 419, ?_⟩
    rw [moveOrCopy_clears hthere]
    exact not_keeps_of_cleared hreplaceable hkeep
  replace hcopied := hcopied hreplaceable
  rw [not_or, not_and_or, not_not, Bool.not_eq_false] at hcopied
  have hstore : ∀ data, ((c.server.remove fold (joinPath newDir newName.text)).store fold
      (joinPath newDir newName.text) data).1 = .ok () :=
    fun data => Volume.store_cleared (Volume.content_root hthere) hcopied.1
  obtain ⟨data, hserver⟩ := @moveOrCopy_deletes fold archive limits c dir newDir name newName
    paths hthere hstore
  refine ⟨.answered, ?_⟩
  rw [hserver]
  exact not_keeps_of_copy (joinPath_ne_nil _ _) hthere hreplaceable.1 hcopied.2 (hstore data)

end Across

/-! ### Any call -/

/-- FileStation answers every delete, and of a rename what `post` says. -/
def takingScript (post : HttpFate) : DestructiveScript where
  remove := .plain
  rename := ⟨⟨.plain, .unreached⟩, copyInstead post⟩
  isDir := fun _ => none

theorem DeleteSpares.replaceable (h : DeleteSpares fold flags.noreplace [.http] v path) :
    Replaceable fold flags v path := by
  refine ⟨h.1 List.mem_cons_self, fun hnoreplace => ?_⟩
  have hyields := h.2 hnoreplace .http List.mem_cons_self
  unfold Volume.yields at hyields
  split at hyields
  case h_1 => cases hyields
  case h_2 hnone => exact hnone

theorem SparedBy.nothingAtRisk {paths : ℕ → Option NasPath} {call : DestructiveCall}
    (hone : call.InOneDirectory) (post : HttpFate)
    (h : SparedBy fold paths (takingScript post) c call) :
    NothingAtRisk fold paths c.server call := by
  cases call with
  | unlink parent name =>
      exact fun dir hdir => (h dir hdir).1 (runs_plain _ ▸ List.mem_cons_self)
  | rmdir parent name =>
      exact fun dir hdir => (h dir hdir).1 (runs_plain _ ▸ List.mem_cons_self)
  | rename parent name newParent newName flags =>
      intro dir newDir hdir hnewDir
      rw [if_pos (show parent = newParent from hone)]
      refine (h dir newDir hdir hnewDir).imp_right fun hspares => ?_
      rw [show (takingScript post).rename.inPlace.delete = .plain from rfl, runs_plain] at hspares
      exact hspares.replaceable

/-- Where anything is at risk, some fate of the requests takes it. -/
theorem exists_breaks {paths : ℕ → Option NasPath} {call : DestructiveCall}
    (h : ¬ NothingAtRisk fold paths c.server call) :
    ∃ post, ¬ KeepsContract fold (call.mustKeep paths) c.server
      (call.run fold archive limits paths (takingScript post) c).2.server := by
  by_cases hone : call.InOneDirectory
  · refine ⟨.answered, ?_⟩
    rw [keeps_iff_sparedBy hone]
    exact fun hspared => h (hspared.nothingAtRisk hone)
  cases call with
  | unlink parent name => exact (hone trivial).elim
  | rmdir parent name => exact (hone trivial).elim
  | rename parent name newParent newName flags =>
      simp only [NothingAtRisk] at h
      push Not at h
      obtain ⟨dir, newDir, hdir, hnewDir, hunsafe⟩ := h
      have hdistinct : ¬ parent = newParent := hone
      rw [if_neg hdistinct] at hunsafe
      simp only [DestructiveCall.run, Fuse.rename, hdir, hnewDir, if_neg hdistinct]
      refine exists_moveOrCopy_breaks hunsafe ?_
      rw [DestructiveCall.mustKeep, hnewDir]
      rfl

end Risky

/-! ### Exactly when the contract is kept -/

/-- **Who answers the delete decides.** Whatever becomes of its requests, a call
keeps what the kernel expects if, and only if, it finds nothing at risk. Within one
directory it keeps it exactly when FileStation carries out no delete of a folder
with entries, and nobody one that takes what a rename must not replace. -/
theorem keepsContract_iff (fold : String → String) (archive : Tree → Core.Bytes)
    (limits : TransferLimits) (paths : ℕ → Option NasPath) (c : Client Volume)
    (call : DestructiveCall) :
    ((∀ sc, KeepsContract fold (call.mustKeep paths) c.server
        (call.run fold archive limits paths sc c).2.server) ↔
      NothingAtRisk fold paths c.server call) ∧
    (call.InOneDirectory → ∀ sc, (KeepsContract fold (call.mustKeep paths) c.server
        (call.run fold archive limits paths sc c).2.server ↔
      SparedBy fold paths sc c call)) := by
  refine ⟨⟨fun h => ?_, fun h sc => h.keeps sc⟩, fun hone sc => keeps_iff_sparedBy hone sc⟩
  by_contra hrisk
  obtain ⟨post, hbreaks⟩ := @exists_breaks fold archive limits c paths call hrisk
  exact hbreaks (h (takingScript post))

/-- A client without backends, and a share with a folder that has an entry. -/
def stockedShare : Client Volume :=
  ⟨[], [], [], { root := .dir [("share", .dir [("docs", .dir [("a", .file [1])]),
                   ("other", .file [2]), ("Photo", .file [3])])]
                 removals := [] }⟩

def docs : FileName := ⟨"docs", by decide⟩

/-- Answered by FileStation, `rmdir` takes the folder with what is in it, and a
rename that must not replace takes what is under the new name. -/
theorem rmdir_takes_entries :
    ¬ KeepsContract id ((DestructiveCall.rmdir 1 docs).mustKeep shareInode.pathForIno)
        stockedShare.server
        ((DestructiveCall.rmdir 1 docs).run id (fun _ => []) .standard shareInode.pathForIno
          (takingScript .answered) stockedShare).2.server ∧
      ¬ KeepsContract id
        ((DestructiveCall.rename 1 photo 1 otherFile ⟨true⟩).mustKeep shareInode.pathForIno)
        stockedShare.server
        ((DestructiveCall.rename 1 photo 1 otherFile ⟨true⟩).run id (fun _ => []) .standard
          shareInode.pathForIno (takingScript .answered) stockedShare).2.server := by
  constructor
  · intro h
    cases congrArg List.length h.full
  · intro h
    cases congrArg List.length (h.kept _ rfl (by exact nofun))

end SynologyFilestation.Fuse
