import SynologyFilestation.Core.FullFolders
import SynologyFilestation.Smb.Requests

/-!
What a move over SMB does among others (`move_to` in `smb/src/transport.rs`). It looks first, and
what it found may have changed by the time it renames. But the server looks again: it deletes no
folder that has entries, replaces no folder, and replaces a file only where it is told to, which is
where a file was seen.
-/

namespace SynologyFilestation.Core

open Library

section Elsewhere

variable {fold : String → String} {v : Volume} {source target path : NasPath} {tree : Tree}

/-- What is neither above nor below a name that goes is as it was. -/
theorem Volume.treeAt_remove_apart (h : ¬ target.map fold <+: path.map fold)
    (habove : ¬ path.map fold <+: target.map fold) :
    (v.remove fold target).treeAt fold path = v.treeAt fold path := by
  unfold Volume.remove
  split
  case h_1 parent name _ hsplit _ =>
    rw [eq_of_splitNasPath hsplit] at h habove
    rw [Volume.treeAt, Volume.treeAt, Volume.entryAt_eq_entryIn, Volume.entryAt_eq_entryIn]
    congr 1
    exact FileTree.entryIn_alterDir_apart (fun _ _ hother =>
      (FileTree.findEntry_eraseEntry _).trans (if_neg hother)) h habove v.root
  case h_2 => rfl

/-- An entry that is hung in elsewhere is there whole, and nothing else has changed. -/
theorem Volume.relocate_spec (htarget : v.treeAt fold target = none)
    (htree : v.treeAt fold source = some tree)
    (h : (v.relocate fold source target).1 = .ok ()) :
    (v.relocate fold source target).2.treeAt fold target = some tree ∧
      ∀ path, ¬ source.map fold <+: path.map fold → ¬ target.map fold <+: path.map fold →
        (v.relocate fold source target).2.root.seen fold path = v.root.seen fold path := by
  revert h
  unfold Volume.relocate
  split
  case h_2 => exact fun h => (by cases h)
  case h_1 src name dst newName tree' hold hnew htree' =>
    obtain rfl := Option.some.inj (htree.symm.trans htree')
    obtain rfl := eq_of_splitNasPath hold
    obtain rfl := eq_of_splitNasPath hnew
    have hrest : (v.remove fold (src ++ [name])).root =
        v.root.alterDir fold (FileTree.eraseEntry fold · name) src := by
      rw [Volume.remove_of_some htree]
    rw [← hrest]
    dsimp only
    split
    case h_1 => exact fun h => (by cases h)
    case h_2 children hdir =>
      intro _
      have hfree : (v.remove fold (src ++ [name])).treeAt fold (dst ++ [newName]) = none :=
        Volume.treeAt_remove_none htarget
      rw [Volume.treeAt_eq_none, Volume.entryAt_concat, hdir, Option.bind_some] at hfree
      refine ⟨?_, fun path hsource houtside => ?_⟩
      · rw [Volume.treeAt, Volume.entryAt_alterDir, hdir, Option.bind_some,
          FileTree.findEntry_concat hfree]
        rfl
      · exact (FileTree.seen_alterDir_beside (fun _ _ hother =>
          FileTree.findEntry_append_of_ne hother _ _) houtside _).trans (Volume.seen_remove hsource)

end Elsewhere

end SynologyFilestation.Core

namespace SynologyFilestation.Smb

open Core Library

/-! ### What one request of a move does -/

section Requests

variable {fold : String → String} {v w : Volume} {source target : NasPath} {tree : Tree}

/-- What one request of a move does to the NAS, after those `before` it. -/
inductive MoveRequest (fold : String → String) (source target : NasPath)
    (before : List (Volume × Volume)) (v : Volume) : Volume → Prop
  | nothing : MoveRequest fold source target before v v
  /-- An empty folder in the way goes. -/
  | cleared (hempty : v.treeAt fold target = some (.dir [])) :
      MoveRequest fold source target before v (v.remove fold target)
  | moved {moving : Tree} (hsource : v.treeAt fold source = some moving)
      (htarget : v.treeAt fold target = none)
      (hok : (v.relocate fold source target).1 = .ok ()) :
      MoveRequest fold source target before v (v.relocate fold source target).2
  /-- In place of a file, where a file was seen. -/
  | replaced {moving : Tree} {content : Bytes} (hsource : v.treeAt fold source = some moving)
      (hfile : v.treeAt fold target = some (.file content))
      (hseen : ∃ request ∈ before, ∃ shown, request.1.treeAt fold target = some (.file shown))
      (hok : ((v.remove fold target).relocate fold source target).1 = .ok ()) :
      MoveRequest fold source target before v
        ((v.remove fold target).relocate fold source target).2

/-- A request of a move keeps all but what it may replace, and what is moved is whole in one place
or the other. -/
structure MoveKeeps (fold : String → String) (source target : NasPath)
    (before : List (Volume × Volume)) (v w : Volume) : Prop where
  others : ∀ path, ¬ source.map fold <+: path.map fold → ¬ target.map fold <+: path.map fold →
    w.root.seen fold path = v.root.seen fold path
  whole : ∀ tree, v.treeAt fold source = some tree → w.treeAt fold source = some tree ∨
    (w.treeAt fold source = none ∧ w.treeAt fold target = some tree)
  inTheWay : ∀ tree, v.treeAt fold target = some tree → w.treeAt fold target = some tree ∨
    (tree = .dir [] ∧ w.treeAt fold target = none) ∨
    ∃ content moved, tree = .file content ∧ v.treeAt fold source = some moved ∧
      w.treeAt fold target = some moved ∧
      ∃ request ∈ before, ∃ shown, request.1.treeAt fold target = some (.file shown)

/-- Nothing is below what has no entries. -/
theorem not_below_of_childless (htarget : target ≠ []) (hne : ¬ source.map fold <+: target.map fold)
    (hthere : v.treeAt fold target = some tree) (hchildless : ∀ rest, tree.entryIn fold rest = none)
    {moved : Tree} (hsource : v.treeAt fold source = some moved) :
    ¬ target.map fold <+: source.map fold := by
  rintro ⟨keys, hkeys⟩
  rw [eq_comm, List.map_eq_append_iff] at hkeys
  obtain ⟨front, rest, rfl, hfront, -⟩ := hkeys
  have hrest : rest ≠ [] := by
    rintro rfl
    apply hne
    rw [List.append_nil, hfront]
  have hkeys : (front ++ rest).map fold = (target ++ rest).map fold := by simp [hfront]
  rw [Volume.treeAt_congr hkeys, Volume.treeAt, Volume.entryAt_append htarget hrest, hthere,
    Option.bind_some, hchildless] at hsource
  cases hsource

theorem MoveRequest.keeps {before : List (Volume × Volume)} (htarget : target ≠ [])
    (hne : ¬ source.map fold <+: target.map fold)
    (h : MoveRequest fold source target before v w) :
    MoveKeeps fold source target before v w := by
  cases h with
  | nothing => exact ⟨fun _ _ _ => rfl, fun _ h => Or.inl h, fun _ h => Or.inl h⟩
  | cleared hempty =>
      refine ⟨fun path _ hout => Volume.seen_remove hout, fun tree htree => ?_, fun tree htree => ?_⟩
      · have hapart := not_below_of_childless htarget hne hempty (fun rest => by simp) htree
        exact Or.inl ((Volume.treeAt_remove_apart hapart hne).trans htree)
      · obtain rfl := Option.some.inj (hempty.symm.trans htree)
        exact Or.inr (Or.inl ⟨rfl, Volume.treeAt_remove⟩)
  | @moved moved hsource hfree hok =>
      obtain ⟨hthere, hothers⟩ := Volume.relocate_spec hfree hsource hok
      refine ⟨hothers, fun tree htree => ?_, fun tree htree => ?_⟩
      · obtain rfl := Option.some.inj (hsource.symm.trans htree)
        exact Or.inr ⟨Volume.relocate_ok hfree hok, hthere⟩
      · rw [hfree] at htree
        cases htree
  | @replaced moved content hsource hfile hseen hok =>
      have hapart := not_below_of_childless htarget hne hfile (fun rest => by simp) hsource
      have hstill := (Volume.treeAt_remove_apart hapart hne).trans hsource
      obtain ⟨hthere, hothers⟩ := Volume.relocate_spec Volume.treeAt_remove hstill hok
      refine ⟨fun path hout hout' => (hothers path hout hout').trans (Volume.seen_remove hout'),
        fun tree htree => ?_, fun tree htree => ?_⟩
      · obtain rfl := Option.some.inj (hsource.symm.trans htree)
        exact Or.inr ⟨Volume.relocate_ok Volume.treeAt_remove hok, hthere⟩
      · obtain rfl := Option.some.inj (hfile.symm.trans htree)
        exact Or.inr (Or.inr ⟨content, moved, rfl, hsource, hthere, hseen⟩)

end Requests

/-! ### A whole move -/

section Move

variable {fold : String → String} {source target : NasPath} {t : Talk} {sc : SmbMoveScript}

theorem deleteDirectory_request (before : List (Volume × Volume)) (v : Volume) :
    MoveRequest fold source target before v (deleteDirectory fold target v).2 := by
  unfold deleteDirectory
  split
  case h_1 => exact .nothing
  case h_2 => exact .nothing
  case h_3 hempty => exact .cleared hempty
  case h_4 => exact .nothing

theorem renameWithOptions_request {before : List (Volume × Volume)} {replace : Bool}
    (hseen : replace = true →
      ∃ request ∈ before, ∃ shown, request.1.treeAt fold target = some (.file shown)) (v : Volume) :
    MoveRequest fold source target before v (renameWithOptions fold source target replace v).2 := by
  unfold renameWithOptions
  split
  case h_1 => exact .nothing
  case h_2 => exact .nothing
  case h_3 hsource hfile =>
    split
    case isFalse => exact .nothing
    case isTrue hreplace =>
      dsimp only
      unfold Volume.replaceFile
      split
      case h_1 w hok =>
        rw [show w = ((v.remove fold target).relocate fold source target).2 by rw [hok]]
        exact .replaced hsource hfile (hseen hreplace) (by rw [hok])
      case h_2 => exact .nothing
  case h_4 hsource hfree =>
    dsimp only
    cases hok : (v.relocate fold source target).1 with
    | ok u => exact .moved hsource hfree hok
    | error e =>
        rw [(Volume.relocate_error hok).2]
        exact .nothing

/-- A rename that is answered well has moved the entry. -/
theorem renameWithOptions_ok {replace : Bool} {v : Volume} (htarget : target ≠ [])
    (hne : ¬ source.map fold <+: target.map fold)
    (h : (renameWithOptions fold source target replace v).1 = .ok ()) :
    ∃ tree, v.treeAt fold source = some tree ∧
      (renameWithOptions fold source target replace v).2.treeAt fold source = none ∧
      (renameWithOptions fold source target replace v).2.treeAt fold target = some tree := by
  revert h
  unfold renameWithOptions
  split
  case h_1 => exact fun h => (by cases h)
  case h_2 => exact fun h => (by cases h)
  case h_3 moving content hsource hfile =>
    split
    case isFalse => exact fun h => (by cases h)
    case isTrue =>
      dsimp only
      unfold Volume.replaceFile
      split
      case h_2 => exact fun h => (by cases h)
      case h_1 w hok =>
        intro _
        have hapart := not_below_of_childless htarget hne hfile (fun rest => by simp) hsource
        have hstill := (Volume.treeAt_remove_apart hapart hne).trans hsource
        have hmoved := congrArg Prod.fst hok
        have hspec := Volume.relocate_spec Volume.treeAt_remove hstill hmoved
        have hgone := Volume.relocate_ok Volume.treeAt_remove hmoved
        rw [hok] at hspec hgone
        exact ⟨moving, hsource, hgone, hspec.1⟩
  case h_4 moving hsource hfree =>
    dsimp only
    cases hok : (v.relocate fold source target).1 with
    | error e => exact fun h => (by cases h)
    | ok u =>
        intro _
        exact ⟨moving, hsource, Volume.relocate_ok hfree hok,
          (Volume.relocate_spec hfree hsource hok).1⟩

/-- Where a file is said to stand, one was seen. -/
theorem moveDestination_spec (sc : SmbMoveScript)
    (h : EachRequest (MoveRequest fold source target) t.requests) (sourceIsDir : Bool) :
    EachRequest (MoveRequest fold source target) (moveDestination fold sc target sourceIsDir t).2.requests ∧
      ((moveDestination fold sc target sourceIsDir t).1 = .ok .file →
        ∃ request ∈ (moveDestination fold sc target sourceIsDir t).2.requests,
          ∃ shown, request.1.treeAt fold target = some (.file shown)) := by
  have hlook := h.look fold (fun _ _ => .nothing) target sc.dest
  unfold moveDestination
  cases hstat : t.ask (statDir fold target) sc.dest with
  | mk found t' =>
      rw [hstat] at hlook
      rcases found with e | _ | _
      · refine ⟨hlook, ?_⟩
        dsimp only
        split <;> exact fun h => (by cases h)
      · refine ⟨hlook, fun _ => ?_⟩
        obtain ⟨hfound, hrequests⟩ := Talk.ask_ok (congrArg Prod.fst hstat)
        rw [hstat] at hrequests
        refine ⟨_, hrequests ▸ List.mem_concat_self, ?_⟩
        revert hfound
        unfold statDir
        split
        case h_1 => exact fun h => (by cases h)
        case h_2 tree htree =>
          intro hfile
          cases tree with
          | file content => exact ⟨content, htree⟩
          | dir children => cases hfile
      · dsimp only
        split
        case isTrue => exact ⟨hlook, fun h => (by cases h)⟩
        case isFalse =>
          have hclear := hlook.ask sc.clear (fun _ _ => .nothing)
            (deleteDirectory_request t'.requests)
          cases hask : t'.ask (deleteDirectory fold target) sc.clear with
          | mk cleared t'' =>
              rw [hask] at hclear
              rcases cleared with e | _
              · refine ⟨hclear, ?_⟩
                dsimp only
                split <;> exact fun h => (by cases h)
              · exact ⟨hclear, fun h => (by cases h)⟩

theorem planMove_replaceFile {sourceIsDir : Bool} {dest : Destination}
    (h : planMove sourceIsDir dest = .ok .replaceFile) : dest = .file := by
  rcases sourceIsDir with _ | _ <;> rcases dest with _ | _ | (_ | _) <;> first | rfl | cases h

theorem moveInShare_careful (h : EachRequest (MoveRequest fold source target) t.requests) :
    EachRequest (MoveRequest fold source target) (moveInShare fold sc source target t).2.requests := by
  have hlook := h.look fold (fun _ _ => .nothing) source sc.source
  unfold moveInShare
  cases hstat : t.ask (statDir fold source) sc.source with
  | mk found t' =>
      rw [hstat] at hlook
      rcases found with e | sourceIsDir
      · exact hlook
      dsimp only
      obtain ⟨hdest, hfile⟩ := moveDestination_spec sc hlook sourceIsDir
      cases hgo : moveDestination fold sc target sourceIsDir t' with
      | mk dest t'' =>
          rw [hgo] at hdest hfile
          dsimp only
          cases hplan : dest.bind (planMove sourceIsDir) with
          | error e => exact hdest
          | ok plan =>
              apply hdest.ask sc.rename (fun _ _ => .nothing)
              intro v
              apply renameWithOptions_request
              intro hreplace
              rcases dest with e | dest
              · cases hplan
              · obtain rfl := of_decide_eq_true hreplace
                apply hfile
                rw [planMove_replaceFile hplan]

theorem moveInShare_ok (htarget : target ≠ []) (hne : ¬ source.map fold <+: target.map fold)
    (h : (moveInShare fold sc source target t).1 = .ok ()) :
    ∃ before v w tree, (moveInShare fold sc source target t).2.requests = before ++ [(v, w)] ∧
      v.treeAt fold source = some tree ∧ w.treeAt fold source = none ∧
      w.treeAt fold target = some tree := by
  revert h
  unfold moveInShare
  cases t.ask (statDir fold source) sc.source with
  | mk found t' =>
      rcases found with e | sourceIsDir
      · exact fun h => (by cases h)
      dsimp only
      cases moveDestination fold sc target sourceIsDir t' with
      | mk dest t'' =>
          dsimp only
          cases dest.bind (planMove sourceIsDir) with
          | error e => exact fun h => (by cases h)
          | ok plan =>
              dsimp only
              intro h
              have hasked : (t''.ask (renameWithOptions fold source target (plan = .replaceFile))
                  sc.rename).1 = .ok () := by
                revert h
                cases (t''.ask (renameWithOptions fold source target (plan = .replaceFile))
                  sc.rename).1 with
                | error e => exact fun h => (by cases h)
                | ok u => exact fun _ => rfl
              obtain ⟨hok, hrequests⟩ := Talk.ask_ok hasked
              obtain ⟨tree, hsource, hgone, hthere⟩ := renameWithOptions_ok htarget hne hok
              exact ⟨_, _, _, tree, hrequests, hsource, hgone, hthere⟩

/-- Whoever else is at work and whatever becomes of its requests, a move takes away an empty folder
that is in its way, or a file for the entry that comes there, where a file was seen; all else it
keeps, and the entry that is moved is whole at the one end or at the other. A move that is answered
well ends with the entry at its target. -/
theorem smbMoveTo_keeps {src dst : SmbPath} (hsource : SmbPath.fromLogical source = .ok src)
    (htarget : SmbPath.fromLogical target = .ok dst)
    (hne : ¬ src.logical.map fold <+: dst.logical.map fold) (sc : SmbMoveScript)
    (shared : Shared) :
    (∀ before v w after, (smbMoveTo fold sc source target ⟨shared, []⟩).2.requests =
        before ++ (v, w) :: after → MoveKeeps fold src.logical dst.logical before v w) ∧
      ((smbMoveTo fold sc source target ⟨shared, []⟩).1 = .ok () →
        ∃ before v w tree, (smbMoveTo fold sc source target ⟨shared, []⟩).2.requests =
            before ++ [(v, w)] ∧ v.treeAt fold src.logical = some tree ∧
          w.treeAt fold src.logical = none ∧ w.treeAt fold dst.logical = some tree) := by
  have hempty : EachRequest (MoveRequest fold src.logical dst.logical) (Talk.mk shared []).requests :=
    .nil
  unfold smbMoveTo
  rw [hsource, htarget]
  dsimp only
  split
  case isTrue =>
    exact ⟨fun before v w after h => ((hempty before v w after h).keeps dst.logical_ne_nil hne),
      fun h => (by cases h)⟩
  case isFalse =>
    cases sc.ready with
    | some e =>
        exact ⟨fun before v w after h => ((hempty before v w after h).keeps dst.logical_ne_nil hne),
          fun h => (by cases h)⟩
    | none =>
        exact ⟨fun before v w after h =>
          (moveInShare_careful hempty before v w after h).keeps dst.logical_ne_nil hne,
          moveInShare_ok dst.logical_ne_nil hne⟩

/-- A file is moved to a name that another client takes between the look and the rename: the rename
is refused and both files stay. -/
def takenMeanwhile : Shared where
  volume := ⟨.dir [("share", .dir [("scan", .file [1])])], []⟩
  others := [id, id, fun _ => .dir [("share", .dir [("scan", .file [1]), ("photo", .file [2])])]]

theorem smbMoveTo_keeps_taken :
    (smbMoveTo id ⟨none, .answered, .answered, .answered, .answered⟩ ["share", "scan"]
        ["share", "photo"] ⟨takenMeanwhile, []⟩).2.requests.length = 3 ∧
      (smbMoveTo id ⟨none, .answered, .answered, .answered, .answered⟩ ["share", "scan"]
        ["share", "photo"] ⟨takenMeanwhile, []⟩).1 = .error .alreadyExists ∧
      ∀ before v w after, (smbMoveTo id ⟨none, .answered, .answered, .answered, .answered⟩
          ["share", "scan"] ["share", "photo"] ⟨takenMeanwhile, []⟩).2.requests =
          before ++ (v, w) :: after →
        MoveKeeps id ["share", "scan"] ["share", "photo"] before v w :=
  ⟨by decide +kernel, by decide +kernel,
    (@smbMoveTo_keeps id ["share", "scan"] ["share", "photo"] ⟨"share", ["scan"]⟩
      ⟨"share", ["photo"]⟩ (by decide +kernel) (by decide +kernel) (by decide)
      ⟨none, .answered, .answered, .answered, .answered⟩ takenMeanwhile).1⟩

end Move

end SynologyFilestation.Smb
