import SynologyFilestation.Smb.Moving

/-!
A move and a delete over SMB as the calls that the client takes them for (`MetadataTransport` in
`core/src/transport.rs`).

With nobody else at work, a move is the one call that moves as `rename(2)` does, whatever becomes of
its requests. A delete is not: `MetadataTransport::delete` refuses a folder that has entries, and so
does the server, but SMB tells of the refusal as of a dead link.
-/

namespace SynologyFilestation.Smb

open Core Library

/-! ### A move with nobody else at work -/

section Alone

variable {fold : String → String} {source target : NasPath} {v w : Volume} {sc : SmbMoveScript}

/-- One call to a backend, whatever becomes of it. -/
def IsCall {α : Type} (op : Operation Volume α) (v : Volume) (r : Except SynoFsError α × Volume) :
    Prop :=
  ∃ fate, ∀ asked told, r = askBackend op ⟨asked, told, fate⟩ v

theorem IsCall.refused {α : Type} (op : Operation Volume α) (v : Volume) (e : SynoFsError) :
    IsCall op v (.error e, v) := ⟨.refused e, fun _ _ => rfl⟩

theorem IsCall.answered {α : Type} {op : Operation Volume α} {r : Except SynoFsError α × Volume}
    (h : r = op.run .backend v) : IsCall op v r := ⟨.answered, fun _ _ => h⟩

/-- A move is one call to a backend that moves, or it is given up when the empty folder in its way
is gone. -/
def Settles (fold : String → String) (source target : NasPath) (v : Volume)
    (r : Except SynoFsError Unit × Volume) : Prop :=
  IsCall (moveOp fold source target) v r ∨
    ((∃ e, r.1 = .error e) ∧ (∃ children, v.treeAt fold source = some (.dir children)) ∧
      v.treeAt fold target = some (.dir []) ∧ r.2 = v.remove fold target)

theorem moveRefused_lost {e : Smb2.Error} (h : isConnectionLost e.kind.ofSession = true) :
    ∃ message, moveRefused e = .io message := by
  obtain ⟨kind, full, text⟩ := e
  refine ⟨"smb: " ++ text, ?_⟩
  rw [moveRefused, if_pos h]
  cases kind <;> first | rfl | cases h

theorem mapError_relocate (v : Volume) :
    ((v.relocate fold source target).1.mapError fun _ => saying .notFound).mapError moveRefused =
      (v.relocate fold source target).1 := by
  cases h : (v.relocate fold source target).1 with
  | ok u => rfl
  | error e => rw [(Volume.relocate_error h).1]; rfl

theorem mapError_replaceFile (v : Volume) :
    ((v.replaceFile fold source target).1.mapError fun _ => saying .notFound).mapError
      moveRefused = (v.replaceFile fold source target).1 := by
  cases h : (v.replaceFile fold source target).1 with
  | ok u => rfl
  | error e => rw [(Volume.replaceFile_error h).1]; rfl

/-- The rename of a move, as the move tells of it. -/
def renamed (fold : String → String) (source target : NasPath) (replace : Bool) (v : Volume) :
    Except SynoFsError Unit × Volume :=
  ((renameWithOptions fold source target replace v).1.mapError moveRefused,
    (renameWithOptions fold source target replace v).2)

/-- A move to a free name hangs the entry in there. -/
theorem moveTo_free (htarget : v.treeAt fold target = none) :
    v.moveTo fold source target = if v.treeAt fold source = none then (.error .notFound, v)
      else v.relocate fold source target := by
  unfold Volume.moveTo
  rw [htarget]
  cases v.treeAt fold source with
  | none => rfl
  | some tree => cases tree <;> rfl

theorem renamed_fresh {replace : Bool} (htarget : v.treeAt fold target = none) :
    renamed fold source target replace v = v.moveTo fold source target := by
  rw [moveTo_free htarget]
  unfold renamed renameWithOptions
  rw [htarget]
  cases v.treeAt fold source with
  | none => rfl
  | some tree => exact Prod.ext (mapError_relocate v) rfl

theorem renamed_file {content shown : Bytes} (hsource : v.treeAt fold source = some (.file content))
    (htarget : v.treeAt fold target = some (.file shown)) :
    renamed fold source target true v = v.moveTo fold source target := by
  unfold renamed renameWithOptions Volume.moveTo
  rw [hsource, htarget]
  exact Prod.ext (mapError_replaceFile v) rfl

theorem renamed_cleared {replace : Bool} {children : List Entry}
    (hsource : v.treeAt fold source = some (.dir children))
    (htarget : v.treeAt fold target = some (.dir [])) :
    renamed fold source target replace (v.remove fold target) = v.moveTo fold source target := by
  rw [renamed_fresh Volume.treeAt_remove, moveTo_free Volume.treeAt_remove, Volume.moveTo, hsource,
    htarget]
  split
  case isTrue hgone =>
    change _ = (v.remove fold target).relocate fold source target
    unfold Volume.relocate
    rw [hgone]
    rcases splitNasPath source with _ | _ <;> rcases splitNasPath target with _ | _ <;> rfl
  case isFalse => rfl

/-- A rename where nothing may be replaced leaves what is there. -/
theorem renamed_taken (source : NasPath) {tree : Tree} (htarget : v.treeAt fold target = some tree) :
    (renameWithOptions fold source target false v).2 = v ∧
      ∃ e, (renameWithOptions fold source target false v).1 = .error e := by
  unfold renameWithOptions
  rw [htarget]
  cases v.treeAt fold source with
  | none => exact ⟨rfl, _, rfl⟩
  | some moving => cases tree <;> exact ⟨rfl, _, rfl⟩

/-- The rename ends the move: on the volume as it was, or on the one without the empty folder. -/
theorem rename_settles {replace : Bool} (fate : RequestFate)
    (hmoves : renamed fold source target replace w = v.moveTo fold source target)
    (hw : w = v ∨ ((∃ children, v.treeAt fold source = some (.dir children)) ∧
      v.treeAt fold target = some (.dir []) ∧ w = v.remove fold target)) :
    Settles fold source target v
      ((fate.run (renameWithOptions fold source target replace) w).1.mapError moveRefused,
        (fate.run (renameWithOptions fold source target replace) w).2) := by
  cases fate with
  | answered => exact Or.inl (.answered hmoves)
  | refused e =>
      rcases hw with rfl | ⟨hsource, htarget, rfl⟩
      · exact Or.inl (.refused _ _ _)
      · exact Or.inr ⟨⟨_, rfl⟩, hsource, htarget, rfl⟩
  | lost ran e =>
      obtain ⟨message, hmessage⟩ := moveRefused_lost e.property
      cases ran with
      | true =>
          have hvolume := congrArg Prod.snd hmoves
          exact Or.inl ⟨.lost true message, fun _ _ =>
            Prod.ext (congrArg Except.error hmessage) hvolume⟩
      | false =>
          rcases hw with rfl | ⟨hsource, htarget, rfl⟩
          · exact Or.inl (.refused _ _ _)
          · exact Or.inr ⟨⟨_, rfl⟩, hsource, htarget, rfl⟩

/-- The answer of a call and the volume it leaves. -/
def told {α : Type} (r : Except SynoFsError α × Talk) : Except SynoFsError α × Volume :=
  (r.1, r.2.shared.volume)

theorem Talk.ask_alone {α : Type} (op : Volume → Except Smb2.Error α × Volume) (fate : RequestFate)
    {t : Talk} (ht : t.shared = ⟨v, []⟩) :
    (t.ask op fate).1 = (fate.run op v).1 ∧ (t.ask op fate).2.shared = ⟨(fate.run op v).2, []⟩ := by
  obtain ⟨shared, requests⟩ := t
  obtain rfl := ht
  exact ⟨rfl, rfl⟩

theorem RequestFate.run_stat (fold : String → String) (fate : RequestFate) (path : NasPath) (v : Volume) :
    (fate.run (statDir fold path) v).2 = v ∧
      ∀ isDirectory, (fate.run (statDir fold path) v).1 = .ok isDirectory →
        ∃ tree, v.treeAt fold path = some tree ∧ isDir tree = isDirectory := by
  cases fate with
  | refused e => exact ⟨rfl, fun _ h => (by cases h)⟩
  | lost ran e =>
      refine ⟨?_, fun _ h => (by cases h)⟩
      cases ran with
      | true => exact statDir_volume path v
      | false => rfl
  | answered =>
      refine ⟨statDir_volume path v, fun isDirectory h => ?_⟩
      change (statDir fold path v).1 = _ at h
      unfold statDir at h
      split at h
      case h_1 => cases h
      case h_2 tree htree => exact ⟨tree, htree, Except.ok.inj h⟩

/-- The delete that is tried takes an empty folder, heard or not, and nothing else. -/
theorem RequestFate.run_clear (fold : String → String) (fate : RequestFate) (target : NasPath) (v : Volume) :
    ((fate.run (deleteDirectory fold target) v).1 = .ok () →
      v.treeAt fold target = some (.dir []) ∧
        (fate.run (deleteDirectory fold target) v).2 = v.remove fold target) ∧
    ∀ e, (fate.run (deleteDirectory fold target) v).1 = .error e →
      (fate.run (deleteDirectory fold target) v).2 = v ∨
        (v.treeAt fold target = some (.dir []) ∧
          (fate.run (deleteDirectory fold target) v).2 = v.remove fold target ∧
          moveRefused e ≠ .notEmpty) := by
  have hdelete : (∃ e, deleteDirectory fold target v = (.error e, v)) ∨
      (v.treeAt fold target = some (.dir []) ∧
        deleteDirectory fold target v = (.ok (), v.remove fold target)) := by
    unfold deleteDirectory
    split
    case h_1 => exact Or.inl ⟨_, rfl⟩
    case h_2 => exact Or.inl ⟨_, rfl⟩
    case h_3 hempty => exact Or.inr ⟨hempty, rfl⟩
    case h_4 => exact Or.inl ⟨_, rfl⟩
  cases fate with
  | answered =>
      change ((deleteDirectory fold target v).1 = _ → _ ∧ (deleteDirectory fold target v).2 = _) ∧
        ∀ e, (deleteDirectory fold target v).1 = _ → (deleteDirectory fold target v).2 = _ ∨
          (_ ∧ (deleteDirectory fold target v).2 = _ ∧ _)
      rcases hdelete with ⟨e, hrun⟩ | ⟨hempty, hrun⟩
      · rw [hrun]
        exact ⟨fun h => (by cases h), fun _ _ => Or.inl rfl⟩
      · rw [hrun]
        exact ⟨fun _ => ⟨hempty, rfl⟩, fun _ h => (by cases h)⟩
  | refused e => exact ⟨fun h => (by cases h), fun _ _ => Or.inl rfl⟩
  | lost ran e =>
      refine ⟨fun h => (by cases h), fun e' h => ?_⟩
      obtain rfl := Except.error.inj h
      obtain ⟨message, hmessage⟩ := moveRefused_lost e.property
      cases ran with
      | false => exact Or.inl rfl
      | true =>
          change (deleteDirectory fold target v).2 = _ ∨
            (_ ∧ (deleteDirectory fold target v).2 = _ ∧ _)
          rcases hdelete with ⟨_, hrun⟩ | ⟨hempty, hrun⟩
          · rw [hrun]
            exact Or.inl rfl
          · rw [hrun, hmessage]
            exact Or.inr ⟨hempty, rfl, fun h => (by cases h)⟩

/-- What a move that nobody disturbs comes upon at its target, and leaves there. -/
inductive Comes (fold : String → String) (target : NasPath) (v : Volume) (sourceIsDir : Bool) :
    Except SynoFsError Destination → Volume → Prop
  | failed (e : SynoFsError) : Comes fold target v sourceIsDir (.error e) v
  | absent : Comes fold target v sourceIsDir (.ok .absent) v
  | file {content : Bytes} (hfile : v.treeAt fold target = some (.file content)) :
      Comes fold target v sourceIsDir (.ok .file) v
  | taken : Comes fold target v sourceIsDir (.ok (.dir false)) v
  | cleared (hdir : sourceIsDir = true) (hempty : v.treeAt fold target = some (.dir [])) :
      Comes fold target v sourceIsDir (.ok .absent) (v.remove fold target)
  | unheard (e : SynoFsError) (hdir : sourceIsDir = true)
      (hempty : v.treeAt fold target = some (.dir [])) :
      Comes fold target v sourceIsDir (.error e) (v.remove fold target)

theorem moveDestination_comes (target : NasPath) (sc : SmbMoveScript) {t : Talk} (ht : t.shared = ⟨v, []⟩) (sourceIsDir : Bool) :
    ∃ w, (moveDestination fold sc target sourceIsDir t).2.shared = ⟨w, []⟩ ∧
      Comes fold target v sourceIsDir (moveDestination fold sc target sourceIsDir t).1 w := by
  obtain ⟨hanswer, hshared⟩ := Talk.ask_alone (statDir fold target) sc.dest ht
  obtain ⟨hsame, hthere⟩ := sc.dest.run_stat fold target v
  unfold moveDestination
  cases hstat : t.ask (statDir fold target) sc.dest with
  | mk found t' =>
      rw [hstat, hsame] at hshared
      rw [hstat] at hanswer
      rcases found with e | _ | _
      · refine ⟨v, hshared, ?_⟩
        dsimp only
        split
        case isTrue => exact .absent
        case isFalse => exact .failed _
      · obtain ⟨tree, htree, hkind⟩ := hthere false hanswer.symm
        cases tree with
        | file content => exact ⟨v, hshared, .file htree⟩
        | dir children => cases hkind
      · dsimp only
        cases sourceIsDir with
        | false => exact ⟨v, hshared, .taken⟩
        | true =>
            obtain ⟨hcleared, hshared'⟩ :=
              Talk.ask_alone (deleteDirectory fold target) sc.clear hshared
            obtain ⟨hok, herror⟩ := sc.clear.run_clear fold target v
            rw [← hcleared] at hok herror
            simp only [Bool.not_true, Bool.false_eq_true, if_false]
            cases hask : t'.ask (deleteDirectory fold target) sc.clear with
            | mk cleared t'' =>
                rw [hask] at hok herror hshared'
                rcases cleared with e | _
                · rcases herror e rfl with hkept | ⟨hempty, hgone, hother⟩
                  · refine ⟨v, by rw [hshared', hkept], ?_⟩
                    dsimp only
                    split
                    case isTrue => exact .taken
                    case isFalse => exact .failed _
                  · refine ⟨_, by rw [hshared', hgone], ?_⟩
                    dsimp only
                    rw [if_neg hother]
                    exact .unheard _ rfl hempty
                · obtain ⟨hempty, hgone⟩ := hok rfl
                  exact ⟨_, by rw [hshared', hgone], .cleared rfl hempty⟩

/-- The rename, on a volume that nobody else changes. -/
theorem told_rename {t : Talk} (ht : t.shared = ⟨w, []⟩) (replace : Bool) (fate : RequestFate) :
    told ((t.ask (renameWithOptions fold source target replace) fate).1.mapError moveRefused,
        (t.ask (renameWithOptions fold source target replace) fate).2) =
      ((fate.run (renameWithOptions fold source target replace) w).1.mapError moveRefused,
        (fate.run (renameWithOptions fold source target replace) w).2) := by
  obtain ⟨hanswer, hshared⟩ :=
    Talk.ask_alone (renameWithOptions fold source target replace) fate ht
  rw [told, hanswer, hshared]

theorem rename_settles_taken {tree : Tree} (fate : RequestFate)
    (htarget : v.treeAt fold target = some tree) :
    Settles fold source target v
      ((fate.run (renameWithOptions fold source target false) v).1.mapError moveRefused,
        (fate.run (renameWithOptions fold source target false) v).2) := by
  obtain ⟨hsame, e, herror⟩ := renamed_taken source htarget
  refine Or.inl ?_
  cases fate with
  | refused e => exact .refused _ v _
  | lost ran e =>
      cases ran with
      | false => exact .refused _ v _
      | true =>
          change IsCall _ v (.error (moveRefused e.val),
            (renameWithOptions fold source target false v).2)
          rw [hsame]
          exact .refused _ v _
  | answered =>
      change IsCall _ v ((renameWithOptions fold source target false v).1.mapError moveRefused,
        (renameWithOptions fold source target false v).2)
      rw [hsame, herror]
      exact .refused _ v _

theorem moveInShare_settles {t : Talk} (ht : t.shared = ⟨v, []⟩) :
    Settles fold source target v (told (moveInShare fold sc source target t)) := by
  obtain ⟨hanswer, hshared⟩ := Talk.ask_alone (statDir fold source) sc.source ht
  obtain ⟨hsame, hthere⟩ := sc.source.run_stat fold source v
  unfold moveInShare
  cases hstat : t.ask (statDir fold source) sc.source with
  | mk found t' =>
      rw [hstat, hsame] at hshared
      rw [hstat] at hanswer
      rcases found with e | sourceIsDir
      · refine Or.inl ?_
        change IsCall _ v (.error (moveRefused e), t'.shared.volume)
        rw [hshared]
        exact .refused _ v _
      obtain ⟨tree, htree, hkind⟩ := hthere sourceIsDir hanswer.symm
      dsimp only
      obtain ⟨w, hw, hcomes⟩ := moveDestination_comes target sc hshared sourceIsDir
      cases hgo : moveDestination fold sc target sourceIsDir t' with
      | mk dest t'' =>
          rw [hgo] at hw hcomes
          dsimp only at hw hcomes ⊢
          have hfails : ∀ e : SynoFsError, t''.shared = ⟨v, []⟩ →
              Settles fold source target v (told (.error e, t'')) := by
            intro e hstill
            rw [told, hstill]
            exact Or.inl (.refused _ v e)
          cases hcomes with
          | failed e => exact hfails e hw
          | taken => cases sourceIsDir <;> exact hfails _ hw
          | unheard e hdir hempty =>
              subst hdir
              cases tree with
              | file content => cases hkind
              | dir children =>
                  rw [Except.bind, told, hw]
                  exact Or.inr ⟨⟨e, rfl⟩, ⟨children, htree⟩, hempty, rfl⟩
          | absent =>
              have hplan : planMove sourceIsDir .absent = .ok .fresh := by cases sourceIsDir <;> rfl
              rw [Except.bind, hplan]
              refine (told_rename hw false sc.rename).symm ▸ ?_
              cases hfree : v.treeAt fold target with
              | none => exact rename_settles sc.rename (renamed_fresh hfree) (Or.inl rfl)
              | some there => exact rename_settles_taken sc.rename hfree
          | file hfile =>
              cases tree with
              | dir children =>
                  subst hkind
                  exact hfails _ hw
              | file content =>
                  subst hkind
                  refine (told_rename hw true sc.rename).symm ▸ ?_
                  exact rename_settles sc.rename (renamed_file htree hfile) (Or.inl rfl)
          | cleared hdir hempty =>
              subst hdir
              cases tree with
              | file content => cases hkind
              | dir children =>
                  refine (told_rename hw false sc.rename).symm ▸ ?_
                  exact rename_settles sc.rename (renamed_cleared htree hempty)
                    (Or.inr ⟨⟨children, htree⟩, hempty, rfl⟩)

/-- Nobody else on the NAS. -/
def alone (v : Volume) : Talk := ⟨⟨v, []⟩, []⟩

theorem smbMoveTo_settles_any (hsource : trimMatches source = source)
    (htarget : trimMatches target = target) (sc : SmbMoveScript) (v : Volume) :
    Settles fold source target v (told (smbMoveTo fold sc source target (alone v))) := by
  unfold smbMoveTo
  cases hsrc : SmbPath.fromLogical source with
  | error e => exact Or.inl (.refused _ v e)
  | ok src =>
      cases hdst : SmbPath.fromLogical target with
      | error e => exact Or.inl (.refused _ v e)
      | ok dst =>
          dsimp only
          split
          case isTrue => exact Or.inl (.refused _ v _)
          case isFalse =>
            cases sc.ready with
            | some e => exact Or.inl (.refused _ v e)
            | none =>
                have hends : Settles fold src.logical dst.logical v
                    (told (moveInShare fold sc src.logical dst.logical (alone v))) :=
                  moveInShare_settles rfl
                rwa [SmbPath.logical_of_fromLogical hsrc, SmbPath.logical_of_fromLogical hdst,
                  hsource, htarget] at hends ⊢

/-- Every request answered. -/
def SmbMoveScript.plain : SmbMoveScript := ⟨none, .answered, .answered, .answered, .answered⟩

/-- What an undisturbed move comes upon at its target, and leaves there. -/
def comesUpon (fold : String → String) (target : NasPath) (sourceIsDir : Bool) (v : Volume) :
    Destination × Volume :=
  match v.treeAt fold target, sourceIsDir with
  | some (.dir []), true => (.absent, v.remove fold target)
  | none, _ => (.absent, v)
  | some (.file _), _ => (.file, v)
  | some (.dir _), _ => (.dir false, v)

theorem moveDestination_plain (fold : String → String) (target : NasPath) (v : Volume) (requests : List (Volume × Volume))
    (sourceIsDir : Bool) :
    ∃ requests', moveDestination fold .plain target sourceIsDir ⟨⟨v, []⟩, requests⟩ =
      (.ok (comesUpon fold target sourceIsDir v).1,
        ⟨⟨(comesUpon fold target sourceIsDir v).2, []⟩, requests'⟩) := by
  unfold moveDestination SmbMoveScript.plain comesUpon
  rw [Talk.ask_answered]
  rcases htarget : v.treeAt fold target with _ | (content | (_ | ⟨e, rest⟩))
  · simp [statDir, htarget, saying]
  · simp [statDir, htarget, isDir]
  · cases sourceIsDir with
    | false => simp [statDir, htarget, isDir]
    | true => simp [statDir, htarget, isDir, Talk.ask_answered, deleteDirectory]
  · cases sourceIsDir with
    | false => simp [statDir, htarget, isDir]
    | true =>
        simp [statDir, htarget, isDir, Talk.ask_answered, deleteDirectory, directoryNotEmpty,
          moveRefused, moveError, Smb2.ErrorKind.ofSession, isConnectionLost]

/-- A move that is not disturbed moves as `rename(2)` does. -/
theorem moveInShare_plain (source target : NasPath) (v : Volume) :
    told (moveInShare fold .plain source target (alone v)) = v.moveTo fold source target := by
  unfold moveInShare alone
  cases hsource : v.treeAt fold source with
  | none =>
      rw [Volume.moveTo, hsource]
      simp [SmbMoveScript.plain, Talk.ask_answered, statDir, hsource, told, moveRefused, saying,
        moveError, toSynoError, kindToSyno, Smb2.ErrorKind.ofSession, isConnectionLost]
  | some tree =>
      have hstat : statDir fold source v = (.ok (isDir tree), v) := by rw [statDir, hsource]
      rw [show SmbMoveScript.plain.source = .answered from rfl, Talk.ask_answered, hstat]
      dsimp only
      obtain ⟨requests, hdest⟩ := moveDestination_plain fold target v ([] ++ [(v, v)])
        (isDir tree)
      rw [hdest]
      dsimp only [Except.bind]
      cases tree with
      | file content =>
          unfold comesUpon
          rcases htarget : v.treeAt fold target with _ | (shown | (_ | ⟨e, rest⟩))
          · exact (told_rename rfl false .answered).trans (renamed_fresh htarget)
          · exact (told_rename rfl true .answered).trans (renamed_file hsource htarget)
          · rw [Volume.moveTo, hsource, htarget]
            rfl
          · rw [Volume.moveTo, hsource, htarget]
            rfl
      | dir children =>
          unfold comesUpon
          rcases htarget : v.treeAt fold target with _ | (shown | (_ | ⟨e, rest⟩))
          · exact (told_rename rfl false .answered).trans (renamed_fresh htarget)
          · rw [Volume.moveTo, hsource, htarget]
            rfl
          · exact (told_rename rfl false .answered).trans (renamed_cleared hsource htarget)
          · rw [Volume.moveTo, hsource, htarget]
            rfl

/-- With nobody else at work a move over SMB is one call to a backend that moves as `rename(2)`
does, whatever becomes of its requests: answered, refused, or lost with the entry moved or not. Only
where a folder goes in place of an empty one can it end between the two, with the empty one gone. -/
theorem smbMoveTo_settles (hsource : trimMatches source = source)
    (htarget : trimMatches target = target) (v : Volume) :
    (∀ sc, Settles fold source target v (told (smbMoveTo fold sc source target (alone v)))) ∧
      ∀ src dst, SmbPath.fromLogical source = .ok src → SmbPath.fromLogical target = .ok dst →
        src.share = dst.share → told (smbMoveTo fold .plain source target (alone v)) =
          (moveOp fold source target).run .backend v := by
  refine ⟨fun sc => smbMoveTo_settles_any hsource htarget sc v, fun src dst hsrc hdst hshare => ?_⟩
  have hends : told (moveInShare fold .plain src.logical dst.logical (alone v)) =
      v.moveTo fold src.logical dst.logical := moveInShare_plain _ _ v
  rw [SmbPath.logical_of_fromLogical hsrc, SmbPath.logical_of_fromLogical hdst, hsource,
    htarget] at hends
  rw [smbMoveTo, hsrc, hdst]
  dsimp only
  rw [if_neg (fun h => h hshare)]
  change told (moveInShare fold .plain src.logical dst.logical (alone v)) = _
  rw [SmbPath.logical_of_fromLogical hsrc, SmbPath.logical_of_fromLogical hdst, hsource, htarget]
  exact hends

/-- A folder goes in place of an empty one, and the rename is lost before it ran. -/
theorem smbMoveTo_settles_cleared :
    let v : Volume := ⟨.dir [("share", .dir [("album", .dir []), ("old", .dir [])])], []⟩
    Settles id ["share", "album"] ["share", "old"] v (told (smbMoveTo id
      ⟨none, .answered, .answered, .answered, .lost false ⟨⟨.timedOut, false, "timed out"⟩, rfl⟩⟩
      ["share", "album"] ["share", "old"] (alone v))) :=
  (smbMoveTo_settles (by decide +kernel) (by decide +kernel) _).1 _

end Alone

/-! ### A delete -/

section Delete

variable {fold : String → String} {path : NasPath} {v : Volume}

/-- What one request of a delete does to the NAS. -/
def DeleteRequest (fold : String → String) (path : NasPath) (_ : List (Volume × Volume))
    (v w : Volume) : Prop :=
  w = v ∨ ∃ tree, v.treeAt fold path = some tree ∧ tree.isFull = false ∧ w = v.remove fold path

theorem deleteSeen_run (fold : String → String) (isDirectory : Bool) (path : NasPath)
    (v : Volume) :
    (∃ e, deleteSeen fold isDirectory path v = (.error e, v)) ∨
      ∃ tree, v.treeAt fold path = some tree ∧ tree.isFull = false ∧
        deleteSeen fold isDirectory path v = (.ok (), v.remove fold path) := by
  unfold deleteSeen
  split
  case isTrue =>
    unfold deleteDirectory
    split
    case h_1 => exact Or.inl ⟨_, rfl⟩
    case h_2 => exact Or.inl ⟨_, rfl⟩
    case h_3 hempty => exact Or.inr ⟨_, hempty, rfl, rfl⟩
    case h_4 => exact Or.inl ⟨_, rfl⟩
  case isFalse =>
    unfold deleteFile
    split
    case h_1 => exact Or.inl ⟨_, rfl⟩
    case h_2 => exact Or.inl ⟨_, rfl⟩
    case h_3 hfile => exact Or.inr ⟨_, hfile, rfl, rfl⟩

/-- Whoever else is at work and whatever becomes of its requests, a delete takes a file or an empty
folder. -/
theorem smbDelete_spares (hpath : trimMatches path = path) (ready : Option SynoFsError)
    (stat delete : RequestFate) (shared : Shared) :
    EachRequest (DeleteRequest fold path)
      (smbDelete fold ready stat delete path ⟨shared, []⟩).2.requests := by
  have hstill : ∀ before v, DeleteRequest fold path before v v := fun _ _ => Or.inl rfl
  unfold smbDelete
  cases hloc : SmbPath.fromLogical path with
  | error e => exact .nil
  | ok loc =>
      cases ready with
      | some e => exact .nil
      | none =>
          dsimp only
          rw [SmbPath.logical_of_fromLogical hloc, hpath]
          have hlook := EachRequest.look fold (t := ⟨shared, []⟩) .nil hstill path stat
          cases hstat : Talk.ask (statDir fold path) stat ⟨shared, []⟩ with
          | mk found t =>
              rw [hstat] at hlook
              rcases found with e | isDirectory
              · exact hlook
              · refine hlook.ask delete hstill fun v => ?_
                rcases deleteSeen_run fold isDirectory path v with
                  ⟨e, hrun⟩ | ⟨tree, htree, hfull, hrun⟩
                · rw [hrun]
                  exact Or.inl rfl
                · rw [hrun]
                  exact Or.inr ⟨tree, htree, hfull, rfl⟩

/-- What SMB says of a folder with entries. -/
theorem smbDelete_full {e : Entry} {rest : List Entry} (hpath : trimMatches path = path)
    (hfull : v.treeAt fold path = some (.dir (e :: rest))) :
    told (smbDelete fold none .answered .answered path (alone v)) = (.error (.io "smb: "), v) := by
  have hne : path ≠ [] := by
    rintro rfl
    cases hfull
  obtain ⟨loc, hloc, hlogical⟩ := SmbPath.fromLogical_of_trimmed hpath hne
  have hstat : statDir fold path v = (.ok true, v) := by rw [statDir, hfull]; rfl
  have hdelete : deleteDirectory fold path v = (.error directoryNotEmpty, v) := by
    rw [deleteDirectory, hfull]
  rw [smbDelete, hloc]
  dsimp only
  rw [hlogical, alone, Talk.ask_answered, hstat]
  dsimp only
  rw [Talk.ask_answered, show deleteSeen fold true path = deleteDirectory fold path from rfl,
    hdelete]
  rfl

/-- A delete over SMB takes no folder that has entries, whoever else is at work. But the refusal
reads as a dead link: the backend is passed by, and FileStation's delete, which is next, takes the
folder with all that is in it. -/
theorem full_folder_passed_on (hpath : trimMatches path = path) :
    (∀ ready stat delete shared, EachRequest (DeleteRequest fold path)
      (smbDelete fold ready stat delete path ⟨shared, []⟩).2.requests) ∧
    ∀ (v : Volume) (e : Entry) (rest : List Entry) (b : CircuitBreaker) (now later : ℕ),
      v.treeAt fold path = some (.dir (e :: rest)) → (b.allows now).1 = true →
        viaTransports (fun (_ : Unit) v =>
            told (smbDelete fold none .answered .answered path (alone v)))
            (fun _ _ => now) (fun _ _ => later) [⟨(), b⟩] v =
          (none, [⟨(), (b.allows now).2.onFailure later⟩], v) ∧
        (v.delete fold .http path).2 = v.remove fold path := by
  refine ⟨smbDelete_spares hpath, fun v e rest b now later hfull hallows => ⟨?_, ?_⟩⟩
  · rw [viaTransports]
    cases hb : b.allows now with
    | mk allowed breaker =>
        rw [hb] at hallows
        obtain rfl := hallows
        dsimp only
        rw [smbDelete_full hpath hfull]
        rfl
  · exact Volume.delete_http

theorem full_folder_passed_on_docs :
    let v : Volume := ⟨.dir [("share", .dir [("docs", .dir [("a", .file [1])])])], []⟩
    let b : CircuitBreaker := .new ⟨2, 30⟩
    viaTransports (fun (_ : Unit) v =>
        told (smbDelete id none .answered .answered ["share", "docs"] (alone v)))
        (fun _ _ => 0) (fun _ _ => 0) [⟨(), b⟩] v =
      (none, [⟨(), (b.allows 0).2.onFailure 0⟩], v) ∧
    (v.delete id .http ["share", "docs"]).2 = v.remove id ["share", "docs"] :=
  (@full_folder_passed_on id ["share", "docs"] (by decide +kernel)).2 _ ("a", .file [1]) [] _ 0 0
    rfl rfl

end Delete

end SynologyFilestation.Smb
