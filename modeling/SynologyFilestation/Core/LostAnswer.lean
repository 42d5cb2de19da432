import SynologyFilestation.Core.UndoneMove

/-!
A change that a backend makes without being heard (`via_metadata!`, and `rename` in
`smb/src/transport.rs`).

Falling back takes it that the backend did nothing. Where it did, the next party finds the work
done, and what it answers is about that: there is no such entry, or there is one already.
-/

namespace SynologyFilestation.Core

open Library

/-! ### A rename over SMB -/

section Smb

variable (fold : String → String)

/-- What becomes of the two messages of a rename. -/
structure SmbRenameScript where
  rename : BackendFate
  stat : BackendFate

/-- The logical path a rename produces. -/
def siblingPath (oldPath : NasPath) (newName : String) : NasPath :=
  (trimEnd oldPath).dropLast ++ [newName]

/-- `SmbTransport::rename`. The information of the answer is asked for when the entry has its new
name. -/
def smbRename (sc : SmbRenameScript) (old : NasPath) (newName : String) (v : Volume) :
    Except SynoFsError SynoFileInfo × Volume :=
  match askBackend (renameOp fold old newName) ⟨0, 0, sc.rename⟩ v with
  | (Except.error e, v) => (.error e, v)
  | (Except.ok _, v) => askBackend (getInfoOp fold (siblingPath old newName)) ⟨0, 0, sc.stat⟩ v

variable {fold} {sc : SmbRenameScript} {dir : NasPath} {name newName message : String} {v : Volume}

theorem siblingPath_concat (hname : name ≠ "") :
    siblingPath (dir ++ [name]) newName = dir ++ [newName] := by
  simp [siblingPath, trimEnd, hname]

/-- What a rename comes to that is possible. -/
theorem Volume.rename_eq {p : Party} {e : Entry} (hcan : v.CanRename fold dir name newName)
    (hentry : v.entryAt fold (dir ++ [name]) = some e) :
    v.rename fold p (dir ++ [name]) newName = (.ok (Entry.info (newName, e.2) (dir ++ [name])),
      { v with root := v.root.alterDir fold (FileTree.renameEntry fold · name newName) dir }) := by
  have hfree : ¬(fold newName ≠ fold name ∧
      (v.entryAt fold (dir ++ [newName])).isSome = true) := by
    rintro ⟨hdistinct, hdest⟩
    rw [hcan.2 hdistinct] at hdest
    cases hdest
  simp only [Volume.rename, splitNasPath_concat, hentry, if_neg hfree]

theorem smbRename_ok {w : Volume} {info : SynoFileInfo} (hrename : sc.rename = .answered)
    (hrun : v.rename fold .backend (dir ++ [name]) newName = (.ok info, w)) :
    smbRename fold sc (dir ++ [name]) newName v =
      askBackend (getInfoOp fold (siblingPath (dir ++ [name]) newName)) ⟨0, 0, sc.stat⟩ w := by
  have hop : (renameOp fold (dir ++ [name]) newName).run .backend v = (.ok info, w) := hrun
  simp only [smbRename, hrename, askBackend, hop]

/-- A stat that is lost leaves a rename that was done and not heard of. -/
theorem smbRename_stat_lost {ran : Bool} (hrename : sc.rename = .answered)
    (hstat : sc.stat = .lost ran message) (hcan : v.CanRename fold dir name newName)
    (asked told : ℕ) :
    smbRename fold sc (dir ++ [name]) newName v =
      askBackend (renameOp fold (dir ++ [name]) newName) ⟨asked, told, .lost true message⟩ v := by
  obtain ⟨info, hinfo⟩ := (Volume.rename_allowed (p := .backend) hcan).1
  rw [smbRename_ok hrename (Prod.ext hinfo rfl), hstat]
  refine Prod.ext rfl ?_
  change (if ran then (Volume.getInfo fold .backend _ _).2 else _) = _
  rw [Volume.getInfo_volume, ite_self]
  rfl

/-- A stat that is answered tells what the rename came to. -/
theorem smbRename_stat_answered (hname : name ≠ "") (hrename : sc.rename = .answered)
    (hstat : sc.stat = .answered) (hcan : v.CanRename fold dir name newName) (asked told : ℕ) :
    smbRename fold sc (dir ++ [name]) newName v =
      askBackend (renameOp fold (dir ++ [name]) newName) ⟨asked, told, .answered⟩ v := by
  obtain ⟨e, hentry⟩ := Option.isSome_iff_exists.mp hcan.1
  have hrun := Volume.rename_eq (p := .backend) hcan hentry
  have hthere := (Volume.rename_allowed (p := .backend) hcan).2.entryAt_new
  rw [hentry, Option.map_some] at hthere
  rw [smbRename_ok hrename hrun, hstat, siblingPath_concat hname]
  change Volume.getInfo fold .backend (dir ++ [newName]) _ =
    Volume.rename fold .backend (dir ++ [name]) newName v
  rw [hrun] at hthere ⊢
  simp only [Volume.getInfo, hthere]
  refine Prod.ext ?_ rfl
  simp [Entry.info]

/-- A rename over SMB whose stat is not refused is one call to a backend. -/
theorem smbRename_asks (hname : name ≠ "") (hstat : ∀ e, sc.stat ≠ .refused e) :
    ∃ fate, ∀ asked told, smbRename fold sc (dir ++ [name]) newName v =
      askBackend (renameOp fold (dir ++ [name]) newName) ⟨asked, told, fate⟩ v := by
  cases hrename : sc.rename with
  | lost ran message =>
      exact ⟨.lost ran message, fun _ _ => by simp [smbRename, hrename, askBackend]⟩
  | refused e => exact ⟨.refused e, fun _ _ => by simp [smbRename, hrename, askBackend]⟩
  | answered =>
      by_cases hcan : v.CanRename fold dir name newName
      case neg =>
        obtain ⟨e, he⟩ := Volume.rename_blocked (p := .backend) hcan
        have hrun : (renameOp fold (dir ++ [name]) newName).run .backend v = (.error e, v) := he
        exact ⟨.answered, fun _ _ => by simp [smbRename, hrename, askBackend, hrun]⟩
      case pos =>
        cases hfate : sc.stat with
        | refused e => exact (hstat e hfate).elim
        | lost ran message =>
            exact ⟨.lost true message, smbRename_stat_lost hrename hfate hcan⟩
        | answered => exact ⟨.answered, smbRename_stat_answered hname hrename hfate hcan⟩

end Smb

/-! ### Falling back -/

/-- A backend carried the call out unheard, and a party that did so after it was heard. -/
def RequestScript.FellBack (sc : RequestScript) (breakers : List CircuitBreaker) : Prop :=
  ∃ between p, sc.runs breakers = .backend :: (between ++ [p]) ∧ sc.heard breakers = true

/-- Backends carried the move out, and none was heard. -/
def MoveScript.FellBack (sc : MoveScript) (breakers : List CircuitBreaker) : Prop :=
  settled sc.backend breakers = false ∧ (viaBackends recording sc.backend breakers []).2.2 ≠ []

section Again

variable {S α : Type} {op : Operation S α} {sc : RequestScript} {c : Client S} {s : S}

/-- **A call that is carried out again.** What a second run leaves as it is, the whole call leaves
so, and the answer is about the work done. -/
theorem request_again (hfirst : (op.run .backend c.server).2 = s)
    (hquiet : ∀ p, (op.run p s).2 = s) (hlost : sc.FellBack c.metadataBreakers) :
    (∃ p, (request op sc c).1 = (op.run p s).1) ∧ (request op sc c).2.server = s := by
  obtain ⟨between, p, hruns, hheard⟩ := hlost
  obtain ⟨_, hserver, hok, _⟩ := request_follows op sc c
  have hreplay : ∀ log, op.replay c.server (.backend :: log) = s := by
    intro log
    change op.replay (op.run .backend c.server).2 log = s
    rw [hfirst, Operation.replay_quiet hquiet]
  rw [hruns] at hserver hok
  refine ⟨⟨p, ?_⟩, hserver.trans (hreplay _)⟩
  have hanswered : (sc.trace c.metadataBreakers).1 = .ok () := by
    revert hheard
    rw [RequestScript.heard]
    cases (sc.trace c.metadataBreakers).1 with
    | ok u =>
        intro _
        rfl
    | error e => rintro ⟨⟩
  obtain ⟨before, p', hlog, hanswer⟩ := hok hanswered
  rw [← List.cons_append] at hlog
  obtain ⟨rfl, hp⟩ := List.append_inj' hlog rfl
  obtain rfl := List.head_eq_of_cons_eq hp
  rw [hanswer, hreplay]

end Again

/-! ### The four changes -/

section Changes

variable (fold : String → String)

/-- A change of the namespace, and what becomes of the requests it is made with. -/
inductive ChangeCall
  | rename (sc : RequestScript) (old : NasPath) (newName : String)
  | delete (sc : RequestScript) (path : NasPath)
  | createFolder (sc : RequestScript) (parent : NasPath) (name : String)
  | moveTo (sc : MoveScript) (old new : NasPath)

/-- An answer, with the information on the entry where the call asks for it. -/
abbrev ChangeAnswer := Except SynoFsError (Option SynoFileInfo)

def ChangeCall.call (c : Client Volume) : ChangeCall → ChangeAnswer × Client Volume
  | .rename sc old newName => (Core.rename fold sc old newName c).map (.map some) id
  | .delete sc path => (Core.delete fold sc path c).map (.map fun _ => none) id
  | .createFolder sc parent name => (Core.createFolder fold sc parent name c).map (.map some) id
  | .moveTo sc old new => (Core.moveTo fold sc old new c).map (.map fun _ => none) id

/-- What a backend does that is asked for the change. -/
def ChangeCall.atBackend (v : Volume) : ChangeCall → ChangeAnswer × Volume
  | .rename _ old newName => (v.rename fold .backend old newName).map (.map some) id
  | .delete _ path => (v.delete fold .backend path).map (.map fun _ => none) id
  | .createFolder _ parent name => (v.createFolder fold .backend parent name).map (.map some) id
  | .moveTo _ old new => (v.moveTo fold old new).map (.map fun _ => none) id

def ChangeCall.FellBack (breakers : List CircuitBreaker) : ChangeCall → Prop
  | .rename sc _ _ | .delete sc _ | .createFolder sc _ _ => sc.FellBack breakers
  | .moveTo sc _ _ => sc.FellBack breakers

/-- The call answers what the backend that made the change would have, and the change is made
once. -/
def ChangeCall.DoneOnce (call : ChangeCall) (c : Client Volume) : Prop :=
  (call.call fold c).1 = (call.atBackend fold c.server).1 ∧
    (call.call fold c).2.server = (call.atBackend fold c.server).2

/-- A rename that spells a name anew and leaves it the same name. -/
def ChangeCall.Respells : ChangeCall → Prop
  | .rename _ old newName => ∃ dir name, old = dir ++ [name] ∧ fold newName = fold name
  | _ => False

variable {fold} {v : Volume} {path parent dir old new : NasPath} {name newName : String} {p : Party}
  {c : Client Volume} {sc : RequestScript}

/-- What is gone cannot be deleted. -/
theorem Volume.delete_again :
    ∃ e, (v.remove fold path).delete fold p path = (.error e, v.remove fold path) := by
  refine ⟨p.absent, ?_⟩
  rw [Volume.delete]
  simp only [Volume.treeAt_remove]

theorem Volume.createFolder_ok (h : (v.createFolder fold p parent name).1.isOk = true) :
    ((v.createFolder fold p parent name).2.entryAt fold (parent ++ [name])).isSome := by
  revert h
  unfold Volume.createFolder
  split
  case h_1 => rintro ⟨⟩
  case h_2 children hdir =>
    split
    case isTrue => rintro ⟨⟩
    case isFalse hfree =>
      intro _
      rw [Volume.entryAt_alterDir, hdir]
      change (FileTree.findEntry fold (children ++ [(name, _)]) name).isSome
      rw [FileTree.findEntry_concat (by simpa using hfree)]
      rfl

/-- What is there cannot be created. -/
theorem Volume.createFolder_again (h : (v.entryAt fold (parent ++ [name])).isSome) :
    ∃ e, v.createFolder fold p parent name = (.error e, v) := by
  rw [Volume.entryAt_concat] at h
  unfold Volume.createFolder
  cases hdir : v.root.dirAt fold parent with
  | none => exact ⟨_, rfl⟩
  | some children =>
      rw [hdir] at h
      exact ⟨p.folderTaken, if_pos h⟩

/-- A rename that respells is the same rename again. -/
theorem Volume.rename_again (hcan : v.CanRename fold dir name newName)
    (hsame : fold newName = fold name) (p q : Party) :
    (v.rename fold p (dir ++ [name]) newName).2.rename fold q (dir ++ [name]) newName =
      v.rename fold p (dir ++ [name]) newName := by
  obtain ⟨e, hentry⟩ := Option.isSome_iff_exists.mp hcan.1
  have hrenamed := (Volume.rename_allowed (p := p) hcan).2
  have hcan' := (hrenamed.canRename hcan).mpr hsame
  have hentry' := hrenamed name
  rw [if_pos hsame.symm, hentry, Option.map_some] at hentry'
  rw [Volume.rename_eq hcan' hentry', Volume.rename_eq hcan hentry]
  simp only [FileTree.alterDir_alterDir]
  congr 3
  funext children
  exact FileTree.renameEntry_renameEntry hsame

/-- An entry that was moved away is not there to be moved. -/
theorem Volume.moveTo_ok (h : (v.moveTo fold old new).1 = .ok ()) :
    (v.moveTo fold old new).2.treeAt fold old = none := by
  revert h
  unfold Volume.moveTo
  split
  case h_1 => exact nofun
  case h_2 tree _ =>
    split
    case h_1 => exact nofun
    case h_2 hplan =>
      exact Volume.relocate_ok (Destination.ofTree_eq_absent (planMove_fresh hplan))
    case h_3 => exact Volume.relocate_ok Volume.treeAt_remove
    case h_4 =>
      -- A file that is replaced is moved away after the target was removed.
      unfold Volume.replaceFile
      split
      case h_1 w hrel =>
        intro _
        rw [← show ((v.remove fold new).relocate fold old new).2 = w from congrArg Prod.snd hrel]
        exact Volume.relocate_ok Volume.treeAt_remove (congrArg Prod.fst hrel)
      case h_2 => exact nofun

/-- Backends that carried a move out left nothing under the old name. -/
theorem viaBackends_moved {scripts : ℕ → BackendScript} {breakers : List CircuitBreaker}
    (hdone : (v.moveTo fold old new).1 = .ok ()) (hunheard : settled scripts breakers = false)
    (hran : (viaBackends recording scripts breakers []).2.2 ≠ []) :
    ∃ breakers', viaBackends (moveOp fold old new) scripts breakers v =
      (none, breakers', (v.moveTo fold old new).2) := by
  have hgone := Volume.moveTo_ok hdone
  have hquiet : ∀ p, ((moveOp fold old new).run p (v.moveTo fold old new).2).2 =
      (v.moveTo fold old new).2 := by
    intro p
    change ((v.moveTo fold old new).2.moveTo fold old new).2 = _
    rw [Volume.moveTo, hgone]
  obtain ⟨_, ⟨_, hnone, hserver⟩ | ⟨r, _, hsome, _, _⟩⟩ :=
    viaBackends_follows (moveOp fold old new) v scripts breakers
  · obtain ⟨first, log, hlog⟩ := List.exists_cons_of_ne_nil hran
    rw [hlog] at hserver
    refine ⟨_, Prod.ext hnone (Prod.ext rfl (hserver.trans ?_))⟩
    exact Operation.replay_quiet hquiet log
  · rw [settled, hsome] at hunheard
    cases hunheard

/-- A look at what was moved away finds nothing. -/
theorem lookAtEnds_gone {ms : MoveScript} {m : MoveEnds}
    (hgone : c.server.treeAt fold m.old = none) :
    (∃ e, (lookAtEnds fold (fun op => op) ms m c).1 = .error e) ∧
      (lookAtEnds fold (fun op => op) ms m c).2.server = c.server := by
  obtain ⟨hserver, _, hfound⟩ := @lookAtEnds_spec fold ms m c
  refine ⟨?_, hserver⟩
  cases hlook : (lookAtEnds fold (fun op => op) ms m c).1 with
  | error e => exact ⟨e, rfl⟩
  | ok plan =>
      obtain ⟨hthere, _⟩ := hfound plan hlook
      rw [Volume.treeAt_eq_none.mp hgone] at hthere
      cases hthere

/-- A move that backends made unheard is said to have failed. -/
theorem moveTo_unheard_fails {ms : MoveScript} (hdone : (c.server.moveTo fold old new).1 = .ok ())
    (hlost : ms.FellBack c.metadataBreakers) :
    (∃ e, (moveTo fold ms old new c).1 = .error e) ∧
      (moveTo fold ms old new c).2.server = (c.server.moveTo fold old new).2 := by
  obtain ⟨breakers, hvia⟩ := viaBackends_moved hdone hlost.1 hlost.2
  unfold moveTo moveWithin planFirst
  rw [hvia]
  dsimp only
  cases hsplit : MoveEnds.split old new with
  | none => exact ⟨⟨_, rfl⟩, rfl⟩
  | some m =>
      have hgone := Volume.moveTo_ok hdone
      obtain ⟨rfl, rfl⟩ := MoveEnds.split_eq hsplit
      obtain ⟨⟨e, he⟩, hserver⟩ := @lookAtEnds_gone fold
        { c with
          metadataBreakers := breakers
          server := (c.server.moveTo fold m.old m.new).2 } ms m hgone
      dsimp only
      cases hlook : lookAtEnds fold (fun op => op) ms m { c with
          metadataBreakers := breakers
          server := (c.server.moveTo fold m.old m.new).2 } with
      | mk planned d =>
          rw [hlook] at he hserver
          obtain rfl : planned = .error e := he
          exact ⟨⟨e, rfl⟩, hserver⟩

/-- A call that a second run refuses, and that was carried out unheard, is said to have failed. -/
theorem request_again_fails {α : Type} {op : Operation Volume α}
    (hrefused : ∀ p, ∃ e, op.run p (op.run .backend c.server).2 =
      (.error e, (op.run .backend c.server).2)) (hlost : sc.FellBack c.metadataBreakers) :
    (∃ e, (request op sc c).1 = .error e) ∧
      (request op sc c).2.server = (op.run .backend c.server).2 := by
  have hquiet : ∀ p, (op.run p (op.run .backend c.server).2).2 = (op.run .backend c.server).2 := by
    intro p
    obtain ⟨e, he⟩ := hrefused p
    rw [he]
  obtain ⟨⟨p, hanswer⟩, hserver⟩ := request_again rfl hquiet hlost
  obtain ⟨e, he⟩ := hrefused p
  exact ⟨⟨e, by rw [hanswer, he]⟩, hserver⟩

theorem delete_unheard_fails (hdone : (c.server.delete fold .backend path).1.isOk = true)
    (hlost : sc.FellBack c.metadataBreakers) :
    (∃ e, (delete fold sc path c).1 = .error e) ∧
      (delete fold sc path c).2.server = (c.server.delete fold .backend path).2 := by
  refine @request_again_fails _ _ _ (deleteOp fold path) (fun p => ?_) hlost
  have hremoved : ((deleteOp fold path).run .backend c.server).2 = c.server.remove fold path := by
    refine Volume.delete_ok ?_
    cases h : (c.server.delete fold .backend path).1 with
    | ok u => rfl
    | error e => rw [h] at hdone; cases hdone
  rw [hremoved]
  exact Volume.delete_again

theorem createFolder_unheard_fails
    (hdone : (c.server.createFolder fold .backend parent name).1.isOk = true)
    (hlost : sc.FellBack c.metadataBreakers) :
    (∃ e, (createFolder fold sc parent name c).1 = .error e) ∧
      (createFolder fold sc parent name c).2.server =
        (c.server.createFolder fold .backend parent name).2 :=
  @request_again_fails _ _ _ (createFolderOp fold parent name)
    (fun _ => Volume.createFolder_again (Volume.createFolder_ok hdone)) hlost

theorem rename_unheard_fails (hcan : c.server.CanRename fold dir name newName)
    (hdistinct : fold newName ≠ fold name) (hlost : sc.FellBack c.metadataBreakers) :
    (∃ e, (rename fold sc (dir ++ [name]) newName c).1 = .error e) ∧
      (rename fold sc (dir ++ [name]) newName c).2.server =
        (c.server.rename fold .backend (dir ++ [name]) newName).2 := by
  refine @request_again_fails _ _ _ (renameOp fold (dir ++ [name]) newName) (fun p => ?_) hlost
  have hrenamed := (Volume.rename_allowed (p := .backend) hcan).2
  exact Volume.rename_blocked (mt (hrenamed.canRename hcan).mp hdistinct)

theorem rename_respelled (hcan : c.server.CanRename fold dir name newName)
    (hsame : fold newName = fold name) (hlost : sc.FellBack c.metadataBreakers) :
    (rename fold sc (dir ++ [name]) newName c).1 =
        (c.server.rename fold .backend (dir ++ [name]) newName).1 ∧
      (rename fold sc (dir ++ [name]) newName c).2.server =
        (c.server.rename fold .backend (dir ++ [name]) newName).2 := by
  have hagain := Volume.rename_again hcan hsame .backend
  obtain ⟨⟨p, hanswer⟩, hserver⟩ := @request_again _ _ (renameOp fold (dir ++ [name]) newName)
    _ _ _ rfl (fun q => congrArg Prod.snd (hagain q)) hlost
  exact ⟨hanswer.trans (congrArg Prod.fst (hagain p)), hserver⟩

theorem isOk_map {α β : Type} {f : α → β} {r : Except SynoFsError α}
    (h : (r.map f).isOk = true) : r.isOk = true := by
  cases r with
  | ok a => rfl
  | error e => cases h

/-- **A change made unheard.** Where a backend made the change, nothing came back of it, and the
call was carried on by who is asked next, the work is done once. The call says so if, and only if,
it is a rename that respells. -/
theorem done_change_reported_iff (fold : String → String) (call : ChangeCall) (c : Client Volume)
    (hdone : (call.atBackend fold c.server).1.isOk = true)
    (hlost : call.FellBack c.metadataBreakers) :
    (call.call fold c).2.server = (call.atBackend fold c.server).2 ∧
      (call.DoneOnce fold c ↔ call.Respells fold) := by
  have hfails : ∀ {e}, (call.call fold c).1 = .error e → ¬ call.DoneOnce fold c := by
    intro e he h
    rw [← h.1, he] at hdone
    cases hdone
  cases call with
  | delete sc path =>
      obtain ⟨⟨e, he⟩, hserver⟩ := delete_unheard_fails (isOk_map hdone) hlost
      exact ⟨hserver, iff_of_false (hfails (congrArg (Except.map _) he)) id⟩
  | createFolder sc parent name =>
      obtain ⟨⟨e, he⟩, hserver⟩ := createFolder_unheard_fails (isOk_map hdone) hlost
      exact ⟨hserver, iff_of_false (hfails (congrArg (Except.map _) he)) id⟩
  | moveTo sc old new =>
      have hmoved : (c.server.moveTo fold old new).1 = .ok () := by
        cases h : (c.server.moveTo fold old new).1 with
        | ok u => rfl
        | error e => simp [ChangeCall.atBackend, h, Except.map, Except.isOk, Except.toBool] at hdone
      obtain ⟨⟨e, he⟩, hserver⟩ := moveTo_unheard_fails hmoved hlost
      exact ⟨hserver, iff_of_false (hfails (congrArg (Except.map _) he)) id⟩
  | rename sc old newName =>
      -- A path without a name was not renamed by any backend.
      rcases List.eq_nil_or_concat old with rfl | ⟨dir, name, rfl⟩
      · cases hdone
      rw [List.concat_eq_append] at hdone hfails ⊢
      have hcan : c.server.CanRename fold dir name newName := by
        by_contra hblocked
        obtain ⟨e, he⟩ := Volume.rename_blocked (p := .backend) hblocked
        simp [ChangeCall.atBackend, he, Except.map, Except.isOk, Except.toBool] at hdone
      by_cases hsame : fold newName = fold name
      · obtain ⟨hanswer, hserver⟩ := rename_respelled hcan hsame hlost
        exact ⟨hserver, iff_of_true ⟨congrArg (Except.map some) hanswer, hserver⟩
          ⟨dir, name, rfl, hsame⟩⟩
      · obtain ⟨⟨e, he⟩, hserver⟩ := rename_unheard_fails hcan hsame hlost
        refine ⟨hserver, iff_of_false (hfails (congrArg (Except.map _) he)) ?_⟩
        rintro ⟨dir', name', hpath, hsame'⟩
        obtain ⟨_, hname⟩ := List.append_inj' hpath rfl
        obtain rfl := List.head_eq_of_cons_eq hname
        exact hsame hsame'

end Changes

/-! ### A rename said to have failed -/

/-- A file, and a backend in front of it. -/
def oneScan : Client Volume :=
  ⟨[.new .standard], [], [], { root := .dir [("share", .dir [("scan", .file [1])])],
                               removals := [] }⟩

/-- The backend makes the change and times out, FileStation answers. -/
def timedOut : RequestScript := ⟨fun _ => ⟨0, 0, .lost true "timed out"⟩, fun _ => .answered⟩

theorem timedOut_fellBack : timedOut.FellBack oneScan.metadataBreakers := ⟨[], .http, rfl, rfl⟩

/-- A server to which the two spellings are one name. -/
def scanFold (name : String) : String := if name = "SCAN" then "scan" else name

/-- A rename that respells is heard of. -/
theorem respelled_scan_reported :
    (ChangeCall.rename timedOut ["share", "scan"] "SCAN").DoneOnce scanFold oneScan :=
  (done_change_reported_iff scanFold (.rename timedOut ["share", "scan"] "SCAN") oneScan
    (by decide +kernel) timedOut_fellBack).2.mpr ⟨["share"], "scan", rfl, by decide +kernel⟩

/-- The stat after a rename is lost. FileStation is then asked to rename what has its new name
already, finds nothing, and the rename is said to have failed. -/
theorem renamed_scan_failed :
    smbRename id ⟨.answered, .lost false "timed out"⟩ ["share", "scan"] "photo" oneScan.server =
        askBackend (renameOp id ["share", "scan"] "photo") (timedOut.backend 0) oneScan.server ∧
      ((ChangeCall.rename timedOut ["share", "scan"] "photo").atBackend id
        oneScan.server).1.isOk = true ∧
      timedOut.FellBack oneScan.metadataBreakers ∧
      (rename id timedOut ["share", "scan"] "photo" oneScan).1.map (fun _ => ()) =
        .error (.apiError 408) ∧
      ¬ (ChangeCall.rename timedOut ["share", "scan"] "photo").DoneOnce id oneScan := by
  have hcan : oneScan.server.CanRename id ["share"] "scan" "photo" :=
    ⟨by decide +kernel, fun _ => Option.isNone_iff_eq_none.mp (by decide +kernel)⟩
  refine ⟨smbRename_stat_lost rfl rfl hcan 0 0, by decide +kernel, timedOut_fellBack,
    by decide +kernel, fun h => ?_⟩
  have hok := congrArg Except.isOk h.1
  revert hok
  decide +kernel

end SynologyFilestation.Core
