import SynologyFilestation.Core.Namespace

/-!
The namespace calls of the client (`core/src/client/metadata.rs`). Each is one
request, and what it leaves behind is read off the request's trace: a call that
ran more than once has the effect of running once, so what matters is whether it
ran at all and who ran it.
-/

namespace SynologyFilestation.Core

open Library

section Calls

variable (fold : String → String)

def getInfoOp (path : NasPath) : Operation Volume SynoFileInfo where
  run p := Volume.getInfo fold p path
  final v := by
    unfold Volume.getInfo
    split <;> rfl

def deleteOp (path : NasPath) : Operation Volume Unit where
  run p := Volume.delete fold p path
  final v := by
    unfold Volume.delete
    split <;> rfl

def renameOp (old : NasPath) (newName : String) : Operation Volume SynoFileInfo where
  run p := Volume.rename fold p old newName
  final v := by
    unfold Volume.rename
    split
    · split <;> rfl
    · rfl

def createFolderOp (parent : NasPath) (name : String) : Operation Volume SynoFileInfo where
  run p := Volume.createFolder fold p parent name
  final v := by
    unfold Volume.createFolder
    split
    · rfl
    · split <;> rfl

def getInfo (sc : RequestScript) (path : NasPath) :
    Client Volume → Except SynoFsError SynoFileInfo × Client Volume :=
  request (getInfoOp fold path) sc

def delete (sc : RequestScript) (path : NasPath) :
    Client Volume → Except SynoFsError Unit × Client Volume :=
  request (deleteOp fold path) sc

/-- `SynologyClient::rename`, within a directory. -/
def rename (sc : RequestScript) (old : NasPath) (newName : String) :
    Client Volume → Except SynoFsError SynoFileInfo × Client Volume :=
  request (renameOp fold old newName) sc

def createFolder (sc : RequestScript) (parent : NasPath) (name : String) :
    Client Volume → Except SynoFsError SynoFileInfo × Client Volume :=
  request (createFolderOp fold parent name) sc

end Calls

section Effects

variable {fold : String → String} {sc : RequestScript} {path : NasPath} {c : Client Volume}

theorem request_breakers {S α : Type} (op : Operation S α) (sc : RequestScript) (c : Client S) :
    (request op sc c).2.readBreakers = c.readBreakers ∧
      (request op sc c).2.writeBreakers = c.writeBreakers := by
  rw [(request_follows op sc c).1]
  exact ⟨rfl, rfl⟩

theorem Volume.getInfo_volume (p : Party) (v : Volume) : (v.getInfo fold p path).2 = v := by
  unfold Volume.getInfo
  split <;> rfl

@[simp] theorem getInfo_server : (getInfo fold sc path c).2.server = c.server :=
  request_rule (getInfoOp fold path) (P := (· = c.server))
    (fun p v hv => (Volume.getInfo_volume p v).trans hv) sc rfl

/-- What is reported is what stands there. -/
theorem getInfo_ok {info : SynoFileInfo} (h : (getInfo fold sc path c).1 = .ok info) :
    ∃ e, c.server.entryAt fold path = some e ∧ info = e.info path := by
  obtain ⟨p, hrun⟩ := request_ok (fun p => Volume.getInfo_volume p c.server) h
  change (c.server.getInfo fold p path).1 = _ at hrun
  unfold Volume.getInfo at hrun
  split at hrun
  case h_1 e he => exact ⟨e, he, (Except.ok.inj hrun).symm⟩
  case h_2 => cases hrun

theorem Volume.delete_volume (p : Party) (v : Volume) :
    (v.delete fold p path).2 = v ∨ (v.delete fold p path).2 = v.remove fold path := by
  cases h : (v.delete fold p path).1 with
  | ok u => exact Or.inr (Volume.delete_ok h)
  | error e => exact Or.inl (Volume.delete_error h)

/-- However often it ran, a delete took the entry away or left everything. -/
theorem delete_server : (delete fold sc path c).2.server = c.server ∨
    (delete fold sc path c).2.server = c.server.remove fold path := by
  refine request_rule (deleteOp fold path)
    (P := fun v => v = c.server ∨ v = c.server.remove fold path) ?_ sc (Or.inl rfl)
  intro p v hv
  change (v.delete fold p path).2 = _ ∨ (v.delete fold p path).2 = _
  rcases hv with rfl | rfl
  · exact Volume.delete_volume p _
  · apply Or.inr
    rcases Volume.delete_volume p (c.server.remove fold path) with h | h
    · exact h
    · exact h.trans (Volume.remove_of_none Volume.treeAt_remove)

end Effects

/-! ### What the runs of a call come to -/

section Runs

variable {fold : String → String} {sc : RequestScript} {path parent : NasPath}
  {name newName : String} {v : Volume} {c : Client Volume} {p : Party}

/-- Whether `p` takes away what stands under `path`. -/
def Volume.yields (fold : String → String) (path : NasPath) (v : Volume) (p : Party) : Bool :=
  match v.treeAt fold path with
  | some tree => p = .http || !tree.isFull
  | none => false

theorem Volume.delete_yields : (v.delete fold p path).2 =
    if v.yields fold path p then v.remove fold path else v := by
  cases htree : v.treeAt fold path with
  | none => simp [Volume.delete, Volume.yields, htree]
  | some tree =>
      cases p with
      | http => simp [Volume.delete_http, Volume.yields, htree]
      | backend =>
          rcases tree with content | (_ | ⟨e, rest⟩) <;>
            simp [Volume.delete, Volume.yields, htree, FileTree.isFull]

theorem replay_delete (log : List Party) : (deleteOp fold path).replay v log =
    if ∃ p ∈ log, v.yields fold path p then v.remove fold path else v := by
  induction log using List.reverseRecOn with
  | nil => simp
  | append_singleton log p ih =>
      rw [Operation.replay_concat, ih]
      change (Volume.delete fold p path _).2 = _
      simp only [List.mem_append, List.mem_singleton, or_and_right, exists_or, exists_eq_left]
      split
      case isTrue h =>
        rw [if_pos (Or.inl h), Volume.delete_yields, Volume.yields, Volume.treeAt_remove]
        rfl
      case isFalse h =>
        rw [Volume.delete_yields]
        simp only [h, false_or]

/-- A delete takes the entry away when one of its runs can. -/
theorem delete_server_runs : (delete fold sc path c).2.server =
    if ∃ p ∈ sc.runs c.metadataBreakers, c.server.yields fold path p
    then c.server.remove fold path else c.server :=
  (request_follows (deleteOp fold path) sc c).2.server.trans (replay_delete _)

/-- There is something to rename, and the new name is free unless it is the old
one spelled otherwise. -/
def Volume.CanRename (fold : String → String) (parent : NasPath) (name newName : String)
    (v : Volume) : Prop :=
  (v.entryAt fold (parent ++ [name])).isSome ∧
    (fold newName ≠ fold name → v.entryAt fold (parent ++ [newName]) = none)

/-- `w` is `v` with the entry under `name` called `newName`. -/
def Volume.Renamed (fold : String → String) (parent : NasPath) (name newName : String)
    (v w : Volume) : Prop :=
  ∀ other, w.entryAt fold (parent ++ [other]) =
    if fold other = fold newName then
      (v.entryAt fold (parent ++ [name])).map fun e => (newName, e.2)
    else if fold other = fold name then none
    else v.entryAt fold (parent ++ [other])

theorem Volume.Renamed.entryAt_new {w : Volume} (h : v.Renamed fold parent name newName w) :
    w.entryAt fold (parent ++ [newName]) =
      (v.entryAt fold (parent ++ [name])).map fun e => (newName, e.2) :=
  (h newName).trans (if_pos rfl)

theorem Volume.rename_blocked (h : ¬v.CanRename fold parent name newName) :
    ∃ e, v.rename fold p (parent ++ [name]) newName = (.error e, v) := by
  simp only [Volume.rename, splitNasPath_concat]
  cases hsource : v.entryAt fold (parent ++ [name]) with
  | none => exact ⟨_, rfl⟩
  | some e =>
      refine ⟨p.taken, if_pos ?_⟩
      by_contra hfree
      apply h
      refine ⟨by rw [hsource]; rfl, fun hdistinct => ?_⟩
      by_contra hdest
      exact hfree ⟨hdistinct, Option.isSome_iff_ne_none.mpr hdest⟩

theorem Volume.rename_allowed (h : v.CanRename fold parent name newName) :
    (∃ info, (v.rename fold p (parent ++ [name]) newName).1 = .ok info) ∧
      v.Renamed fold parent name newName (v.rename fold p (parent ++ [name]) newName).2 := by
  obtain ⟨hsource, hfree⟩ := h
  obtain ⟨e, hsource⟩ := Option.isSome_iff_exists.mp hsource
  have hok : ¬(fold newName ≠ fold name ∧ (v.entryAt fold (parent ++ [newName])).isSome) := by
    rintro ⟨hdistinct, hdest⟩
    rw [hfree hdistinct] at hdest
    cases hdest
  simp only [Volume.rename, splitNasPath_concat, hsource, if_neg hok]
  refine ⟨⟨_, rfl⟩, fun other => ?_⟩
  rw [Volume.entryAt_alterDir, Volume.entryAt_concat, Volume.entryAt_concat]
  rw [Volume.entryAt_concat] at hsource hfree
  cases hdir : v.root.dirAt fold parent with
  | none => simp [hdir] at hsource
  | some children =>
      simp only [hdir, Option.bind_some] at hfree ⊢
      refine FileTree.findEntry_renameEntry ?_ other
      by_cases hsame : fold newName = fold name
      · exact Or.inl hsame
      · exact Or.inr (hfree hsame)

/-- A respelled entry can be respelled again, a renamed one is not there any more. -/
theorem Volume.Renamed.canRename {w : Volume} (h : v.Renamed fold parent name newName w)
    (hv : v.CanRename fold parent name newName) :
    w.CanRename fold parent name newName ↔ fold newName = fold name := by
  have hold := h name
  constructor
  · intro hw
    by_contra hdistinct
    rw [if_neg (Ne.symm hdistinct), if_pos rfl] at hold
    rw [Volume.CanRename, hold] at hw
    cases hw.1
  · intro hsame
    rw [if_pos hsame.symm] at hold
    refine ⟨?_, fun hdistinct => (hdistinct hsame).elim⟩
    rw [hold, Option.isSome_map]
    exact hv.1

theorem Volume.Renamed.trans_same {w x : Volume} (hsame : fold newName = fold name)
    (h : v.Renamed fold parent name newName w) (h' : w.Renamed fold parent name newName x) :
    v.Renamed fold parent name newName x := by
  intro other
  rw [h' other, h name, h other, if_pos hsame.symm, Option.map_map]
  by_cases hother : fold other = fold newName
  · rw [if_pos hother, if_pos hother]
    rfl
  · simp only [if_neg hother]
    split <;> rfl

/-- However often it ran, a rename that is possible renamed once. -/
theorem replay_rename (hv : v.CanRename fold parent name newName) {log : List Party}
    (hlog : log ≠ []) :
    v.Renamed fold parent name newName
      ((renameOp fold (parent ++ [name]) newName).replay v log) := by
  induction log using List.reverseRecOn with
  | nil => exact (hlog rfl).elim
  | append_singleton log p ih =>
      rw [Operation.replay_concat]
      rcases eq_or_ne log [] with rfl | hne
      · exact (Volume.rename_allowed hv).2
      · have hw := ih hne
        change v.Renamed fold parent name newName (Volume.rename fold p _ newName _).2
        by_cases hagain : fold newName = fold name
        · exact hw.trans_same hagain (Volume.rename_allowed ((hw.canRename hv).mpr hagain)).2
        · obtain ⟨e, he⟩ := Volume.rename_blocked (p := p) (mt (hw.canRename hv).mp hagain)
          rw [he]
          exact hw

theorem replay_rename_blocked (hv : ¬v.CanRename fold parent name newName) (log : List Party) :
    (renameOp fold (parent ++ [name]) newName).replay v log = v := by
  induction log using List.reverseRecOn with
  | nil => rfl
  | append_singleton log p ih =>
      rw [Operation.replay_concat, ih]
      obtain ⟨e, he⟩ := Volume.rename_blocked (p := p) hv
      exact congrArg Prod.snd he

/-- A rename that cannot be done is not done, and is not said to be. -/
theorem rename_server_blocked (h : ¬c.server.CanRename fold parent name newName) :
    (rename fold sc (parent ++ [name]) newName c).2.server = c.server ∧
      (rename fold sc (parent ++ [name]) newName c).1.isOk = false := by
  have hfollows := (request_follows (renameOp fold (parent ++ [name]) newName) sc c).2
  refine ⟨hfollows.server.trans (replay_rename_blocked h _), ?_⟩
  cases hanswer : (rename fold sc (parent ++ [name]) newName c).1 with
  | error e => rfl
  | ok info =>
      obtain ⟨before, p, _, hrun⟩ := hfollows.of_ok hanswer
      rw [replay_rename_blocked h] at hrun
      obtain ⟨e, he⟩ := Volume.rename_blocked (p := p) h
      cases hrun.symm.trans (congrArg Prod.fst he)

/-- A rename that nobody carried out fails. -/
theorem rename_server_unrun (h : sc.runs c.metadataBreakers = []) :
    (rename fold sc path newName c).2.server = c.server ∧
      (rename fold sc path newName c).1.isOk = false := by
  have hfollows := (request_follows (renameOp fold path newName) sc c).2
  rw [h] at hfollows
  refine ⟨hfollows.server, ?_⟩
  cases hanswer : (rename fold sc path newName c).1 with
  | error e => rfl
  | ok info =>
      obtain ⟨before, p, hlog, _⟩ := hfollows.of_ok hanswer
      simp at hlog

/-- **A possible rename that was carried out.** It is done, and it is reported
done if it is heard of, unless it ran a second time and found nothing. -/
theorem rename_server_run (h : c.server.CanRename fold parent name newName)
    (hruns : sc.runs c.metadataBreakers ≠ []) :
    c.server.Renamed fold parent name newName
        (rename fold sc (parent ++ [name]) newName c).2.server ∧
      ((rename fold sc (parent ++ [name]) newName c).1.isOk ↔
        sc.heard c.metadataBreakers ∧
          (fold newName ≠ fold name → (sc.runs c.metadataBreakers).length = 1)) := by
  have hfollows := (request_follows (renameOp fold (parent ++ [name]) newName) sc c).2
  change Follows _ _ _ _ (rename fold sc (parent ++ [name]) newName c).1
    (rename fold sc (parent ++ [name]) newName c).2.server at hfollows
  refine ⟨hfollows.server ▸ replay_rename h hruns, ?_⟩
  rw [RequestScript.heard]
  cases hrecorded : (sc.trace c.metadataBreakers).1 with
  | error e =>
      rw [hfollows.error e hrecorded]
      simp [Except.isOk, Except.toBool]
  | ok u =>
      obtain ⟨before, p, hlog, hanswer⟩ := hfollows.ok hrecorded
      set w := (renameOp fold (parent ++ [name]) newName).replay c.server before
      have hw : w.CanRename fold parent name newName ↔
          (fold newName ≠ fold name → before = []) := by
        rcases eq_or_ne before [] with rfl | hne
        · exact iff_of_true h fun _ => rfl
        · rw [(replay_rename h hne).canRename h]
          simp [hne]
      have hok : (Except.ok u : Except SynoFsError Unit).isOk = true := rfl
      rw [hok, hanswer, hlog, List.length_append, List.length_singleton, Nat.add_eq_right,
        List.length_eq_zero_iff, ← hw]
      change (w.rename fold p (parent ++ [name]) newName).1.isOk = true ↔ _
      by_cases hcan : w.CanRename fold parent name newName
      · obtain ⟨info, hinfo⟩ := (Volume.rename_allowed (p := p) hcan).1
        rw [hinfo]
        exact iff_of_true rfl ⟨rfl, hcan⟩
      · obtain ⟨e, he⟩ := Volume.rename_blocked (p := p) hcan
        rw [he]
        exact iff_of_false Bool.false_ne_true fun hand => hcan hand.2

end Runs

end SynologyFilestation.Core
