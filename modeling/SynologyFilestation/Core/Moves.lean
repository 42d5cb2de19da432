import SynologyFilestation.Core.Upload

/-!
Moving on the NAS (`core/src/client/moves.rs`, and `plan_move` in
`core/src/transport.rs`). A metadata backend moves in one call; over HTTP a move
is a rename in place, where the name changes, and a CopyMove task that carries
the entry to the other directory. Both replace only what `rename(2)` may.
-/

namespace SynologyFilestation.Core

open Library

/-- What stands where a move goes. -/
inductive Destination
  | absent
  | file
  | dir (empty : Bool)
  deriving DecidableEq, Repr

/-- What a move may replace at its destination. -/
inductive MovePlan
  | fresh
  | replaceFile
  | replaceEmptyDir
  deriving DecidableEq, Repr

def planMove (sourceIsDir : Bool) (dest : Destination) : Except SynoFsError MovePlan :=
  match sourceIsDir, dest with
  | _, .absent => .ok .fresh
  | false, .file => .ok .replaceFile
  | true, .dir true => .ok .replaceEmptyDir
  | true, .dir false => .error .notEmpty
  | false, .dir _ | true, .file => .error .alreadyExists

def Destination.ofTree : Option Tree → Destination
  | none => .absent
  | some (.file _) => .file
  | some (.dir children) => .dir children.isEmpty

def isDir : Tree → Bool
  | .file _ => false
  | .dir _ => true

/-- What becomes of one status poll of a CopyMove task. -/
inductive PollFate
  | running
  | finished
  | lost (message : String)
  | refused (code : ℕ)

/-- The two ends of a move, each split. -/
structure MoveEnds where
  srcDir : NasPath
  oldName : String
  destDir : NasPath
  newName : String

def MoveEnds.old (m : MoveEnds) : NasPath := m.srcDir ++ [m.oldName]

def MoveEnds.new (m : MoveEnds) : NasPath := m.destDir ++ [m.newName]

/-- The new name in the old directory. -/
def MoveEnds.renamed (m : MoveEnds) : NasPath := m.srcDir ++ [m.newName]

def MoveEnds.split (old new : NasPath) : Option MoveEnds :=
  match splitParent old, splitParent new with
  | some (srcDir, oldName), some (destDir, newName) => some ⟨srcDir, oldName, destDir, newName⟩
  | _, _ => none

structure MoveScript where
  backend : ℕ → BackendScript
  source : RequestScript
  dest : RequestScript
  entries : ℕ → HttpFate
  rename : RequestScript
  delete : RequestScript
  start : HttpFate
  polls : List PollFate
  renameBack : RequestScript

/-- A move over HTTP of which every request is answered at once. -/
def MoveScript.plain : MoveScript where
  backend := declining
  source := .plain
  dest := .plain
  entries := fun _ => .answered
  rename := .plain
  delete := .plain
  start := .answered
  polls := [.finished]
  renameBack := .plain

/-- A failed CopyMove, and whether the task can be known not to have run. -/
structure MoveFailure where
  error : SynoFsError
  nothingRan : Bool

section Calls

variable (fold : String → String)

/-! ### The server -/

/-- Hang the entry of one path in under another. Under itself there is no room. -/
def Volume.relocate (source target : NasPath) (v : Volume) : Except SynoFsError Unit × Volume :=
  match splitNasPath source, splitNasPath target, v.treeAt fold source with
  | some (src, name), some (dst, newName), some tree =>
      let root := v.root.alterDir fold (FileTree.eraseEntry fold · name) src
      match root.dirAt fold dst with
      | none => (.error .notFound, v)
      | some _ => (.ok (), { v with root := root.alterDir fold (· ++ [(newName, tree)]) dst })
  | _, _, _ => (.error .notFound, v)

/-- A file that is replaced goes with the move, or stays with it. -/
def Volume.replaceFile (source target : NasPath) (v : Volume) : Except SynoFsError Unit × Volume :=
  match (v.remove fold target).relocate fold source target with
  | (.ok (), v) => (.ok (), v)
  | (.error e, _) => (.error e, v)

/-- A backend moves as `rename(2)` does. An empty folder goes before the move. -/
def Volume.moveTo (source target : NasPath) (v : Volume) : Except SynoFsError Unit × Volume :=
  match v.treeAt fold source with
  | none => (.error .notFound, v)
  | some tree =>
      match planMove (isDir tree) (.ofTree (v.treeAt fold target)) with
      | .error e => (.error e, v)
      | .ok .fresh => v.relocate fold source target
      | .ok .replaceEmptyDir => (v.remove fold target).relocate fold source target
      | .ok .replaceFile => v.replaceFile fold source target

/-- A CopyMove task, which keeps the name. With `overwrite` a file replaces a
file; nothing else is replaced. -/
def Volume.copyMove (source destDir : NasPath) (overwrite : Bool) (v : Volume) :
    Except SynoFsError Unit × Volume :=
  match splitNasPath source, v.treeAt fold source with
  | some (_, name), some tree =>
      match v.treeAt fold (destDir ++ [name]) with
      | none => v.relocate fold source (destDir ++ [name])
      | some (.file _) =>
          if overwrite && !isDir tree then v.replaceFile fold source (destDir ++ [name])
          else (.error (Party.taken .http), v)
      | some (.dir _) => (.error (Party.taken .http), v)
  | _, _ => (.error (Party.absent .http), v)

def Volume.hasEntries (p : Party) (path : NasPath) (v : Volume) :
    Except SynoFsError Bool × Volume :=
  match v.treeAt fold path with
  | some (.dir children) => (.ok !children.isEmpty, v)
  | _ => (.error p.absent, v)

variable {fold} in
theorem Volume.hasEntries_volume {path : NasPath} (p : Party) (v : Volume) :
    (v.hasEntries fold p path).2 = v := by
  unfold Volume.hasEntries
  split <;> rfl

variable {fold} in
theorem Volume.relocate_error {source target : NasPath} {v : Volume} {e : SynoFsError}
    (h : (v.relocate fold source target).1 = .error e) :
    e = .notFound ∧ (v.relocate fold source target).2 = v := by
  revert h
  unfold Volume.relocate
  split
  case h_1 =>
    dsimp only
    split <;> intro h
    · exact ⟨(Except.error.inj h).symm, rfl⟩
    · cases h
  case h_2 =>
    intro h
    exact ⟨(Except.error.inj h).symm, rfl⟩

variable {fold} in
theorem Volume.replaceFile_error {source target : NasPath} {v : Volume} {e : SynoFsError}
    (h : (v.replaceFile fold source target).1 = .error e) :
    e = .notFound ∧ (v.replaceFile fold source target).2 = v := by
  revert h
  unfold Volume.replaceFile
  split <;> intro h
  case h_1 => cases h
  case h_2 e' _ hrel =>
    have hfound := (Volume.relocate_error (congrArg Prod.fst hrel)).1
    exact ⟨(Except.error.inj h).symm.trans hfound, rfl⟩

variable {fold} in
theorem Volume.relocate_final {source target : NasPath} {v : Volume} :
    passesOn (v.relocate fold source target).1 = false := by
  cases h : (v.relocate fold source target).1 with
  | ok u => rfl
  | error e =>
      obtain rfl := (Volume.relocate_error h).1
      rfl

variable {fold} in
theorem Volume.replaceFile_final {source target : NasPath} {v : Volume} :
    passesOn (v.replaceFile fold source target).1 = false := by
  cases h : (v.replaceFile fold source target).1 with
  | ok u => rfl
  | error e =>
      obtain rfl := (Volume.replaceFile_error h).1
      rfl

variable {fold} in
/-- A backend that moves answers for good. -/
theorem Volume.moveTo_final (source target : NasPath) (v : Volume) :
    passesOn (v.moveTo fold source target).1 = false := by
  unfold Volume.moveTo
  split
  case h_1 => rfl
  case h_2 tree _ =>
    split
    case h_1 e hplan =>
      revert hplan
      unfold planMove
      split <;> rintro ⟨⟩ <;> rfl
    case h_2 => exact Volume.relocate_final
    case h_3 => exact Volume.relocate_final
    case h_4 => exact Volume.replaceFile_final

/-- FileStation alone has the task. -/
def copyMoveOp (source destDir : NasPath) (overwrite : Bool) : Operation Volume Unit where
  run _ := Volume.copyMove fold source destDir overwrite
  final v := by
    unfold Volume.copyMove
    split
    case h_1 =>
      split
      case h_1 => exact Volume.relocate_final
      case h_2 =>
        split
        case isTrue => exact Volume.replaceFile_final
        case isFalse => rfl
      case h_3 => rfl
    case h_2 => rfl

def moveOp (source target : NasPath) : Operation Volume Unit where
  run _ := Volume.moveTo fold source target
  final := Volume.moveTo_final source target

def hasEntriesOp (path : NasPath) : Operation Volume Bool where
  run p := Volume.hasEntries fold p path
  final v := by
    unfold Volume.hasEntries
    split <;> rfl

/-! ### The client -/

section Client

variable {S : Type} (on : {α : Type} → Operation Volume α → Operation S α)

/-- `has_entries`. -/
def hasEntries (http : ℕ → HttpFate) (path : NasPath) (c : Client S) :
    Except SynoFsError Bool × Client S :=
  let (r, s) := getTextRetried (on (hasEntriesOp fold path)) http c.server
  (r, { c with server := s })

/-- The errors by which DSM says that there is nothing under a name, or that it
will not show it. -/
def saysAbsent (e : SynoFsError) : Bool := e = .notFound || e = .apiError 408 || e = .apiError 414

/-- `destination`. A name DSM will not show counts as absent: the move then sends
no `overwrite`. -/
def destination (info : RequestScript) (entries : ℕ → HttpFate) (path : NasPath)
    (c : Client S) : Except SynoFsError Destination × Client S :=
  let (found, c) := request (on (getInfoOp fold path)) info c
  match found with
  | .error e => (if saysAbsent e then .ok .absent else .error e, c)
  | .ok info =>
      if info.isdir then
        let (full, c) := hasEntries fold on entries path c
        (full.map fun full => .dir !full, c)
      else (.ok .file, c)

/-- What the polls of a task that was started come to. The task is not stopped
when the waiting ends. -/
def pollTask (result : Except SynoFsError Unit) : List PollFate → Except SynoFsError Unit
  | [] => .error (.io "the move is still running on the NAS; it was left to finish")
  | .running :: polls => pollTask result polls
  | .lost message :: _ => .error (.io message)
  | .refused code :: _ => .error (.apiError code)
  | .finished :: _ =>
      match result with
      | .ok () => .ok ()
      -- FileStation's own "failed to move", where it names no other reason.
      | .error (.apiError code) => .error (.apiError (if code = 0 then 1001 else code))
      | .error _ => .error (.apiError 1001)

/-- The request-level errors that mean the task was never started. -/
def neverStarted : List ℕ := [101, 102, 103, 104]

/-- `copymove`. The start is sent once, and nothing tells a task that was not
started from one whose answer was lost. -/
def copymove (start : HttpFate) (polls : List PollFate) (source destDir : NasPath)
    (overwrite : Bool) (c : Client S) : Except MoveFailure Unit × Client S :=
  let (result, s) := (on (copyMoveOp fold source destDir overwrite)).run .http c.server
  match start with
  | .answered =>
      ((pollTask result polls).mapError fun e => ⟨e, false⟩, { c with server := s })
  | .lost ran message | .garbled ran message =>
      (.error ⟨.io message, false⟩, if ran then { c with server := s } else c)
  | .refused code =>
      (.error ⟨if code ∈ neverStarted then .notSupported else .apiError code, true⟩, c)

/-- The rename in place that a move to another name starts with. DSM's Rename
never overwrites, so it also finds the name free here. -/
def renameFirst (sc : RequestScript) (m : MoveEnds) (c : Client S) :
    Except SynoFsError (Option NasPath) × Client S :=
  if m.oldName = m.newName then (.ok none, c)
  else
    let (r, c) := request (on (renameOp fold m.old m.newName)) sc c
    match r with
    | .ok _ => (.ok (some m.renamed), c)
    | .error e => (.error (if e.category = .permissionDenied then e else .notSupported), c)

/-- What the move will be, from a look at both ends. -/
def lookAtEnds (sc : MoveScript) (m : MoveEnds) (c : Client S) :
    Except SynoFsError MovePlan × Client S :=
  let (source, c) := request (on (getInfoOp fold m.old)) sc.source c
  match source with
  | .error e => (.error e, c)
  | .ok source =>
      let (dest, c) := destination fold on sc.dest sc.entries m.new c
      (dest.bind (planMove source.isdir), c)

/-- The move proper, of the entry where the rename in place left it. -/
def carryMove (sc : MoveScript) (m : MoveEnds) (plan : MovePlan) (source : NasPath)
    (c : Client S) : Except MoveFailure Unit × Client S :=
  if plan = .replaceEmptyDir then
    let (r, c) := request (on (deleteOp fold m.new)) sc.delete c
    match r with
    | .error e => (.error ⟨e, true⟩, c)
    | .ok () => copymove fold on sc.start sc.polls source m.destDir false c
  else copymove fold on sc.start sc.polls source m.destDir (plan = .replaceFile) c

/-- What a move that failed puts back: the rename in place, where nothing ran. -/
def settleMove (sc : MoveScript) (m : MoveEnds) (renamed : Option NasPath)
    (outcome : Except MoveFailure Unit) (c : Client S) : Except SynoFsError Unit × Client S :=
  match outcome, renamed with
  | .ok (), _ => (.ok (), c)
  | .error ⟨e, true⟩, some renamed =>
      (.error e, (request (on (renameOp fold renamed m.oldName)) sc.renameBack c).2)
  | .error ⟨e, _⟩, _ => (.error e, c)

/-- What is left to do of a move that has a plan. -/
def finishMove (sc : MoveScript) (m : MoveEnds) (plan : MovePlan) (c : Client S) :
    Except SynoFsError Unit × Client S :=
  let (renamed, c) := renameFirst fold on sc.rename m c
  match renamed with
  | .error e => (.error e, c)
  | .ok renamed =>
      let (outcome, c) := carryMove fold on sc m plan (renamed.getD m.old) c
      settleMove fold on sc m renamed outcome c

/-- `move_within` up to its plan: asking the backends, one of which may answer for
good, and a look at both ends. -/
def planFirst (sc : MoveScript) (old new : NasPath) (c : Client S) :
    Except (Except SynoFsError Unit) (MoveEnds × MovePlan) × Client S :=
  let (answer, breakers, s) := viaBackends (on (moveOp fold old new)) sc.backend
    c.metadataBreakers c.server
  let c := { c with metadataBreakers := breakers, server := s }
  match answer with
  | some r => (.error r, c)
  | none =>
      match MoveEnds.split old new with
      | none => (.error (.error .invalidArg), c)
      | some m =>
          let (plan, c) := lookAtEnds fold on sc m c
          match plan with
          | .error e => (.error (.error e), c)
          | .ok plan => (.ok (m, plan), c)

/-- `move_within`. -/
def moveWithin (sc : MoveScript) (old new : NasPath) (c : Client S) :
    Except SynoFsError Unit × Client S :=
  match planFirst fold on sc old new c with
  | (.error r, c) => (r, c)
  | (.ok (m, plan), c) => finishMove fold on sc m plan c

end Client

/-- `SynologyClient::move_to`, with nobody else on the server. -/
def moveTo (sc : MoveScript) (old new : NasPath) (c : Client Volume) :
    Except SynoFsError Unit × Client Volume := moveWithin fold (fun op => op) sc old new c

end Calls

theorem MoveEnds.split_eq {old new : NasPath} {m : MoveEnds}
    (h : MoveEnds.split old new = some m) : m.old = old ∧ m.new = new := by
  unfold MoveEnds.split at h
  split at h
  case h_1 srcDir oldName destDir newName hold hnew =>
    obtain rfl := Option.some.inj h
    exact ⟨(eq_of_splitParent hold).symm, (eq_of_splitParent hnew).symm⟩
  case h_2 => cases h

section Plan

variable {S : Type} {fold : String → String}
  {on : {α : Type} → Operation Volume α → Operation S α} {sc : MoveScript} {old new : NasPath}
  {c d : Client S} {m : MoveEnds} {plan : MovePlan}

/-- What a move with a plan has found out on the way. -/
theorem planFirst_ok (h : planFirst fold on sc old new c = (.ok (m, plan), d)) :
    MoveEnds.split old new = some m ∧
      (viaBackends (on (moveOp fold old new)) sc.backend c.metadataBreakers c.server).1 = none ∧
      lookAtEnds fold on sc m { c with
        metadataBreakers := (viaBackends (on (moveOp fold old new)) sc.backend
          c.metadataBreakers c.server).2.1
        server := (viaBackends (on (moveOp fold old new)) sc.backend
          c.metadataBreakers c.server).2.2 } = (.ok plan, d) := by
  unfold planFirst at h
  cases hvia : viaBackends (on (moveOp fold old new)) sc.backend c.metadataBreakers c.server with
  | mk answer rest =>
      obtain ⟨breakers, s⟩ := rest
      rw [hvia] at h
      rcases answer with _ | r
      case some => cases h
      cases hsplit : MoveEnds.split old new with
      | none => rw [hsplit] at h; cases h
      | some m' =>
          rw [hsplit] at h
          dsimp only at h ⊢
          cases hlook : lookAtEnds fold on sc m'
              { c with metadataBreakers := breakers, server := s } with
          | mk planned d' =>
              rw [hlook] at h
              rcases planned with e | plan'
              · cases h
              · cases h
                exact ⟨rfl, rfl, hlook⟩

theorem planFirst_ends (h : planFirst fold on sc old new c = (.ok (m, plan), d)) :
    m.old = old ∧ m.new = new := MoveEnds.split_eq (planFirst_ok h).1

end Plan

end SynologyFilestation.Core
