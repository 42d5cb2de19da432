import SynologyFilestation.Core.SharedMove
import SynologyFilestation.Smb.Session

/-!
Moving and deleting over SMB, a request at a time (`move_to` and `delete` in
`smb/src/transport.rs`, `SmbPath` in `smb/src/path.rs`, `move_error` in `smb/src/error.rs`).

A backend of the client that moves is one call that moves as `rename(2)` does (`Volume.moveTo`).
SMB has no such call: a move is a look at both ends, the removal of an empty folder that is in the
way, and a rename, each a message of its own, and others may be at work between them.

The server answers a rename onto another spelling of the same name in ways of its own, which are
left out: what is proved is about moves to another place.
-/

namespace SynologyFilestation.Smb2

open Core

/-- `smb2::ErrorKind`. The list is open: `other` is any kind it has no name for. -/
inductive ErrorKind
  | notFound
  | accessDenied
  | authRequired
  | signingRequired
  | alreadyExists
  | diskFull
  | unsupported
  | isADirectory
  | notADirectory
  | tooLarge
  | connectionLost
  | timedOut
  | io
  | sessionExpired
  | sharingViolation
  | dfsReferral
  | invalidData
  | cancelled
  | other
  deriving DecidableEq, Repr

/-- The kinds a session is told apart by. -/
def ErrorKind.ofSession : ErrorKind → Smb.ErrorKind
  | .connectionLost => .connectionLost
  | .timedOut => .timedOut
  | .sessionExpired => .sessionExpired
  | _ => .other

/-- `smb2::Error`. There is no kind for a folder that is not empty, only the status. -/
structure Error where
  kind : ErrorKind
  directoryNotEmpty : Bool
  text : String
  deriving DecidableEq, Repr

end SynologyFilestation.Smb2

namespace SynologyFilestation.Smb

open Core Library

/-! ### Where a path is -/

/-- `trim_matches('/')`. -/
def trimMatches (path : NasPath) : NasPath := trimEnd (path.dropWhile (· = ""))

/-- A share and a path in it. -/
structure SmbPath where
  share : String
  path : NasPath
  deriving DecidableEq, Repr

def SmbPath.fromLogical (logical : NasPath) : Except SynoFsError SmbPath :=
  match trimMatches logical with
  | [] => .error .invalidArg
  | share :: path => if share = "" then .error .invalidArg else .ok ⟨share, path⟩

/-- The path on the NAS, of which the share is the first part. -/
def SmbPath.logical (loc : SmbPath) : NasPath := loc.share :: loc.path

theorem SmbPath.logical_ne_nil (loc : SmbPath) : loc.logical ≠ [] := List.cons_ne_nil _ _

/-- A path that has nothing to trim is the one it is taken for. -/
theorem SmbPath.logical_of_fromLogical {logical : NasPath} {loc : SmbPath}
    (h : SmbPath.fromLogical logical = .ok loc) : loc.logical = trimMatches logical := by
  unfold SmbPath.fromLogical at h
  split at h
  case h_1 => cases h
  case h_2 share path htrim =>
    split at h
    case isTrue => cases h
    case isFalse =>
      obtain rfl := Except.ok.inj h
      exact htrim.symm

theorem length_trimMatches (path : NasPath) : (trimMatches path).length ≤ path.length := by
  rw [trimMatches, trimEnd, List.length_reverse]
  calc _ ≤ (path.dropWhile (· = "")).reverse.length := (List.dropWhile_sublist _).length_le
    _ ≤ path.length := by
      rw [List.length_reverse]
      exact (List.dropWhile_sublist _).length_le

/-- A path that has nothing to trim is in a share. -/
theorem SmbPath.fromLogical_of_trimmed {logical : NasPath} (h : trimMatches logical = logical)
    (hne : logical ≠ []) : ∃ loc, SmbPath.fromLogical logical = .ok loc ∧ loc.logical = logical := by
  cases logical with
  | nil => exact (hne rfl).elim
  | cons share path =>
      have hshare : share ≠ "" := by
        rintro rfl
        have hlength := length_trimMatches path
        rw [show trimMatches path = trimMatches ("" :: path) from rfl, h] at hlength
        simp only [List.length_cons] at hlength
        omega
      exact ⟨⟨share, path⟩, by rw [SmbPath.fromLogical, h]; exact if_neg hshare, rfl⟩

/-! ### What the server says -/

section Errors

def kindToSyno (kind : Smb2.ErrorKind) (context : String) : SynoFsError :=
  match kind with
  | .notFound => .notFound
  | .accessDenied | .authRequired | .signingRequired => .permissionDenied
  | .alreadyExists => .alreadyExists
  | .diskFull => .noSpace
  | .unsupported => .notSupported
  | .isADirectory | .notADirectory | .tooLarge => .invalidArg
  | .connectionLost | .timedOut | .io | .sessionExpired | .sharingViolation | .dfsReferral
  | .invalidData | .cancelled | .other => .io ("smb: " ++ context)

def toSynoError (e : Smb2.Error) : SynoFsError := kindToSyno e.kind e.text

/-- `move_error`: but for a dead link, the server's answer is final. -/
def moveError (e : Smb2.Error) : SynoFsError :=
  if e.directoryNotEmpty then .notEmpty
  else
    match e.kind with
    | .connectionLost | .timedOut | .sessionExpired => toSynoError e
    | .sharingViolation => .permissionDenied
    | _ =>
        match toSynoError e with
        | .io _ => .invalidArg
        | definitive => definitive

/-- What a move makes of a request that failed. -/
def moveRefused (e : Smb2.Error) : SynoFsError :=
  if isConnectionLost e.kind.ofSession then toSynoError e else moveError e

/-- A move is passed on to the next backend for a dead link, and where the server cannot do what
was asked. No other answer is. -/
theorem passesOn_moveRefused {α : Type} (e : Smb2.Error) :
    passesOn (.error (moveRefused e) : Except SynoFsError α) = true ↔
      isConnectionLost e.kind.ofSession = true ∨
        (e.kind = .unsupported ∧ e.directoryNotEmpty = false) := by
  obtain ⟨kind, full, text⟩ := e
  cases kind <;> cases full <;>
    simp [passesOn, moveRefused, moveError, toSynoError, kindToSyno, isConnectionLost,
      Smb2.ErrorKind.ofSession, SynoFsError.category]

/-- A delete is passed on for all that has no name of its own. -/
theorem passesOn_toSynoError {α : Type} (e : Smb2.Error) :
    passesOn (.error (toSynoError e) : Except SynoFsError α) = true ↔
      e.kind ∈ [.unsupported, .connectionLost, .timedOut, .io, .sessionExpired, .sharingViolation,
        .dfsReferral, .invalidData, .cancelled, .other] := by
  obtain ⟨kind, full, text⟩ := e
  cases kind <;> simp [passesOn, toSynoError, kindToSyno, SynoFsError.category]

end Errors

/-! ### The server

The texts of its answers are left out: they reach nobody but the log. -/

section Server

variable (fold : String → String)

def saying (kind : Smb2.ErrorKind) : Smb2.Error := ⟨kind, false, ""⟩

/-- `STATUS_DIRECTORY_NOT_EMPTY`. -/
def directoryNotEmpty : Smb2.Error := ⟨.other, true, ""⟩

/-- `stat`, as far as a move and a delete read it: whether the entry is a directory. -/
def statDir (path : NasPath) (v : Volume) : Except Smb2.Error Bool × Volume :=
  match v.treeAt fold path with
  | none => (.error (saying .notFound), v)
  | some tree => (.ok (isDir tree), v)

def deleteDirectory (path : NasPath) (v : Volume) : Except Smb2.Error Unit × Volume :=
  match v.treeAt fold path with
  | none => (.error (saying .notFound), v)
  | some (.file _) => (.error (saying .notADirectory), v)
  | some (.dir []) => (.ok (), v.remove fold path)
  | some (.dir (_ :: _)) => (.error directoryNotEmpty, v)

def deleteFile (path : NasPath) (v : Volume) : Except Smb2.Error Unit × Volume :=
  match v.treeAt fold path with
  | none => (.error (saying .notFound), v)
  | some (.dir _) => (.error (saying .isADirectory), v)
  | some (.file _) => (.ok (), v.remove fold path)

/-- `rename_with_options`. A folder is never replaced, whatever is asked for. -/
def renameWithOptions (source target : NasPath) (replaceIfExists : Bool) (v : Volume) :
    Except Smb2.Error Unit × Volume :=
  match v.treeAt fold source, v.treeAt fold target with
  | none, _ => (.error (saying .notFound), v)
  | some _, some (.dir _) => (.error (saying .accessDenied), v)
  | some _, some (.file _) =>
      if replaceIfExists then
        let (moved, v) := v.replaceFile fold source target
        (moved.mapError fun _ => saying .notFound, v)
      else (.error (saying .alreadyExists), v)
  | some _, none =>
      let (moved, v) := v.relocate fold source target
      (moved.mapError fun _ => saying .notFound, v)

end Server

/-! ### The requests of one call -/

/-- What becomes of one request. A link that dies may take the answer with it. -/
inductive RequestFate
  | answered
  | lost (ran : Bool) (e : {e : Smb2.Error // isConnectionLost e.kind.ofSession = true})
  | refused (e : Smb2.Error)

/-- A call among those of others, and its own requests: the volume before each, and after it. -/
structure Talk where
  shared : Shared
  requests : List (Volume × Volume)

def RequestFate.run {α : Type} (fate : RequestFate)
    (op : Volume → Except Smb2.Error α × Volume) (v : Volume) : Except Smb2.Error α × Volume :=
  match fate with
  | .answered => op v
  | .lost ran e => (.error e.val, if ran then (op v).2 else v)
  | .refused e => (.error e, v)

def Talk.ask {α : Type} (op : Volume → Except Smb2.Error α × Volume) (fate : RequestFate)
    (t : Talk) : Except Smb2.Error α × Talk :=
  let (answer, v) := fate.run op t.shared.found
  (answer, { shared := ⟨v, t.shared.others.tail⟩
             requests := t.requests ++ [(t.shared.found, v)] })

/-- What becomes of the requests of a move. The session may not be there to begin with. -/
structure SmbMoveScript where
  ready : Option SynoFsError
  source : RequestFate
  dest : RequestFate
  clear : RequestFate
  rename : RequestFate

section Calls

variable (fold : String → String)

/-- What stands where a move goes. For a folder in the way of a folder, a delete is tried: it takes
no folder that is not empty. -/
def moveDestination (sc : SmbMoveScript) (target : NasPath) (sourceIsDir : Bool) (t : Talk) :
    Except SynoFsError Destination × Talk :=
  let (found, t) := t.ask (statDir fold target) sc.dest
  match found with
  | .error e => (if e.kind = .notFound then .ok .absent else .error (moveRefused e), t)
  | .ok false => (.ok .file, t)
  | .ok true =>
      -- In the way of a file it is refused, whatever it holds.
      if !sourceIsDir then (.ok (.dir false), t)
      else
        let (cleared, t) := t.ask (deleteDirectory fold target) sc.clear
        match cleared with
        | .ok () => (.ok .absent, t)
        | .error e =>
            (if moveRefused e = .notEmpty then .ok (.dir false) else .error (moveRefused e), t)

/-- `SmbTransport::move_to`, of two paths in one share. -/
def moveInShare (sc : SmbMoveScript) (source target : NasPath) (t : Talk) :
    Except SynoFsError Unit × Talk :=
  let (found, t) := t.ask (statDir fold source) sc.source
  match found with
  | .error e => (.error (moveRefused e), t)
  | .ok sourceIsDir =>
      let (dest, t) := moveDestination fold sc target sourceIsDir t
      match dest.bind (planMove sourceIsDir) with
      | .error e => (.error e, t)
      | .ok plan =>
          let (moved, t) := t.ask (renameWithOptions fold source target (plan = .replaceFile))
            sc.rename
          (moved.mapError moveRefused, t)

/-- `SmbTransport::move_to`. -/
def smbMoveTo (sc : SmbMoveScript) (source target : NasPath) (t : Talk) :
    Except SynoFsError Unit × Talk :=
  match SmbPath.fromLogical source, SmbPath.fromLogical target with
  | .error e, _ => (.error e, t)
  | .ok _, .error e => (.error e, t)
  | .ok src, .ok dst =>
      if src.share ≠ dst.share then (.error .notSupported, t)
      else
        match sc.ready with
        | some e => (.error e, t)
        | none => moveInShare fold sc src.logical dst.logical t

/-- Files and directories are deleted by different calls. -/
def deleteSeen (isDirectory : Bool) (path : NasPath) : Volume → Except Smb2.Error Unit × Volume :=
  if isDirectory then deleteDirectory fold path else deleteFile fold path

/-- `SmbTransport::delete`, which asks first what it is. -/
def smbDelete (ready : Option SynoFsError) (stat delete : RequestFate) (path : NasPath) (t : Talk) :
    Except SynoFsError Unit × Talk :=
  match SmbPath.fromLogical path with
  | .error e => (.error e, t)
  | .ok loc =>
      match ready with
      | some e => (.error e, t)
      | none =>
          let (found, t) := t.ask (statDir fold loc.logical) stat
          match found with
          | .error e => (.error (toSynoError e), t)
          | .ok isDirectory =>
              let (done, t) := t.ask (deleteSeen fold isDirectory loc.logical) delete
              (done.mapError toSynoError, t)

end Calls

/-! ### The log of a call -/

section Log

variable {fold : String → String} {t : Talk}

theorem Talk.ask_ok {α : Type} {op : Volume → Except Smb2.Error α × Volume} {fate : RequestFate}
    {a : α} (h : (t.ask op fate).1 = .ok a) :
    (op t.shared.found).1 = .ok a ∧
      (t.ask op fate).2.requests = t.requests ++ [(t.shared.found, (op t.shared.found).2)] := by
  cases fate with
  | answered => exact ⟨h, rfl⟩
  | refused e => cases h
  | lost ran e => cases h

theorem Talk.ask_answered {α : Type} (op : Volume → Except Smb2.Error α × Volume) (v : Volume)
    (requests : List (Volume × Volume)) :
    (Talk.mk ⟨v, []⟩ requests).ask op .answered =
      ((op v).1, ⟨⟨(op v).2, []⟩, requests ++ [(v, (op v).2)]⟩) := rfl

/-- Each request of the log keeps to a rule, which is told what went before. -/
def EachRequest (rule : List (Volume × Volume) → Volume → Volume → Prop)
    (log : List (Volume × Volume)) : Prop :=
  ∀ before v w after, log = before ++ (v, w) :: after → rule before v w

variable {rule : List (Volume × Volume) → Volume → Volume → Prop}

theorem EachRequest.nil : EachRequest rule [] := by
  intro before v w after h
  cases before <;> cases h

theorem EachRequest.concat {log : List (Volume × Volume)} {v w : Volume}
    (h : EachRequest rule log) (hrequest : rule log v w) : EachRequest rule (log ++ [(v, w)]) := by
  intro before v' w' after hlog
  rcases List.eq_nil_or_concat after with rfl | ⟨front, last, rfl⟩
  · obtain ⟨rfl, hlast⟩ := List.append_inj' hlog rfl
    cases hlast
    exact hrequest
  · rw [List.concat_eq_append, ← List.cons_append, ← List.append_assoc] at hlog
    obtain ⟨hlog, -⟩ := List.append_inj' hlog rfl
    exact h before v' w' front hlog

/-- A request that is not carried out changes nothing, and one that is keeps to the rule. -/
theorem EachRequest.ask {α : Type} {op : Volume → Except Smb2.Error α × Volume}
    (fate : RequestFate) (h : EachRequest rule t.requests)
    (hstill : ∀ before v, rule before v v) (hop : ∀ v, rule t.requests v (op v).2) :
    EachRequest rule (t.ask op fate).2.requests := by
  apply h.concat
  cases fate with
  | answered => exact hop _
  | refused e => exact hstill _ _
  | lost ran e =>
      cases ran with
      | true => exact hop _
      | false => exact hstill _ _

theorem statDir_volume (path : NasPath) (v : Volume) : (statDir fold path v).2 = v := by
  unfold statDir
  split <;> rfl

theorem EachRequest.look (fold : String → String) (h : EachRequest rule t.requests)
    (hstill : ∀ before v, rule before v v) (path : NasPath) (fate : RequestFate) :
    EachRequest rule (t.ask (statDir fold path) fate).2.requests := by
  apply h.ask fate hstill
  intro v
  rw [statDir_volume]
  exact hstill _ v

end Log

end SynologyFilestation.Smb
