import SynologyFilestation.Core.Upload

/-!
The chunked upload (`http_slice_upload` in `core/src/client/upload.rs`, and
`verify_upload` in `core/src/client/verify.rs`).

A file goes up slice by slice. The server opens a partial for a slice that names
none, appends a slice to the partial it names, whether or not it holds that
slice already, and publishes the partial with the last one. A slice is sent
again when its answer does not come, and the whole file when the server no
longer knows the partial. Whether a slice may have been appended twice is kept in
one flag, and only then is the finished file hashed.
-/

namespace SynologyFilestation.Core

/-- What becomes of one slice. -/
inductive SliceFate
  /-- No connection was made. -/
  | unreached (message : String)
  /-- The answer did not come, or came as a status worth another attempt. -/
  | lost (landed : Bool) (message : String)
  /-- An error code: busy, a verdict, or the catch-all for a partial disowned. -/
  | refused (landed : Bool) (code : ℕ)
  /-- An answer that cannot be read, or a final status. -/
  | garbled (landed : Bool) (message : String)
  /-- The server takes the slice and says what came of it. -/
  | answered (names : Bool)

structure SliceScript where
  fate : SliceFate
  /-- The server cuts what it publishes to `X-FILE-SIZE`. -/
  trims : Bool

structure RestartScript where
  info : RequestScript
  clear : ClearScript
  rewind : Option String

inductive Md5Fate
  | answered
  | refused (code : ℕ)
  | lost (message : String)

structure VerifyScript where
  size : RequestScript
  sizeAgain : RequestScript
  md5 : Md5Fate
  localMd5 : Option String
  delete : RequestScript

/-- Everything that can go wrong in one sliced upload. Slices are told apart by
pass, index and attempt; `Option String` is a failure of the local disk. -/
structure SliceUploadScript where
  clear : ClearScript
  openFile : Option String
  read : ℕ → ℕ → Option String
  slice : ℕ → ℕ → ℕ → SliceScript
  restart : ℕ → RestartScript
  verify : VerifyScript

/-- The client, the partials of the server by their handles, and how many slices
were sent. -/
structure SliceSession where
  client : Client Volume
  partials : ℕ → Option Bytes
  handles : ℕ
  sent : ℕ

inductive SliceError
  | fatal (e : SynoFsError)
  | retryable (e : SynoFsError) (mayHaveLanded hard : Bool)

section Calls

variable (fold : String → String) (limits : TransferLimits) (path : NasPath)

/-! ### The server -/

/-- The server publishes a partial: whole, or cut to the size announced. -/
def publish (trims : Bool) (total : ℕ) (content : Bytes) (v : Volume) :
    Except SynoFsError Unit × Volume :=
  v.store fold path (if trims then content.take total else content)

/-- A partial grows. With the last slice it is published, and is gone then. -/
def SliceSession.grow (s : SliceSession) (trims : Bool) (total : ℕ) (last : Bool) (t handles : ℕ)
    (grown : Bytes) : Except SynoFsError ℕ × SliceSession :=
  let kept := { s with
    partials := fun h => if h = t then some grown else s.partials h, handles := handles }
  if last then
    match publish fold path trims total grown s.client.server with
    | (.ok (), v) => (.ok t, { kept with
        client := { s.client with server := v },
        partials := fun h => if h = t then none else s.partials h })
    | (.error e, _) => (.error e, kept)
  else (.ok t, kept)

/-- The server takes a slice. -/
def SliceSession.take (s : SliceSession) (trims : Bool) (chunk : Bytes) (total : ℕ) (last : Bool)
    (tmpfile : Option ℕ) : Except SynoFsError ℕ × SliceSession :=
  match tmpfile with
  | none => s.grow fold path trims total last s.handles (s.handles + 1) chunk
  | some t =>
      match s.partials t with
      | none => (.error (.apiError 401), s)
      | some held => s.grow fold path trims total last t s.handles (held ++ chunk)

/-! ### The client -/

/-- A code answered to a slice. -/
def SliceError.ofCode (code : ℕ) : SliceError :=
  if dsmCodeToCategory code = .busy then .retryable (.apiError code) true true
  else .fatal (.apiError code)

/-- `send_slice`. Only a connection that was never made proves that the server
has not got the slice. -/
def sendSlice (sc : SliceScript) (chunk : Bytes) (total : ℕ) (last : Bool) (tmpfile : Option ℕ)
    (s : SliceSession) : Except SliceError (Option ℕ) × SliceSession :=
  let s := { s with sent := s.sent + 1 }
  let (answer, taken) := s.take fold path sc.trims chunk total last tmpfile
  let after (landed : Bool) := if landed then taken else s
  match sc.fate with
  | .unreached message => (.error (.retryable (.io message) false false), s)
  | .lost landed message => (.error (.retryable (.io message) true false), after landed)
  | .refused landed code => (.error (.ofCode code), after landed)
  | .garbled landed message => (.error (.fatal (.io message)), after landed)
  | .answered names =>
      match answer with
      | .ok t => (.ok (if names then some t else none), taken)
      | .error (.apiError code) => (.error (.ofCode code), taken)
      | .error e => (.error (.fatal e), taken)

/-- How the attempts at one slice end. -/
inductive SliceEnd
  | taken (tmpfile : Option ℕ)
  | refused (e : SynoFsError)
  | gaveUp (e : SynoFsError)

/-- The attempts left at one slice, after `attempt` of them. With no handle a
slice opens a partial of its own, so sending it again doubles nothing. -/
def sendUntilTaken (sc : ℕ → SliceScript) (chunk : Bytes) (total : ℕ) (last : Bool)
    (tmpfile : Option ℕ) : ℕ → ℕ → Bool → SliceSession → SliceEnd × Bool × SliceSession
  | _, 0, unverified, s => (.gaveUp (.io "no attempts"), unverified, s)
  | attempt, left + 1, unverified, s =>
      match sendSlice fold path (sc attempt) chunk total last tmpfile s with
      | (.ok answered, s) => (.taken answered, unverified, s)
      | (.error (.fatal e), s) => (.refused e, unverified, s)
      | (.error (.retryable e mayHaveLanded _), s) =>
          if left = 0 then (.gaveUp e, unverified, s)
          else sendUntilTaken sc chunk total last tmpfile (attempt + 1) left
            (unverified || (mayHaveLanded && tmpfile.isSome)) s

/-- `partial_was_rejected`: DSM has no code for a partial it no longer has, and
answers its catch-all. -/
def partialWasRejected : SynoFsError → Bool
  | .apiError code => dsmCodeToCategory code = .other
  | _ => false

/-- How a pass over the file ends. -/
inductive PassEnd
  | finished (unverified : Bool)
  | failed (e : SynoFsError)
  | rejected (e : SynoFsError)

/-- The slice of a file at an index. -/
def sliceOf (content : Bytes) (sliceSize index : ℕ) : Bytes :=
  (content.drop (index * sliceSize)).take sliceSize

/-- The slices left of one pass, after `index` of them. -/
def sendPass (read : ℕ → Option String) (sc : ℕ → ℕ → SliceScript) (content : Bytes) :
    ℕ → ℕ → Option ℕ → Bool → SliceSession → PassEnd × SliceSession
  | _, 0, _, unverified, s => (.finished unverified, s)
  | index, left + 1, tmpfile, unverified, s =>
      match read index with
      | some why => (.failed (.io why), s)
      | none =>
          let (outcome, unverified, s) := sendUntilTaken fold path (sc index)
            (sliceOf content limits.sliceSize index) content.length (left = 0) tmpfile 0
            limits.maxAttempts unverified s
          match outcome with
          | .gaveUp e => (.failed e, s)
          | .refused e =>
              if tmpfile.isNone || !partialWasRejected e then (.failed e, s) else (.rejected e, s)
          | .taken answered =>
              if left = 0 then (.finished unverified, s)
              else
                match answered with
                | none =>
                    (.failed (.io s!"slice upload: server returned no tmpfile after slice {index}"),
                      s)
                | some t => sendPass read sc content (index + 1) left (some t) unverified s

inductive Restart
  | alreadyLanded
  | ready

def reportedSize (info : Except SynoFsError SynoFileInfo) : Option ℕ :=
  match info with
  | .ok info => info.size
  | .error _ => none

/-- `restart_slice_upload`. -/
def restartSliceUpload (sc : RestartScript) (folder : NasPath) (filename : String) (total : ℕ)
    (c : Client Volume) : Except SynoFsError Restart × Client Volume :=
  let (info, c) := getInfo fold sc.info (joinPath folder filename) c
  if reportedSize info = some total then (.ok .alreadyLanded, c)
  else
    let c := clearForOverwrite fold sc.clear folder filename c
    match sc.rewind with
    | some why => (.error (.io why), c)
    | none => (.ok .ready, c)

/-- How many slices a file of `total` bytes takes. -/
def TransferLimits.slices (total : ℕ) : ℕ :=
  max ((total + limits.sliceSize - 1) / limits.sliceSize) 1

/-- The passes left over a file, after `restarts` of them were rejected. The
result is whether a slice may have been doubled. -/
def sendFile (sc : SliceUploadScript) (content : Bytes) (folder : NasPath) (filename : String) :
    ℕ → ℕ → SliceSession → Except SynoFsError Bool × SliceSession
  | _, 0, s => (.error (.io "no attempts"), s)
  | restarts, left + 1, s =>
      let (outcome, s) := sendPass fold limits (joinPath folder filename) (sc.read restarts)
        (sc.slice restarts) content 0 (limits.slices content.length) none false s
      match outcome with
      | .finished unverified => (.ok unverified, s)
      | .failed e => (.error e, s)
      | .rejected e =>
          if left = 0 then (.error e, s)
          else
            let (found, c) := restartSliceUpload fold (sc.restart restarts) folder filename
              content.length s.client
            let s := { s with client := c }
            match found with
            | .error e => (.error e, s)
            -- The answer that was lost was the last slice's.
            | .ok .alreadyLanded => (.ok true, s)
            | .ok .ready => sendFile sc content folder filename (restarts + 1) left s

/-- `landed_size`. -/
def landedSize (sc : RequestScript) (c : Client Volume) : Option ℕ × Client Volume :=
  let (info, c) := getInfo fold sc path c
  (reportedSize info, c)

/-- The size to judge an upload by: one that differs is asked for again, since
the listing can lag. -/
def settledSize (sc : VerifyScript) (total : ℕ) (c : Client Volume) : Option ℕ × Client Volume :=
  let (first, c) := landedSize fold path sc.size c
  if first.all (· = total) then (none, c) else landedSize fold path sc.sizeAgain c

/-- `reject_upload`: a file known to be wrong is worse than none. -/
def rejectUpload (sc : RequestScript) (why : String) (c : Client Volume) :
    Except SynoFsError Unit × Client Volume :=
  let (_, c) := delete fold sc path c
  let name := pathText path
  (.error (.io s!"upload verification failed for {name}: {why}"), c)

variable {D : Type} [DecidableEq D] [ToString D] (md5 : Bytes → D)

/-- The second half of `verify_upload`: hash the file on the NAS and here. -/
def verifyHash (sc : VerifyScript) (content : Bytes) (c : Client Volume) :
    Except SynoFsError Unit × Client Volume :=
  let name := pathText path
  match sc.md5 with
  -- The NAS says that it cannot hash: the write stands.
  | .refused _ => (.ok (), c)
  | .lost why =>
      (.error (.io s!"upload of {name} could not be verified after a resend: {why}"), c)
  | .answered =>
      match c.server.treeAt fold path with
      | some (.file remote) =>
          match sc.localMd5 with
          | some why => (.error (.io why), c)
          | none =>
              let hashed := md5 remote
              let expected := md5 content
              if hashed = expected then (.ok (), c)
              else rejectUpload fold path sc.delete s!"md5 {hashed} != {expected}" c
      | _ => (.ok (), c)

/-- `verify_upload`. -/
def verifyUpload (sc : VerifyScript) (content : Bytes) (hashIt : Bool) (c : Client Volume) :
    Except SynoFsError Unit × Client Volume :=
  let total := content.length
  let (size, c) := settledSize fold path sc total c
  match size.filter (· ≠ total) with
  | some size =>
      rejectUpload fold path sc.delete s!"landed as {size} bytes, expected {total}" c
  | none => if hashIt then verifyHash fold path md5 sc content c else (.ok (), c)

/-- `http_slice_upload` of a local file. -/
def httpSliceUpload (sc : SliceUploadScript) (content : Bytes) (folder : NasPath)
    (filename : String) (overwrite : Bool) (s : SliceSession) :
    Except SynoFsError Unit × SliceSession :=
  let s := if overwrite then
      { s with client := clearForOverwrite fold sc.clear folder filename s.client }
    else s
  match sc.openFile with
  | some why => (.error (.io why), s)
  | none =>
      match sendFile fold limits sc content folder filename 0 limits.maxAttempts s with
      | (.error e, s) => (.error e, s)
      | (.ok unverified, s) =>
          let (r, c) := verifyUpload fold (joinPath folder filename) md5 sc.verify content
            unverified s.client
          (r, { s with client := c })

end Calls

theorem slices_pos (limits : TransferLimits) (total : ℕ) : 0 < limits.slices total :=
  Nat.lt_of_lt_of_le Nat.one_pos (le_max_right _ _)

end SynologyFilestation.Core
