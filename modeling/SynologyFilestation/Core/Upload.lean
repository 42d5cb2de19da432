import SynologyFilestation.Core.Metadata

/-!
Replacing a file (`core/src/client/upload.rs`, and `download` in
`core/src/client/download.rs`, which `truncate` falls back to). A write backend
replaces a file in one step. The HTTP path cannot: it deletes what stands under
the name, waits until it is gone, and uploads onto cleared ground, at every
attempt anew.
-/

namespace SynologyFilestation.Core

open Library

/-- How often a transfer is tried (`max_transfer_attempts`; a throttle allows at
least one) and how large a slice is (`with_slice_size`). -/
structure TransferLimits where
  maxAttempts : ℕ
  sliceSize : ℕ
  attempts_pos : 0 < maxAttempts
  slice_pos : 0 < sliceSize

/-- Without a throttle and with `DEFAULT_SLICE_SIZE`. -/
def TransferLimits.standard : TransferLimits :=
  { maxAttempts := 3, sliceSize := 10 * 1024 * 1024, attempts_pos := by decide,
    slice_pos := by decide }

structure ClearScript where
  delete : RequestScript
  poll : ℕ → RequestScript

/-- One attempt of `http_upload`. A status that is worth another attempt is a
lost answer, one that is not is an answer that cannot be read. -/
structure AttemptScript where
  clear : ClearScript
  post : HttpFate

structure UploadScript where
  backend : ℕ → BackendScript
  http : ℕ → AttemptScript

structure DownloadScript where
  backend : ℕ → BackendScript
  http : ℕ → HttpFate

structure TruncateScript where
  backend : ℕ → BackendScript
  info : RequestScript
  download : DownloadScript
  upload : UploadScript

section Calls

variable (fold : String → String) (archive : Tree → Bytes) (limits : TransferLimits)

def writeOp (path : NasPath) (data : Bytes) : Operation Volume Unit where
  run _ := Volume.write fold path data
  final v := by
    unfold Volume.write
    split
    · rfl
    · split <;> rfl

def truncateOp (path : NasPath) (size : ℕ) : Operation Volume Unit where
  run _ := Volume.truncate fold path size
  final v := by
    unfold Volume.truncate
    split <;> rfl

def readOp (path : NasPath) (offset length : ℕ) : Operation Volume Bytes where
  run p := Volume.read fold archive p path offset length
  final v := by
    unfold Volume.read
    split <;> rfl

def download (sc : DownloadScript) (path : NasPath) (offset length : ℕ) (c : Client Volume) :
    Except SynoFsError Bytes × Client Volume :=
  let op := readOp fold archive path offset length
  let (answer, breakers, v) := viaBackends op sc.backend c.readBreakers c.server
  match answer with
  | some r => (r, { c with readBreakers := breakers, server := v })
  | none =>
      let (r, v) := sendRetried op sc.http (.io "no attempts") 0 limits.maxAttempts v
      (r, { c with readBreakers := breakers, server := v })

/-- The polls left of `clear_for_overwrite`, after `polled` of them. -/
def pollGone (poll : ℕ → RequestScript) (path : NasPath) : ℕ → ℕ → Client Volume → Client Volume
  | _, 0, c => c
  | polled, left + 1, c =>
      let (info, c) := getInfo fold (poll polled) path c
      match info with
      | .ok _ => pollGone poll path (polled + 1) left c
      | .error _ => c

def clearForOverwrite (sc : ClearScript) (folder : NasPath) (filename : String)
    (c : Client Volume) : Client Volume :=
  let path := joinPath folder filename
  -- The file may not be there: the error is ignored.
  let (_, c) := delete fold sc.delete path c
  pollGone fold sc.poll path 0 10 c

/-- The attempts left of `http_upload`, after `attempt` of them. -/
def httpUploadFrom (sc : ℕ → AttemptScript) (folder : NasPath) (filename : String) (data : Bytes)
    (overwrite : Bool) (lastErr : SynoFsError) :
    ℕ → ℕ → Client Volume → Except SynoFsError Unit × Client Volume
  | _, 0, c => (.error lastErr, c)
  | attempt, left + 1, c =>
      let c := if overwrite then clearForOverwrite fold (sc attempt).clear folder filename c else c
      let (r, v) := c.server.store fold (joinPath folder filename) data
      match (sc attempt).post with
      | .answered => (r, { c with server := v })
      | .lost ran message =>
          let c := if ran then { c with server := v } else c
          httpUploadFrom sc folder filename data overwrite (.io message) (attempt + 1) left c
      | .refused code => (.error (.apiError code), c)
      | .garbled ran message =>
          (.error (.io message), if ran then { c with server := v } else c)

def httpUpload (sc : ℕ → AttemptScript) (folder : NasPath) (filename : String) (data : Bytes)
    (overwrite : Bool) : Client Volume → Except SynoFsError Unit × Client Volume :=
  httpUploadFrom fold sc folder filename data overwrite (.io "no attempts") 0 limits.maxAttempts

/-- `SynologyClient::upload`. Only a replacing write goes to the write backends: they cannot refuse
a name that is taken. -/
def upload (sc : UploadScript) (folder : NasPath) (filename : String) (data : Bytes)
    (overwrite : Bool) (c : Client Volume) : Except SynoFsError Unit × Client Volume :=
  if overwrite then
    let (answer, breakers, v) := viaBackends (writeOp fold (joinPath folder filename) data)
      sc.backend c.writeBreakers c.server
    let c := { c with writeBreakers := breakers, server := v }
    match answer with
    | some r => (r, c)
    | none => httpUpload fold limits sc.http folder filename data true c
  else httpUpload fold limits sc.http folder filename data false c

/-- How much of the file a truncation reads: all of it when it has to grow, or
when its size is not known. -/
def wantedBytes (current : Except SynoFsError SynoFileInfo) (size : ℕ) : ℕ :=
  match current with
  | .ok { size := some len, .. } => if size < len then size else 0
  | _ => 0

/-- `SynologyClient::truncate`. Without a backend that sets lengths it reads the
part of the file that stays and writes it back. -/
def truncate (sc : TruncateScript) (path : NasPath) (size : ℕ) (c : Client Volume) :
    Except SynoFsError Unit × Client Volume :=
  let (answer, breakers, v) := viaBackends (truncateOp fold path size) sc.backend
    c.metadataBreakers c.server
  let c := { c with metadataBreakers := breakers, server := v }
  match answer with
  | some r => (r, c)
  | none =>
      match splitParent path with
      | none => (.error .invalidArg, c)
      | some (parent, filename) =>
          if size = 0 then upload fold limits sc.upload parent filename [] true c
          else
            let (current, c) := getInfo fold sc.info path c
            let want := wantedBytes current size
            let (content, c) := download fold archive limits sc.download path 0 want c
            match content with
            | .error e => (.error e, c)
            | .ok data => upload fold limits sc.upload parent filename (resize data size) true c

end Calls

end SynologyFilestation.Core
