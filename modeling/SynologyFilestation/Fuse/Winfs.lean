import SynologyFilestation.Fuse.Webdav
import SynologyFilestation.Library.Edits
import SynologyFilestation.Library.Transition

/-!
The WinFsp front end (`fuse/src/winfs.rs`). A context of a file writes to a buffer that the
contexts of one pending file share: a context names its buffer, and the file system keeps what
each buffer holds. A flush uploads it whole and then takes it away; the next write starts
another.

Of a file's information the sizes are kept, which a write answers with. Folders, deletion and
listings are left out.
-/

namespace SynologyFilestation.Fuse

open Core Library Smb

inductive FspError
  | ntstatus (code : ℕ)
  | io (why : String)
  deriving DecidableEq, Repr

def statusUnsuccessful : ℕ := 0xC0000001
def statusAccessDenied : ℕ := 0xC0000022
def statusObjectNameNotFound : ℕ := 0xC0000034
def statusObjectNameCollision : ℕ := 0xC0000035
def statusDiskFull : ℕ := 0xC000007F

/-- `syno_to_fsp`. -/
def synoToFsp : SynoFsError → FspError
  | .notFound => .ntstatus statusObjectNameNotFound
  | .permissionDenied => .ntstatus statusAccessDenied
  | .alreadyExists => .ntstatus statusObjectNameCollision
  | .noSpace => .ntstatus statusDiskFull
  | .apiError 408 | .apiError 414 | .apiError 415 => .ntstatus statusObjectNameNotFound
  | .apiError 418 => .ntstatus statusObjectNameCollision
  | .apiError 419 => .ntstatus statusDiskFull
  | _ => .ntstatus statusUnsuccessful

/-- `FileInfo`, of which the sizes. -/
structure FileInfo where
  fileSize : ℕ
  allocationSize : ℕ
  deriving DecidableEq, Repr

def FileInfo.ofSize (size : ℕ) : FileInfo :=
  { fileSize := size, allocationSize := (size + 511) / 512 * 512 }

/-- `SynoFileContext`. -/
structure SynoFileContext where
  nasPath : NasPath
  fileInfo : FileInfo
  writeBuf : ℕ
  isNew : Bool

structure PendingEntry where
  fileInfo : FileInfo
  buf : ℕ

/-- `SynologyWinFs`, what each shared buffer holds, and the world behind the client. -/
structure SynologyWinFs (S : Type) where
  pendingFiles : NasPath → Option PendingEntry
  buffers : ℕ → Option SpillBuffer
  allocated : ℕ
  world : S

/-- What `close` says when it could not upload. -/
inductive CloseLog
  | uploadFailed (nasPath : NasPath) (e : SynoFsError)
  | unreadable (nasPath : NasPath) (why : String)

namespace SynologyWinFs

variable {S F : Type} (client : NasClient S F)

/-- A buffer that no context has yet. -/
def allocate (fs : SynologyWinFs S) (held : Option SpillBuffer) : ℕ × SynologyWinFs S :=
  (fs.allocated, { fs with
    buffers := Function.update fs.buffers fs.allocated held
    allocated := fs.allocated + 1 })

def put (fs : SynologyWinFs S) (buf : ℕ) (held : Option SpillBuffer) : SynologyWinFs S :=
  { fs with buffers := Function.update fs.buffers buf held }

/-- `open`, with what `get_info` answers: a size, or an error. -/
def «open» (getInfo : NasPath → Except SynoFsError (Option ℕ)) (nas : NasPath)
    (fs : SynologyWinFs S) : Except FspError SynoFileContext × SynologyWinFs S :=
  if nas = [] then
    let (buf, fs) := fs.allocate none
    (.ok { nasPath := [], fileInfo := .ofSize 0, writeBuf := buf, isNew := false }, fs)
  else
    match fs.pendingFiles nas with
    | some entry =>
        (.ok { nasPath := nas, fileInfo := entry.fileInfo, writeBuf := entry.buf, isNew := true },
          fs)
    | none =>
        match getInfo nas with
        | .error e => (.error (synoToFsp e), fs)
        | .ok size =>
            let (buf, fs) := fs.allocate none
            (.ok { nasPath := nas, fileInfo := .ofSize (size.getD 0), writeBuf := buf,
                   isNew := false }, fs)

/-- `create` of a file. -/
def create (nas : NasPath) (fs : SynologyWinFs S) : SynoFileContext × SynologyWinFs S :=
  let (buf, fs) := fs.allocate (some .new)
  let ctx : SynoFileContext :=
    { nasPath := nas, fileInfo := .ofSize 0, writeBuf := buf, isNew := true }
  (ctx, { fs with
    pendingFiles := Function.update fs.pendingFiles nas
      (some { fileInfo := ctx.fileInfo, buf := buf }) })

/-- `write`. -/
def write (ctx : SynoFileContext) (sc : DiskScript) (offset : ℕ) (buffer : Bytes)
    (fs : SynologyWinFs S) : Except FspError (ℕ × FileInfo) × SynologyWinFs S :=
  match ((fs.buffers ctx.writeBuf).getD .new).writeAt sc offset buffer with
  | (.error why, buf) => (.error (.io why), fs.put ctx.writeBuf (some buf))
  | (.ok (), buf) =>
      (.ok (buffer.length % 2 ^ 32, .ofSize buf.len), fs.put ctx.writeBuf (some buf))

/-- `set_file_size`. -/
def setFileSize (ctx : SynoFileContext) (sc : DiskScript) (newSize : ℕ) (fs : SynologyWinFs S) :
    Except FspError FileInfo × SynologyWinFs S :=
  match ((fs.buffers ctx.writeBuf).getD .new).setLen sc newSize with
  | (.error why, buf) => (.error (.io why), fs.put ctx.writeBuf (some buf))
  | (.ok (), buf) => (.ok (.ofSize newSize), fs.put ctx.writeBuf (some buf))

/-- The upload inside `flush` and `close`. -/
def send (ctx : SynoFileContext) (payload : Payload) (s : S) : Except SynoFsError Unit × S :=
  let (parent, name) := splitPath ctx.nasPath
  client.uploadPayload parent name payload (!ctx.isNew) s

/-- `flush`. -/
def flush (ctx : SynoFileContext) (sc : DiskScript) (fs : SynologyWinFs S) :
    Except FspError FileInfo × SynologyWinFs S :=
  match fs.buffers ctx.writeBuf with
  | none => (.ok ctx.fileInfo, fs)
  | some buf =>
      match payloadFor buf sc with
      | .error why => (.error (.io why), fs)
      | .ok payload =>
          match send client ctx payload fs.world with
          | (.error e, s) => (.error (synoToFsp e), { fs with world := s })
          | (.ok (), s) =>
              (.ok ctx.fileInfo, SynologyWinFs.put { fs with world := s } ctx.writeBuf none)

/-- `close`, with what it logs. -/
def close (ctx : SynoFileContext) (sc : DiskScript) (fs : SynologyWinFs S) :
    Option CloseLog × SynologyWinFs S :=
  let taken := fs.buffers ctx.writeBuf
  let fs := fs.put ctx.writeBuf none
  let (log, s) := match taken with
    | none => (none, fs.world)
    | some buf =>
        match payloadFor buf sc with
        | .error why => (some (.unreadable ctx.nasPath why), fs.world)
        | .ok payload =>
            match send client ctx payload fs.world with
            | (.ok (), s) => (none, s)
            | (.error e, s) => (some (.uploadFailed ctx.nasPath e), s)
  (log, { fs with
    pendingFiles := Function.update fs.pendingFiles ctx.nasPath none
    world := s })

end SynologyWinFs

/-! ### What a buffer holds after edits -/

/-- What an accepted edit does to the shape of a buffer. -/
def reachEdit (spillAt : ℕ) (shape : Bool × ℕ) : Edit UInt8 → Bool × ℕ
  | .write offset data => reach spillAt shape (offset, data)
  | .resize size => (shape.1 || decide (spillAt < size), size)

/-- The length a new buffer's bytes have after `edits`. -/
def editedLength (spillAt : ℕ) (edits : List (Edit UInt8)) : ℕ :=
  (edits.foldl (reachEdit spillAt) (false, 0)).2

/-- An accepted change of length resizes the bytes. -/
theorem SpillBuffer.setLen_ok {b : SpillBuffer} {sc : DiskScript} {newLen : ℕ}
    (h : (b.setLen sc newLen).1 = .ok ()) :
    (b.setLen sc newLen).2.spillAt = b.spillAt ∧
      (b.setLen sc newLen).2.shape = reachEdit b.spillAt b.shape (.resize newLen) ∧
        (b.setLen sc newLen).2.bytes = resize b.bytes newLen := by
  unfold SpillBuffer.setLen at h ⊢
  rcases spillPast_spec b sc newLen with hok | ⟨why, herr⟩
  · rw [hok] at h ⊢
    by_cases hdisk : (b.isSpilled || decide (b.spillAt < newLen)) = true
    · simp only [if_pos hdisk] at h ⊢
      have hreach : reachEdit b.spillAt b.shape (.resize newLen) = (true, newLen) := by
        rw [reachEdit]
        exact congrArg (·, newLen) hdisk
      cases hstore : sc.stores with
      | failed stored why => simp [hstore, FsOutcome.resizeFile] at h
      | done =>
          rw [hreach]
          exact ⟨rfl, by simp [FsOutcome.resizeFile, shape, isSpilled, bytes], rfl⟩
    · simp only [if_neg hdisk] at h ⊢
      have hreach : reachEdit b.spillAt b.shape (.resize newLen) = (false, newLen) := by
        rw [reachEdit]
        exact congrArg (·, newLen) (Bool.not_eq_true _ ▸ hdisk)
      obtain ⟨store, len, spillAt⟩ := b
      cases store with
      | spilled file => simp [isSpilled] at hdisk
      | memory v =>
          rw [hreach]
          exact ⟨rfl, by simp [shape, isSpilled, bytes], rfl⟩
  · rw [herr] at h
    cases h

/-- A buffer that started empty and has accepted `edits`. -/
structure SpillBuffer.Edited (b : SpillBuffer) (edits : List (Edit UInt8)) : Prop where
  spillAt : b.spillAt = defaultSpillAt
  shape : b.shape = edits.foldl (reachEdit defaultSpillAt) (false, 0)
  reads : ∀ i, b.bytes.getD i 0 = (editAll [] edits).getD i 0

namespace SpillBuffer.Edited

variable {b : SpillBuffer} {edits : List (Edit UInt8)}

theorem new : SpillBuffer.new.Edited [] := ⟨rfl, rfl, fun _ => rfl⟩

theorem length (h : b.Edited edits) : b.bytes.length = editedLength defaultSpillAt edits :=
  congrArg Prod.snd h.shape

/-- One more edit, accepted. -/
theorem concat (h : b.Edited edits) {b' : SpillBuffer} {e : Edit UInt8}
    (hat : b'.spillAt = b.spillAt) (hshape : b'.shape = reachEdit b.spillAt b.shape e)
    (hread : ∀ i, b'.bytes.getD i 0 = (e.apply b.bytes).getD i 0) : b'.Edited (edits ++ [e]) := by
  refine ⟨hat.trans h.spillAt, ?_, fun i => ?_⟩
  · rw [hshape, h.shape, h.spillAt, List.foldl_append]
    rfl
  · rw [hread, editAll_concat, getD_apply, getD_apply, h.reads]

theorem writeAt (h : b.Edited edits) {sc : DiskScript} {offset : ℕ} {data : Bytes}
    (hok : (b.writeAt sc offset data).1 = .ok ()) :
    (b.writeAt sc offset data).2.Edited (edits ++ [.write offset data]) := by
  obtain ⟨hat, hshape, hread⟩ := SpillBuffer.writeAt_ok hok
  exact h.concat hat hshape hread

theorem setLen (h : b.Edited edits) {sc : DiskScript} {newLen : ℕ}
    (hok : (b.setLen sc newLen).1 = .ok ()) :
    (b.setLen sc newLen).2.Edited (edits ++ [.resize newLen]) := by
  obtain ⟨hat, hshape, hbytes⟩ := SpillBuffer.setLen_ok hok
  exact h.concat hat hshape fun i => by rw [hbytes]; rfl

end SpillBuffer.Edited

end SynologyFilestation.Fuse
