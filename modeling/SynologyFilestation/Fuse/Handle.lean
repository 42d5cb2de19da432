import SynologyFilestation.Fuse.Spill
import SynologyFilestation.Smb.WriteHandle
import Mathlib.Logic.Function.Basic

/-!
An open handle of the mount (`WriteBuffer` in `fuse/src/fs/transfer.rs`, and the
calls on it in `fuse/src/fs/mod.rs`). Its writes go to one of two sinks: a
stream to the server, or a local buffer uploaded whole. Every call on a handle
runs under the handle's lock, so here each is one function of the mount's
buffers and of the world behind the client.

The caches a finished upload invalidates are not part of a handle, and the
inode it names them by is left out with them.
-/

namespace SynologyFilestation.Fuse

open Core Library Smb

/-- Where an open handle's writes go. A stream's slot is empty once it was
closed, or once a write to it failed. -/
inductive WriteSink (F : Type)
  | streamed (slot : Option (SmbWriteHandle F))
  | buffered (spill : SpillBuffer)

structure WriteBuffer (F : Type) where
  nasPath : NasPath
  sink : WriteSink F
  dirty : Bool
  /-- The file was just created and has not been uploaded yet. -/
  newFile : Bool
  /-- A streamed write has reached the server. -/
  streamed : Bool
  /-- A write failed and took the handle with it. -/
  broken : Bool

/-- What the mount asks of `SynologyClient`, in a world `S`. The client is
another crate: its uploads appear as the calls they are, the file of
`uploadFromPath` by its content. -/
structure NasClient (S F : Type) where
  smb : Smb2 S F
  clock : S → ℕ
  openWriteTransports : List (TransportEntry Unit)
  upload : NasPath → String → Bytes → Bool → S → Except SynoFsError Unit × S
  uploadFromPath : Bytes → NasPath → String → Bool → S → Except SynoFsError Unit × S

/-- The mount's open handles, by number, and the world they act on. -/
structure Mount (S F : Type) where
  buffers : ℕ → Option (WriteBuffer F)
  world : S

section Calls

variable {S F : Type} (client : NasClient S F)

/-- `SynologyClient::open_write`: a stream from the first backend that has one. -/
def NasClient.openWrite (path : NasPath) (mode : WriteOpen) (s : S) :
    Except SynoFsError (Option (SmbWriteHandle F)) × List (TransportEntry Unit) × S :=
  match viaTransports (fun _ s => Smb.openWrite client.smb path mode s) (fun _ => client.clock)
      (fun _ => client.clock) client.openWriteTransports s with
  | (none, entries, s) => (.ok none, entries, s)
  | (some (.ok stream), entries, s) => (.ok (some stream), entries, s)
  | (some (.error e), entries, s) => (.error e, entries, s)

/-- `upload_payload`. -/
def NasClient.uploadPayload (parent : NasPath) (filename : String) (payload : Payload)
    (overwrite : Bool) (s : S) : Except SynoFsError Unit × S :=
  match payload with
  | .memory data => client.upload parent filename data overwrite s
  | .file content => client.uploadFromPath content parent filename overwrite s

/-- `open_sink`. A backend that refused does not fail the open: the handle is
buffered instead. -/
def openSink (path : NasPath) (s : S) : WriteSink F × S :=
  match client.openWrite path .existing s with
  | (.ok (some stream), _, s) => (.streamed (some stream), s)
  | (.ok none, _, s) => (.buffered .new, s)
  | (.error _, _, s) => (.buffered .new, s)

/-- `add_write_buffer`. Only a writable handle asks the NAS for a sink. -/
def Mount.addWriteBuffer (m : Mount S F) (fh : ℕ) (nasPath : NasPath) (newFile writable : Bool) :
    Mount S F :=
  let (sink, s) := if writable then openSink client nasPath m.world else (.buffered .new, m.world)
  { buffers := Function.update m.buffers fh (some {
      nasPath := nasPath, sink := sink, dirty := newFile, newFile := newFile,
      streamed := false, broken := false }),
    world := s }

/-- A write to the local buffer. One that fails abandons the handle: an upload
could not tell a short buffer from a short file. -/
def WriteBuffer.bufferAt (b : WriteBuffer F) (spill : SpillBuffer) (sc : DiskScript)
    (offset : ℕ) (data : Bytes) : Except SynoFsError Unit × WriteBuffer F :=
  match spill.writeAt sc offset data with
  | (.error why, spill) => (.error (.io why), { b with sink := .buffered spill, broken := true })
  | (.ok (), spill) => (.ok (), { b with sink := .buffered spill, dirty := true })

/-- The body of `write_buffer_at`, under the handle's lock. -/
def WriteBuffer.writeAt (b : WriteBuffer F) (sc : DiskScript) (offset : ℕ) (data : Bytes) (s : S) :
    Except SynoFsError Unit × WriteBuffer F × S :=
  match b.sink with
  | .streamed none => (.error (.io "write to a closed handle"), b, s)
  | .streamed (some stream) =>
      match stream.writeAt client.smb offset data s with
      | (.ok (), stream, s) =>
          (.ok (), { b with sink := .streamed (some stream), streamed := true, dirty := true }, s)
      | (.error e, stream, s) =>
          let s := stream.drop client.smb s
          -- Nothing of a new file has left the machine: the buffer can still carry all of it.
          if b.streamed || !b.newFile then
            (.error e, { b with sink := .streamed none, broken := true }, s)
          else
            let (r, b) := b.bufferAt .new sc offset data
            (r, b, s)
  | .buffered spill =>
      let (r, b) := b.bufferAt spill sc offset data
      (r, b, s)

/-- `write_buffer_at`. -/
def Mount.writeBufferAt (m : Mount S F) (fh : ℕ) (sc : DiskScript) (offset : ℕ) (data : Bytes) :
    Except SynoFsError Unit × Mount S F :=
  match m.buffers fh with
  | none => (.error (.io ("write to unknown file handle " ++ toString fh)), m)
  | some b =>
      let (r, b, s) := b.writeAt client sc offset data m.world
      (r, { buffers := Function.update m.buffers fh (some b), world := s })

/-- What `upload` does with the handle's sink: close the stream, which takes it
out of its slot, or send the buffer whole. -/
def WriteBuffer.finish (b : WriteBuffer F) (sc : DiskScript) (s : S) :
    Except SynoFsError Unit × WriteBuffer F × S :=
  match b.sink with
  | .streamed none => (.ok (), b, s)
  | .streamed (some stream) =>
      let (r, stream, s) := stream.close client.smb s
      (r, { b with sink := .streamed none }, stream.drop client.smb s)
  | .buffered spill =>
      match payloadFor spill sc with
      | .error why => (.error (.io why), b, s)
      | .ok payload =>
          match splitNasPath b.nasPath with
          | none => (.error .invalidArg, b, s)
          | some (parent, filename) =>
              let (r, s) := client.uploadPayload parent filename payload (!b.newFile) s
              (r, b, s)

/-- The body of `upload`, under the handle's lock. -/
def WriteBuffer.upload (b : WriteBuffer F) (sc : DiskScript) (s : S) :
    Except SynoFsError Unit × WriteBuffer F × S :=
  if b.broken then
    (.error (.io ("close " ++ pathText b.nasPath ++ ": an earlier write to this file failed")),
      b, s)
  else if !b.dirty then (.ok (), b, s)
  else
    match b.finish client sc s with
    | (.error e, b, s) => (.error e, b, s)
    | (.ok (), b, s) => (.ok (), { b with dirty := false, newFile := false }, s)

/-- `upload`, the whole of what `flush` answers with. -/
def Mount.upload (m : Mount S F) (fh : ℕ) (sc : DiskScript) : Except SynoFsError Unit × Mount S F :=
  match m.buffers fh with
  | none => (.ok (), m)
  | some b =>
      let (r, b, s) := b.upload client sc m.world
      (r, { buffers := Function.update m.buffers fh (some b), world := s })

/-- A handle forgotten with its stream still open abandons what the server has. -/
def WriteBuffer.drop (b : WriteBuffer F) (s : S) : S :=
  match b.sink with
  | .streamed (some stream) => stream.drop client.smb s
  | _ => s

/-- `release`: the upload's answer, and the handle forgotten whatever it was. -/
def Mount.release (m : Mount S F) (fh : ℕ) (sc : DiskScript) :
    Except SynoFsError Unit × Mount S F :=
  let (r, m) := m.upload client fh sc
  (r, { buffers := Function.update m.buffers fh none,
        world := (m.buffers fh).elim m.world fun b => b.drop client m.world })

end Calls

/-! ### What an open handle holds -/

section Holding

variable {S F : Type} {client : NasClient S F} {file : NasPath → S → Option Bytes}

/-- What the mount relies on of the client: the stream's promise, and an upload
that reports success has stored the bytes it was given. -/
structure NasClient.Stores (client : NasClient S F) (file : NasPath → S → Option Bytes) :
    Prop where
  chunks : client.smb.StoresChunks file
  upload : ∀ {parent filename data overwrite s s'},
    client.upload parent filename data overwrite s = (.ok (), s') →
      file (parent ++ [filename]) s' = some data
  uploadFromPath : ∀ {content parent filename overwrite s s'},
    client.uploadFromPath content parent filename overwrite s = (.ok (), s') →
      file (parent ++ [filename]) s' = some content

/-- The half of it that is about uploads. -/
structure NasClient.StoresUploads (client : NasClient S F)
    (file : NasPath → S → Option Bytes) : Prop where
  upload : ∀ {parent filename data overwrite s s'},
    client.upload parent filename data overwrite s = (.ok (), s') →
      file (parent ++ [filename]) s' = some data
  uploadFromPath : ∀ {content parent filename overwrite s s'},
    client.uploadFromPath content parent filename overwrite s = (.ok (), s') →
      file (parent ++ [filename]) s' = some content

/-- Every byte of `ws` that no later one of them replaced is in the file at
`path`. -/
def Stored (file : NasPath → S → Option Bytes) (path : NasPath) (ws : List (Write UInt8))
    (s : S) : Prop :=
  ∀ i byte, lastByte ws i = some byte → ∃ content, file path s = some content ∧
    content[i]? = some byte

theorem stored_nil (path : NasPath) (s : S) : Stored file path [] s := by
  intro i byte h
  simp [lastByte] at h

theorem stored_of_holds {path : NasPath} {ws : List (Write UInt8)} {s : S} {content : Bytes}
    (hfile : file path s = some content) (hholds : Holds content ws) : Stored file path ws s :=
  fun i byte h => ⟨content, hfile, hholds i byte h⟩

/-- A buffer that started empty and has accepted `ws`. -/
structure SpillBuffer.Carries (b : SpillBuffer) (ws : List (Write UInt8)) : Prop where
  spillAt : b.spillAt = defaultSpillAt
  shape : b.shape = ws.foldl (reach defaultSpillAt) (false, 0)
  reads : ∀ i, b.bytes.getD i 0 = (patchAll [] ws).getD i 0

theorem SpillBuffer.carries_new : SpillBuffer.new.Carries [] := ⟨rfl, rfl, fun _ => rfl⟩

theorem SpillBuffer.Carries.writeAt_ok {b : SpillBuffer} {ws : List (Write UInt8)}
    (h : b.Carries ws) (sc : DiskScript) (offset : ℕ) (data : Bytes)
    (hok : (b.writeAt sc offset data).1 = .ok ()) :
    (b.writeAt sc offset data).2.Carries (ws ++ [(offset, data)]) := by
  obtain ⟨hat, hshape, hread⟩ := SpillBuffer.writeAt_ok hok
  refine ⟨hat.trans h.spillAt, ?_, fun i => ?_⟩
  · rw [hshape, h.shape, h.spillAt, List.foldl_append]
    rfl
  · rw [hread, patchAll_append, patchAll_cons, patchAll_nil, getD_patch, getD_patch, h.reads]

theorem SpillBuffer.Carries.length {b : SpillBuffer} {ws : List (Write UInt8)}
    (h : b.Carries ws) : b.bytes.length = storedLength defaultSpillAt ws :=
  congrArg Prod.snd h.shape

theorem SpillBuffer.Carries.holds {b : SpillBuffer} {ws : List (Write UInt8)}
    (h : b.Carries ws) : Holds b.bytes ws := by
  refine holds_of_getD ?_ h.reads
  rw [h.length]
  exact le_trans (le_max_right _ _) (extent_le_reach defaultSpillAt ws (false, 0))

theorem NasClient.Stores.uploads (h : client.Stores file) : client.StoresUploads file :=
  ⟨h.upload, h.uploadFromPath⟩

/-- A buffer sent whole is what the file then is. -/
theorem uploadPayload_ok (hclient : client.StoresUploads file) {parent : NasPath}
    {filename : String} {spill : SpillBuffer} {sc : DiskScript} {payload : Payload}
    {overwrite : Bool} {s s' : S}
    (hpayload : payloadFor spill sc = .ok payload)
    (hok : client.uploadPayload parent filename payload overwrite s = (.ok (), s')) :
    file (parent ++ [filename]) s' = some spill.bytes := by
  rw [← payloadFor_bytes hpayload]
  cases payload with
  | memory data => exact hclient.upload hok
  | file content => exact hclient.uploadFromPath hok

/-- Opening a sink changes no file, and a stream it yields holds the file. -/
theorem openSink_spec (hclient : client.Stores file) (path : NasPath) (s : S) :
    file path (openSink client path s).2 = file path s ∧
      ((∃ stream, (openSink client path s).1 = .streamed (some stream) ∧ stream.writer = none ∧
          Holding client.smb file path ((file path s).getD []) stream []
            (openSink client path s).2) ∨
        (openSink client path s).1 = .buffered .new) := by
  obtain ⟨hnone, hsome⟩ := viaTransports_rule
    (fun (_ : Unit) s => Smb.openWrite client.smb path .existing s)
    (fun _ => client.clock) (fun _ => client.clock)
    (fun s' => file path s' = file path s)
    (fun r s' => file path s' = file path s ∧ ∀ stream, r = .ok stream →
      stream.writer = none ∧ Holding client.smb file path ((file path s).getD []) stream [] s')
    (fun entry (_ : entry ∈ client.openWriteTransports) s' hs' _ =>
      (file_openWrite_existing hclient.chunks path).trans hs')
    (fun _ _ s' hs' _ => ⟨(file_openWrite_existing hclient.chunks path).trans hs',
      fun stream hstream => hs' ▸ openWrite_existing_ok hclient.chunks hstream⟩)
    (rfl : file path s = file path s)
  unfold openSink NasClient.openWrite
  cases hvia : viaTransports (fun (_ : Unit) s => Smb.openWrite client.smb path .existing s)
      (fun _ => client.clock) (fun _ => client.clock) client.openWriteTransports s with
  | mk answer rest =>
      obtain ⟨entries, s'⟩ := rest
      rw [hvia] at hnone hsome
      rcases answer with _ | (e | stream)
      · exact ⟨hnone rfl, Or.inr rfl⟩
      · exact ⟨(hsome _ rfl).1, Or.inr rfl⟩
      · obtain ⟨hfile, hstream⟩ := hsome _ rfl
        exact ⟨hfile, Or.inl ⟨stream, rfl, hstream stream rfl⟩⟩

end Holding

/-- The client over that NAS: its uploads store what they are given, and it has
a backend to stream to or none. -/
def nasClient (streams : Bool) : NasClient Nas NasWriter where
  smb := nasSmb
  clock _ := 0
  openWriteTransports := if streams then [⟨(), .new .standard⟩] else []
  upload parent filename data _ nas := (.ok (), nas.put (parent ++ [filename]) data)
  uploadFromPath content parent filename _ nas := (.ok (), nas.put (parent ++ [filename]) content)

theorem nasClient_stores (streams : Bool) : (nasClient streams).Stores Nas.file where
  chunks := nasSmb_storesChunks
  upload := by
    intro parent filename data overwrite nas nas' h
    cases h
    exact Nas.file_put ..
  uploadFromPath := by
    intro content parent filename overwrite nas nas' h
    cases h
    exact Nas.file_put ..

/-- A mount with no handle open. -/
def nasMount (files : List (NasPath × Bytes)) (finishes : List (Option SynoFsError)) :
    Mount Nas NasWriter :=
  { buffers := fun _ => none, world := { files := files, finishes := finishes } }

end SynologyFilestation.Fuse
