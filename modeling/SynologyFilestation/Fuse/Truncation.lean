import SynologyFilestation.Fuse.Durability
import SynologyFilestation.Library.Edits

/-!
Writes and changes of length on one open handle (`setattr` in
`fuse/src/fs/callbacks.rs`, `truncate` in `fuse/src/fs/transfer.rs`). A write goes
to the handle's sink, a change of length to the file on the NAS: the two meet in
the file where the sink is a stream, and not before the close where it is a
buffer.

`truncate` and `get_info` of the client are parameters like its uploads. A stream
is taken to be on the server as soon as a write is answered; a truncate that has
to replace the file leaves an open writer on the one it replaced.
-/

namespace SynologyFilestation.Fuse

open Core Library Smb

/-- What `setattr` asks of `SynologyClient` besides. -/
structure SizingClient (S F : Type) extends NasClient S F where
  truncate : NasPath → ℕ → S → Except SynoFsError Unit × S
  getInfo : NasPath → S → Except SynoFsError Unit × S

/-- A call of the application on an open handle. -/
inductive SizedCall
  | write (sc : DiskScript) (offset : ℕ) (data : Bytes)
  | setattr (size : ℕ)

def SizedCall.edit : SizedCall → Edit UInt8
  | .write _ offset data => .write offset data
  | .setattr size => .resize size

section Calls

variable {S F : Type} (client : SizingClient S F)

/-- `Transfers::truncate`. -/
def SizingClient.setSize (path : NasPath) (size : ℕ) (s : S) : Except SynoFsError Unit × S :=
  match client.truncate path size s with
  | (.error e, s) => (.error e, s)
  | (.ok (), s) => client.getInfo path s

def Session.sizedCall (path : NasPath) (fh : ℕ) (x : Session S F) : SizedCall → Session S F
  | .write sc offset data => (x.call client.toNasClient fh (.write sc offset data)).2
  | .setattr size =>
      let (r, s) := client.setSize path size x.mount.world
      { x with mount := { x.mount with world := s }, clean := x.clean && r.isOk }

def Session.runSized (path : NasPath) (fh : ℕ) (x : Session S F) (calls : List SizedCall) :
    Session S F := calls.foldl (Session.sizedCall client path fh) x

theorem Session.runSized_concat (path : NasPath) (fh : ℕ) (x : Session S F)
    (before : List SizedCall) (c : SizedCall) :
    x.runSized client path fh (before ++ [c]) =
      (x.runSized client path fh before).sizedCall client path fh c :=
  List.foldl_append ..

end Calls

/-! ### What the client is relied on for -/

section Contract

variable {S F : Type}

/-- The library's promise when chunks are on the server as they are answered:
`spot` is where a writer puts its next chunk, and `stands` whether the file it has
open is the one under its path. -/
structure WritesThrough (smb : Smb2 S F) (file : NasPath → S → Option Bytes)
    (spot : F → NasPath × ℕ) (stands : F → S → Prop) : Prop where
  opened : ∀ {path loc offset s w s'}, smb.fromLogical path = .ok loc →
    smb.createFileWriterAt loc offset s = (.ok w, s') →
      spot w = (loc, offset) ∧ stands w s' ∧ file path s' = some ((file path s).getD [])
  accepted : ∀ {path loc offset chunk w s w' s'}, smb.fromLogical path = .ok loc →
    spot w = (loc, offset) → stands w s → smb.writeChunk chunk w s = (.ok (), w', s') →
      spot w' = (loc, offset + chunk.length) ∧ stands w' s' ∧
        file path s' = some (patch ((file path s).getD []) offset chunk)
  finished : ∀ {w s s'} path, smb.finish w s = (.ok (), s') → file path s' = file path s
  ready : ∀ path s, file path (smb.ready s).2 = file path s
  forgetHandle : ∀ path other s, file path (smb.forgetHandle other s) = file path s

/-- What `setattr` and the sinks rely on of the client. -/
structure SizingClient.StoresAtOnce (client : SizingClient S F)
    (file : NasPath → S → Option Bytes) (spot : F → NasPath × ℕ) (stands : F → S → Prop) :
    Prop where
  chunks : WritesThrough client.smb file spot stands
  upload : ∀ {parent filename data overwrite s s'},
    client.upload parent filename data overwrite s = (.ok (), s') →
      file (parent ++ [filename]) s' = some data
  uploadFromPath : ∀ {content parent filename overwrite s s'},
    client.uploadFromPath content parent filename overwrite s = (.ok (), s') →
      file (parent ++ [filename]) s' = some content
  truncate : ∀ {path size s s'}, client.truncate path size s = (.ok (), s') →
    file path s' = (file path s).map fun content => resize content size
  getInfo : ∀ path other s, file path (client.getInfo other s).2 = file path s

variable {smb : Smb2 S F} {file : NasPath → S → Option Bytes} {spot : F → NasPath × ℕ}
  {stands : F → S → Prop}

/-- Such a library keeps the promise the durability of a session rests on. -/
theorem WritesThrough.storesChunks (h : WritesThrough smb file spot stands) :
    smb.StoresChunks file where
  finished := by
    intro path loc offset s w s₁ chunks w' s₂ s₃ hloc hopened haccepted hfinish
    obtain ⟨hspot, hstands, hfile⟩ := h.opened hloc hopened
    have hwritten : spot w' = (loc, offset + chunks.flatten.length) ∧ stands w' s₂ ∧
        file path s₂ = some (patch ((file path s).getD []) offset chunks.flatten) := by
      clear hfinish
      induction haccepted with
      | nil => exact ⟨by simpa using hspot, hstands, by simpa using hfile⟩
      | @snoc chunks w s w' s' chunk before accepted ih =>
          obtain ⟨hspot, hstands, hfile⟩ := ih
          obtain ⟨hspot', hstands', hfile'⟩ := h.accepted hloc hspot hstands accepted
          refine ⟨by simpa [Nat.add_assoc] using hspot', hstands', ?_⟩
          rw [hfile', hfile, Option.getD_some, patch_append]
          simp
    rw [h.finished path hfinish, hwritten.2.2]
  ready := h.ready
  forgetHandle := h.forgetHandle

theorem SizingClient.StoresAtOnce.stores {client : SizingClient S F}
    (h : client.StoresAtOnce file spot stands) : client.toNasClient.Stores file where
  chunks := h.chunks.storesChunks
  upload := h.upload
  uploadFromPath := h.uploadFromPath

end Contract

/-! ### A stream that writes through -/

section Stream

variable {S F : Type} {smb : Smb2 S F} {file : NasPath → S → Option Bytes}
  {spot : F → NasPath × ℕ} {stands : F → S → Prop} {path : NasPath} {h : SmbWriteHandle F}
  {content data : Bytes} {offset : ℕ} {s : S}

/-- A handle on `path` whose writer, if it has one, is where the handle says. -/
def OnSpot (smb : Smb2 S F) (spot : F → NasPath × ℕ) (path : NasPath) (h : SmbWriteHandle F) :
    Prop :=
  smb.fromLogical path = .ok h.loc ∧ ∀ w, h.writer = some w → spot w = (h.loc, h.next)

theorem finishWriter_through (hsmb : WritesThrough smb file spot stands) (path : NasPath)
    (hok : (h.finishWriter smb s).1 = .ok ()) :
    (h.finishWriter smb s).2.1 = { h with writer := none } ∧
      file path (h.finishWriter smb s).2.2 = file path s := by
  obtain ⟨loc, writer, next⟩ := h
  cases writer with
  | none => exact ⟨rfl, rfl⟩
  | some w => exact ⟨rfl, hsmb.finished path (Prod.ext hok rfl)⟩

theorem reopenAt_through (hsmb : WritesThrough smb file spot stands)
    (hloc : smb.fromLogical path = .ok h.loc) (hok : (h.reopenAt smb offset s).1 = .ok ()) :
    ∃ w, (h.reopenAt smb offset s).2.1 = ⟨h.loc, some w, offset⟩ ∧ spot w = (h.loc, offset) ∧
      stands w (h.reopenAt smb offset s).2.2 ∧
      file path (h.reopenAt smb offset s).2.2 = some ((file path s).getD []) := by
  obtain ⟨h', s', s₀, w, s₁, hfin, hready, hopen, hreopen⟩ := reopenAt_eq_ok hok
  obtain ⟨hh, hfile⟩ := finishWriter_through hsmb path (by rw [hfin])
  have hkeep := hsmb.ready path s'
  rw [hfin] at hh hfile
  rw [hready] at hkeep
  obtain rfl : h' = { h with writer := none } := hh
  obtain ⟨hspot, hstands, hopened⟩ := hsmb.opened hloc hopen
  rw [hreopen]
  refine ⟨w, rfl, hspot, hstands, ?_⟩
  change file path s₁ = _
  rw [hopened, hkeep, hfile]

theorem writeHere_through (hsmb : WritesThrough smb file spot stands)
    (hloc : smb.fromLogical path = .ok h.loc) (hfile : file path s = some content) {w : F}
    (hwriter : h.writer = some w) (hspot : spot w = (h.loc, offset)) (hstands : stands w s)
    (hok : (h.writeHere smb offset data s).1 = .ok ()) :
    OnSpot smb spot path (h.writeHere smb offset data s).2.1 ∧
      file path (h.writeHere smb offset data s).2.2 = some (patch content offset data) := by
  obtain ⟨_, w', s', hsame, hchunk, hwrite⟩ := writeHere_eq_ok hok
  obtain rfl := Option.some.inj (hwriter.symm.trans hsame)
  obtain ⟨hspot', _, hpatched⟩ := hsmb.accepted hloc hspot hstands hchunk
  rw [hwrite]
  refine ⟨⟨hloc, ?_⟩, ?_⟩
  · rintro _ ⟨⟩
    exact hspot'
  · change file path s' = _
    rw [hpatched, hfile, Option.getD_some]

/-- **An accepted write is in the file**, if a writer that goes on with it has the
file still. -/
theorem writeAt_through (data : Bytes) (hsmb : WritesThrough smb file spot stands)
    (hspot : OnSpot smb spot path h) (hfile : file path s = some content)
    (hstands : ∀ w, h.writer = some w → h.next = offset → stands w s)
    (hok : (h.writeAt smb offset data s).1 = .ok ()) :
    OnSpot smb spot path (h.writeAt smb offset data s).2.1 ∧
      file path (h.writeAt smb offset data s).2.2 = some (patch content offset data) := by
  rcases writeAt_eq_ok hok with ⟨h', s', hopen, hwrite⟩ | ⟨hsome, hnext, hwrite⟩
  · obtain ⟨w, hh, hw, hstands', hfile'⟩ := reopenAt_through hsmb hspot.1 (by rw [hopen])
    rw [hopen] at hh hstands' hfile'
    obtain rfl : h' = ⟨h.loc, some w, offset⟩ := hh
    rw [hfile, Option.getD_some] at hfile'
    rw [hwrite] at hok ⊢
    exact writeHere_through hsmb hspot.1 hfile' rfl hw hstands' hok
  · obtain ⟨w, hwriter⟩ := Option.isSome_iff_exists.mp hsome
    rw [hwrite] at hok ⊢
    exact writeHere_through hsmb hspot.1 hfile hwriter (hnext ▸ hspot.2 w hwriter)
      (hstands w hwriter hnext) hok

/-- Closing changes nothing any more. -/
theorem close_through (hsmb : WritesThrough smb file spot stands)
    (hspot : OnSpot smb spot path h) (hfile : file path s = some content)
    (hok : (h.close smb s).1 = .ok ()) : file path (h.close smb s).2.2 = some content := by
  rcases close_eq_ok hok with ⟨h', s', hopen, hclose⟩ | ⟨_, hclose⟩
  · obtain ⟨_, _, _, _, hfile'⟩ := reopenAt_through hsmb hspot.1 (by rw [hopen])
    rw [hopen, hfile, Option.getD_some] at hfile'
    rw [hclose] at hok ⊢
    exact (finishWriter_through hsmb path hok).2.trans hfile'
  · rw [hclose] at hok ⊢
    exact (finishWriter_through hsmb path hok).2.trans hfile

end Stream

/-! ### Sessions -/

section Sessions

variable {S F : Type} {client : SizingClient S F} {file : NasPath → S → Option Bytes}
  {spot : F → NasPath × ℕ} {stands : F → S → Prop} {path : NasPath} {content : Bytes} {fh : ℕ}
  {x : Session S F} {b : WriteBuffer F} {edits : List (Edit UInt8)} {s : S} {streams : Bool}

/-- The edits of a session. -/
def editsOf (calls : List SizedCall) : List (Edit UInt8) := calls.map SizedCall.edit

/-- A handle opened on a file that held `content`, after `edits` that all
succeeded. -/
structure Editing (client : SizingClient S F) (file : NasPath → S → Option Bytes)
    (spot : F → NasPath × ℕ) (path : NasPath) (content : Bytes) (streams : Bool)
    (b : WriteBuffer F) (edits : List (Edit UInt8)) (s : S) : Prop where
  nasPath : b.nasPath = path
  newFile : b.newFile = false
  broken : b.broken = false
  dirty : b.dirty = !(writesAmong edits).isEmpty
  unwritten : writesAmong edits = [] → file path s = some (editAll content edits)
  streaming : streams = true → ∃ stream, b.sink = .streamed (some stream) ∧
    OnSpot client.smb spot path stream ∧ file path s = some (editAll content edits)
  buffering : streams = false → ∃ spill, b.sink = .buffered spill ∧
    spill.Carries (writesAmong edits)

theorem opened_editing (hclient : client.StoresAtOnce file spot stands) {m : Mount S F}
    (hfile : file path m.world = some content) :
    ∃ b, (Session.opened client.toNasClient m fh path false true).mount.buffers fh = some b ∧
      Editing client file spot path content
        (openSink client.toNasClient path m.world).1.isStream b []
        (Session.opened client.toNasClient m fh path false true).mount.world := by
  refine ⟨_, Function.update_self .., ?_⟩
  obtain ⟨hkept, hsink⟩ := openSink_spec hclient.stores path m.world
  have huntouched : file path (openSink client.toNasClient path m.world).2 = some content :=
    hkept.trans hfile
  rcases hsink with ⟨stream, hsink, hwriter, hold⟩ | hsink
  · have hspot : OnSpot client.smb spot path stream := by
      refine ⟨hold.fromLogical, fun w hw => ?_⟩
      cases hwriter.symm.trans hw
    exact ⟨rfl, rfl, rfl, rfl, fun _ => huntouched, fun _ => ⟨stream, hsink, hspot, huntouched⟩,
      by simp [WriteSink.isStream, hsink]⟩
  · exact ⟨rfl, rfl, rfl, rfl, fun _ => huntouched, by simp [WriteSink.isStream, hsink],
      fun _ => ⟨_, hsink, SpillBuffer.carries_new⟩⟩

theorem writesAmong_concat_write (edits : List (Edit UInt8)) (offset : ℕ) (data : Bytes) :
    writesAmong (edits ++ [.write offset data]) = writesAmong edits ++ [(offset, data)] := by
  simp [writesAmong]

theorem writesAmong_concat_resize (edits : List (Edit UInt8)) (size : ℕ) :
    writesAmong (edits ++ [.resize size]) = writesAmong edits := by
  simp [writesAmong]

theorem Editing.writeAt_ok (hclient : client.StoresAtOnce file spot stands) {sc : DiskScript}
    {offset : ℕ} {data : Bytes} (h : Editing client file spot path content streams b edits s)
    (hstands : ∀ stream w, b.sink = .streamed (some stream) → stream.writer = some w →
      stream.next = offset → stands w s)
    (hok : (b.writeAt client.toNasClient sc offset data s).1.isOk = true) :
    Editing client file spot path content streams
      (b.writeAt client.toNasClient sc offset data s).2.1 (edits ++ [.write offset data])
      (b.writeAt client.toNasClient sc offset data s).2.2 := by
  have hwrites := writesAmong_concat_write edits offset data
  cases streams with
  | true =>
      obtain ⟨stream, hsink, hspot, hfile⟩ := h.streaming rfl
      obtain ⟨stream', s', hwrite, hdone⟩ := writeAt_streamed hsink h.newFile hok
      have hheld := writeAt_through data hclient.chunks hspot hfile
        (fun w hw => hstands stream w hsink hw)
      rw [hwrite] at hheld
      obtain ⟨hspot', hfile'⟩ := hheld rfl
      rw [hdone]
      refine ⟨h.nasPath, h.newFile, h.broken, by simp [hwrites], by simp [hwrites],
        fun _ => ⟨stream', rfl, hspot', ?_⟩, by simp⟩
      rw [editAll_concat]
      exact hfile'
  | false =>
      obtain ⟨spill, hsink, hcarries⟩ := h.buffering rfl
      obtain ⟨spill', hwrite, hdone⟩ := writeAt_buffered hsink hok
      have hheld := hcarries.writeAt_ok sc offset data
      rw [hwrite] at hheld
      rw [hdone]
      refine ⟨h.nasPath, h.newFile, h.broken, by simp [hwrites], by simp [hwrites],
        by simp, fun _ => ⟨spill', rfl, ?_⟩⟩
      rw [hwrites]
      exact hheld rfl

/-- A change of length that succeeds changes the file, and not the handle. -/
theorem Editing.setSize_ok (hclient : client.StoresAtOnce file spot stands) {size : ℕ}
    (h : Editing client file spot path content streams b edits s)
    (hok : (client.setSize path size s).1.isOk = true) :
    Editing client file spot path content streams b (edits ++ [.resize size])
      (client.setSize path size s).2 := by
  have hwrites := writesAmong_concat_resize edits size
  have hresized : file path (client.setSize path size s).2 =
      (file path s).map fun content => resize content size := by
    unfold SizingClient.setSize at hok ⊢
    cases htruncate : client.truncate path size s with
    | mk r s' =>
        cases r with
        | error e => simp [htruncate, Except.isOk, Except.toBool] at hok
        | ok _ => exact (hclient.getInfo path path s').trans (hclient.truncate htruncate)
  have hfile : file path s = some (editAll content edits) →
      file path (client.setSize path size s).2 =
        some (editAll content (edits ++ [.resize size])) := by
    intro hfile
    rw [hresized, hfile, editAll_concat]
    rfl
  refine ⟨h.nasPath, h.newFile, h.broken, by rw [hwrites]; exact h.dirty, ?_, ?_, ?_⟩
  · intro hnone
    exact hfile (h.unwritten (hwrites ▸ hnone))
  · intro hstreams
    obtain ⟨stream, hsink, hspot, hbefore⟩ := h.streaming hstreams
    exact ⟨stream, hsink, hspot, hfile hbefore⟩
  · rw [hwrites]
    exact h.buffering

/-- What the file is once the handle is closed. -/
theorem Editing.upload_ok (hclient : client.StoresAtOnce file spot stands) {sc : DiskScript}
    (h : Editing client file spot path content streams b edits s)
    (hok : (b.upload client.toNasClient sc s).1 = .ok ()) :
    ((streams = true ∨ writesAmong edits = []) ∧
        file path (b.upload client.toNasClient sc s).2.2 = some (editAll content edits)) ∨
      ¬(streams = true ∨ writesAmong edits = []) ∧
        ∃ held, file path (b.upload client.toNasClient sc s).2.2 = some held ∧
          held.length = storedLength defaultSpillAt (writesAmong edits) ∧
          ∀ i, held.getD i 0 = (patchAll [] (writesAmong edits)).getD i 0 := by
  by_cases hws : writesAmong edits = []
  · refine Or.inl ⟨Or.inr hws, ?_⟩
    have hdirty : b.dirty = false := by rw [h.dirty, hws]; rfl
    simp [WriteBuffer.upload, h.broken, hdirty, h.unwritten hws]
  have hdirty : b.dirty = true := by
    rw [h.dirty]
    simp [hws]
  rw [upload_dirty h.broken hdirty] at hok ⊢
  cases streams with
  | true =>
      obtain ⟨stream, hsink, hspot, hfile⟩ := h.streaming rfl
      refine Or.inl ⟨Or.inl rfl, ?_⟩
      simp only [WriteBuffer.finish, hsink] at hok ⊢
      rw [drop_of_writer_none (close_writer hok)]
      exact close_through hclient.chunks hspot hfile hok
  | false =>
      obtain ⟨spill, hsink, hcarries⟩ := h.buffering rfl
      refine Or.inr ⟨by simp [hws], spill.bytes, ?_⟩
      exact ⟨finish_buffering hclient.stores.uploads h.nasPath hsink hok, hcarries.length,
        hcarries.reads⟩

/-- A write of the session that goes on with an open writer finds the writer's
file still under its path. -/
def WritesStand (client : SizingClient S F) (stands : F → S → Prop) (path : NasPath) (fh : ℕ)
    (x : Session S F) (calls : List SizedCall) : Prop :=
  ∀ before sc offset data after, calls = before ++ .write sc offset data :: after →
    ∀ b stream w, (x.runSized client path fh before).mount.buffers fh = some b →
      b.sink = .streamed (some stream) → stream.writer = some w → stream.next = offset →
        stands w (x.runSized client path fh before).mount.world

theorem WritesStand.of_append {before after : List SizedCall}
    (h : WritesStand client stands path fh x (before ++ after)) :
    WritesStand client stands path fh x before := by
  rintro front sc offset data back rfl
  exact h front sc offset data (back ++ after) (by simp)

/-- A session without a failure, from its opening on. -/
theorem editing_of_clean (hclient : client.StoresAtOnce file spot stands) {m : Mount S F}
    (hfile : file path m.world = some content) {calls : List SizedCall}
    (hclean : (Session.runSized client path fh
      (.opened client.toNasClient m fh path false true) calls).clean = true)
    (hstands : (openSink client.toNasClient path m.world).1.isStream = true →
      WritesStand client stands path fh (.opened client.toNasClient m fh path false true) calls) :
    ∃ b, (Session.runSized client path fh (.opened client.toNasClient m fh path false true)
        calls).mount.buffers fh = some b ∧
      Editing client file spot path content
        (openSink client.toNasClient path m.world).1.isStream b (editsOf calls)
        (Session.runSized client path fh (.opened client.toNasClient m fh path false true)
          calls).mount.world := by
  induction calls using List.reverseRecOn with
  | nil => exact opened_editing hclient hfile
  | append_singleton calls c ih =>
      rw [Session.runSized_concat] at hclean ⊢
      rw [editsOf, List.map_append, ← editsOf]
      cases c with
      | write sc offset data =>
          rw [Session.sizedCall] at hclean ⊢
          obtain ⟨hbefore, hok⟩ : (Session.runSized client path fh
              (.opened client.toNasClient m fh path false true) calls).clean = true ∧
              ((Session.runSized client path fh
                (.opened client.toNasClient m fh path false true) calls).mount.writeBufferAt
                client.toNasClient fh sc offset data).1.isOk = true :=
            Bool.and_eq_true_iff.mp hclean
          obtain ⟨b, hb, hediting⟩ := ih hbefore fun hstream => (hstands hstream).of_append
          refine ⟨_, Session.buffers_write hb .., ?_⟩
          rw [Session.call_write hb]
          simp only [Mount.writeBufferAt, hb] at hok
          refine hediting.writeAt_ok hclient (fun stream w hsink => ?_) hok
          cases hstream : (openSink client.toNasClient path m.world).1.isStream with
          | true => exact hstands hstream calls sc offset data [] rfl b stream w hb hsink
          | false =>
              obtain ⟨spill, hspill, _⟩ := hediting.buffering hstream
              rw [hspill] at hsink
              cases hsink
      | setattr size =>
          obtain ⟨hbefore, hok⟩ := Bool.and_eq_true_iff.mp hclean
          obtain ⟨b, hb, hediting⟩ := ih hbefore fun hstream => (hstands hstream).of_append
          exact ⟨b, hb, hediting.setSize_ok hclient hok⟩

/-- **What a clean close leaves after writes and changes of length.** A stream
leaves the old content under all of them, in order, unless a write goes on with a
writer whose file has been replaced. A buffer leaves that exactly when nothing was
written, or when the writes alone make the same of nothing: as many bytes, and at
every position what the last of all edits left there. -/
theorem close_composes (hclient : client.StoresAtOnce file spot stands) {m : Mount S F}
    (hfile : file path m.world = some content) {calls : List SizedCall}
    (hclean : (Session.runSized client path fh
      (.opened client.toNasClient m fh path false true) calls).clean = true) {sc : DiskScript}
    (hclose : ((Session.runSized client path fh (.opened client.toNasClient m fh path false true)
      calls).mount.upload client.toNasClient fh sc).1 = .ok ()) :
    let composed := file path ((Session.runSized client path fh
      (.opened client.toNasClient m fh path false true) calls).mount.upload client.toNasClient
        fh sc).2.world = some (editAll content (editsOf calls))
    let streams := (openSink client.toNasClient path m.world).1.isStream
    (streams = true → WritesStand client stands path fh
        (.opened client.toNasClient m fh path false true) calls → composed) ∧
      (streams = false → (composed ↔ writesAmong (editsOf calls) = [] ∨
        storedLength defaultSpillAt (writesAmong (editsOf calls)) =
            lengthAfter content.length (editsOf calls) ∧
          ∀ i, (lastSet (editsOf calls) i).getD (content.getD i 0) =
            (lastByte (writesAmong (editsOf calls)) i).getD 0)) := by
  have hclosed : ((openSink client.toNasClient path m.world).1.isStream = true →
      WritesStand client stands path fh (.opened client.toNasClient m fh path false true) calls) →
      ∃ b s, Editing client file spot path content
        (openSink client.toNasClient path m.world).1.isStream b (editsOf calls) s ∧
        (b.upload client.toNasClient sc s).1 = .ok () ∧
        ((Session.runSized client path fh (.opened client.toNasClient m fh path false true)
          calls).mount.upload client.toNasClient fh sc).2.world =
            (b.upload client.toNasClient sc s).2.2 := by
    intro hstands
    obtain ⟨b, hb, hediting⟩ := editing_of_clean hclient hfile hclean hstands
    exact ⟨b, _, hediting, (Session.upload_eq hb sc).symm.trans hclose, by simp [Mount.upload, hb]⟩
  refine ⟨fun hstream hstands => ?_, fun hstream => ?_⟩
  · obtain ⟨b, s, hediting, hok, hworld⟩ := hclosed fun _ => hstands
    rcases hediting.upload_ok hclient hok with ⟨_, hedited⟩ | ⟨hsink, _⟩
    · rw [hworld]
      exact hedited
    · exact (hsink (Or.inl hstream)).elim
  · obtain ⟨b, s, hediting, hok, hworld⟩ := hclosed (by simp [hstream])
    rw [hworld]
    rcases hediting.upload_ok hclient hok with ⟨hsink, hedited⟩ | ⟨hsink, held, hheld, hlen, hread⟩
    · rw [hedited]
      exact iff_of_true rfl (Or.inl (hsink.resolve_left (by simp [hstream])))
    · rw [hheld, Option.some.injEq, eq_editAll_iff _ _ hread, hlen, or_iff_right]
      exact fun hnone => hsink (Or.inr hnone)

end Sessions

/-! ### Either sink -/

/-- A library whose chunks are on the server at once. -/
def directSmb : Smb2 Nas (NasPath × ℕ) where
  fromLogical path := .ok path
  forgetHandle _ nas := nas
  ready nas := (.ok (), nas)
  createFileWriterAt loc offset nas := (.ok (loc, offset), nas.put loc ((nas.file loc).getD []))
  createFileWriterExclusive loc nas :=
    if (nas.file loc).isSome then (.error .alreadyExists, nas) else (.ok (loc, 0), nas.put loc [])
  writeChunk chunk w nas :=
    (.ok (), (w.1, w.2 + chunk.length), nas.put w.1 (patch ((nas.file w.1).getD []) w.2 chunk))
  finish _ nas := (.ok (), nas)
  abandon _ nas := nas

/-- A NAS that sets lengths in place. -/
def sizingClient (streams : Bool) : SizingClient Nas (NasPath × ℕ) where
  smb := directSmb
  clock _ := 0
  openWriteTransports := if streams then [⟨(), .new .standard⟩] else []
  upload parent filename data _ nas := (.ok (), nas.put (parent ++ [filename]) data)
  uploadFromPath content parent filename _ nas := (.ok (), nas.put (parent ++ [filename]) content)
  truncate path size nas :=
    match nas.file path with
    | some content => (.ok (), nas.put path (resize content size))
    | none => (.error .notFound, nas)
  getInfo path nas := (if (nas.file path).isSome then .ok () else .error .notFound, nas)

theorem sizingClient_storesAtOnce (streams : Bool) :
    (sizingClient streams).StoresAtOnce Nas.file id fun _ _ => True where
  chunks := by
    constructor
    case opened =>
      rintro path loc offset s w s' ⟨⟩ ⟨⟩
      exact ⟨rfl, trivial, Nas.file_put ..⟩
    case accepted =>
      rintro path loc offset chunk ⟨_, _⟩ s w' s' ⟨⟩ ⟨⟩ _ ⟨⟩
      exact ⟨rfl, trivial, Nas.file_put ..⟩
    case finished =>
      rintro w s s' path ⟨⟩
      rfl
    case ready => exact fun _ _ => rfl
    case forgetHandle => exact fun _ _ _ => rfl
  upload := by
    rintro parent filename data overwrite nas nas' ⟨⟩
    exact Nas.file_put ..
  uploadFromPath := by
    rintro content parent filename overwrite nas nas' ⟨⟩
    exact Nas.file_put ..
  truncate := by
    intro path size nas nas' h
    simp only [sizingClient] at h
    split at h
    case h_1 content hfile =>
      cases h
      rw [hfile]
      exact Nas.file_put ..
    case h_2 => cases h
  getInfo := fun _ _ _ => rfl

/-- An existing file of three bytes, opened for writing. -/
def openedToSize (streams : Bool) : Session Nas (NasPath × ℕ) :=
  .opened (sizingClient streams).toNasClient
    { buffers := fun _ => none, world := { files := [(["share", "f"], [1, 2, 3])] } } 1
    ["share", "f"] false true

/-- A byte written, and the file cut to two. -/
def writeThenCut : List SizedCall := [.write {} 0 [9], .setattr 2]

theorem streamed_write_then_cut :
    (((openedToSize true).runSized (sizingClient true) ["share", "f"] 1
      writeThenCut).mount.upload (sizingClient true).toNasClient 1 {}).2.world.file
        ["share", "f"] = some (editAll [1, 2, 3] (editsOf writeThenCut)) :=
  (close_composes (sizingClient_storesAtOnce true) rfl rfl rfl).1 rfl
    fun _ _ _ _ _ _ _ _ _ _ _ _ _ => trivial

/-- Buffered, the cut is undone, and the byte it left with it. -/
theorem buffered_cut_undone :
    let x := (openedToSize false).runSized (sizingClient false) ["share", "f"] 1 writeThenCut
    x.clean = true ∧ (x.mount.upload (sizingClient false).toNasClient 1 {}).1 = .ok () ∧
      (x.mount.upload (sizingClient false).toNasClient 1 {}).2.world.file ["share", "f"] =
        some [9] ∧
      (x.mount.upload (sizingClient false).toNasClient 1 {}).2.world.file ["share", "f"] ≠
        some (editAll [1, 2, 3] (editsOf writeThenCut)) := by
  refine ⟨rfl, rfl, rfl, ?_⟩
  rw [show Nas.file _ _ = some [9] from rfl]
  decide

end SynologyFilestation.Fuse
