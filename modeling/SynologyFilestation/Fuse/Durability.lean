import SynologyFilestation.Fuse.Handle
import Mathlib.Data.List.Induction

/-!
What `close(2)` promises. A session is one handle from its opening on: the calls
made on it, the writes it has accepted, and whether any call has failed yet.
`Keeps` says what the handle has done with the accepted writes at every point
of a session, and the three results read it off: when a close leaves the file
patched, when a flush leaves the handle usable, and when an upload that reports
success has stored what was written.

`flush` and `release` both answer with the handle's upload, so a session has one
call for the two; `release` forgets the handle afterwards and comes last.
-/

namespace SynologyFilestation.Fuse

open Core Library Smb

/-- A call on an open handle. -/
inductive Call
  | write (sc : DiskScript) (offset : ℕ) (data : Bytes)
  | upload (sc : DiskScript)

/-- The writes among `calls`. -/
def writesOf (calls : List Call) : List (Write UInt8) :=
  calls.filterMap fun
    | .write _ offset data => some (offset, data)
    | .upload _ => none

/-- A handle's life so far, as the application on it sees it. -/
structure Session (S F : Type) where
  mount : Mount S F
  /-- The writes that returned `Ok`, in order. -/
  accepted : List (Write UInt8)
  /-- No call has failed. -/
  clean : Bool

section Sessions

variable {S F : Type} (client : NasClient S F)

def Session.opened (m : Mount S F) (fh : ℕ) (path : NasPath) (newFile writable : Bool) :
    Session S F :=
  { mount := m.addWriteBuffer client fh path newFile writable, accepted := [], clean := true }

def Session.call (fh : ℕ) (x : Session S F) : Call → Except SynoFsError Unit × Session S F
  | .write sc offset data =>
      let (r, m) := x.mount.writeBufferAt client fh sc offset data
      (r, { mount := m
            accepted := if r.isOk then x.accepted ++ [(offset, data)] else x.accepted
            clean := x.clean && r.isOk })
  | .upload sc =>
      let (r, m) := x.mount.upload client fh sc
      (r, { x with mount := m, clean := x.clean && r.isOk })

def Session.run (fh : ℕ) (x : Session S F) (calls : List Call) : Session S F :=
  calls.foldl (fun x c => (x.call client fh c).2) x

@[simp] theorem Session.run_nil (fh : ℕ) (x : Session S F) : x.run client fh [] = x := rfl

theorem Session.run_append (fh : ℕ) (x : Session S F) (before after : List Call) :
    x.run client fh (before ++ after) = (x.run client fh before).run client fh after :=
  List.foldl_append ..

theorem Session.run_concat (fh : ℕ) (x : Session S F) (before : List Call) (c : Call) :
    x.run client fh (before ++ [c]) = ((x.run client fh before).call client fh c).2 :=
  x.run_append client fh before [c]

end Sessions

/-! ### The sink of a handle -/

section Sinks

variable {F : Type}

/-- Whether a write reaches the sink. -/
def WriteBuffer.isOpen (b : WriteBuffer F) : Bool :=
  match b.sink with
  | .streamed none => false
  | _ => true

/-- A stream with writes no upload has confirmed. -/
def WriteBuffer.dirtyStream (b : WriteBuffer F) : Bool :=
  match b.sink with
  | .streamed (some _) => b.dirty && !b.broken
  | _ => false

/-- A stream taken out of its slot with its writes still unconfirmed. -/
def WriteBuffer.halfClosed (b : WriteBuffer F) : Bool :=
  !b.isOpen && b.dirty && !b.broken

end Sinks

section Invariant

variable {S F : Type} {client : NasClient S F} {file : NasPath → S → Option Bytes}
  {path : NasPath} {base : Bytes} {b : WriteBuffer F} {ws : List (Write UInt8)} {s : S}
  {sc : DiskScript} {offset : ℕ} {data : Bytes}

/-- What a handle on `path` has done with the writes `ws` it accepted. -/
inductive Keeps (client : NasClient S F) (file : NasPath → S → Option Bytes) (path : NasPath)
    (base : Bytes) (b : WriteBuffer F) (ws : List (Write UInt8)) (s : S) : Prop
  | broken (hbroken : b.broken = true)
  | streaming {stream : SmbWriteHandle F} (hbroken : b.broken = false)
      (hsink : b.sink = .streamed (some stream))
      (hold : Holding client.smb file path base stream ws s)
      (hfirst : b.streamed = false → ws = [])
      (hclean : b.dirty = false → stream.writer = none ∧ ws = [])
  | taken (hbroken : b.broken = false) (hsink : b.sink = .streamed none)
      (hstored : b.dirty = false → Stored file path ws s)
  | buffering {spill : SpillBuffer} (hbroken : b.broken = false)
      (hsink : b.sink = .buffered spill) (carries : spill.Carries ws)
      (hstored : b.dirty = false → Stored file path ws s)

theorem bufferAt_broken {spill : SpillBuffer} (h : b.broken = true) :
    (b.bufferAt spill sc offset data).2.broken = true := by
  unfold WriteBuffer.bufferAt
  split
  · rfl
  · exact h

/-- A broken handle stays broken, whatever its sink still takes. -/
theorem writeAt_broken (h : b.broken = true) :
    (b.writeAt client sc offset data s).2.1.broken = true := by
  unfold WriteBuffer.writeAt
  split
  · exact h
  · split
    · exact h
    · dsimp only
      split
      · rfl
      · exact bufferAt_broken h
  · exact bufferAt_broken h

/-- A write to the local buffer is carried, or breaks the handle. -/
theorem bufferAt_keeps {spill : SpillBuffer} (hbroken : b.broken = false)
    (carries : spill.Carries ws) :
    Keeps client file path base (b.bufferAt spill sc offset data).2
      (if (b.bufferAt spill sc offset data).1.isOk then ws ++ [(offset, data)] else ws) s := by
  have hcarries := carries.writeAt_ok sc offset data
  unfold WriteBuffer.bufferAt
  cases hwrite : spill.writeAt sc offset data with
  | mk r spill' =>
      rw [hwrite] at hcarries
      cases r with
      | error why => exact .broken rfl
      | ok _ => exact .buffering hbroken rfl (hcarries rfl) (by simp)

/-- **A write keeps the handle honest**: accepted, it joins what the handle
holds; refused, it changes nothing or breaks the handle. -/
theorem writeAt_keeps (hclient : client.Stores file) (h : Keeps client file path base b ws s) :
    Keeps client file path base (b.writeAt client sc offset data s).2.1
      (if (b.writeAt client sc offset data s).1.isOk then ws ++ [(offset, data)] else ws)
      (b.writeAt client sc offset data s).2.2 := by
  cases h with
  | broken hbroken => exact .broken (writeAt_broken hbroken)
  | @streaming stream hbroken hsink hold hfirst hclean =>
      have hheld := hold.writeAt_ok hclient.chunks offset data
      simp only [WriteBuffer.writeAt, hsink]
      cases hwrite : stream.writeAt client.smb offset data s with
      | mk r rest =>
          obtain ⟨stream', s'⟩ := rest
          rw [hwrite] at hheld
          cases r with
          | ok _ => exact .streaming hbroken rfl (hheld rfl) (by simp) (by simp)
          | error e =>
              by_cases hkeep : (b.streamed || !b.newFile) = true
              · simp only [hkeep, if_true]
                exact .broken rfl
              · simp only [hkeep, Bool.false_eq_true, if_false]
                -- Nothing had been accepted, so an empty buffer carries all of it.
                have hnone : ws = [] := hfirst (by simpa using (Bool.or_eq_false_iff.mp
                  (Bool.eq_false_iff.mpr hkeep)).1)
                subst hnone
                exact bufferAt_keeps hbroken SpillBuffer.carries_new
  | taken hbroken hsink hstored =>
      simp only [WriteBuffer.writeAt, hsink]
      exact .taken hbroken hsink hstored
  | @buffering spill hbroken hsink carries hstored =>
      simp only [WriteBuffer.writeAt, hsink]
      exact bufferAt_keeps hbroken carries

/-- Closing a stream cleanly patches the file with everything the stream held. -/
theorem finish_streaming (hclient : client.Stores file) {stream : SmbWriteHandle F}
    (hsink : b.sink = .streamed (some stream))
    (hold : Holding client.smb file path base stream ws s)
    (hok : (b.finish client sc s).1 = .ok ()) :
    file path (b.finish client sc s).2.2 = some (patchAll base ws) := by
  simp only [WriteBuffer.finish, hsink] at hok ⊢
  have hfile := hold.close_ok hclient.chunks hok
  have hwriter := close_writer hok
  rw [drop_of_writer_none hwriter]
  exact hfile

/-- Uploading a buffer makes the file what the buffer holds. -/
theorem finish_buffering (hclient : client.StoresUploads file) (hpath : b.nasPath = path)
    {spill : SpillBuffer} (hsink : b.sink = .buffered spill)
    (hok : (b.finish client sc s).1 = .ok ()) :
    file path (b.finish client sc s).2.2 = some spill.bytes := by
  simp only [WriteBuffer.finish, hsink] at hok ⊢
  cases hpayload : payloadFor spill sc with
  | error why => simp [hpayload] at hok
  | ok payload =>
      simp only [hpayload] at hok ⊢
      cases hsplit : splitNasPath b.nasPath with
      | none => simp [hsplit] at hok
      | some split =>
          obtain ⟨parent, filename⟩ := split
          simp only [hsplit] at hok ⊢
          have hat : path = parent ++ [filename] := hpath ▸ eq_of_splitNasPath hsplit
          rw [hat]
          exact uploadPayload_ok hclient hpayload (Prod.ext hok rfl)

/-- What finishing a sink leaves of the handle. -/
theorem finish_buffer (client : NasClient S F) (b : WriteBuffer F) (sc : DiskScript) (s : S) :
    (b.finish client sc s).2.1 = b ∨
      (∃ stream, b.sink = .streamed (some stream)) ∧
        (b.finish client sc s).2.1 = { b with sink := .streamed none } := by
  unfold WriteBuffer.finish
  cases hsink : b.sink with
  | streamed slot =>
      cases slot with
      | none => exact Or.inl rfl
      | some stream => exact Or.inr ⟨⟨stream, rfl⟩, rfl⟩
  | buffered spill =>
      left
      dsimp only
      split
      · rfl
      · split <;> rfl

/-- The upload of a handle with something to upload. -/
theorem upload_dirty (hbroken : b.broken = false) (hdirty : b.dirty = true) :
    b.upload client sc s =
      ((b.finish client sc s).1,
        if (b.finish client sc s).1.isOk then
          { (b.finish client sc s).2.1 with dirty := false, newFile := false }
        else (b.finish client sc s).2.1,
        (b.finish client sc s).2.2) := by
  simp only [WriteBuffer.upload, hbroken, hdirty]
  cases b.finish client sc s with
  | mk r rest => cases r <;> rfl

/-- **An upload keeps the handle honest**, and one that reports success has
stored what the handle accepted, unless it found a stream already taken out of
its slot with its writes unconfirmed. -/
theorem upload_keeps (hclient : client.Stores file) (hpath : b.nasPath = path)
    (h : Keeps client file path base b ws s) (hhalf : b.halfClosed = false) (sc : DiskScript) :
    Keeps client file path base (b.upload client sc s).2.1 ws (b.upload client sc s).2.2 ∧
      ((b.upload client sc s).1 = .ok () → Stored file path ws (b.upload client sc s).2.2) := by
  by_cases hbroken : b.broken = true
  · simp only [WriteBuffer.upload, hbroken, if_true]
    exact ⟨.broken hbroken, by simp⟩
  rw [Bool.not_eq_true] at hbroken
  by_cases hdirty : b.dirty = true
  · rw [upload_dirty hbroken hdirty]
    have hunsent : b.dirty ≠ false := by simp [hdirty]
    cases h with
    | broken h => simp [h] at hbroken
    | @streaming stream _ hsink hold _ _ =>
        have hbuffer : (b.finish client sc s).2.1 = { b with sink := .streamed none } := by
          simp [WriteBuffer.finish, hsink]
        have hstored : (b.finish client sc s).1 = .ok () →
            Stored file path ws (b.finish client sc s).2.2 := fun hok =>
          stored_of_holds (finish_streaming hclient hsink hold hok) (patchAll_holds base ws)
        refine ⟨?_, hstored⟩
        dsimp only
        rw [hbuffer]
        cases hr : (b.finish client sc s).1 with
        | ok _ => exact .taken hbroken rfl fun _ => hstored hr
        | error e => exact .taken hbroken rfl fun hclean => absurd hclean hunsent
    | taken _ hsink _ => simp [WriteBuffer.halfClosed, WriteBuffer.isOpen, hsink, hdirty,
        hbroken] at hhalf
    | @buffering spill _ hsink carries _ =>
        have hbuffer : (b.finish client sc s).2.1 = b := by
          rcases finish_buffer client b sc s with h | ⟨⟨stream, h⟩, _⟩
          · exact h
          · rw [hsink] at h
            simp at h
        have hstored : (b.finish client sc s).1 = .ok () →
            Stored file path ws (b.finish client sc s).2.2 := fun hok =>
          stored_of_holds (finish_buffering hclient.uploads hpath hsink hok) carries.holds
        refine ⟨?_, hstored⟩
        dsimp only
        rw [hbuffer]
        cases hr : (b.finish client sc s).1 with
        | ok _ => exact .buffering hbroken hsink carries fun _ => hstored hr
        | error e =>
            exact .buffering hbroken hsink carries fun hclean => absurd hclean hunsent
  · simp only [WriteBuffer.upload, hbroken, hdirty]
    refine ⟨h, fun _ => ?_⟩
    rw [Bool.not_eq_true] at hdirty
    cases h with
    | broken h => simp [h] at hbroken
    | streaming _ _ _ _ hclean =>
        rw [(hclean hdirty).2]
        exact stored_nil path s
    | taken _ _ hstored => exact hstored hdirty
    | buffering _ _ _ hstored => exact hstored hdirty

/-- An upload that reports success leaves nothing dirty. -/
theorem upload_quiet (hok : (b.upload client sc s).1 = .ok ()) :
    (b.upload client sc s).2.1.dirty = false ∧ (b.upload client sc s).2.1.broken = false := by
  by_cases hbroken : b.broken = true
  · simp [WriteBuffer.upload, hbroken] at hok
  rw [Bool.not_eq_true] at hbroken
  by_cases hdirty : b.dirty = true
  · rw [upload_dirty hbroken hdirty] at hok ⊢
    simp only at hok ⊢
    rw [hok]
    refine ⟨rfl, ?_⟩
    rcases finish_buffer client b sc s with h | ⟨_, h⟩ <;> rw [h] <;> exact hbroken
  · simp [WriteBuffer.upload, hbroken, hdirty]

/-- A handle with nothing dirty holds no writer that forgetting it would abandon. -/
theorem Keeps.drop_of_quiet (h : Keeps client file path base b ws s)
    (hquiet : b.dirty = false ∧ b.broken = false) : b.drop client s = s := by
  cases h with
  | broken h => simp [h] at hquiet
  | streaming _ hsink _ _ hclean =>
      simp only [WriteBuffer.drop, hsink]
      exact drop_of_writer_none (hclean hquiet.1).1
  | taken _ hsink _ => simp only [WriteBuffer.drop, hsink]
  | buffering _ hsink _ _ => simp only [WriteBuffer.drop, hsink]

end Invariant

/-! ### Sessions -/

section Runs

variable {S F : Type} {client : NasClient S F} {file : NasPath → S → Option Bytes}
  {path : NasPath} {base : Bytes} {fh : ℕ} {x : Session S F} {b : WriteBuffer F}

theorem Session.call_write (h : x.mount.buffers fh = some b) (sc : DiskScript) (offset : ℕ)
    (data : Bytes) :
    x.call client fh (.write sc offset data) =
      ((b.writeAt client sc offset data x.mount.world).1,
        { mount := {
            buffers := Function.update x.mount.buffers fh
              (some (b.writeAt client sc offset data x.mount.world).2.1)
            world := (b.writeAt client sc offset data x.mount.world).2.2 }
          accepted :=
            if (b.writeAt client sc offset data x.mount.world).1.isOk then
              x.accepted ++ [(offset, data)] else x.accepted
          clean := x.clean && (b.writeAt client sc offset data x.mount.world).1.isOk }) := by
  simp [Session.call, Mount.writeBufferAt, h]

theorem Session.call_upload (h : x.mount.buffers fh = some b) (sc : DiskScript) :
    x.call client fh (.upload sc) =
      ((b.upload client sc x.mount.world).1,
        { mount := {
            buffers := Function.update x.mount.buffers fh
              (some (b.upload client sc x.mount.world).2.1)
            world := (b.upload client sc x.mount.world).2.2 }
          accepted := x.accepted
          clean := x.clean && (b.upload client sc x.mount.world).1.isOk }) := by
  simp [Session.call, Mount.upload, h]

theorem Session.buffers_write (h : x.mount.buffers fh = some b) (sc : DiskScript) (offset : ℕ)
    (data : Bytes) :
    (x.call client fh (.write sc offset data)).2.mount.buffers fh =
      some (b.writeAt client sc offset data x.mount.world).2.1 := by
  rw [Session.call_write h]
  exact Function.update_self ..

theorem Session.buffers_upload (h : x.mount.buffers fh = some b) (sc : DiskScript) :
    (x.call client fh (.upload sc)).2.mount.buffers fh =
      some (b.upload client sc x.mount.world).2.1 := by
  rw [Session.call_upload h]
  exact Function.update_self ..

/-- The handle is on `path`, and honest about what it accepted. -/
def Session.Honest (client : NasClient S F) (file : NasPath → S → Option Bytes) (path : NasPath)
    (base : Bytes) (fh : ℕ) (x : Session S F) : Prop :=
  ∃ b, x.mount.buffers fh = some b ∧ b.nasPath = path ∧
    Keeps client file path base b x.accepted x.mount.world

theorem writeAt_nasPath (b : WriteBuffer F) (sc : DiskScript) (offset : ℕ) (data : Bytes) (s : S) :
    (b.writeAt client sc offset data s).2.1.nasPath = b.nasPath := by
  have hbuffer : ∀ (b : WriteBuffer F) (spill : SpillBuffer),
      (b.bufferAt spill sc offset data).2.nasPath = b.nasPath := by
    intro b spill
    unfold WriteBuffer.bufferAt
    split <;> rfl
  unfold WriteBuffer.writeAt
  split
  · rfl
  · split
    · rfl
    · dsimp only
      split
      · rfl
      · exact hbuffer _ _
  · exact hbuffer b _

theorem upload_nasPath (b : WriteBuffer F) (sc : DiskScript) (s : S) :
    (b.upload client sc s).2.1.nasPath = b.nasPath := by
  have hfinish : (b.finish client sc s).2.1.nasPath = b.nasPath := by
    rcases finish_buffer client b sc s with h | ⟨_, h⟩ <;> rw [h]
  unfold WriteBuffer.upload
  split
  · rfl
  · split
    · rfl
    · split
      · next h => rw [h] at hfinish; exact hfinish
      · next h => rw [h] at hfinish; exact hfinish

/-- A handle starts honest: it has accepted nothing. -/
theorem Session.opened_honest (hclient : client.Stores file) (m : Mount S F) (fh : ℕ)
    (path : NasPath) (newFile writable : Bool) :
    (Session.opened client m fh path newFile writable).Honest client file path
      ((file path m.world).getD []) fh := by
  unfold Session.Honest Session.opened Mount.addWriteBuffer
  cases writable with
  | false =>
      exact ⟨_, Function.update_self .., rfl,
        .buffering rfl rfl SpillBuffer.carries_new fun _ => stored_nil path _⟩
  | true =>
      refine ⟨_, Function.update_self .., rfl, ?_⟩
      rcases (openSink_spec hclient path m.world).2 with ⟨stream, hsink, hwriter, hold⟩ | hsink
      · exact .streaming rfl hsink hold (fun _ => rfl) fun _ => ⟨hwriter, rfl⟩
      · exact .buffering rfl hsink SpillBuffer.carries_new fun _ => stored_nil path _

/-- One call keeps the handle honest, an upload unless it came upon a
half-closed one. -/
theorem Session.Honest.call (hclient : client.Stores file)
    (h : x.Honest client file path base fh) {c : Call}
    (hhalf : ∀ sc, c = .upload sc → ∀ b, x.mount.buffers fh = some b → b.halfClosed = false) :
    (x.call client fh c).2.Honest client file path base fh := by
  obtain ⟨b, hb, hpath, hkeeps⟩ := h
  cases c with
  | write sc offset data =>
      rw [Session.call_write hb]
      exact ⟨_, Function.update_self .., (writeAt_nasPath ..).trans hpath,
        writeAt_keeps hclient hkeeps⟩
  | upload sc =>
      rw [Session.call_upload hb]
      exact ⟨_, Function.update_self .., (upload_nasPath ..).trans hpath,
        (upload_keeps hclient hpath hkeeps (hhalf sc rfl b hb) sc).1⟩

/-- No upload of `calls` comes upon a stream already taken out of its slot with
its writes unconfirmed. -/
def NeverHalfClosed (client : NasClient S F) (fh : ℕ) (x : Session S F) (calls : List Call) :
    Prop :=
  ∀ before sc after, calls = before ++ .upload sc :: after →
    ∀ b, (x.run client fh before).mount.buffers fh = some b → b.halfClosed = false

theorem NeverHalfClosed.of_append {before after : List Call}
    (h : NeverHalfClosed client fh x (before ++ after)) : NeverHalfClosed client fh x before := by
  rintro front sc back rfl b hb
  exact h front sc (back ++ after) (by simp) b hb

/-- **The run lemma**: a handle whose uploads find no half-closed stream is
honest to the end. -/
theorem Session.Honest.run (hclient : client.Stores file)
    (h : x.Honest client file path base fh) {calls : List Call}
    (hcalls : NeverHalfClosed client fh x calls) :
    (x.run client fh calls).Honest client file path base fh := by
  induction calls using List.reverseRecOn with
  | nil => exact h
  | append_singleton calls c ih =>
      rw [Session.run_concat]
      apply (ih hcalls.of_append).call hclient
      rintro sc rfl b hb
      exact hcalls calls sc [] rfl b hb

/-! ### Writing over an existing file

A stream patches the file where it lies. A buffer starts empty and replaces the
file whole, so what the file held shows through only where it was zero. -/

/-- A session of writes alone. -/
def writing (ws : List (DiskScript × Write UInt8)) : List Call :=
  ws.map fun w => .write w.1 w.2.1 w.2.2

/-- A handle opened on a file that held `content`, with `ws` accepted and no
call failed. -/
structure Patching (client : NasClient S F) (file : NasPath → S → Option Bytes) (path : NasPath)
    (content : Bytes) (streams : Bool) (b : WriteBuffer F) (ws : List (Write UInt8)) (s : S) :
    Prop where
  nasPath : b.nasPath = path
  newFile : b.newFile = false
  broken : b.broken = false
  dirty : b.dirty = !ws.isEmpty
  untouched : ws = [] → file path s = some content
  streaming : streams = true → ∃ stream, b.sink = .streamed (some stream) ∧
    Holding client.smb file path content stream ws s
  buffering : streams = false → ∃ spill, b.sink = .buffered spill ∧ spill.Carries ws

/-- The sink a handle on an existing file is opened with. -/
def WriteSink.isStream : WriteSink F → Bool
  | .streamed _ => true
  | .buffered _ => false

theorem opened_patching (hclient : client.Stores file) {m : Mount S F} {content : Bytes}
    (hfile : file path m.world = some content) :
    ∃ b, (Session.opened client m fh path false true).mount.buffers fh = some b ∧
      Patching client file path content (openSink client path m.world).1.isStream b []
        (Session.opened client m fh path false true).mount.world := by
  refine ⟨_, Function.update_self .., ?_⟩
  obtain ⟨hkept, hsink⟩ := openSink_spec hclient path m.world
  have huntouched : file path (openSink client path m.world).2 = some content :=
    hkept.trans hfile
  rw [hfile, Option.getD_some] at hsink
  rcases hsink with ⟨stream, hsink, _, hold⟩ | hsink
  · exact ⟨rfl, rfl, rfl, rfl, fun _ => huntouched, fun _ => ⟨stream, hsink, hold⟩,
      by simp [WriteSink.isStream, hsink]⟩
  · exact ⟨rfl, rfl, rfl, rfl, fun _ => huntouched, by simp [WriteSink.isStream, hsink],
      fun _ => ⟨_, hsink, SpillBuffer.carries_new⟩⟩

/-- A write that a stream has taken. -/
theorem writeAt_streamed {sc : DiskScript} {offset : ℕ} {data : Bytes} {s : S}
    {stream : SmbWriteHandle F} (hsink : b.sink = .streamed (some stream))
    (hfile : b.newFile = false) (hok : (b.writeAt client sc offset data s).1.isOk = true) :
    ∃ stream' s', stream.writeAt client.smb offset data s = (.ok (), stream', s') ∧
      b.writeAt client sc offset data s = (.ok (),
        { b with sink := .streamed (some stream'), streamed := true, dirty := true }, s') := by
  simp only [WriteBuffer.writeAt, hsink] at hok ⊢
  cases hwrite : stream.writeAt client.smb offset data s with
  | mk r rest =>
      obtain ⟨stream', s'⟩ := rest
      cases r with
      | ok _ => exact ⟨stream', s', rfl, rfl⟩
      | error e => simp [hwrite, hfile, Except.isOk, Except.toBool] at hok

/-- A write that the local buffer has taken. -/
theorem writeAt_buffered {sc : DiskScript} {offset : ℕ} {data : Bytes} {s : S}
    {spill : SpillBuffer} (hsink : b.sink = .buffered spill)
    (hok : (b.writeAt client sc offset data s).1.isOk = true) :
    ∃ spill', spill.writeAt sc offset data = (.ok (), spill') ∧
      b.writeAt client sc offset data s =
        (.ok (), { b with sink := .buffered spill', dirty := true }, s) := by
  simp only [WriteBuffer.writeAt, WriteBuffer.bufferAt, hsink] at hok ⊢
  cases hwrite : spill.writeAt sc offset data with
  | mk r spill' =>
      cases r with
      | ok _ => exact ⟨spill', rfl, rfl⟩
      | error e => simp [hwrite, Except.isOk, Except.toBool] at hok

theorem Patching.writeAt_ok (hclient : client.Stores file) {content : Bytes} {streams : Bool}
    {ws : List (Write UInt8)} {s : S} {sc : DiskScript} {offset : ℕ} {data : Bytes}
    (h : Patching client file path content streams b ws s)
    (hok : (b.writeAt client sc offset data s).1.isOk = true) :
    Patching client file path content streams (b.writeAt client sc offset data s).2.1
      (ws ++ [(offset, data)]) (b.writeAt client sc offset data s).2.2 := by
  cases streams with
  | true =>
      obtain ⟨stream, hsink, hold⟩ := h.streaming rfl
      obtain ⟨stream', s', hwrite, hdone⟩ := writeAt_streamed hsink h.newFile hok
      have hheld := hold.writeAt_ok hclient.chunks offset data
      rw [hwrite] at hheld
      rw [hdone]
      exact ⟨h.nasPath, h.newFile, h.broken, by simp, by simp,
        fun _ => ⟨stream', rfl, hheld rfl⟩, by simp⟩
  | false =>
      obtain ⟨spill, hsink, hcarries⟩ := h.buffering rfl
      obtain ⟨spill', hwrite, hdone⟩ := writeAt_buffered hsink hok
      have hheld := hcarries.writeAt_ok sc offset data
      rw [hwrite] at hheld
      rw [hdone]
      exact ⟨h.nasPath, h.newFile, h.broken, by simp, by simp, by simp,
        fun _ => ⟨spill', rfl, hheld rfl⟩⟩

/-- What the file is once the handle is closed. -/
theorem Patching.upload_ok (hclient : client.Stores file) {content : Bytes} {streams : Bool}
    {ws : List (Write UInt8)} {s : S} {sc : DiskScript}
    (h : Patching client file path content streams b ws s)
    (hok : (b.upload client sc s).1 = .ok ()) :
    ((streams = true ∨ ws = []) ∧
        file path (b.upload client sc s).2.2 = some (patchAll content ws)) ∨
      ¬ (streams = true ∨ ws = []) ∧ ∃ held, file path (b.upload client sc s).2.2 = some held ∧
        held.length = storedLength defaultSpillAt ws ∧
          ∀ i, held.getD i 0 = (patchAll [] ws).getD i 0 := by
  by_cases hws : ws = []
  · refine Or.inl ⟨Or.inr hws, ?_⟩
    have hdirty : b.dirty = false := by rw [h.dirty, hws]; rfl
    simp [WriteBuffer.upload, h.broken, hdirty, h.untouched hws, hws]
  have hdirty : b.dirty = true := by
    rw [h.dirty]
    simp [hws]
  rw [upload_dirty h.broken hdirty] at hok ⊢
  cases streams with
  | true =>
      obtain ⟨stream, hsink, hold⟩ := h.streaming rfl
      exact Or.inl ⟨Or.inl rfl, finish_streaming hclient hsink hold hok⟩
  | false =>
      obtain ⟨spill, hsink, hcarries⟩ := h.buffering rfl
      refine Or.inr ⟨by simp [hws], spill.bytes, ?_⟩
      exact ⟨finish_buffering hclient.uploads h.nasPath hsink hok, hcarries.length,
        hcarries.reads⟩

/-! ### An upload that reports success

A stream that fails to close has left its slot with its writes unconfirmed, and
nothing in the handle but its dirty bit says so: the next upload finds no stream
to close and reports success. -/

theorem writeAt_of_closed (hclosed : b.isOpen = false) (sc : DiskScript) (offset : ℕ)
    (data : Bytes) (s : S) :
    b.writeAt client sc offset data s = (.error (.io "write to a closed handle"), b, s) := by
  unfold WriteBuffer.isOpen at hclosed
  split at hclosed
  · next hsink => simp [WriteBuffer.writeAt, hsink]
  · simp at hclosed

/-- A write closes a sink only by breaking the handle. -/
theorem writeAt_isOpen (client : NasClient S F) (hopen : b.isOpen = true) (sc : DiskScript)
    (offset : ℕ) (data : Bytes) (s : S) :
    (b.writeAt client sc offset data s).2.1.isOpen = true ∨
      (b.writeAt client sc offset data s).2.1.broken = true ∧
        (b.writeAt client sc offset data s).1.isOk = false := by
  have hbuffer : ∀ (b : WriteBuffer F) (spill : SpillBuffer),
      (b.bufferAt spill sc offset data).2.isOpen = true := by
    intro b spill
    unfold WriteBuffer.bufferAt
    split <;> rfl
  unfold WriteBuffer.writeAt
  split
  · next hsink => simp [WriteBuffer.isOpen, hsink] at hopen
  · split
    · exact Or.inl rfl
    · dsimp only
      split
      · exact Or.inr ⟨rfl, rfl⟩
      · exact Or.inl (hbuffer _ _)
  · exact Or.inl (hbuffer b _)

theorem isOpen_of_dirtyStream (h : b.dirtyStream = true) : b.isOpen = true := by
  unfold WriteBuffer.dirtyStream at h
  split at h
  · next hsink => simp [WriteBuffer.isOpen, hsink]
  · simp at h

/-- An upload closes an open sink exactly when it comes upon a dirty stream. -/
theorem upload_isOpen (client : NasClient S F) (hopen : b.isOpen = true) (sc : DiskScript) (s : S) :
    (b.upload client sc s).2.1.isOpen = !b.dirtyStream := by
  by_cases hbroken : b.broken = true
  · have hstream : b.dirtyStream = false := by
      unfold WriteBuffer.dirtyStream
      split <;> simp [hbroken]
    simp [WriteBuffer.upload, hbroken, hopen, hstream]
  rw [Bool.not_eq_true] at hbroken
  by_cases hdirty : b.dirty = true
  · rw [upload_dirty hbroken hdirty]
    have hsame : ∀ b' : WriteBuffer F,
        (if (b.finish client sc s).1.isOk then { b' with dirty := false, newFile := false }
          else b').isOpen = b'.isOpen := by
      intro b'
      split <;> rfl
    dsimp only
    rw [hsame]
    cases hsink : b.sink with
    | buffered spill =>
        have hbuffer : (b.finish client sc s).2.1 = b := by
          rcases finish_buffer client b sc s with h | ⟨⟨stream, h⟩, _⟩
          · exact h
          · rw [hsink] at h
            simp at h
        rw [hbuffer, hopen]
        simp [WriteBuffer.dirtyStream, hsink]
    | streamed slot =>
        cases slot with
        | none => simp [WriteBuffer.isOpen, hsink] at hopen
        | some stream =>
            simp [WriteBuffer.finish, WriteBuffer.isOpen, WriteBuffer.dirtyStream, hsink, hdirty,
              hbroken]
  · have hstream : b.dirtyStream = false := by
      unfold WriteBuffer.dirtyStream
      split <;> simp [hdirty]
    simp [WriteBuffer.upload, hbroken, hdirty, hopen, hstream]

theorem upload_of_closed (hclosed : b.isOpen = false) (sc : DiskScript) (s : S) :
    (b.upload client sc s).2.1.isOpen = false := by
  have hfinish : b.finish client sc s = (.ok (), b, s) := by
    unfold WriteBuffer.isOpen at hclosed
    split at hclosed
    · next hsink => simp [WriteBuffer.finish, hsink]
    · simp at hclosed
  unfold WriteBuffer.upload
  split
  · exact hclosed
  · split
    · exact hclosed
    · rw [hfinish]
      exact hclosed

/-- A half-closed handle reports success, and is clean afterwards. -/
theorem upload_of_halfClosed (h : b.halfClosed = true) (sc : DiskScript) (s : S) :
    b.upload client sc s = (.ok (), { b with dirty := false, newFile := false }, s) := by
  simp only [WriteBuffer.halfClosed, WriteBuffer.isOpen, Bool.and_eq_true, Bool.not_eq_true'] at h
  obtain ⟨⟨hclosed, hdirty⟩, hbroken⟩ := h
  split at hclosed
  · next hsink => simp [WriteBuffer.upload, WriteBuffer.finish, hsink, hdirty, hbroken]
  · simp at hclosed

/-- The upload at this point fails to close the stream it takes. -/
def FailsToClose (client : NasClient S F) (fh : ℕ) (x : Session S F) (sc : DiskScript) : Prop :=
  ∃ b, x.mount.buffers fh = some b ∧ b.dirtyStream = true ∧
    (x.mount.upload client fh sc).1 ≠ .ok ()

/-- An upload leaves a handle half-closed exactly when it fails to close a
stream. -/
theorem upload_halfClosed_iff (b : WriteBuffer F) (sc : DiskScript) (s : S) :
    (b.upload client sc s).2.1.halfClosed = true ↔
      b.dirtyStream = true ∧ (b.upload client sc s).1 ≠ .ok () := by
  by_cases hhalf : b.halfClosed = true
  · have hopen : b.isOpen = false := by simp_all [WriteBuffer.halfClosed]
    have hstream : b.dirtyStream = false := by
      rw [← Bool.not_eq_true]
      intro h
      rw [isOpen_of_dirtyStream h] at hopen
      simp at hopen
    rw [upload_of_halfClosed hhalf, hstream]
    simp [WriteBuffer.halfClosed]
  rw [Bool.not_eq_true] at hhalf
  by_cases hstream : b.dirtyStream = true
  · have hopen := isOpen_of_dirtyStream hstream
    have hboth : b.dirty = true ∧ b.broken = false := by
      unfold WriteBuffer.dirtyStream at hstream
      split at hstream
      · simpa using hstream
      · simp at hstream
    have hafter := upload_isOpen client hopen sc s
    rw [upload_dirty hboth.2 hboth.1] at hafter ⊢
    rcases finish_buffer client b sc s with hb | ⟨_, hb⟩ <;>
      cases hr : (b.finish client sc s).1 <;>
        simp_all [WriteBuffer.halfClosed, Except.isOk, Except.toBool]
  · -- With no dirty stream the sink stays as it is.
    rw [Bool.not_eq_true] at hstream
    simp only [hstream, Bool.false_eq_true, false_and, iff_false, Bool.not_eq_true]
    cases hopen : b.isOpen with
    | true => simp [WriteBuffer.halfClosed, upload_isOpen client hopen, hstream]
    | false =>
        have hbroken : b.dirty = true → b.broken = true := by
          simpa [WriteBuffer.halfClosed, hopen] using hhalf
        have hsame : (b.upload client sc s).2.1 = b := by
          cases hdirty : b.dirty with
          | false =>
              unfold WriteBuffer.upload
              split <;> simp [hdirty]
          | true => simp [WriteBuffer.upload, hbroken hdirty]
        rw [hsame, hhalf]

/-- A write leaves a handle half-closed only if it found it so. -/
theorem writeAt_halfClosed {sc : DiskScript} {offset : ℕ} {data : Bytes} {s : S}
    (h : (b.writeAt client sc offset data s).2.1.halfClosed = true) : b.halfClosed = true := by
  cases hopen : b.isOpen with
  | false =>
      rw [writeAt_of_closed hopen] at h
      exact h
  | true =>
      rcases writeAt_isOpen client hopen sc offset data s with h' | ⟨h', _⟩ <;>
        simp [WriteBuffer.halfClosed, h'] at h

theorem Session.upload_eq (h : x.mount.buffers fh = some b) (sc : DiskScript) :
    (x.mount.upload client fh sc).1 = (b.upload client sc x.mount.world).1 := by
  simp [Mount.upload, h]

/-- A call leaves the handle's buffer in place. -/
theorem Session.buffers_call (h : x.mount.buffers fh = some b) (c : Call) :
    ∃ b', (x.call client fh c).2.mount.buffers fh = some b' := by
  cases c with
  | write sc offset data => exact ⟨_, Session.buffers_write h sc offset data⟩
  | upload sc => exact ⟨_, Session.buffers_upload h sc⟩

theorem Session.buffers_run (client : NasClient S F) (h : x.mount.buffers fh = some b)
    (calls : List Call) :
    ∃ b', (x.run client fh calls).mount.buffers fh = some b' := by
  induction calls using List.reverseRecOn with
  | nil => exact ⟨b, h⟩
  | append_singleton calls c ih =>
      obtain ⟨b', hb'⟩ := ih
      rw [Session.run_concat]
      exact Session.buffers_call hb' c

/-- Where a half-closed handle comes from: an upload that failed to close its
stream. -/
theorem halfClosed_origin (hb₀ : x.mount.buffers fh = some b) (hopen : b.isOpen = true)
    {calls : List Call} {b' : WriteBuffer F}
    (hb' : (x.run client fh calls).mount.buffers fh = some b') (hhalf : b'.halfClosed = true) :
    ∃ before sc after, calls = before ++ .upload sc :: after ∧
      FailsToClose client fh (x.run client fh before) sc := by
  induction calls using List.reverseRecOn generalizing b' with
  | nil =>
      obtain rfl : b = b' := Option.some.inj (hb₀.symm.trans hb')
      simp [WriteBuffer.halfClosed, hopen] at hhalf
  | append_singleton calls c ih =>
      obtain ⟨y, hy⟩ := Session.buffers_run client hb₀ calls
      rw [Session.run_concat] at hb'
      -- Either the handle was half-closed already, or `c` is the upload.
      have hearlier : y.halfClosed = true → ∃ before sc after,
          calls ++ [c] = before ++ .upload sc :: after ∧
            FailsToClose client fh (x.run client fh before) sc := by
        intro h
        obtain ⟨before, sc, after, rfl, hfails⟩ := ih hy h
        exact ⟨before, sc, after ++ [c], by simp, hfails⟩
      cases c with
      | write sc offset data =>
          rw [Session.buffers_write hy] at hb'
          obtain rfl := Option.some.inj hb'
          exact hearlier (writeAt_halfClosed hhalf)
      | upload sc =>
          rw [Session.buffers_upload hy] at hb'
          obtain rfl := Option.some.inj hb'
          obtain ⟨hstream, herr⟩ := (upload_halfClosed_iff y sc _).mp hhalf
          refine ⟨calls, sc, [], rfl, y, hy, hstream, ?_⟩
          rwa [Session.upload_eq hy]

/-- Writes leave a half-closed handle as it is, so the next upload finds it. -/
theorem NeverHalfClosed.not_halfClosed {before between after : List Call} {sc : DiskScript}
    (h : NeverHalfClosed client fh x (before ++ (between ++ .upload sc :: after)))
    (hb : (x.run client fh before).mount.buffers fh = some b) : b.halfClosed = false := by
  induction between generalizing before with
  | nil => exact h before sc after rfl b hb
  | cons c between ih =>
      cases c with
      | upload sc' => exact h before sc' (between ++ .upload sc :: after) rfl b hb
      | write sc' offset data =>
          by_contra hhalf
          rw [Bool.not_eq_false] at hhalf
          have hclosed : b.isOpen = false := by simp_all [WriteBuffer.halfClosed]
          have hb' : (x.run client fh (before ++ [.write sc' offset data])).mount.buffers fh =
              some b := by
            rw [Session.run_concat, Session.buffers_write hb, writeAt_of_closed hclosed]
          rw [ih (by simpa using h) hb'] at hhalf
          simp at hhalf

/-- What an upload that reports success is worth: everything accepted before it
is stored, and after a stream failed to close there is no such upload. -/
def NoFalseDurability (client : NasClient S F) (file : NasPath → S → Option Bytes)
    (path : NasPath) (fh : ℕ) (x : Session S F) (calls : List Call) : Prop :=
  (∀ before sc after, calls = before ++ .upload sc :: after →
    ((x.run client fh before).mount.upload client fh sc).1 = .ok () →
      Stored file path (x.run client fh before).accepted
        ((x.run client fh before).mount.upload client fh sc).2.world) ∧
  ∀ before sc between sc' after,
    calls = before ++ .upload sc :: (between ++ .upload sc' :: after) →
      FailsToClose client fh (x.run client fh before) sc →
        ((x.run client fh (before ++ .upload sc :: between)).mount.upload client fh sc').1 ≠ .ok ()

theorem Session.opened_isOpen (client : NasClient S F) (m : Mount S F) (fh : ℕ) (path : NasPath)
    (newFile writable : Bool) :
    ∃ b, (Session.opened client m fh path newFile writable).mount.buffers fh = some b ∧
      b.isOpen = true := by
  refine ⟨_, Function.update_self .., ?_⟩
  cases writable with
  | false => rfl
  | true =>
      have hsink : (openSink client path m.world).1 ≠ .streamed none := by
        unfold openSink
        split <;> simp
      change (match (openSink client path m.world).1 with
        | .streamed none => false
        | _ => true) = true
      split
      · next heq => exact absurd heq hsink
      · rfl

/-- **An upload's success is durable exactly as long as no upload comes upon a
half-closed handle.** -/
theorem noFalseDurability_iff (hclient : client.Stores file) (m : Mount S F) (fh : ℕ)
    (path : NasPath) (newFile writable : Bool) (calls : List Call) :
    NoFalseDurability client file path fh (.opened client m fh path newFile writable) calls ↔
      NeverHalfClosed client fh (.opened client m fh path newFile writable) calls := by
  obtain ⟨b₀, hb₀, hopen⟩ := Session.opened_isOpen client m fh path newFile writable
  constructor
  · rintro ⟨_, hfails⟩ before sc after rfl b hb
    by_contra hhalf
    rw [Bool.not_eq_false] at hhalf
    obtain ⟨front, sc', between, rfl, hclose⟩ := halfClosed_origin hb₀ hopen hb hhalf
    apply hfails front sc' between sc after (by simp) hclose
    rw [Session.upload_eq hb, upload_of_halfClosed hhalf]
  · intro hnever
    constructor
    · rintro before sc after rfl hok
      obtain ⟨b, hb, hpath, hkeeps⟩ :=
        (Session.opened_honest hclient m fh path newFile writable).run hclient hnever.of_append
      have hhalf := hnever before sc after rfl b hb
      have hstored := (upload_keeps hclient hpath hkeeps hhalf sc).2
      rw [Session.upload_eq hb] at hok
      simpa [Mount.upload, hb] using hstored hok
    · rintro before sc between sc' after rfl ⟨b, hb, hstream, herr⟩
      have hafter : (Session.run client fh (.opened client m fh path newFile writable)
          (before ++ [.upload sc])).mount.buffers fh =
            some (b.upload client sc (Session.run client fh
              (.opened client m fh path newFile writable) before).mount.world).2.1 := by
        rw [Session.run_concat, Session.buffers_upload hb]
      have hnever' : NeverHalfClosed client fh (.opened client m fh path newFile writable)
          ((before ++ [.upload sc]) ++ (between ++ .upload sc' :: after)) := by
        simpa using hnever
      have hhalf := hnever'.not_halfClosed hafter
      rw [Session.upload_eq hb] at herr
      rw [(upload_halfClosed_iff b sc _).mpr ⟨hstream, herr⟩] at hhalf
      simp at hhalf

/-- A new file, streamed to a NAS whose first answer to a close is a failure. -/
def lostClose : Session Nas NasWriter :=
  .opened (nasClient true) (nasMount [] [some (.io "connection lost")]) 1 ["share", "new.bin"]
    true true

/-- Written once and uploaded twice: the first upload reports the failed close,
the second success, and the file is not there. -/
theorem second_upload_lies :
    let x := lostClose.run (nasClient true) 1 [.write {} 0 [7], .upload {}]
    (lostClose.run (nasClient true) 1 [.write {} 0 [7]]).clean = true ∧ x.clean = false ∧
      (x.mount.upload (nasClient true) 1 {}).1 = .ok () ∧
        (x.mount.upload (nasClient true) 1 {}).2.world.file ["share", "new.bin"] = none ∧
          ¬ NoFalseDurability (nasClient true) Nas.file ["share", "new.bin"] 1 lostClose
            [.write {} 0 [7], .upload {}, .upload {}] := by
  refine ⟨rfl, rfl, rfl, rfl, ?_⟩
  rintro ⟨hstored, _⟩
  obtain ⟨content, hcontent, _⟩ := hstored [.write {} 0 [7], .upload {}] {} [] rfl rfl 0 7 rfl
  have hmissing : some content = none := hcontent.symm.trans rfl
  simp at hmissing

/-- A stream that closes cleanly: its one upload is durable. -/
theorem clean_close_durable :
    NoFalseDurability (nasClient true) Nas.file ["share", "new.bin"] 1
      (.opened (nasClient true) (nasMount [] []) 1 ["share", "new.bin"] true true)
      [.write {} 0 [7], .upload {}] := by
  refine (noFalseDurability_iff (nasClient_stores true) ..).mpr ?_
  rintro before sc after heq b hb
  rcases before with _ | ⟨c, _ | ⟨c', before⟩⟩
  · simp at heq
  · obtain ⟨rfl, _⟩ := List.cons.inj heq
    cases hb
    rfl
  · simp at heq

/-! ### Flushing an open handle

A flush closes the stream it finds dirty, and the slot stays empty: the handle
can be written no more. -/

/-- As long as every call before it succeeded, a write reaches the handle's
sink, so that only the sink itself can refuse it. -/
def FlushTransparent (client : NasClient S F) (fh : ℕ) (x : Session S F) (calls : List Call) :
    Prop :=
  ∀ before sc offset data after, calls = before ++ .write sc offset data :: after →
    (x.run client fh before).clean = true →
      ∀ b, (x.run client fh before).mount.buffers fh = some b → b.isOpen = true

/-- Among `calls`, an upload comes upon a dirty stream. -/
def ClosesStream (client : NasClient S F) (fh : ℕ) (x : Session S F) (calls : List Call) : Prop :=
  ∃ before sc after, calls = before ++ .upload sc :: after ∧
    ∃ b, (x.run client fh before).mount.buffers fh = some b ∧ b.dirtyStream = true

/-- No write comes after an upload that came upon a dirty stream, all calls
before it having succeeded. -/
def NoWriteAfterClosing (client : NasClient S F) (fh : ℕ) (x : Session S F) (calls : List Call) :
    Prop :=
  ∀ before sc offset data after, calls = before ++ .write sc offset data :: after →
    (x.run client fh before).clean = true → ¬ ClosesStream client fh x before

theorem closesStream_concat {calls : List Call} {c : Call} :
    ClosesStream client fh x (calls ++ [c]) ↔ ClosesStream client fh x calls ∨
      ∃ sc, c = .upload sc ∧ ∃ b, (x.run client fh calls).mount.buffers fh = some b ∧
        b.dirtyStream = true := by
  constructor
  · rintro ⟨before, sc, after, heq, hstream⟩
    rcases List.eq_nil_or_concat after with rfl | ⟨init, last, rfl⟩
    · obtain ⟨rfl, hc⟩ := List.append_inj' heq rfl
      exact Or.inr ⟨sc, List.head_eq_of_cons_eq hc, hstream⟩
    · rw [List.concat_eq_append, ← List.cons_append, ← List.append_assoc] at heq
      exact Or.inl ⟨before, sc, init, (List.append_inj' heq rfl).1, hstream⟩
  · rintro (⟨before, sc, after, rfl, hstream⟩ | ⟨sc, rfl, hstream⟩)
    · exact ⟨before, sc, after ++ [c], by simp, hstream⟩
    · exact ⟨calls, sc, [], rfl, hstream⟩

theorem Session.clean_of_concat {calls : List Call} {c : Call}
    (h : (x.run client fh (calls ++ [c])).clean = true) :
    (x.run client fh calls).clean = true ∧
      ((x.run client fh calls).call client fh c).1.isOk = true := by
  rw [Session.run_concat] at h
  cases c <;> simpa [Session.call] using h

theorem Session.clean_of_append (before after : List Call)
    (h : (x.run client fh (before ++ after)).clean = true) :
    (x.run client fh before).clean = true := by
  induction after using List.reverseRecOn with
  | nil => simpa using h
  | append_singleton after c ih =>
      rw [← List.append_assoc] at h
      exact ih (Session.clean_of_concat h).1

/-- After calls that all succeeded, the sink is closed exactly if an upload
came upon a dirty stream. -/
theorem isOpen_eq_false_iff (hb₀ : x.mount.buffers fh = some b) (hopen : b.isOpen = true)
    {calls : List Call} (hclean : (x.run client fh calls).clean = true) {b' : WriteBuffer F}
    (hb' : (x.run client fh calls).mount.buffers fh = some b') :
    b'.isOpen = false ↔ ClosesStream client fh x calls := by
  induction calls using List.reverseRecOn generalizing b' with
  | nil =>
      obtain rfl : b = b' := Option.some.inj (hb₀.symm.trans hb')
      simp [ClosesStream, hopen]
  | append_singleton calls c ih =>
      obtain ⟨y, hy⟩ := Session.buffers_run client hb₀ calls
      obtain ⟨hbefore, hok⟩ := Session.clean_of_concat hclean
      have ih := ih hbefore hy
      rw [Session.run_concat] at hb'
      rw [closesStream_concat, ← ih]
      cases c with
      | write sc offset data =>
          rw [Session.buffers_write hy] at hb'
          obtain rfl := Option.some.inj hb'
          rw [Session.call_write hy] at hok
          -- The write succeeded, so it found the sink open and left it so.
          have hyopen : y.isOpen = true := by
            by_contra hclosed
            rw [Bool.not_eq_true] at hclosed
            rw [writeAt_of_closed hclosed] at hok
            simp [Except.isOk, Except.toBool] at hok
          rcases writeAt_isOpen client hyopen sc offset data
            (x.run client fh calls).mount.world with h | ⟨_, h⟩
          · simp [h, hyopen]
          · rw [h] at hok
            simp at hok
      | upload sc =>
          rw [Session.buffers_upload hy] at hb'
          obtain rfl := Option.some.inj hb'
          cases hyopen : y.isOpen with
          | false => simp [upload_of_closed hyopen]
          | true => simp [upload_isOpen client hyopen, hy]

/-- A handle whose calls all succeeded is not half-closed. -/
theorem neverHalfClosed_of_clean (hb₀ : x.mount.buffers fh = some b) (hopen : b.isOpen = true)
    {calls : List Call} (hclean : (x.run client fh calls).clean = true) :
    ∀ b', (x.run client fh calls).mount.buffers fh = some b' → b'.halfClosed = false := by
  intro b' hb'
  by_contra hhalf
  rw [Bool.not_eq_false] at hhalf
  obtain ⟨before, sc, after, rfl, y, hy, _, herr⟩ := halfClosed_origin hb₀ hopen hb' hhalf
  have hok : (x.run client fh (before ++ [.upload sc])).clean = true := by
    apply Session.clean_of_append _ after
    simpa using hclean
  have hok := (Session.clean_of_concat hok).2
  rw [Session.call_upload hy] at hok
  rw [Session.upload_eq hy] at herr
  cases hr : (y.upload client sc (x.run client fh before).mount.world).1 with
  | ok _ => exact herr hr
  | error e =>
      rw [hr] at hok
      simp [Except.isOk, Except.toBool] at hok

/-- Calls that all succeeded had all their writes accepted. -/
theorem accepted_of_clean {calls : List Call} (hx : x.accepted = [])
    (hclean : (x.run client fh calls).clean = true) :
    (x.run client fh calls).accepted = writesOf calls := by
  induction calls using List.reverseRecOn with
  | nil => exact hx
  | append_singleton calls c ih =>
      obtain ⟨hbefore, hok⟩ := Session.clean_of_concat hclean
      rw [Session.run_concat]
      cases c with
      | write sc offset data =>
          simp only [Session.call] at hok ⊢
          simp [hok, ih hbefore, writesOf]
      | upload sc => simp [Session.call, ih hbefore, writesOf]

/-- **After a release that followed nothing but success, everything written is
stored.** -/
theorem release_stored (hclient : client.Stores file) (m : Mount S F) (fh : ℕ) (path : NasPath)
    (newFile writable : Bool) {calls : List Call} {sc : DiskScript}
    (hclean : (Session.run client fh (.opened client m fh path newFile writable) calls).clean =
      true)
    (hok : ((Session.run client fh (.opened client m fh path newFile writable) calls).mount.release
      client fh sc).1 = .ok ()) :
    Stored file path (writesOf calls)
      ((Session.run client fh (.opened client m fh path newFile writable) calls).mount.release
        client fh sc).2.world := by
  obtain ⟨b₀, hb₀, hopen⟩ := Session.opened_isOpen client m fh path newFile writable
  have hnever : NeverHalfClosed client fh (.opened client m fh path newFile writable) calls := by
    rintro before sc after rfl
    exact neverHalfClosed_of_clean hb₀ hopen (Session.clean_of_append _ _ hclean)
  obtain ⟨b, hb, hpath, hkeeps⟩ :=
    (Session.opened_honest hclient m fh path newFile writable).run hclient hnever
  have hhalf := neverHalfClosed_of_clean hb₀ hopen hclean b hb
  rw [accepted_of_clean rfl hclean] at hkeeps
  obtain ⟨hkeeps, hstored⟩ := upload_keeps hclient hpath hkeeps hhalf sc
  simp only [Mount.release, Mount.upload, hb, Function.update_self] at hok ⊢
  change Stored file path _ ((b.upload client sc _).2.1.drop client _)
  rw [hkeeps.drop_of_quiet (upload_quiet hok)]
  exact hstored hok

/-- **A flush is transparent exactly as long as no write comes after one that
came upon a dirty stream.** The release keeps its half of the promise in any
case. -/
theorem flushTransparent_iff (hclient : client.Stores file) (m : Mount S F) (fh : ℕ)
    (path : NasPath) (newFile writable : Bool) (calls : List Call) (sc : DiskScript) :
    (FlushTransparent client fh (.opened client m fh path newFile writable) calls ∧
      ((Session.run client fh (.opened client m fh path newFile writable) calls).clean = true →
        ((Session.run client fh (.opened client m fh path newFile writable) calls).mount.release
          client fh sc).1 = .ok () →
        Stored file path (writesOf calls)
          ((Session.run client fh (.opened client m fh path newFile writable) calls).mount.release
            client fh sc).2.world)) ↔
      NoWriteAfterClosing client fh (.opened client m fh path newFile writable) calls := by
  obtain ⟨b₀, hb₀, hopen⟩ := Session.opened_isOpen client m fh path newFile writable
  constructor
  · rintro ⟨htransparent, _⟩ before sc' offset data after rfl hclean hcloses
    obtain ⟨b, hb⟩ := Session.buffers_run client hb₀ before
    have hopen' := htransparent before sc' offset data after rfl hclean b hb
    rw [(isOpen_eq_false_iff hb₀ hopen hclean hb).mpr hcloses] at hopen'
    simp at hopen'
  · intro hnone
    refine ⟨?_, fun hclean hok => release_stored hclient m fh path newFile writable hclean hok⟩
    rintro before sc' offset data after rfl hclean b hb
    rw [← Bool.not_eq_false, isOpen_eq_false_iff hb₀ hopen hclean hb]
    exact hnone before sc' offset data after rfl hclean

/-- A file just created, streamed, with nothing wrong on the NAS. -/
def justCreated : Session Nas NasWriter :=
  .opened (nasClient true) (nasMount [] []) 1 ["share", "new.bin"] true true

/-- Flushed before its first write, as a duplicated descriptor's close does: the
flush succeeds, and the write after it is refused. -/
theorem flush_closes_handle :
    (justCreated.run (nasClient true) 1 [.upload {}]).clean = true ∧
      ((justCreated.run (nasClient true) 1 [.upload {}]).mount.writeBufferAt (nasClient true) 1
        {} 0 [7]).1 = .error (.io "write to a closed handle") ∧
          ¬ FlushTransparent (nasClient true) 1 justCreated [.upload {}, .write {} 0 [7]] := by
  refine ⟨rfl, rfl, fun htransparent => ?_⟩
  have hopen := htransparent [.upload {}] {} 0 [7] [] rfl rfl _ rfl
  simp [WriteBuffer.isOpen] at hopen

theorem write_then_flush_transparent :
    FlushTransparent (nasClient true) 1 justCreated [.write {} 0 [7], .upload {}] := by
  refine ((flushTransparent_iff (nasClient_stores true) _ 1 _ true true _ {}).mpr ?_).1
  rintro before sc offset data after heq _ ⟨front, sc', back, rfl, _⟩
  have hlength := congrArg List.length heq
  simp only [List.length_append, List.length_cons, List.length_nil] at hlength
  have hfront : front = [] := List.eq_nil_of_length_eq_zero (by omega)
  subst hfront
  simp at heq

/-! ### Closing a handle on an existing file -/

theorem patching_of_clean (hclient : client.Stores file) {m : Mount S F} {content : Bytes}
    (hfile : file path m.world = some content) {writes : List (DiskScript × Write UInt8)}
    (hclean : (Session.run client fh (.opened client m fh path false true)
      (writing writes)).clean = true) :
    ∃ b, (Session.run client fh (.opened client m fh path false true)
        (writing writes)).mount.buffers fh = some b ∧
      Patching client file path content (openSink client path m.world).1.isStream b
        (writes.map Prod.snd)
        (Session.run client fh (.opened client m fh path false true)
          (writing writes)).mount.world := by
  induction writes using List.reverseRecOn with
  | nil => exact opened_patching hclient hfile
  | append_singleton writes w ih =>
      obtain ⟨sc, offset, data⟩ := w
      have hcalls : writing (writes ++ [(sc, offset, data)]) =
          writing writes ++ [.write sc offset data] := by simp [writing]
      rw [hcalls] at hclean ⊢
      obtain ⟨hbefore, hok⟩ := Session.clean_of_concat hclean
      obtain ⟨b, hb, hpatching⟩ := ih hbefore
      rw [Session.run_concat]
      refine ⟨_, Session.buffers_write hb .., ?_⟩
      rw [Session.call_write hb] at hok ⊢
      rw [List.map_append]
      exact hpatching.writeAt_ok hclient hok

/-- **What a clean close leaves of an existing file.** It is the old content
patched by the writes exactly when the handle streamed them, when there were
none, or when the old content shows in nothing: the buffer reaches to the end of
the patched file, and every byte it did not write was zero before. -/
theorem close_patches_iff (hclient : client.Stores file) {m : Mount S F} {fh : ℕ} {path : NasPath}
    {content : Bytes} (hfile : file path m.world = some content)
    {writes : List (DiskScript × Write UInt8)}
    (hwrites : (Session.run client fh (.opened client m fh path false true)
      (writing writes)).clean = true) {sc : DiskScript}
    (hclose : ((Session.run client fh (.opened client m fh path false true)
      (writing writes)).mount.upload client fh sc).1 = .ok ()) :
    file path ((Session.run client fh (.opened client m fh path false true)
        (writing writes)).mount.upload client fh sc).2.world =
          some (patchAll content (writes.map Prod.snd)) ↔
      (openSink client path m.world).1.isStream = true ∨ writes = [] ∨
        storedLength defaultSpillAt (writes.map Prod.snd) =
            max content.length (extent (writes.map Prod.snd)) ∧
          ∀ i, i < content.length → lastByte (writes.map Prod.snd) i = none →
            content[i]? = some 0 := by
  obtain ⟨b, hb, hpatching⟩ := patching_of_clean hclient hfile hwrites
  rw [Session.upload_eq hb] at hclose
  have hworld : ((Session.run client fh (.opened client m fh path false true)
      (writing writes)).mount.upload client fh sc).2.world =
        (b.upload client sc (Session.run client fh (.opened client m fh path false true)
          (writing writes)).mount.world).2.2 := by
    simp [Mount.upload, hb]
  rw [hworld]
  rcases hpatching.upload_ok hclient hclose with
    ⟨hsink, hpatched⟩ | ⟨hsink, held, hheld, hlen, hread⟩
  · rw [List.map_eq_nil_iff] at hsink
    rw [hpatched]
    exact iff_of_true rfl (hsink.imp_right Or.inl)
  · rw [List.map_eq_nil_iff] at hsink
    rw [hheld, Option.some.injEq, eq_patchAll_iff hread, hlen, ← or_assoc, or_iff_right hsink]

/-- An existing file of three bytes, opened for writing without truncation. -/
def overExisting (streams : Bool) : Session Nas NasWriter :=
  .opened (nasClient streams) (nasMount [(["share", "f"], [1, 2, 3])] []) 1 ["share", "f"]
    false true

/-- Streamed, one byte written at the start leaves the other two. -/
theorem streamed_close_patches :
    (((overExisting true).run (nasClient true) 1 (writing [({}, 0, [9])])).mount.upload
      (nasClient true) 1 {}).2.world.file ["share", "f"] = some (patchAll [1, 2, 3] [(0, [9])]) :=
  (close_patches_iff (nasClient_stores true) rfl rfl rfl).mpr (Or.inl rfl)

/-- Buffered, it leaves that byte alone. -/
theorem buffered_close_replaces :
    let x := (overExisting false).run (nasClient false) 1 (writing [({}, 0, [9])])
    x.clean = true ∧ (x.mount.upload (nasClient false) 1 {}).1 = .ok () ∧
      (x.mount.upload (nasClient false) 1 {}).2.world.file ["share", "f"] = some [9] ∧
        (x.mount.upload (nasClient false) 1 {}).2.world.file ["share", "f"] ≠
          some (patchAll [1, 2, 3] [(0, [9])]) := by
  refine ⟨rfl, rfl, rfl, ?_⟩
  rw [show Nas.file _ _ = some [9] from rfl]
  decide

end Runs

end SynologyFilestation.Fuse
