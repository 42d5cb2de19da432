import SynologyFilestation.Library.Patch
import Mathlib.Order.MinMax

/-!
The write buffer of a handle no backend can stream (`fuse/src/spill.rs`): the
bytes of a small file stay in memory, and those of a large one move to a temp
file. The local file system fails where a `DiskScript` says it does, so every
placement of failures is a script; the temp file's name is left out, since
nothing here depends on it.
-/

namespace SynologyFilestation.Fuse

open Library

abbrev Bytes := List UInt8

/-- What a call on the temp file did: everything, or the first `stored` bytes
of it before failing with `why`. -/
inductive FsOutcome
  | done
  | failed (stored : ℕ) (why : String)
  deriving DecidableEq, Repr

/-- How the local file system treats one call on a buffer. -/
structure DiskScript where
  /-- Opening the candidate name number `n`; `some why` is a failure. -/
  opens : ℕ → Option String := fun _ => none
  /-- Writing the old bytes into the fresh temp file. -/
  copies : Option String := none
  /-- Seeking in the temp file. -/
  seeks : Option String := none
  /-- Writing to, or resizing, the temp file. -/
  stores : FsOutcome := .done
  /-- Reading the temp file back, or flushing it. -/
  reads : Option String := none

/-- Where a buffer's bytes live. -/
inductive Store
  | memory (v : Bytes)
  | spilled (file : Bytes)
  deriving DecidableEq, Repr

structure SpillBuffer where
  store : Store
  len : ℕ
  spillAt : ℕ
  deriving DecidableEq, Repr

/-- `DEFAULT_SPILL_AT`. -/
def defaultSpillAt : ℕ := 8 * 1024 * 1024

/-- `SPILL_NAME_ATTEMPTS`. -/
def spillNameAttempts : ℕ := 8

def SpillBuffer.withSpillAt (spillAt : ℕ) : SpillBuffer :=
  { store := .memory [], len := 0, spillAt := spillAt }

def SpillBuffer.new : SpillBuffer := .withSpillAt defaultSpillAt

/-- The open loop of `spill`: the first candidate name that opens, and the
error of the last one if none does. -/
def openSpill (opens : ℕ → Option String) : ℕ → ℕ → String → Except String Unit
  | 0, _, lastErr => .error lastErr
  | left + 1, attempt, _ =>
      match opens attempt with
      | none => .ok ()
      | some why => openSpill opens left (attempt + 1) why

/-- `SpillBuffer::spill`: move the bytes out of memory. Every failure puts them
back. -/
def SpillBuffer.spill (b : SpillBuffer) (sc : DiskScript) : Except String Unit × SpillBuffer :=
  match b.store with
  | .spilled _ => (.ok (), b)
  | .memory existing =>
      match openSpill sc.opens spillNameAttempts 0 "no spill path available" with
      | .error why => (.error why, b)
      | .ok () =>
          match sc.copies with
          | some why => (.error why, b)
          | none => (.ok (), { b with store := .spilled existing })

/-- The spill both calls start with, once the buffer would outgrow memory. -/
def SpillBuffer.spillPast (b : SpillBuffer) (sc : DiskScript) (size : ℕ) :
    Except String Unit × SpillBuffer :=
  match b.store with
  | .memory _ => if b.spillAt < size then b.spill sc else (.ok (), b)
  | .spilled _ => (.ok (), b)

/-- What `write_all` leaves in the temp file. -/
def FsOutcome.write (out : FsOutcome) (file : Bytes) (offset : ℕ) (data : Bytes) :
    Except String Unit × Bytes :=
  match out with
  | .done => (.ok (), patch file offset data)
  | .failed stored why => (.error why, patch file offset (data.take stored))

/-- What resizing the temp file leaves of it: growing it may stop half way. -/
def FsOutcome.resizeFile (out : FsOutcome) (file : Bytes) (newLen : ℕ) :
    Except String Unit × Bytes :=
  match out with
  | .done => (.ok (), resize file newLen)
  | .failed stored why =>
      (.error why, if file.length < newLen then resize file (min newLen (file.length + stored))
        else file)

/-- The second half of `write_at`: put the data where the bytes live. -/
def SpillBuffer.place (b : SpillBuffer) (sc : DiskScript) (offset : ℕ) (data : Bytes) :
    Except String Unit × SpillBuffer :=
  let stop := offset + data.length
  match b.store with
  | .memory v =>
      let v := if v.length < stop then resize v stop else v
      (.ok (), { b with
        store := .memory (v.take offset ++ data ++ v.drop stop)
        len := max b.len stop })
  | .spilled file =>
      match sc.seeks with
      | some why => (.error why, b)
      | none =>
          match sc.stores.write file offset data with
          | (.error why, file) => (.error why, { b with store := .spilled file })
          | (.ok (), file) => (.ok (), { b with store := .spilled file, len := max b.len stop })

/-- `SpillBuffer::write_at`. The `u64` sum of an offset and a length panics or
wraps past the slice it indexes when it overflows, so such a write is never
accepted. -/
def SpillBuffer.writeAt (b : SpillBuffer) (sc : DiskScript) (offset : ℕ) (data : Bytes) :
    Except String Unit × SpillBuffer :=
  let stop := offset + data.length
  if 2 ^ 64 ≤ stop then (.error "attempt to add with overflow", b)
  else
    match b.spillPast sc stop with
    | (.error why, b) => (.error why, b)
    | (.ok (), b) => b.place sc offset data

/-- `SpillBuffer::set_len`. -/
def SpillBuffer.setLen (b : SpillBuffer) (sc : DiskScript) (newLen : ℕ) :
    Except String Unit × SpillBuffer :=
  match b.spillPast sc newLen with
  | (.error why, b) => (.error why, b)
  | (.ok (), b) =>
      match b.store with
      | .memory v => (.ok (), { b with store := .memory (resize v newLen), len := newLen })
      | .spilled file =>
          match sc.stores.resizeFile file newLen with
          | (.error why, file) => (.error why, { b with store := .spilled file })
          | (.ok (), file) => (.ok (), { b with store := .spilled file, len := newLen })

/-- `SpillBuffer::as_bytes`. -/
def SpillBuffer.asBytes (b : SpillBuffer) (sc : DiskScript) : Except String Bytes :=
  match b.store with
  | .memory v => .ok v
  | .spilled file =>
      match sc.reads with
      | some why => .error why
      | none => .ok file

/-- `Payload`: what a flush hands to the upload. A file is named by what it
holds, since the buffer is kept, and locked, until the upload has returned. -/
inductive Payload
  | memory (data : Bytes)
  | file (content : Bytes)
  deriving DecidableEq, Repr

def Payload.bytes : Payload → Bytes
  | .memory data => data
  | .file content => content

/-- `payload_for`. -/
def payloadFor (b : SpillBuffer) (sc : DiskScript) : Except String Payload :=
  match b.store with
  | .memory v => .ok (.memory v)
  | .spilled file =>
      match sc.reads with
      | some why => .error why
      | none => .ok (.file file)

/-! ### What a buffer holds -/

/-- The bytes of a buffer, wherever they live. -/
def SpillBuffer.bytes (b : SpillBuffer) : Bytes :=
  match b.store with
  | .memory v => v
  | .spilled file => file

@[simp] theorem SpillBuffer.bytes_new : SpillBuffer.new.bytes = [] := rfl

@[simp] theorem SpillBuffer.spillAt_new : SpillBuffer.new.spillAt = defaultSpillAt := rfl

theorem payloadFor_bytes {b : SpillBuffer} {sc : DiskScript} {p : Payload}
    (h : payloadFor b sc = .ok p) : p.bytes = b.bytes := by
  unfold payloadFor at h
  unfold SpillBuffer.bytes
  cases hstore : b.store with
  | memory v =>
      simp only [hstore, Except.ok.injEq] at h
      subst h
      rfl
  | spilled file =>
      simp only [hstore] at h
      split at h
      · simp at h
      · simp only [Except.ok.injEq] at h
        subst h
        rfl

/-- Whether the bytes have moved to disk. -/
def SpillBuffer.isSpilled (b : SpillBuffer) : Bool :=
  match b.store with
  | .memory _ => false
  | .spilled _ => true

/-- A spill that succeeds moves the bytes and nothing else; one that fails
moves nothing. -/
theorem SpillBuffer.spill_spec (b : SpillBuffer) (sc : DiskScript) :
    b.spill sc = (.ok (), { b with store := .spilled b.bytes }) ∨
      ∃ why, b.spill sc = (.error why, b) := by
  obtain ⟨store, len, spillAt⟩ := b
  cases store with
  | spilled file => exact Or.inl rfl
  | memory v =>
      simp only [SpillBuffer.spill]
      cases openSpill sc.opens spillNameAttempts 0 "no spill path available" with
      | error why => exact Or.inr ⟨why, rfl⟩
      | ok _ =>
          cases sc.copies with
          | some why => exact Or.inr ⟨why, rfl⟩
          | none => exact Or.inl rfl

/-- The spill a call starts with keeps the bytes, and leaves a buffer in
memory only when what is coming fits there. -/
theorem SpillBuffer.spillPast_spec (b : SpillBuffer) (sc : DiskScript) (size : ℕ) :
    b.spillPast sc size =
        (.ok (), if b.isSpilled || decide (b.spillAt < size) then
          { b with store := .spilled b.bytes } else b) ∨
      ∃ why, b.spillPast sc size = (.error why, b) := by
  obtain ⟨store, len, spillAt⟩ := b
  cases store with
  | spilled file => exact Or.inl (by simp [spillPast, isSpilled, bytes])
  | memory v =>
      by_cases hsize : spillAt < size
      · simpa [spillPast, isSpilled, hsize] using spill_spec ⟨.memory v, len, spillAt⟩ sc
      · exact Or.inl (by simp [spillPast, isSpilled, hsize])

/-- Where the bytes live and how many there are. -/
def SpillBuffer.shape (b : SpillBuffer) : Bool × ℕ := (b.isSpilled, b.bytes.length)

/-- What an accepted write does to the shape. In memory even a write of no data
stretches the bytes to its offset, which a file does not do. -/
def reach (spillAt : ℕ) (shape : Bool × ℕ) (w : Write UInt8) : Bool × ℕ :=
  let stop := w.1 + w.2.length
  if shape.1 || decide (spillAt < stop) then
    (true, if w.2.isEmpty then shape.2 else max shape.2 stop)
  else (false, max shape.2 stop)

/-- The length a new buffer's bytes reach under `ws`. -/
def storedLength (spillAt : ℕ) (ws : List (Write UInt8)) : ℕ :=
  (ws.foldl (reach spillAt) (false, 0)).2

theorem extent_le_reach (spillAt : ℕ) (ws : List (Write UInt8)) (shape : Bool × ℕ) :
    max shape.2 (extent ws) ≤ (ws.foldl (reach spillAt) shape).2 := by
  induction ws generalizing shape with
  | nil => simp [extent]
  | cons w ws ih =>
      obtain ⟨offset, data⟩ := w
      have hstep : max shape.2 (if data.isEmpty then 0 else offset + data.length) ≤
          (reach spillAt shape (offset, data)).2 := by
        by_cases hdisk : (shape.1 || decide (spillAt < offset + data.length)) = true <;>
          cases data <;> simp only [reach, hdisk] <;> simp
      calc max shape.2 (extent ((offset, data) :: ws))
          = max (max shape.2 (if data.isEmpty then 0 else offset + data.length)) (extent ws) := by
            rw [extent, max_assoc]
        _ ≤ max (reach spillAt shape (offset, data)).2 (extent ws) :=
            max_le_max hstep le_rfl
        _ ≤ (((offset, data) :: ws).foldl (reach spillAt) shape).2 := ih _

/-- Splicing a write into bytes already stretched to its end is a patch, up to
the reading past the end. -/
theorem getD_splice (v : Bytes) (offset : ℕ) (data : Bytes) (i : ℕ) :
    ((resize v (max v.length (offset + data.length))).take offset ++ data ++
        (resize v (max v.length (offset + data.length))).drop (offset + data.length)).getD i 0 =
      (patch v offset data).getD i 0 := by
  rw [getD_patch]
  set u := resize v (max v.length (offset + data.length)) with hu
  have hlen : u.length = max v.length (offset + data.length) := by simp [hu]
  have hread : ∀ j, u.getD j 0 = v.getD j 0 := by
    intro j
    rw [hu, getD_resize]
    split
    · rfl
    · rw [List.getD_eq_default _ _ (by omega)]
  rw [← hread i]
  simp only [List.getD_eq_getElem?_getD, List.getElem?_append, List.length_append,
    List.length_take, List.getElem?_take, List.getElem?_drop]
  by_cases hlow : i < offset
  · rw [if_pos (by omega), if_pos (by omega), if_pos hlow, if_neg (by omega)]
  · by_cases hhigh : i < offset + data.length
    · rw [if_pos (by omega), if_neg (by omega), if_pos (by omega)]
      congr 2
      omega
    · rw [if_neg (by omega), if_neg (by omega)]
      congr 2
      omega

/-- Placing data in memory. -/
theorem SpillBuffer.place_memory (v : Bytes) (len spillAt : ℕ) (sc : DiskScript) (offset : ℕ)
    (data : Bytes) :
    let placed := (place ⟨.memory v, len, spillAt⟩ sc offset data).2
    placed.spillAt = spillAt ∧ placed.shape = (false, max v.length (offset + data.length)) ∧
      ∀ i, placed.bytes.getD i 0 = (patch v offset data).getD i 0 := by
  have hresize : (if v.length < offset + data.length then resize v (offset + data.length) else v) =
      resize v (max v.length (offset + data.length)) := by
    split
    · rw [max_eq_right (by omega)]
    · rw [max_eq_left (by omega)]
      simp [resize]
  refine ⟨rfl, ?_, fun i => ?_⟩
  · simp only [place, shape, isSpilled, bytes, hresize, List.length_append, List.length_take,
      List.length_drop, length_resize]
    congr 1
    omega
  · simp only [place, bytes, hresize]
    exact getD_splice v offset data i

/-- Placing data in the temp file. -/
theorem SpillBuffer.place_spilled {file : Bytes} {len spillAt : ℕ} {sc : DiskScript} {offset : ℕ}
    {data : Bytes} (h : (place ⟨.spilled file, len, spillAt⟩ sc offset data).1 = .ok ()) :
    ∃ len', (place ⟨.spilled file, len, spillAt⟩ sc offset data).2 =
      ⟨.spilled (patch file offset data), len', spillAt⟩ := by
  simp only [place] at h ⊢
  cases hseek : sc.seeks with
  | some why => simp [hseek] at h
  | none =>
      cases hstore : sc.stores with
      | failed stored why => simp [hseek, hstore, FsOutcome.write] at h
      | done => exact ⟨_, rfl⟩

/-- **An accepted write patches the bytes.** They read as the patched array,
and their number is what `reach` says. -/
theorem SpillBuffer.writeAt_ok {b : SpillBuffer} {sc : DiskScript} {offset : ℕ} {data : Bytes}
    (h : (b.writeAt sc offset data).1 = .ok ()) :
    (b.writeAt sc offset data).2.spillAt = b.spillAt ∧
      (b.writeAt sc offset data).2.shape = reach b.spillAt b.shape (offset, data) ∧
        ∀ i, (b.writeAt sc offset data).2.bytes.getD i 0 =
          (patch b.bytes offset data).getD i 0 := by
  by_cases hfit : 2 ^ 64 ≤ offset + data.length
  · rw [writeAt, if_pos hfit] at h
    cases h
  have hrw : b.writeAt sc offset data =
      match b.spillPast sc (offset + data.length) with
      | (.error why, b) => (.error why, b)
      | (.ok (), b) => b.place sc offset data := by
    simp only [writeAt, if_neg hfit]
  rcases spillPast_spec b sc (offset + data.length) with hok | ⟨why, herr⟩
  · rw [hok] at hrw
    rw [hrw] at h ⊢
    by_cases hdisk : (b.isSpilled || decide (b.spillAt < offset + data.length)) = true
    · simp only [if_pos hdisk] at h ⊢
      obtain ⟨len', heq⟩ := place_spilled h
      rw [heq]
      refine ⟨rfl, ?_, fun i => rfl⟩
      have hreach : reach b.spillAt b.shape (offset, data) =
          (true, if data.isEmpty then b.bytes.length
            else max b.bytes.length (offset + data.length)) := if_pos hdisk
      change (true, (patch b.bytes offset data).length) = _
      rw [hreach, length_patch]
      simp
    · simp only [if_neg hdisk] at h ⊢
      obtain ⟨store, len, spillAt⟩ := b
      cases store with
      | spilled file => simp [isSpilled] at hdisk
      | memory v =>
          obtain ⟨hat, hshape, hread⟩ := place_memory v len spillAt sc offset data
          refine ⟨hat, ?_, hread⟩
          rw [hshape]
          exact (if_neg hdisk).symm
  · rw [hrw, herr] at h
    simp at h

end SynologyFilestation.Fuse
