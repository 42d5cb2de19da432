import SynologyFilestation.Fuse.CopyMove
import SynologyFilestation.Library.Segment

/-!
The contexts of one pending file (`from_pending` in `fuse/src/winfs.rs`), which share its buffer.

The lock of the buffer is held while bytes go in, while a flush takes its snapshot, and while the
buffer is taken. Uploads run without it, so that calls of other contexts come in between: each
window between two locks is a step here, and an upload is a step that may fail. A temp file is
uploaded as it is by then. All contexts know the file by the name it was created under.

An upload that succeeds stores the whole file, one that fails leaves what is stored.
-/

namespace SynologyFilestation.Fuse

open Core Library

/-- A buffer, with the file or the memory that is its own. `since` is no part of it: it counts the
writes that had been accepted when the buffer was begun. -/
structure HeldBuffer where
  id : ℕ
  since : ℕ
  spill : SpillBuffer

/-- What a buffer held of the accepted writes from `since` on when there were `upto`. -/
structure BufferCopy where
  since : ℕ
  upto : ℕ
  bytes : Bytes

def HeldBuffer.copy (held : HeldBuffer) (upto : ℕ) : BufferCopy :=
  ⟨held.since, upto, held.spill.bytes⟩

/-- What a flush goes on to upload: bytes, or the temp file of a buffer. -/
inductive FlushPayload
  | memory (copy : BufferCopy)
  | file (id : ℕ)

/-- A call that is between two of its locks. `begun` counts the writes that had been accepted when
it was made. -/
inductive SharedCall
  | flushing (payload : FlushPayload) (begun : ℕ)
  | flushed
  | closing (held : HeldBuffer) (begun : ℕ)
  | renaming (held : HeldBuffer) (target : NasPath) (begun : ℕ)

/-- The buffer that a close or a rename has taken. -/
def SharedCall.taken : SharedCall → Option (HeldBuffer × ℕ)
  | .closing held begun | .renaming held _ begun => some (held, begun)
  | _ => none

/-- What a call has in hand of the accepted writes. -/
def SharedCall.copy : SharedCall → Option BufferCopy
  | .flushing (.memory copy) _ => some copy
  | .closing held begun | .renaming held _ begun => some (held.copy begun)
  | _ => none

/-- A pending file: its open contexts, whether it is still registered, the buffer they share, the
calls that are under way and what the NAS stores.

The last four are no part of the front end: the name that renames have given the file, the writes
that were accepted, how many of them came before a call that has failed, and how many before what
is stored under the name was read out of the buffer. -/
structure SharedFile where
  contexts : ℕ
  pending : Bool
  buffer : Option HeldBuffer
  made : ℕ
  calls : ℕ → Option SharedCall
  stored : NasPath → Option Bytes
  name : NasPath
  log : List (Write UInt8)
  reported : ℕ
  saved : ℕ

/-- What the contexts and the NAS do. Calls are numbered. -/
inductive SharedEvent
  | opened
  | wrote (sc : DiskScript) (offset : ℕ) (data : Bytes)
  | flushBegun (call : ℕ) (sc : DiskScript)
  /-- The upload succeeds. A temp file is the shared buffer's, or that of a call. -/
  | flushSent (call : ℕ) (holder : Option ℕ)
  | flushFailed (call : ℕ)
  | flushTook (call : ℕ)
  | closeBegun (call : ℕ) (sc : DiskScript)
  | closeSent (call : ℕ)
  | closeFailed (call : ℕ)
  | renameBegun (call : ℕ) (sc : DiskScript) (target : NasPath)
  | renameSent (call : ℕ)
  | renameFailed (call : ℕ)
  /-- Nothing is buffered, and the NAS moves the file. -/
  | renamedStored (target : NasPath)
  | renameRefused

namespace SharedFile

/-- `create`. -/
def created (path : NasPath) (stored : NasPath → Option Bytes) : SharedFile :=
  { contexts := 1
    pending := true
    buffer := some ⟨0, 0, .new⟩
    made := 1
    calls := fun _ => none
    stored := stored
    name := path
    log := []
    reported := 0
    saved := 0 }

def putCall (s : SharedFile) (k : ℕ) (call : Option SharedCall) : SharedFile :=
  { s with calls := Function.update s.calls k call }

/-- A call that was made when there were `begun` writes fails. -/
def report (s : SharedFile) (begun : ℕ) : SharedFile := { s with reported := max s.reported begun }

def store (s : SharedFile) (target : NasPath) (copy : BufferCopy) : SharedFile :=
  { s with
    stored := Function.update s.stored target (some copy.bytes)
    saved := if target = s.name then copy.upto else s.saved }

/-- Where a rename goes: within the directory the directory is spelled as it was. -/
def renameTarget (path target : NasPath) : NasPath :=
  let (fromParent, _) := splitPath path
  let (toParent, toName) := splitPath target
  (if eqIgnoreAsciiCase fromParent toParent then fromParent else toParent) ++ [toName]

/-- What the upload of a flush reads. A temp file is gone when its buffer is dropped. -/
def payloadCopy (s : SharedFile) (holder : Option ℕ) : FlushPayload → Option BufferCopy
  | .memory copy => some copy
  | .file id =>
      match holder with
      | none => (s.buffer.filter (·.id = id)).map (·.copy s.log.length)
      | some k =>
          (((s.calls k).bind SharedCall.taken).filter (·.1.id = id)).map fun t => t.1.copy t.2

/-- The buffer that a write goes to: `get_or_insert_with`. -/
def sink (s : SharedFile) : HeldBuffer := s.buffer.getD ⟨s.made, s.log.length, .new⟩

/-- The buffer with what a write has made of it. -/
def putSink (s : SharedFile) (spill : SpillBuffer) : SharedFile :=
  { s with
    buffer := some { s.sink with spill := spill }
    made := if s.buffer.isSome then s.made else s.made + 1 }

/-- A context goes, or a call begins, and the buffer goes with it. -/
def take (s : SharedFile) : SharedFile := { s with buffer := none }

/-- The next state. An event that cannot be changes nothing. -/
def after (path : NasPath) (s : SharedFile) : SharedEvent → SharedFile
  | .opened => if s.pending then { s with contexts := s.contexts + 1 } else s
  | .wrote sc offset data =>
      if s.contexts = 0 then s
      else
        match s.sink.spill.writeAt sc offset data with
        | (.ok (), spill) => { s.putSink spill with log := s.log ++ [(offset, data)] }
        | (.error _, spill) => (s.putSink spill).report s.log.length
  | .flushBegun k sc =>
      if s.contexts = 0 ∨ (s.calls k).isSome then s
      else
        match s.buffer with
        | none => s
        | some held =>
            match payloadFor held.spill sc with
            | .error _ => s.report s.log.length
            | .ok (.memory _) =>
                s.putCall k (some (.flushing (.memory (held.copy s.log.length)) s.log.length))
            | .ok (.file _) => s.putCall k (some (.flushing (.file held.id) s.log.length))
  | .flushSent k holder =>
      match s.calls k with
      | some (.flushing payload _) =>
          match s.payloadCopy holder payload with
          | some copy => (s.store path copy).putCall k (some .flushed)
          | none => s
      | _ => s
  | .flushFailed k =>
      match s.calls k with
      | some (.flushing _ begun) => (s.putCall k none).report begun
      | _ => s
  | .flushTook k =>
      match s.calls k with
      | some .flushed => (s.putCall k none).take
      | _ => s
  | .closeBegun k sc =>
      if s.contexts = 0 ∨ (s.calls k).isSome then s
      else
        let s := { s with contexts := s.contexts - 1 }
        match s.buffer with
        | none => { s with pending := false }
        | some held =>
            match payloadFor held.spill sc with
            -- What cannot be read is logged, and dropped.
            | .error _ => { s.take with pending := false }
            | .ok _ => (s.putCall k (some (.closing held s.log.length))).take
  | .closeSent k =>
      match s.calls k with
      | some (.closing held begun) =>
          { (s.store path (held.copy begun)).putCall k none with pending := false }
      | _ => s
  -- The error is logged, and the buffer dropped.
  | .closeFailed k =>
      match s.calls k with
      | some (.closing _ _) => { s.putCall k none with pending := false }
      | _ => s
  | .renameBegun k sc target =>
      if s.contexts = 0 ∨ (s.calls k).isSome then s
      else
        match s.buffer with
        | none => s
        | some held =>
            match payloadFor held.spill sc with
            | .error _ => s.take.report s.log.length
            | .ok _ =>
                (s.putCall k (some (.renaming held (renameTarget path target) s.log.length))).take
  | .renameSent k =>
      match s.calls k with
      | some (.renaming held target begun) =>
          { ({ s with name := target } : SharedFile).store target (held.copy begun) with
            calls := Function.update s.calls k none
            pending := false }
      | _ => s
  | .renameFailed k =>
      match s.calls k with
      | some (.renaming _ _ begun) => (s.putCall k none).report begun
      | _ => s
  | .renamedStored target =>
      if s.contexts = 0 ∨ s.buffer.isSome ∨ (s.stored path).isNone then s
      else
        let target := renameTarget path target
        { s with
          stored := Function.update (Function.update s.stored path none) target (s.stored path)
          name := target }
  | .renameRefused =>
      if s.contexts = 0 ∨ s.buffer.isSome then s else s.report s.log.length

/-! ### What is asked of a run -/

/-- What was unreported when the copy was read is in it: the writes from where its buffer was begun
set all of it again. -/
def Rewritten (s : SharedFile) (copy : BufferCopy) : Prop :=
  ∀ i, (lastByte (segment s.log s.reported copy.upto) i).isSome →
    (lastByte (segment s.log (max copy.since s.reported) copy.upto) i).isSome

/-- The copy may take the place of what is stored: it is no older, and has everything. -/
def Supersedes (s : SharedFile) (copy : BufferCopy) : Prop :=
  s.saved ≤ copy.upto ∧ s.Rewritten copy

/-- All that had been accepted when there were `begun` writes is stored under the name, or reported
lost. -/
def Settled (s : SharedFile) (begun : ℕ) : Prop := begun ≤ max s.saved s.reported

/-- Nothing unsettled is dropped, and nothing stored is replaced by less. -/
def Met (path : NasPath) (s : SharedFile) : SharedEvent → Prop
  | .flushSent k holder => s.name = path → ∀ payload begun copy,
      s.calls k = some (.flushing payload begun) → s.payloadCopy holder payload = some copy →
        s.Supersedes copy
  | .flushTook k => s.calls k = some .flushed → s.buffer.isSome → s.Settled s.log.length
  | .closeBegun _ sc | .renameBegun _ sc _ => ∀ held why, s.buffer = some held →
      payloadFor held.spill sc = .error why → s.Settled s.log.length
  | .closeSent k => ∀ held begun, s.calls k = some (.closing held begun) →
      if path = s.name then s.Supersedes (held.copy begun) else s.Settled begun
  | .closeFailed k => ∀ held begun, s.calls k = some (.closing held begun) → s.Settled begun
  | .renameSent k => ∀ held target begun, s.calls k = some (.renaming held target begun) →
      s.Supersedes (held.copy begun)
  | .renameFailed k => ∀ held target begun, s.calls k = some (.renaming held target begun) →
      s.Settled begun
  | .renamedStored _ => s.name = path
  | _ => True

/-- The byte that the accepted writes from the `from`-th on leave at a position is stored under the
name, or in the buffer, or in one that a call has taken to upload it. -/
def Kept (s : SharedFile) (start : ℕ) : Prop :=
  ∀ i b, lastByte (s.log.drop start) i = some b →
    ((s.stored s.name).getD [])[i]? = some b ∨
      (∃ held, s.buffer = some held ∧ held.spill.bytes[i]? = some b) ∨
        ∃ k call held begun, s.calls k = some call ∧ call.taken = some (held, begun) ∧
          held.spill.bytes[i]? = some b

end SharedFile

/-- The steps at which a flush or a rename can fail. -/
def SharedEvent.canFail : SharedEvent → Bool
  | .flushBegun .. | .flushFailed _ | .renameBegun .. | .renameFailed _ | .renameRefused => true
  | _ => false

/-- All contexts are closed, and nothing is under way. -/
structure SharedFile.Closed (s : SharedFile) : Prop where
  contexts : s.contexts = 0
  calls : ∀ k, s.calls k = none

/-- When the last context has closed, the bytes accepted since the last failure are stored under
the file's name, and a flush or a rename that fails leaves what was unreported where a later call
finds it. -/
structure SharedFile.LossFree (path : NasPath) (s : SharedFile) (e : SharedEvent) : Prop where
  closed : (s.after path e).Closed →
    Holds (((s.after path e).stored (s.after path e).name).getD [])
      ((s.after path e).log.drop (s.after path e).reported)
  failed : e.canFail = true → (s.after path e).Kept s.reported

/-! ### What is the case between two steps -/

namespace SharedFile

/-- A write that is neither stored nor reported is in the buffer, or in one that was taken. -/
def Carried (s : SharedFile) (j : ℕ) : Prop :=
  (∃ held, s.buffer = some held ∧ held.since ≤ j) ∨
    ∃ k call held begun, s.calls k = some call ∧ call.taken = some (held, begun) ∧
      held.since ≤ j ∧ j < begun

/-- The bytes are those that the accepted writes from `since` to `upto` leave, but for what was
reported. -/
structure Reads (log : List (Write UInt8)) (reported : ℕ) (copy : BufferCopy) : Prop where
  upto : copy.upto ≤ log.length
  holds : Holds copy.bytes (segment log (max copy.since reported) copy.upto)

structure Sound (s : SharedFile) : Prop where
  saved : s.saved ≤ s.log.length
  stored : Holds ((s.stored s.name).getD []) (segment s.log s.reported s.saved)
  buffer : ∀ held, s.buffer = some held →
    held.since ≤ s.log.length ∧ Reads s.log s.reported (held.copy s.log.length)
  copies : ∀ k call copy, s.calls k = some call → call.copy = some copy →
    Reads s.log s.reported copy
  carried : ∀ j, j < s.log.length → s.saved ≤ j → s.reported ≤ j → s.Carried j
  idle : s.contexts = 0 → s.buffer = none

variable {path target : NasPath} {s : SharedFile} {k : ℕ} {call : SharedCall} {held : HeldBuffer}
  {begun : ℕ} {copy : BufferCopy}

theorem SharedCall_copy_of_taken (h : call.taken = some (held, begun)) :
    call.copy = some (held.copy begun) := by
  unfold SharedCall.taken at h
  split at h
  case h_1 =>
    obtain ⟨rfl, rfl⟩ := Prod.mk.inj (Option.some.inj h)
    rfl
  case h_2 =>
    obtain ⟨rfl, rfl⟩ := Prod.mk.inj (Option.some.inj h)
    rfl
  case h_3 => cases h

theorem Reads.report {log : List (Write UInt8)} {reported reported' : ℕ}
    (h : Reads log reported copy) (hle : reported ≤ reported') : Reads log reported' copy where
  upto := h.upto
  holds := h.holds.later (max_le_max_left _ hle)

theorem calls_putCall (s : SharedFile) (k : ℕ) (next : Option SharedCall) (k' : ℕ) :
    (s.putCall k next).calls k' = if k' = k then next else s.calls k' :=
  Function.update_apply ..

/-- A write that is neither stored nor reported comes after all that is settled. -/
theorem Settled.le {j : ℕ} (h : s.Settled begun) (hsaved : s.saved ≤ j) (hr : s.reported ≤ j) :
    begun ≤ j :=
  h.trans (max_le hsaved hr)

theorem settled_of_free (hfree : s.calls k = none) :
    ∀ call held begun, s.calls k = some call → call.taken = some (held, begun) →
      s.Settled begun := by
  intro call _ _ hcall
  rw [hfree] at hcall
  cases hcall

theorem settled_of_call (hcall : s.calls k = some call)
    (hsettled : ∀ held begun, call.taken = some (held, begun) → s.Settled begun) :
    ∀ call held begun, s.calls k = some call → call.taken = some (held, begun) →
      s.Settled begun := by
  intro call' held begun hcall' htaken
  obtain rfl := Option.some.inj (hcall.symm.trans hcall')
  exact hsettled held begun htaken

/-- Every byte that is not reported is somewhere. -/
theorem Sound.kept (h : s.Sound) : s.Kept s.reported := by
  intro i b hb
  obtain ⟨j, hr, hj, hdecides⟩ := exists_decisive hb
  by_cases hsaved : j < s.saved
  · exact Or.inl (h.stored i b (hdecides _ _ hr hsaved))
  · rcases h.carried j hj (not_lt.mp hsaved) hr with ⟨held, hheld, hsince⟩ |
      ⟨k, call, held, begun, hcall, htaken, hsince, hbegun⟩
    · exact Or.inr (Or.inl ⟨held, hheld, (h.buffer held hheld).2.holds i b
        (hdecides _ _ (max_le hsince hr) hj)⟩)
    · have hreads := h.copies k call _ hcall (SharedCall_copy_of_taken htaken)
      exact Or.inr (Or.inr ⟨k, call, held, begun, hcall, htaken,
        hreads.holds i b (hdecides _ _ (max_le hsince hr) hbegun)⟩)

/-- When nothing is under way any more, what is not reported is stored. -/
theorem Sound.closed (h : s.Sound) (hclosed : s.Closed) :
    Holds ((s.stored s.name).getD []) (s.log.drop s.reported) := by
  intro i b hb
  rcases h.kept i b hb with hstored | ⟨held, hheld, _⟩ | ⟨k, call, _, _, hcall, _⟩
  · exact hstored
  · rw [h.idle hclosed.contexts] at hheld
    cases hheld
  · rw [hclosed.calls k] at hcall
    cases hcall

/-- A call that fails reports what came before it. -/
theorem Sound.report (h : s.Sound) (r : ℕ) : (s.report r).Sound where
  saved := h.saved
  stored := h.stored.later (le_max_left _ _)
  buffer held hheld := ⟨(h.buffer held hheld).1, (h.buffer held hheld).2.report (le_max_left _ _)⟩
  copies k call copy hcall hcopy := (h.copies k call copy hcall hcopy).report (le_max_left _ _)
  carried j hj hsaved hr := h.carried j hj hsaved ((le_max_left _ _).trans hr)
  idle := h.idle

/-- A call goes on, or ends, if what it had taken is settled. -/
theorem Sound.putCall {next : Option SharedCall} (h : s.Sound)
    (hnext : ∀ call copy, next = some call → call.copy = some copy → Reads s.log s.reported copy)
    (hold : ∀ call held begun, s.calls k = some call → call.taken = some (held, begun) →
      s.Settled begun) : (s.putCall k next).Sound where
  saved := h.saved
  stored := h.stored
  buffer := h.buffer
  copies k' call copy hcall hcopy := by
    rw [calls_putCall] at hcall
    split at hcall
    case isTrue => exact hnext call copy hcall hcopy
    case isFalse => exact h.copies k' call copy hcall hcopy
  carried j hj hsaved hr := by
    rcases h.carried j hj hsaved hr with hbuffer | ⟨k', call, held, begun, hcall, htaken, hin⟩
    · exact Or.inl hbuffer
    · -- Had this call held the write, the write would be settled.
      have hk : k' ≠ k := by
        rintro rfl
        have hsettled := hold call held begun hcall htaken
        exact absurd (hsettled.le hsaved hr) (Nat.not_le.mpr hin.2)
      refine Or.inr ⟨k', call, held, begun, ?_, htaken, hin⟩
      rw [calls_putCall, if_neg hk]
      exact hcall
  idle := h.idle

/-- The buffer is dropped when all of it is settled. -/
theorem Sound.take (h : s.Sound) (hsettled : s.buffer.isSome → s.Settled s.log.length) :
    s.take.Sound where
  saved := h.saved
  stored := h.stored
  buffer held hheld := by cases hheld
  copies := h.copies
  carried j hj hsaved hr := by
    rcases h.carried j hj hsaved hr with ⟨held, hheld, _⟩ | hcall
    · have hall := hsettled (by rw [hheld]; rfl)
      exact absurd (hall.le hsaved hr) (Nat.not_le.mpr hj)
    · exact Or.inr hcall
  idle _ := rfl

/-- A call takes the buffer. -/
theorem Sound.takeInto (h : s.Sound) (hheld : s.buffer = some held) (hfree : s.calls k = none)
    (htaken : call.taken = some (held, s.log.length)) :
    (s.putCall k (some call)).take.Sound where
  saved := h.saved
  stored := h.stored
  buffer held hheld := by cases hheld
  copies := by
    refine (@Sound.putCall _ k (some call) h (fun call' copy heq hcopy => ?_) ?_).copies
    · obtain rfl := Option.some.inj heq
      rw [SharedCall_copy_of_taken htaken] at hcopy
      rw [← Option.some.inj hcopy]
      exact (h.buffer held hheld).2
    · exact settled_of_free hfree
  carried j hj hsaved hr := by
    refine Or.inr ?_
    rcases h.carried j hj hsaved hr with ⟨held', hheld', hsince⟩ |
      ⟨k', call', held', begun, hcall, htaken', hin⟩
    · obtain rfl := Option.some.inj (hheld.symm.trans hheld')
      exact ⟨k, call, held, s.log.length, Function.update_self .., htaken, hsince, hj⟩
    · have hk : k' ≠ k := by
        rintro rfl
        rw [hfree] at hcall
        cases hcall
      exact ⟨k', call', held', begun, (Function.update_of_ne hk ..).trans hcall, htaken', hin⟩
  idle _ := rfl

/-- A copy that supersedes what is stored is stored under the name. -/
theorem Sound.stores {stored : NasPath → Option Bytes} {name : NasPath} (h : s.Sound)
    (hreads : Reads s.log s.reported copy) (hsupersedes : s.Supersedes copy)
    (hstored : stored name = some copy.bytes) :
    Sound { s with stored := stored, name := name, saved := copy.upto } where
  saved := hreads.upto
  stored i b hb := by
    rw [show (({ s with stored := stored, name := name, saved := copy.upto } : SharedFile).stored
      name) = some copy.bytes from hstored, Option.getD_some]
    obtain ⟨b', hb'⟩ := Option.isSome_iff_exists.mp
      (hsupersedes.2 i (Option.isSome_iff_exists.mpr ⟨b, hb⟩))
    have hsame := lastByte_later (le_max_right _ _) hb'
    have hb : lastByte (segment s.log s.reported copy.upto) i = some b := hb
    rw [hb] at hsame
    rw [Option.some.inj hsame]
    exact hreads.holds i b' hb'
  buffer held hheld := h.buffer held hheld
  copies k call copy hcall hcopy := h.copies k call copy hcall hcopy
  carried j hj hsaved hr := h.carried j hj (hsupersedes.1.trans hsaved) hr
  idle := h.idle

/-- What is stored elsewhere does not matter. -/
theorem Sound.elsewhere {stored : NasPath → Option Bytes} {name : NasPath} (h : s.Sound)
    (hstored : stored name = s.stored s.name) :
    Sound { s with stored := stored, name := name } where
  saved := h.saved
  stored := by
    have hsame : ({ s with stored := stored, name := name } : SharedFile).stored name =
        s.stored s.name := hstored
    dsimp only
    rw [hstored]
    exact h.stored
  buffer held hheld := h.buffer held hheld
  copies k call copy hcall hcopy := h.copies k call copy hcall hcopy
  carried := h.carried
  idle := h.idle

/-- Contexts come, and go when the buffer has. -/
theorem Sound.contexts (h : s.Sound) {n : ℕ} (pending : Bool) (hidle : n = 0 → s.buffer = none) :
    Sound { s with contexts := n, pending := pending } where
  saved := h.saved
  stored := h.stored
  buffer held hheld := h.buffer held hheld
  copies k call copy hcall hcopy := h.copies k call copy hcall hcopy
  carried := h.carried
  idle := hidle

/-- What a write goes to holds what it should: nothing, if it is begun for that. -/
theorem Sound.sink (h : s.Sound) : s.sink.since ≤ s.log.length ∧
    Holds s.sink.spill.bytes (segment s.log (max s.sink.since s.reported) s.log.length) := by
  cases hbuffer : s.buffer with
  | some held =>
      rw [SharedFile.sink, hbuffer, Option.getD_some]
      exact ⟨(h.buffer held hbuffer).1, (h.buffer held hbuffer).2.holds⟩
  | none =>
      rw [SharedFile.sink, hbuffer, Option.getD_none, segment_of_le (le_max_left _ _)]
      exact ⟨le_rfl, holds_nil _⟩

/-- An accepted write is in the buffer. -/
theorem writeAt_holds {b : SpillBuffer} {sc : DiskScript} {offset : ℕ} {data : Bytes}
    {ws : List (Write UInt8)} (h : Holds b.bytes ws)
    (hok : (b.writeAt sc offset data).1 = .ok ()) :
    Holds (b.writeAt sc offset data).2.bytes (ws ++ [(offset, data)]) := by
  obtain ⟨_, hshape, hread⟩ := SpillBuffer.writeAt_ok hok
  refine h.concat ?_ hread
  have hlength : (b.writeAt sc offset data).2.bytes.length =
      (reach b.spillAt b.shape (offset, data)).2 := congrArg Prod.snd hshape
  rw [hlength, length_patch, reach, SpillBuffer.shape]
  by_cases hdata : data = []
  · rw [if_pos hdata]
    split
    · simp [hdata]
    · exact le_max_left _ _
  · rw [if_neg hdata]
    split
    · simp [hdata]
    · exact le_rfl

/-- An accepted write. -/
theorem Sound.wrote (h : s.Sound) (hopen : s.contexts ≠ 0) {sc : DiskScript} {offset : ℕ}
    {data : Bytes} {spill : SpillBuffer}
    (hok : s.sink.spill.writeAt sc offset data = (.ok (), spill)) :
    Sound { s.putSink spill with log := s.log ++ [(offset, data)] } where
  saved := by
    change s.saved ≤ (s.log ++ [(offset, data)]).length
    rw [List.length_append]
    exact h.saved.trans (Nat.le_add_right _ _)
  stored := by
    change Holds _ (segment (s.log ++ [(offset, data)]) s.reported s.saved)
    rw [segment_concat_of_le h.saved]
    exact h.stored
  buffer held hheld := by
    obtain rfl := Option.some.inj hheld
    obtain ⟨hsince, hholds⟩ := h.sink
    have hlength : (s.log ++ [(offset, data)]).length = s.log.length + 1 := by simp
    have hwritten := writeAt_holds hholds (by rw [hok])
    rw [hok] at hwritten
    refine ⟨by rw [hlength]; exact hsince.trans (Nat.le_succ _), by rw [hlength]; exact le_rfl, ?_⟩
    change Holds spill.bytes (segment (s.log ++ [(offset, data)]) (max s.sink.since s.reported)
      (s.log ++ [(offset, data)]).length)
    rw [hlength]
    rcases Nat.lt_or_ge s.log.length (max s.sink.since s.reported) with hlate | hin
    · rw [segment_of_le hlate]
      exact holds_nil _
    · rw [segment_concat hin]
      exact hwritten
  copies k call copy hcall hcopy := by
    obtain ⟨hupto, hholds⟩ := h.copies k call copy hcall hcopy
    refine ⟨?_, ?_⟩
    · rw [List.length_append]
      exact hupto.trans (Nat.le_add_right _ _)
    · rw [segment_concat_of_le hupto]
      exact hholds
  carried j hj hsaved hr := by
    have hj' : j < s.log.length + 1 := by
      rw [List.length_append] at hj
      exact hj
    -- An older write is where it was, unless that was the buffer, which has grown.
    rcases Nat.lt_succ_iff_lt_or_eq.mp hj' with hold | rfl
    · rcases h.carried j hold hsaved hr with ⟨held, hheld, hsince⟩ | hcall
      · refine Or.inl ⟨_, rfl, ?_⟩
        rw [SharedFile.sink, hheld]
        exact hsince
      · exact Or.inr hcall
    · exact Or.inl ⟨_, rfl, h.sink.1⟩
  idle hcontexts := (hopen hcontexts).elim

/-- A write that fails, whatever it makes of the buffer. -/
theorem Sound.writeFailed (h : s.Sound) (hopen : s.contexts ≠ 0) (spill : SpillBuffer) :
    ((s.putSink spill).report s.log.length).Sound where
  saved := h.saved
  stored := by
    -- Everything accepted so far is reported from now on.
    change Holds _ (segment s.log (max s.reported s.log.length) s.saved)
    rw [segment_of_le (h.saved.trans (le_max_right _ _))]
    exact holds_nil _
  buffer held hheld := by
    obtain rfl := Option.some.inj hheld
    refine ⟨h.sink.1, le_rfl, ?_⟩
    change Holds spill.bytes (segment s.log (max s.sink.since (max s.reported s.log.length))
      s.log.length)
    rw [segment_of_le ((le_max_right _ _).trans (le_max_right _ _))]
    exact holds_nil _
  copies k call copy hcall hcopy :=
    (h.copies k call copy hcall hcopy).report (le_max_left _ _)
  carried j hj _ hr := by
    have hj' : j < s.log.length := hj
    have hr' : max s.reported s.log.length ≤ j := hr
    omega
  idle hcontexts := (hopen hcontexts).elim

theorem Sound.payloadCopy (h : s.Sound) {payload : FlushPayload} {holder : Option ℕ}
    (hcall : s.calls k = some (.flushing payload begun))
    (hcopy : s.payloadCopy holder payload = some copy) : Reads s.log s.reported copy := by
  cases payload with
  | memory copy' =>
      obtain rfl := Option.some.inj hcopy
      exact h.copies k _ _ hcall rfl
  | file id =>
      cases holder with
      | none =>
          obtain ⟨held, hheld, rfl⟩ := Option.map_eq_some_iff.mp hcopy
          exact (h.buffer held (Option.filter_eq_some_iff.mp hheld).1).2
      | some k' =>
          obtain ⟨⟨held, begun'⟩, hheld, rfl⟩ := Option.map_eq_some_iff.mp hcopy
          obtain ⟨call, hcall', htaken⟩ :=
            Option.bind_eq_some_iff.mp (Option.filter_eq_some_iff.mp hheld).1
          exact h.copies k' call _ hcall' (SharedCall_copy_of_taken htaken)

theorem Sound.created (path : NasPath) (stored : NasPath → Option Bytes) :
    (created path stored).Sound where
  saved := le_rfl
  stored := holds_nil _
  buffer held hheld := by
    obtain rfl := Option.some.inj hheld
    exact ⟨le_rfl, le_rfl, holds_nil _⟩
  copies _ _ _ hcall := by cases hcall
  carried j hj := by cases hj
  idle hcontexts := by cases hcontexts

/-- A call ends that has nothing in hand, or whose upload is settled. -/
theorem Sound.drop (h : s.Sound)
    (hold : ∀ call held begun, s.calls k = some call → call.taken = some (held, begun) →
      s.Settled begun) : (s.putCall k none).Sound :=
  h.putCall (fun _ _ heq => by cases heq) hold

/-- What a call that can fail leaves: every byte that had not been reported is somewhere. -/
structure Retains (s t : SharedFile) : Prop where
  sound : t.Sound
  kept : t.Kept s.reported

theorem Sound.retains {t : SharedFile} (h : t.Sound) (hreported : t.reported = s.reported) :
    Retains s t :=
  ⟨h, hreported ▸ h.kept⟩

theorem Sound.retainsReport {t : SharedFile} (h : t.Sound) (hreported : t.reported = s.reported)
    (r : ℕ) : Retains s (t.report r) :=
  ⟨h.report r, hreported ▸ h.kept⟩

/-- A copy is stored under the name that the contexts know. -/
theorem Sound.store (h : s.Sound) (hreads : Reads s.log s.reported copy)
    (hmet : path = s.name → s.Supersedes copy) : (s.store path copy).Sound := by
  rw [SharedFile.store]
  by_cases hpath : path = s.name
  · rw [if_pos hpath]
    exact h.stores hreads (hmet hpath) (by rw [hpath, Function.update_self])
  · rw [if_neg hpath]
    exact h.elsewhere (Function.update_of_ne (Ne.symm hpath) ..)

theorem Sound.wroteAt (h : s.Sound) (sc : DiskScript) (offset : ℕ) (data : Bytes) :
    (s.after path (.wrote sc offset data)).Sound := by
  rw [after]
  split
  case isTrue => exact h
  case isFalse hopen =>
    split
    case h_1 hok => exact h.wrote hopen hok
    case h_2 => exact h.writeFailed hopen _

theorem Sound.flushBegun (h : s.Sound) (k : ℕ) (sc : DiskScript) :
    Retains s (s.after path (.flushBegun k sc)) := by
  rw [after]
  split
  case isTrue => exact h.retains rfl
  case isFalse hfree =>
    rw [not_or, Option.not_isSome_iff_eq_none] at hfree
    have hold := settled_of_free hfree.2
    split
    case h_1 => exact h.retains rfl
    case h_2 held hheld =>
      split
      case h_1 => exact h.retainsReport rfl _
      case h_2 =>
        refine (h.putCall (fun call copy heq hcopy => ?_) hold).retains rfl
        obtain rfl := Option.some.inj heq
        rw [← Option.some.inj hcopy]
        exact (h.buffer held hheld).2
      case h_3 =>
        refine (h.putCall (fun call copy heq hcopy => ?_) hold).retains rfl
        obtain rfl := Option.some.inj heq
        cases hcopy

theorem Sound.flushSent (h : s.Sound) {holder : Option ℕ}
    (hmet : s.Met path (.flushSent k holder)) :
    (s.after path (.flushSent k holder)).Sound := by
  rw [after]
  split
  case h_2 => exact h
  case h_1 payload begun hcall =>
    split
    case h_2 => exact h
    case h_1 copy hcopy =>
      have hstored := h.store (h.payloadCopy hcall hcopy)
        fun hpath => hmet hpath.symm payload begun copy hcall hcopy
      refine hstored.putCall (fun call copy heq hcopy => ?_) ?_
      · obtain rfl := Option.some.inj heq
        cases hcopy
      · exact settled_of_call hcall fun _ _ htaken => by cases htaken

theorem Sound.flushFailed (h : s.Sound) (k : ℕ) :
    Retains s (s.after path (.flushFailed k)) := by
  rw [after]
  split
  case h_2 => exact h.retains rfl
  case h_1 hcall =>
    refine (h.drop (settled_of_call hcall fun _ _ htaken => ?_)).retainsReport (s := s) rfl _
    cases htaken

theorem Sound.flushTook (h : s.Sound) (hmet : s.Met path (.flushTook k)) :
    (s.after path (.flushTook k)).Sound := by
  rw [after]
  split
  case h_2 => exact h
  case h_1 hcall =>
    refine (h.drop (settled_of_call hcall fun _ _ htaken => ?_)).take (hmet hcall)
    cases htaken

theorem Sound.closeBegun (h : s.Sound) {sc : DiskScript} (hmet : s.Met path (.closeBegun k sc)) :
    (s.after path (.closeBegun k sc)).Sound := by
  rw [after]
  split
  case isTrue => exact h
  case isFalse hfree =>
    rw [not_or, Option.not_isSome_iff_eq_none] at hfree
    dsimp only
    split
    case h_1 hnone => exact h.contexts false fun _ => hnone
    case h_2 held hheld =>
      split
      case h_1 why hwhy =>
        exact (h.take fun _ => hmet held why hheld hwhy).contexts false fun _ => rfl
      case h_2 =>
        have htaken := @Sound.takeInto _ _ (.closing held s.log.length) _ h hheld hfree.2 rfl
        exact htaken.contexts _ fun _ => rfl

theorem Sound.closeSent (h : s.Sound) (hmet : s.Met path (.closeSent k)) :
    (s.after path (.closeSent k)).Sound := by
  rw [after]
  split
  case h_2 => exact h
  case h_1 held begun hcall =>
    have hmet' := hmet held begun hcall
    have hstored := @Sound.store path _ _ h (h.copies k _ _ hcall rfl) fun hpath => by
      rwa [if_pos hpath] at hmet'
    refine (hstored.drop (settled_of_call hcall fun _ _ htaken => ?_)).contexts false
      (hstored.idle ·)
    obtain ⟨rfl, rfl⟩ := Prod.mk.inj (Option.some.inj htaken)
    change begun ≤ max (if path = s.name then begun else s.saved) s.reported
    split_ifs at hmet' ⊢
    · exact le_max_left _ _
    · exact hmet'

theorem Sound.closeFailed (h : s.Sound) (hmet : s.Met path (.closeFailed k)) :
    (s.after path (.closeFailed k)).Sound := by
  rw [after]
  split
  case h_2 => exact h
  case h_1 held begun hcall =>
    refine (h.drop (settled_of_call hcall fun _ _ htaken => ?_)).contexts false (h.idle ·)
    obtain ⟨rfl, rfl⟩ := Prod.mk.inj (Option.some.inj htaken)
    exact hmet held begun hcall

theorem Sound.renameBegun (h : s.Sound) {sc : DiskScript}
    (hmet : s.Met path (.renameBegun k sc target)) :
    Retains s (s.after path (.renameBegun k sc target)) := by
  rw [after]
  split
  case isTrue => exact h.retains rfl
  case isFalse hfree =>
    rw [not_or, Option.not_isSome_iff_eq_none] at hfree
    split
    case h_1 => exact h.retains rfl
    case h_2 held hheld =>
      split
      case h_1 why hwhy =>
        exact (h.take fun _ => hmet held why hheld hwhy).retainsReport (s := s) rfl _
      case h_2 =>
        have htaken := @Sound.takeInto _ _
          (.renaming held (renameTarget path target) s.log.length) _ h hheld hfree.2 rfl
        exact htaken.retains rfl

theorem Sound.renameSent (h : s.Sound) (hmet : s.Met path (.renameSent k)) :
    (s.after path (.renameSent k)).Sound := by
  rw [after]
  split
  case h_2 => exact h
  case h_1 held target begun hcall =>
    have hstored :
        (({ s with name := target } : SharedFile).store target (held.copy begun)).Sound := by
      rw [SharedFile.store, if_pos rfl]
      exact h.stores (h.copies k _ _ hcall rfl) (hmet held target begun hcall)
        (Function.update_self ..)
    refine (hstored.drop (settled_of_call hcall fun _ _ htaken => ?_)).contexts false (h.idle ·)
    obtain ⟨rfl, rfl⟩ := Prod.mk.inj (Option.some.inj htaken)
    change begun ≤ max (if target = target then begun else s.saved) s.reported
    rw [if_pos rfl]
    exact le_max_left _ _

theorem Sound.renameFailed (h : s.Sound) (hmet : s.Met path (.renameFailed k)) :
    Retains s (s.after path (.renameFailed k)) := by
  rw [after]
  split
  case h_2 => exact h.retains rfl
  case h_1 held target begun hcall =>
    refine (h.drop (settled_of_call hcall fun _ _ htaken => ?_)).retainsReport (s := s) rfl _
    obtain ⟨rfl, rfl⟩ := Prod.mk.inj (Option.some.inj htaken)
    exact hmet held target _ hcall

theorem Sound.renamedStored (h : s.Sound) (hmet : s.name = path) :
    (s.after path (.renamedStored target)).Sound := by
  rw [after]
  split
  case isTrue => exact h
  case isFalse => exact h.elsewhere (by rw [Function.update_self, hmet])

theorem Sound.renameRefused (h : s.Sound) : Retains s (s.after path .renameRefused) := by
  rw [after]
  split
  case isTrue => exact h.retains rfl
  case isFalse => exact h.retainsReport rfl _

theorem Sound.after (h : s.Sound) {e : SharedEvent} (hmet : s.Met path e) :
    (s.after path e).Sound := by
  cases e with
  | opened =>
      rw [SharedFile.after]
      split
      case isTrue => exact h.contexts s.pending fun hnone => by cases hnone
      case isFalse => exact h
  | wrote sc offset data => exact h.wroteAt sc offset data
  | flushBegun k sc => exact (h.flushBegun k sc).sound
  | flushSent k holder => exact h.flushSent hmet
  | flushFailed k => exact (h.flushFailed k).sound
  | flushTook k => exact h.flushTook hmet
  | closeBegun k sc => exact h.closeBegun hmet
  | closeSent k => exact h.closeSent hmet
  | closeFailed k => exact h.closeFailed hmet
  | renameBegun k sc target => exact (h.renameBegun hmet).sound
  | renameSent k => exact h.renameSent hmet
  | renameFailed k => exact (h.renameFailed hmet).sound
  | renamedStored target => exact h.renamedStored hmet
  | renameRefused => exact h.renameRefused.sound

theorem Sound.failed (h : s.Sound) {e : SharedEvent} (hfail : e.canFail = true)
    (hmet : s.Met path e) : (s.after path e).Kept s.reported := by
  cases e with
  | flushBegun k sc => exact (h.flushBegun k sc).kept
  | flushFailed k => exact (h.flushFailed k).kept
  | renameBegun k sc target => exact (h.renameBegun hmet).kept
  | renameFailed k => exact (h.renameFailed hmet).kept
  | renameRefused => exact h.renameRefused.kept
  | _ => cases hfail

theorem Sound.lossFree (h : s.Sound) {e : SharedEvent} (hmet : s.Met path e) :
    s.LossFree path e :=
  ⟨(h.after hmet).closed, fun hfail => h.failed hfail hmet⟩

end SharedFile

end SynologyFilestation.Fuse
