import SynologyFilestation.Core.Path
import SynologyFilestation.Library.Slots
import SynologyFilestation.Library.Transition
import Mathlib.Data.List.Flatten
import Mathlib.Data.UInt

/-!
The log file and its rotation (`Rotating` in `fuse/src/logfile.rs`).

Files are numbered in the order they were made, and the log's directory is a row of
slots: `mount.log` is slot 0, and `mount.log.n` slot `n`. A script says which of the
steps of a rotation fail. Of what a file holds, only the records of this process are
told; each record is numbered. The records that were accepted, the generations that
were completed and the failures are told too, and no step depends on them.
-/

namespace SynologyFilestation.Fuse

open Function Core Library

structure LogRecord where
  number : ℕ
  bytes : Core.Bytes
  deriving DecidableEq, Repr

def LogRecord.total (records : List LogRecord) : ℕ := (records.map (·.bytes.length)).sum

/-- Which steps of a rotation succeed: of the renames, by the slot that is renamed. -/
structure RotationScript where
  sync : Bool
  remove : Bool
  rename : ℕ → Bool
  reopen : Bool

/-- What comes of the write itself. -/
inductive Appended
  | ok
  /-- The file has the record, and the flush or the sync failed. -/
  | unsynced
  /-- `write_all` failed after so many bytes. -/
  | torn (length : ℕ)
  deriving DecidableEq, Repr

structure LogWrite where
  bytes : Core.Bytes
  rotation : RotationScript
  appended : Appended

structure Rotating where
  slots : Slots
  files : ℕ → List LogRecord
  /-- The files made so far. -/
  made : ℕ
  /-- The open file. -/
  file : ℕ
  written : ℕ
  rotateAt : ℕ
  /-- Records that were to be written so far. -/
  records : ℕ
  /-- Those whose write returned `Ok`, each with the file it went to. -/
  accepted : List (LogRecord × ℕ)
  /-- The generations that rotations have completed. -/
  completed : List ℕ
  /-- For each rotation that failed, the file it was to close. -/
  failures : List ℕ
  /-- Bytes that failed writes have left in a file, which `written` leaves out. -/
  uncounted : ℕ → ℕ

namespace Rotating

/-- `with_rotation`: the active file has `size` bytes, and of the generations some
are there from before. -/
def opened (maxBytes keep size : ℕ) (there : ℕ → Bool) : Rotating :=
  { slots := fun n =>
      if n = 0 then some keep else if n ≤ keep ∧ there n then some (keep - n) else none
    files := fun _ => []
    made := keep + 1
    file := keep
    written := size
    rotateAt := maxBytes
    records := 0
    accepted := []
    completed := []
    failures := []
    uncounted := fun _ => 0 }

/-- Open the active path, making the file if it is not there. -/
def create (s : Rotating) : Rotating :=
  match s.slots 0 with
  | some f => { s with file := f }
  | none =>
      { s with slots := update s.slots 0 (some s.made), file := s.made, made := s.made + 1 }

/-- That there is nothing to remove, or that it cannot be, is ignored. -/
def freed (keep : ℕ) (script : RotationScript) (slots : Slots) : Slots :=
  if script.remove then slots.vacate keep else slots

/-- What a rotation does to the directory before the file is opened again, and the
generation it completes if it gets that far. -/
def roll (keep : ℕ) (script : RotationScript) (slots : Slots) : Slots × Option ℕ :=
  match (freed keep script slots).shift script.rename (keep - 1) with
  | (shifted, false) => (shifted, none)
  | (shifted, true) =>
      match shifted 0 with
      | none => (shifted, none)
      | some active =>
          if script.rename 0 then (shifted.move 0, some active) else (shifted, none)

/-- The flag says whether it went through. -/
def rotate (keep : ℕ) (script : RotationScript) (s : Rotating) : Rotating × Bool :=
  if !script.sync then (s, false)
  else if keep = 0 then
    if script.reopen then
      let s := s.create
      ({ s with files := update s.files s.file [], written := 0 }, true)
    else (s, false)
  else
    match roll keep script s.slots with
    | (slots, none) => ({ s with slots := slots }, false)
    | (slots, some active) =>
        let s := { s with slots := slots }
        if script.reopen then
          ({ s.create with written := 0, completed := active :: s.completed }, true)
        else (s, false)

def append (w : LogWrite) (s : Rotating) : Rotating :=
  let record : LogRecord := ⟨s.records, w.bytes⟩
  match w.appended with
  | .ok =>
      { s with
        files := update s.files s.file (s.files s.file ++ [record])
        written := s.written + w.bytes.length
        records := s.records + 1
        accepted := s.accepted ++ [(record, s.file)] }
  | .unsynced =>
      { s with
        files := update s.files s.file (s.files s.file ++ [record])
        written := s.written + w.bytes.length
        records := s.records + 1 }
  | .torn length =>
      let part := w.bytes.take length
      { s with
        files := update s.files s.file (s.files s.file ++ [{ record with bytes := part }])
        records := s.records + 1
        uncounted := update s.uncounted s.file (s.uncounted s.file + part.length) }

/-- Whether the record finds the file full. -/
def Full (s : Rotating) (w : LogWrite) : Prop :=
  0 < s.written ∧ s.rotateAt < s.written + w.bytes.length

instance (s : Rotating) (w : LogWrite) : Decidable (s.Full w) :=
  inferInstanceAs (Decidable (_ ∧ _))

/-- What `record` does before it writes. -/
def makeRoom (maxBytes keep : ℕ) (w : LogWrite) (s : Rotating) : Rotating :=
  if s.Full w then
    match s.rotate keep w.rotation with
    | (s, true) => { s with rotateAt := maxBytes }
    | (s, false) =>
        -- The next attempt is a whole budget away.
        { s with
          rotateAt := min (s.written + maxBytes) (2 ^ 64 - 1)
          failures := s.file :: s.failures }
  else s

def record (maxBytes keep : ℕ) (s : Rotating) (w : LogWrite) : Rotating :=
  (s.makeRoom maxBytes keep w).append w

/-- The generations that are kept, from the oldest on, and the active file. -/
def kept (keep : ℕ) (s : Rotating) : List LogRecord :=
  (s.slots.names keep).flatMap s.files

section Roll

variable {keep n f : ℕ} {script : RotationScript} {slots : Slots}

theorem of_freed (h : freed keep script slots n = some f) : slots n = some f := by
  rw [freed] at h
  split_ifs at h
  · exact (update_none_eq_some h).2
  · exact h

theorem freed_of_ne (h : n ≠ keep) : freed keep script slots n = slots n := by
  rw [freed]
  split_ifs
  · exact update_of_ne h ..
  · rfl

theorem freed_aged (h : slots.Aged keep) : (freed keep script slots).Aged keep := by
  rw [freed]
  split_ifs
  · exact h.vacate keep
  · exact h

/-- A rotation stops with the generations moved up as far as it got, or moves the active
file as well. -/
theorem roll_cases (keep : ℕ) (script : RotationScript) (slots : Slots) {shifted : Slots × Bool}
    (hshifted : (freed keep script slots).shift script.rename (keep - 1) = shifted) :
    roll keep script slots = (shifted.1, none) ∨
      ∃ active, shifted.1 0 = some active ∧ shifted.2 = true ∧ script.rename 0 = true ∧
        roll keep script slots = (shifted.1.move 0, some active) := by
  obtain ⟨shifted, through⟩ := shifted
  rw [roll, hshifted]
  match through, hactive : shifted 0 with
  | false, _ => exact Or.inl rfl
  | true, none => simp [hactive]
  | true, some active =>
      by_cases hrename : script.rename 0 <;> simp [hactive, hrename]

theorem roll_aged (h : slots.Aged keep) : (roll keep script slots).1.Aged keep := by
  have hshifted : ((freed keep script slots).shift script.rename (keep - 1)).1.Aged keep :=
    (freed_aged h).shift
  rcases roll_cases keep script slots rfl with hroll | ⟨active, _, _, _, hroll⟩ <;> rw [hroll]
  · exact hshifted
  · exact hshifted.move 0

theorem of_roll (h : (roll keep script slots).1 n = some f) : ∃ k ≤ n, slots k = some f := by
  rcases roll_cases keep script slots rfl with hroll | ⟨active, _, _, _, hroll⟩ <;>
    simp only [hroll] at h
  · obtain ⟨k, hk, hslot⟩ := Slots.of_shift h
    exact ⟨k, hk, of_freed hslot⟩
  · have hbefore : ∃ m ≤ n,
        ((freed keep script slots).shift script.rename (keep - 1)).1 m = some f := by
      rcases Slots.of_move h with ⟨rfl, hslot⟩ | ⟨_, _, hslot⟩
      · exact ⟨0, Nat.zero_le _, hslot⟩
      · exact ⟨n, le_rfl, hslot⟩
    obtain ⟨m, hm, hslot⟩ := hbefore
    obtain ⟨k, hk, hslot⟩ := Slots.of_shift hslot
    exact ⟨k, hk.trans hm, of_freed hslot⟩

/-- The name in the last slot goes, if it is removed or another is moved on to it. -/
def Drops (keep : ℕ) (script : RotationScript) (slots : Slots) : Prop :=
  slots keep ≠ none ∧
    (script.remove ∨ slots (keep - 1) ≠ none ∧ script.rename (keep - 1))

instance : Decidable (Drops keep script slots) := inferInstanceAs (Decidable (_ ∧ _))

/-- The name in the last slot stays where it is, if it is not to go. -/
theorem shifted_last (hkeep : 0 < keep) (h : ¬Drops keep script slots) (hslot : slots keep ≠ none) :
    ((freed keep script slots).shift script.rename (keep - 1)).1 keep = slots keep := by
  simp only [Drops, hslot, ne_eq, not_false_eq_true, true_and, not_or, not_and,
    Bool.not_eq_true] at h
  have hfreed : freed keep script slots = slots := by simp [freed, h.1]
  rw [hfreed]
  match keep, hkeep with
  | 1, _ => rfl
  | m + 2, _ =>
      refine Slots.shift_first ?_
      by_cases hempty : slots (m + 1) = none
      · exact Or.inl hempty
      · exact Or.inr (h.2 hempty)

theorem holds_shifted (hkeep : 0 < keep) (h : slots keep = some f → ¬Drops keep script slots)
    (hf : slots.Holds keep f) :
    Slots.Holds keep ((freed keep script slots).shift script.rename (keep - 1)).1 f := by
  obtain ⟨n, hn, hslot⟩ := hf
  by_cases hlast : n = keep
  · subst hlast
    exact ⟨n, le_rfl, by rw [shifted_last hkeep (h hslot) (by simp [hslot]), hslot]⟩
  · refine Slots.holds_shift (by omega) hn (by omega) ?_
    rwa [freed_of_ne hlast]

/-- Every name is there after the rotation but one that it drops. -/
theorem roll_holds (hkeep : 0 < keep) (h : slots keep = some f → ¬Drops keep script slots)
    (hf : slots.Holds keep f) : Slots.Holds keep (roll keep script slots).1 f := by
  have hshifted := holds_shifted hkeep h hf
  rcases roll_cases keep script slots rfl with hroll | ⟨active, hactive, hthrough, hrename, hroll⟩
  · rwa [hroll]
  · rw [hroll]
    obtain ⟨n, hn, hslot⟩ := hshifted
    by_cases hfirst : n = 0
    · subst hfirst
      exact ⟨1, hkeep, Slots.move_succ.trans hslot⟩
    · -- The active file finds its new place empty, or it is the only generation's.
      refine ⟨n, hn, (Slots.move_of_ne hfirst ?_).trans hslot⟩
      rintro rfl
      obtain rfl | hkeep : keep = 1 ∨ 0 < keep - 1 := by omega
      · rw [Slots.shift_zero, freed_of_ne (by omega)] at hactive
        have hlast : slots 1 = some f := of_freed hslot
        exact h hlast ⟨by simp [hlast], Or.inr ⟨by simp [hactive], hrename⟩⟩
      · cases (Slots.shift_room hkeep hthrough).symm.trans hslot

/-- A rotation goes up to the active file if each of them may be moved. -/
theorem roll_through (h : ∀ n < keep, slots n ≠ none → script.rename n = true) (hkeep : 0 < keep)
    (hactive : slots 0 = some f) : (roll keep script slots).2 = some f := by
  have hfirst : ((freed keep script slots).shift script.rename (keep - 1)).1 0 = some f := by
    rw [Slots.shift_zero, freed_of_ne (by omega), hactive]
  have hthrough : ((freed keep script slots).shift script.rename (keep - 1)).2 = true := by
    refine Slots.shift_through.mpr fun m hpos hle hne => ?_
    exact h m (by omega) (by rwa [freed_of_ne (by omega)] at hne)
  have hrename := h 0 hkeep (by simp [hactive])
  rw [roll]
  split
  next hshifted => cases (congrArg Prod.snd hshifted).symm.trans hthrough
  next hshifted =>
    have hslot := (congrArg (fun row => row.1 0) hshifted).symm.trans hfirst
    simp only at hslot
    simp [hslot, hrename]

/-- After a rotation that got to the active file its place is free. -/
theorem roll_some {turned : Slots} (hkeep : 0 < keep)
    (h : roll keep script slots = (turned, some f)) : turned 0 = none ∧ slots 0 = some f := by
  rcases roll_cases keep script slots rfl with hroll | ⟨active, hactive, _, _, hroll⟩
  · cases hroll.symm.trans h
  · rw [hroll] at h
    cases h
    rw [Slots.shift_zero, freed_of_ne (by omega)] at hactive
    exact ⟨Slots.move_self, hactive⟩

end Roll

section Rotate

variable {maxBytes keep : ℕ} {script : RotationScript} {s : Rotating} {w : LogWrite}

/-- What a rotation that goes through leaves, with the generations moved up. -/
def turned (s : Rotating) (slots : Slots) (active : ℕ) : Rotating :=
  { s with
    slots := update slots 0 (some s.made)
    made := s.made + 1
    file := s.made
    written := 0
    completed := active :: s.completed }

/-- A rotation that fails leaves all but the directory as it was. -/
theorem rotate_cases (hkeep : 0 < keep) (script : RotationScript) (s : Rotating) :
    (∃ slots, (slots = s.slots ∨ script.sync = true ∧ slots = (roll keep script s.slots).1) ∧
      s.rotate keep script = ({ s with slots := slots }, false)) ∨
    ∃ slots active, script.sync = true ∧ roll keep script s.slots = (slots, some active) ∧
      s.rotate keep script = (s.turned slots active, true) := by
  rw [rotate, if_neg (show ¬keep = 0 by omega)]
  by_cases hsync : script.sync
  · simp only [hsync, Bool.not_true, Bool.false_eq_true, if_false]
    split
    next slots hroll => exact Or.inl ⟨slots, Or.inr ⟨trivial, by rw [hroll]⟩, rfl⟩
    next slots active hroll =>
      by_cases hreopen : script.reopen
      · refine Or.inr ⟨slots, active, trivial, hroll, ?_⟩
        simp [hreopen, create, turned, (roll_some hkeep hroll).1]
      · refine Or.inl ⟨slots, Or.inr ⟨trivial, by rw [hroll]⟩, ?_⟩
        simp [hreopen]
  · exact Or.inl ⟨s.slots, Or.inl rfl, by simp [hsync]⟩

/-- The rotation goes through. -/
def Completes (keep : ℕ) (script : RotationScript) (slots : Slots) : Prop :=
  script.reopen ∧ slots 0 ≠ none ∧ ∀ n < keep, slots n ≠ none → script.rename n

instance {slots : Slots} : Decidable (Completes keep script slots) :=
  inferInstanceAs (Decidable (_ ∧ _ ∧ ∀ n < keep, _))

theorem rotate_completes (hkeep : 0 < keep) (hsync : script.sync)
    (h : Completes keep script s.slots) : (s.rotate keep script).2 = true := by
  obtain ⟨hreopen, hactive, hrename⟩ := h
  obtain ⟨active, hactive⟩ := Option.ne_none_iff_exists'.mp hactive
  have hroll := roll_through hrename hkeep hactive
  rw [rotate, if_neg (show ¬keep = 0 by omega)]
  simp only [hsync, Bool.not_true, Bool.false_eq_true, if_false, hreopen]
  split
  next hnone => cases (congrArg Prod.snd hnone).symm.trans hroll
  next => rfl

/-- Either there is room, or the rotation that is tried fails, or it goes through. -/
theorem makeRoom_cases (maxBytes : ℕ) (hkeep : 0 < keep) (s : Rotating) (w : LogWrite) :
    (¬s.Full w ∧ s.makeRoom maxBytes keep w = s) ∨
    (s.Full w ∧ (s.rotate keep w.rotation).2 = false ∧
      ∃ slots, (slots = s.slots ∨
          w.rotation.sync = true ∧ slots = (roll keep w.rotation s.slots).1) ∧
        s.makeRoom maxBytes keep w =
          { s with
            slots := slots
            rotateAt := min (s.written + maxBytes) (2 ^ 64 - 1)
            failures := s.file :: s.failures }) ∨
    (s.Full w ∧ (s.rotate keep w.rotation).2 = true ∧
      ∃ slots active, w.rotation.sync = true ∧
        roll keep w.rotation s.slots = (slots, some active) ∧
        s.makeRoom maxBytes keep w = { s.turned slots active with rotateAt := maxBytes }) := by
  rw [makeRoom]
  by_cases hfull : s.Full w
  · rw [if_pos hfull]
    rcases rotate_cases hkeep w.rotation s with
      ⟨slots, hslots, hrotate⟩ | ⟨slots, active, hsync, hroll, hrotate⟩
    · exact Or.inr (Or.inl ⟨hfull, by rw [hrotate], slots, hslots, by rw [hrotate]⟩)
    · exact Or.inr (Or.inr ⟨hfull, by rw [hrotate], slots, active, hsync, hroll, by rw [hrotate]⟩)
  · exact Or.inl ⟨hfull, if_neg hfull⟩

end Rotate

section Append

variable {maxBytes keep : ℕ} {s : Rotating} {w : LogWrite}

/-- What the file gets of the record. -/
def recorded (s : Rotating) (w : LogWrite) : LogRecord :=
  ⟨s.records, match w.appended with
    | .torn length => w.bytes.take length
    | _ => w.bytes⟩

theorem append_same (s : Rotating) (w : LogWrite) :
    (s.append w).slots = s.slots ∧ (s.append w).made = s.made ∧ (s.append w).file = s.file ∧
      (s.append w).completed = s.completed ∧ (s.append w).rotateAt = s.rotateAt ∧
      (s.append w).failures = s.failures := by
  rw [append]
  split <;> exact ⟨rfl, rfl, rfl, rfl, rfl, rfl⟩

@[simp] theorem append_slots : (s.append w).slots = s.slots := (append_same s w).1

@[simp] theorem append_made : (s.append w).made = s.made := (append_same s w).2.1

@[simp] theorem append_file : (s.append w).file = s.file := (append_same s w).2.2.1

@[simp] theorem append_completed : (s.append w).completed = s.completed :=
  (append_same s w).2.2.2.1

@[simp] theorem append_rotateAt : (s.append w).rotateAt = s.rotateAt :=
  (append_same s w).2.2.2.2.1

@[simp] theorem append_failures : (s.append w).failures = s.failures :=
  (append_same s w).2.2.2.2.2

@[simp] theorem append_records : (s.append w).records = s.records + 1 := by
  rw [append]
  split <;> rfl

theorem append_files :
    (s.append w).files = update s.files s.file (s.files s.file ++ [s.recorded w]) := by
  rw [append, recorded]
  split <;> simp_all

theorem of_append_accepted {a : LogRecord × ℕ} (h : a ∈ (s.append w).accepted) :
    a ∈ s.accepted ∨ a = (s.recorded w, s.file) := by
  rw [append] at h
  split at h
  next hok => simpa [recorded, hok] using h
  all_goals exact Or.inl h

theorem mem_append_files {f : ℕ} {r : LogRecord} :
    r ∈ (s.append w).files f ↔ r ∈ s.files f ∨ f = s.file ∧ r = s.recorded w := by
  rw [append_files]
  rcases eq_or_ne f s.file with rfl | hne
  · simp
  · simp [hne]

end Append

section Runs

variable {maxBytes keep : ℕ} {s : Rotating} {w : LogWrite}

/-- The names in the directory and the generations completed, in the order they were
made. -/
structure NamesInOrder (keep : ℕ) (s : Rotating) : Prop where
  aged : s.slots.Aged keep
  made : s.made = s.file + 1
  held : ∀ f, s.slots.Holds keep f → f ≤ s.file
  active : ∀ f, s.slots 0 = some f → f = s.file
  first : keep ≤ s.file
  completed : s.completed = (List.range' keep (s.file - keep)).reverse

/-- The records, in the order they were written. -/
structure RecordsInOrder (keep : ℕ) (s : Rotating) : Prop where
  made : ∀ f, s.made ≤ f → s.files f = []
  below : ∀ f, ∀ r ∈ s.files f, r.number < s.records
  sorted : ∀ f, (s.files f).Pairwise (·.number < ·.number)
  across : ∀ f g, f < g → ∀ r ∈ s.files f, ∀ r' ∈ s.files g, r.number < r'.number
  accepted : ∀ a ∈ s.accepted, a.1 ∈ s.files a.2 ∧ keep ≤ a.2

/-- A file made in this run is there, or `keep` newer ones have been completed. -/
def Retains (keep : ℕ) (s : Rotating) : Prop :=
  ∀ f, keep ≤ f → f ≤ s.file → s.slots.Holds keep f ∨ f + keep < s.file

/-- The names that a rotation leaves were there before, and no further up. -/
theorem of_rotated {slots : Slots} {n f : ℕ}
    (h : slots = s.slots ∨ w.rotation.sync = true ∧ slots = (roll keep w.rotation s.slots).1)
    (hslot : slots n = some f) : ∃ k ≤ n, s.slots k = some f := by
  obtain rfl | ⟨_, rfl⟩ := h
  · exact ⟨n, le_rfl, hslot⟩
  · exact of_roll hslot

theorem NamesInOrder.opened (maxBytes keep size : ℕ) (there : ℕ → Bool) :
    NamesInOrder keep (opened maxBytes keep size there) := by
  have hslot : ∀ n f, (Rotating.opened maxBytes keep size there).slots n = some f →
      n ≤ keep ∧ f = keep - n := by
    intro n f h
    simp only [Rotating.opened] at h
    split_ifs at h with hzero hthere
    · simp_all
    · cases h
      exact ⟨hthere.1, rfl⟩
  refine ⟨?_, rfl, ?_, ?_, le_rfl, ?_⟩
  · intro i j f g hij hj hf hg
    have hf := hslot i f hf
    have hg := hslot j g hg
    omega
  · rintro f ⟨n, _, hf⟩
    have hf := hslot n f hf
    show f ≤ keep
    omega
  · intro f hf
    exact (hslot 0 f hf).2
  · simp [Rotating.opened]

theorem NamesInOrder.makeRoom (hkeep : 0 < keep) (h : NamesInOrder keep s) :
    NamesInOrder keep (s.makeRoom maxBytes keep w) := by
  rcases makeRoom_cases maxBytes hkeep s w with
    ⟨_, hroom⟩ | ⟨_, _, slots, hslots, hroom⟩ | ⟨_, _, slots, active, hsync, hroll, hroom⟩
  · rwa [hroom]
  · rw [hroom]
    refine ⟨?_, h.made, ?_, ?_, h.first, h.completed⟩
    · obtain rfl | ⟨_, rfl⟩ := hslots
      · exact h.aged
      · exact roll_aged h.aged
    · rintro f ⟨n, hn, hslot⟩
      obtain ⟨k, hk, hslot⟩ := of_rotated hslots hslot
      exact h.held f ⟨k, hk.trans hn, hslot⟩
    · intro f hslot
      obtain ⟨k, hk, hslot⟩ := of_rotated hslots hslot
      obtain rfl := Nat.le_zero.mp hk
      exact h.active f hslot
  · rw [hroom]
    have hslots : slots = (roll keep w.rotation s.slots).1 := by rw [hroll]
    have hactive := h.active active (roll_some hkeep hroll).2
    have hbelow : ∀ f, slots.Holds keep f → f < s.made := by
      rintro f ⟨n, hn, hslot⟩
      obtain ⟨k, hk, hslot⟩ := of_rotated (Or.inr ⟨hsync, hslots⟩) hslot
      have hle := h.held f ⟨k, hk.trans hn, hslot⟩
      have hmade := h.made
      omega
    refine ⟨?_, rfl, ?_, ?_, ?_, ?_⟩
    · refine Slots.Aged.put ?_ hbelow
      rw [hslots]
      exact roll_aged h.aged
    · rintro f ⟨n, hn, hslot⟩
      rcases update_eq_some hslot with ⟨_, rfl⟩ | ⟨_, hslot⟩
      · exact le_rfl
      · exact (hbelow f ⟨n, hn, hslot⟩).le
    · intro f hslot
      simpa [turned, eq_comm] using hslot
    · have hfirst := h.first
      have hmade := h.made
      show keep ≤ s.made
      omega
    · show active :: s.completed = (List.range' keep (s.made - keep)).reverse
      have hfirst := h.first
      have hlength : s.made - keep = s.file - keep + 1 := by rw [h.made]; omega
      rw [hlength, List.range'_concat, List.reverse_append, ← h.completed, hactive]
      have hlast : keep + (s.file - keep) = s.file := by omega
      simp [hlast]

theorem NamesInOrder.append (h : NamesInOrder keep s) : NamesInOrder keep (s.append w) where
  aged := by simpa using h.aged
  made := by simpa using h.made
  held := by simpa using h.held
  active := by simpa using h.active
  first := by simpa using h.first
  completed := by simpa using h.completed

theorem makeRoom_same (maxBytes : ℕ) (hkeep : 0 < keep) (s : Rotating) (w : LogWrite) :
    (s.makeRoom maxBytes keep w).files = s.files ∧
      (s.makeRoom maxBytes keep w).records = s.records ∧
      (s.makeRoom maxBytes keep w).accepted = s.accepted ∧
      (s.makeRoom maxBytes keep w).uncounted = s.uncounted ∧
      s.made ≤ (s.makeRoom maxBytes keep w).made := by
  rcases makeRoom_cases maxBytes hkeep s w with
    ⟨_, hroom⟩ | ⟨_, _, slots, _, hroom⟩ | ⟨_, _, slots, active, _, _, hroom⟩ <;> rw [hroom]
  · exact ⟨rfl, rfl, rfl, rfl, le_rfl⟩
  · exact ⟨rfl, rfl, rfl, rfl, le_rfl⟩
  · exact ⟨rfl, rfl, rfl, rfl, Nat.le_succ _⟩

theorem RecordsInOrder.makeRoom (hkeep : 0 < keep) (h : RecordsInOrder keep s) :
    RecordsInOrder keep (s.makeRoom maxBytes keep w) := by
  obtain ⟨hfiles, hrecords, haccepted, _, hmade⟩ := makeRoom_same maxBytes hkeep s w
  refine ⟨?_, ?_, ?_, ?_, ?_⟩
  · rw [hfiles]
    exact fun f hf => h.made f (hmade.trans hf)
  · rw [hfiles, hrecords]
    exact h.below
  · rw [hfiles]
    exact h.sorted
  · rw [hfiles]
    exact h.across
  · rw [hfiles, haccepted]
    exact h.accepted

theorem RecordsInOrder.append (hnames : NamesInOrder keep s) (h : RecordsInOrder keep s) :
    RecordsInOrder keep (s.append w) := by
  have hmade := hnames.made
  have hnew : (s.recorded w).number = s.records := rfl
  refine ⟨?_, ?_, ?_, ?_, ?_⟩
  · intro f hf
    rw [append_made] at hf
    rw [append_files, update_of_ne (by omega), h.made f hf]
  · intro f r hr
    rw [append_records]
    rcases mem_append_files.mp hr with hr | ⟨_, rfl⟩
    · exact (h.below f r hr).trans (Nat.lt_succ_self _)
    · exact Nat.lt_succ_self _
  · intro f
    rw [append_files]
    rcases eq_or_ne f s.file with rfl | hne
    · rw [update_self, List.pairwise_append]
      refine ⟨h.sorted _, List.pairwise_singleton _ _, ?_⟩
      intro r hr r' hr'
      rw [List.mem_singleton.mp hr']
      exact h.below _ r hr
    · rw [update_of_ne hne]
      exact h.sorted f
  · intro f g hfg r hr r' hr'
    rcases mem_append_files.mp hr' with hr' | ⟨rfl, rfl⟩
    · rcases mem_append_files.mp hr with hr | ⟨rfl, rfl⟩
      · exact h.across f g hfg r hr r' hr'
      · -- Nothing is written to a file after the open one.
        simp [h.made g (by omega)] at hr'
    · rcases mem_append_files.mp hr with hr | ⟨rfl, rfl⟩
      · exact h.below f r hr
      · omega
  · intro a ha
    rcases of_append_accepted ha with ha | rfl
    · have haccepted := h.accepted a ha
      exact ⟨mem_append_files.mpr (Or.inl haccepted.1), haccepted.2⟩
    · exact ⟨mem_append_files.mpr (Or.inr ⟨rfl, rfl⟩), hnames.first⟩

/-- A rotation that goes through drops a generation only from before this run, or with
none of those after it missing; one that fails drops none. -/
def Spares (keep : ℕ) (s : Rotating) (w : LogWrite) : Prop :=
  s.Full w → w.rotation.sync → Drops keep w.rotation s.slots →
    Completes keep w.rotation s.slots ∧
      ((∃ f < keep, s.slots keep = some f) ∨ ∀ n < keep, s.slots n ≠ none)

instance : Decidable (Spares keep s w) :=
  inferInstanceAs
    (Decidable (_ → _ → _ → _ ∧ ((∃ f < keep, s.slots keep = some f) ∨ ∀ n < keep, _)))

/-- A rotation that fails leaves every name where there is one. -/
theorem holds_failed {slots : Slots} {f : ℕ} (hkeep : 0 < keep) (hspares : Spares keep s w)
    (hfull : s.Full w) (hfails : (s.rotate keep w.rotation).2 = false)
    (hslots : slots = s.slots ∨
      w.rotation.sync = true ∧ slots = (roll keep w.rotation s.slots).1)
    (hf : s.slots.Holds keep f) : slots.Holds keep f := by
  obtain rfl | ⟨hsync, rfl⟩ := hslots
  · exact hf
  · refine roll_holds hkeep (fun _ hdrops => ?_) hf
    have hcompletes := rotate_completes hkeep hsync (hspares hfull hsync hdrops).1
    simp [hfails] at hcompletes

theorem Retains.makeRoom (hkeep : 0 < keep) (hnames : NamesInOrder keep s)
    (hspares : Spares keep s w) (h : Retains keep s) :
    Retains keep (s.makeRoom maxBytes keep w) := by
  rcases makeRoom_cases maxBytes hkeep s w with
    ⟨_, hroom⟩ | ⟨hfull, hfails, slots, hslots, hroom⟩ |
      ⟨hfull, _, slots, active, hsync, hroll, hroom⟩
  · rwa [hroom]
  · rw [hroom]
    intro f hfirst hle
    rcases h f hfirst hle with hheld | hdropped
    · exact Or.inl (holds_failed hkeep hspares hfull hfails hslots hheld)
    · exact Or.inr hdropped
  · rw [hroom]
    intro f hfirst hle
    show Slots.Holds keep (update slots 0 (some s.made)) f ∨ f + keep < s.made
    have hmade := hnames.made
    obtain ⟨hfree, hactive⟩ := roll_some hkeep hroll
    obtain rfl := hnames.active active hactive
    rcases Nat.lt_or_eq_of_le (show f ≤ s.made from hle) with hlt | rfl
    · rcases h f hfirst (by omega) with hheld | hdropped
      · by_cases hdrops : s.slots keep = some f ∧ Drops keep w.rotation s.slots
        · -- It is the oldest, and the names after it are at least as many as the slots.
          obtain ⟨hlast, hdrops⟩ := hdrops
          rcases (hspares hfull hsync hdrops).2 with ⟨g, hg, hgslot⟩ | hall
          · cases hlast.symm.trans hgslot
            omega
          · have hadd := hnames.aged.add_le le_rfl hall hactive hlast
            exact Or.inr (by omega)
        · have hrolled : (roll keep w.rotation s.slots).1.Holds keep f :=
            roll_holds hkeep (fun hlast hdrop => hdrops ⟨hlast, hdrop⟩) hheld
          rw [hroll] at hrolled
          obtain ⟨n, hn, hslot⟩ := hrolled
          refine Or.inl ⟨n, hn, (update_of_ne ?_ ..).trans hslot⟩
          rintro rfl
          cases hfree.symm.trans hslot
      · exact Or.inr (by omega)
    · exact Or.inl ⟨0, Nat.zero_le _, update_self ..⟩

theorem Retains.append (h : Retains keep s) : Retains keep (s.append w) := by
  simpa [Retains] using h

theorem kept_ordered (hnames : NamesInOrder keep s) (h : RecordsInOrder keep s) :
    (s.kept keep).Pairwise (·.number < ·.number) := by
  rw [kept, List.pairwise_flatMap]
  refine ⟨fun f _ => h.sorted f, ?_⟩
  exact hnames.aged.names_sorted.imp fun hlt r hr r' hr' => h.across _ _ hlt r hr r' hr'

theorem mem_kept {r : LogRecord} {f : ℕ} (hf : s.slots.Holds keep f) (hr : r ∈ s.files f) :
    r ∈ s.kept keep :=
  List.mem_flatMap.mpr ⟨f, Slots.mem_names.mpr hf, hr⟩

theorem countP_range' {first f : ℕ} (h : first ≤ f + 1) (n : ℕ) :
    (List.range' first n).countP (f < ·) = first + n - (f + 1) := by
  induction n with
  | zero => simp [h]
  | succ n ih =>
      rw [List.range'_concat, List.countP_append, ih, List.countP_singleton]
      by_cases hlt : f < first + n
      · simp [hlt]
        omega
      · simp [hlt]
        omega

/-- So many generations were completed after a file. -/
theorem count_completed (hnames : NamesInOrder keep s) {f : ℕ} (hfirst : keep ≤ f) :
    s.completed.countP (f < ·) = s.file - (f + 1) := by
  have hlast := hnames.first
  rw [hnames.completed, List.countP_reverse, countP_range' (by omega)]
  omega

theorem accepted_retained (hnames : NamesInOrder keep s) (hrecords : RecordsInOrder keep s)
    (h : Retains keep s) {r : LogRecord} {f : ℕ} (hr : (r, f) ∈ s.accepted) :
    r ∈ s.kept keep ∨ keep ≤ s.completed.countP (f < ·) := by
  obtain ⟨hmem, hfirst⟩ := hrecords.accepted _ hr
  have hle : f ≤ s.file := by
    by_contra hlt
    have hempty := hrecords.made f (by have := hnames.made; omega)
    simp [hempty] at hmem
  rcases h f hfirst hle with hheld | hdropped
  · exact Or.inl (mem_kept hheld hmem)
  · rw [count_completed hnames hfirst]
    exact Or.inr (by omega)

/-- A file takes no more than the budget, or no more than one record. -/
def Fits (maxBytes : ℕ) (records : List LogRecord) : Prop :=
  LogRecord.total records ≤ maxBytes ∨
    ∃ r ∈ records, LogRecord.total records ≤ r.bytes.length

/-- How much is written where. Of the file that was there first, what it held before
this run is in its size. -/
structure WithinBudget (maxBytes keep size : ℕ) (s : Rotating) : Prop where
  rotateAt : s.file ∉ s.failures → s.rotateAt = maxBytes
  made : ∀ f, s.made ≤ f → s.uncounted f = 0
  written : (s.file = keep → size = 0) →
    s.written + s.uncounted s.file = LogRecord.total (s.files s.file)
  fits : ∀ f, (f = keep → size = 0) → f ∉ s.failures → s.uncounted f = 0 →
    Fits maxBytes (s.files f)

variable {size : ℕ}

theorem WithinBudget.opened (maxBytes keep size : ℕ) (there : ℕ → Bool) :
    WithinBudget maxBytes keep size (opened maxBytes keep size there) where
  rotateAt _ := rfl
  made _ _ := rfl
  written h := h rfl
  fits _ _ _ _ := Or.inl (Nat.zero_le _)

theorem WithinBudget.makeRoom (hkeep : 0 < keep)
    (hrecords : RecordsInOrder keep s) (h : WithinBudget maxBytes keep size s) :
    WithinBudget maxBytes keep size (s.makeRoom maxBytes keep w) := by
  rcases makeRoom_cases maxBytes hkeep s w with
    ⟨_, hroom⟩ | ⟨_, _, slots, _, hroom⟩ | ⟨_, _, slots, active, _, _, hroom⟩
  · rwa [hroom]
  · rw [hroom]
    refine ⟨fun hnot => ?_, h.made, h.written, fun f hstart hnot => ?_⟩
    · exact absurd (List.mem_cons_self ..) hnot
    · exact h.fits f hstart fun hmem => hnot (List.mem_cons_of_mem _ hmem)
  · rw [hroom]
    refine ⟨fun _ => rfl, ?_, fun _ => ?_, h.fits⟩
    · exact fun f hf => h.made f (Nat.le_of_succ_le hf)
    · show 0 + s.uncounted s.made = LogRecord.total (s.files s.made)
      rw [h.made _ le_rfl, hrecords.made _ le_rfl]
      rfl

/-- There is room in the file, or it is empty, or it could not be closed. -/
theorem makeRoom_room (hkeep : 0 < keep) :
    let t := s.makeRoom maxBytes keep w
    t.written = 0 ∨ t.written + w.bytes.length ≤ t.rotateAt ∨ t.file ∈ t.failures := by
  rcases makeRoom_cases maxBytes hkeep s w with
    ⟨hroom, heq⟩ | ⟨_, _, slots, _, heq⟩ | ⟨_, _, slots, active, _, _, heq⟩ <;> rw [heq]
  · rw [Full, not_and, not_lt] at hroom
    rcases Nat.eq_zero_or_pos s.written with hzero | hpos
    · exact Or.inl hzero
    · exact Or.inr (Or.inl (hroom hpos))
  · exact Or.inr (Or.inr (List.mem_cons_self ..))
  · exact Or.inl rfl

theorem total_append (records : List LogRecord) (r : LogRecord) :
    LogRecord.total (records ++ [r]) = LogRecord.total records + r.bytes.length := by
  simp [LogRecord.total]

/-- The bytes of a record are counted, or left out and told. -/
theorem append_counts (s : Rotating) (w : LogWrite) :
    (s.append w).written + (s.append w).uncounted s.file =
        s.written + s.uncounted s.file + (s.recorded w).bytes.length ∧
      (∀ f, f ≠ s.file → (s.append w).uncounted f = s.uncounted f) ∧
      s.uncounted s.file ≤ (s.append w).uncounted s.file := by
  rw [append]
  split
  next hok => simp [recorded, hok]; omega
  next hok => simp [recorded, hok]; omega
  next length htorn =>
    refine ⟨?_, fun f hne => update_of_ne hne .., ?_⟩
    · simp [recorded, htorn]
      omega
    · simp

theorem recorded_le (s : Rotating) (w : LogWrite) :
    (s.recorded w).bytes.length ≤ w.bytes.length := by
  rw [recorded]
  split
  next length _ => exact List.length_take_le' ..
  next => exact le_rfl

theorem WithinBudget.append (hnames : NamesInOrder keep s)
    (hroom : s.written = 0 ∨ s.written + w.bytes.length ≤ s.rotateAt ∨ s.file ∈ s.failures)
    (h : WithinBudget maxBytes keep size s) :
    WithinBudget maxBytes keep size (s.append w) := by
  obtain ⟨hcounts, hother, hgrows⟩ := append_counts s w
  have hmade := hnames.made
  refine ⟨?_, ?_, ?_, ?_⟩
  · simpa using h.rotateAt
  · intro f hf
    rw [append_made] at hf
    rw [hother f (by omega), h.made f hf]
  · intro hstart
    rw [append_file] at hstart ⊢
    rw [append_files, update_self, total_append, ← h.written hstart]
    exact hcounts
  · intro f hstart hnot hzero
    rw [append_failures] at hnot
    rw [append_files]
    rcases eq_or_ne f s.file with rfl | hne
    · rw [update_self]
      have hwritten := h.written hstart
      have hle := recorded_le s w
      rw [Fits, total_append]
      rcases hroom with hempty | hroom | hmem
      · -- An empty file takes a record of any size.
        refine Or.inr ⟨s.recorded w, by simp, ?_⟩
        omega
      · rw [h.rotateAt hnot] at hroom
        exact Or.inl (by omega)
      · exact absurd hmem hnot
    · rw [update_of_ne hne]
      rw [hother f hne] at hzero
      exact h.fits f hstart hnot hzero

/-- What rotation promises of the records that were accepted and of the size of a file. -/
structure LosesNothing (maxBytes keep size : ℕ) (s : Rotating) : Prop where
  ordered : (s.kept keep).Pairwise (·.number < ·.number)
  retained : ∀ r f, (r, f) ∈ s.accepted →
    r ∈ s.kept keep ∨ keep ≤ s.completed.countP (f < ·)
  bounded : ∀ f, (f = keep → size = 0) → f ∉ s.failures → s.uncounted f = 0 →
    Fits maxBytes (s.files f)

/-- If the rotation that the record asks for fails, every file is where there is a name
for it, with all that it held. -/
def Unharmed (maxBytes keep : ℕ) (s : Rotating) (w : LogWrite) : Prop :=
  s.Full w → (s.rotate keep w.rotation).2 = false → ∀ f, s.slots.Holds keep f →
    (s.record maxBytes keep w).slots.Holds keep f ∧
      s.files f <+: (s.record maxBytes keep w).files f

theorem unharmed (hkeep : 0 < keep) (hspares : Spares keep s w) : Unharmed maxBytes keep s w := by
  intro hfull hfails f hf
  have hfiles := (makeRoom_same maxBytes hkeep s w).1
  constructor
  · rw [record, append_slots]
    rcases makeRoom_cases maxBytes hkeep s w with
      ⟨hroom, _⟩ | ⟨_, _, slots, hslots, hroom⟩ | ⟨_, hthrough, _⟩
    · exact absurd hfull hroom
    · rw [hroom]
      exact holds_failed hkeep hspares hfull hfails hslots hf
    · cases hfails.symm.trans hthrough
  · rw [record, append_files, hfiles]
    rcases eq_or_ne f (s.makeRoom maxBytes keep w).file with rfl | hne
    · simp
    · simp [hne]

/-- The invariant of runs in which no rotation drops what it may not. -/
structure Keeping (maxBytes keep size : ℕ) (s : Rotating) : Prop where
  names : NamesInOrder keep s
  records : RecordsInOrder keep s
  retains : Retains keep s
  budget : WithinBudget maxBytes keep size s

theorem Keeping.opened (maxBytes keep size : ℕ) (there : ℕ → Bool) :
    Keeping maxBytes keep size (opened maxBytes keep size there) where
  names := .opened ..
  records :=
    { made := fun _ _ => rfl
      below := fun _ _ hr => nomatch hr
      sorted := fun _ => List.Pairwise.nil
      across := fun _ _ _ _ hr => nomatch hr
      accepted := fun _ ha => nomatch ha }
  retains _ hfirst hle := Or.inl ⟨0, Nat.zero_le _, congrArg some (le_antisymm hfirst hle)⟩
  budget := .opened ..

theorem Keeping.record (hkeep : 0 < keep) (hspares : Spares keep s w)
    (h : Keeping maxBytes keep size s) :
    Keeping maxBytes keep size (s.record maxBytes keep w) where
  names := (h.names.makeRoom hkeep).append
  records := (h.records.makeRoom hkeep).append (h.names.makeRoom hkeep)
  retains := (h.retains.makeRoom hkeep h.names hspares).append
  budget := (h.budget.makeRoom hkeep h.records).append (h.names.makeRoom hkeep)
    (makeRoom_room hkeep)

theorem Keeping.losesNothing (h : Keeping maxBytes keep size s) :
    LosesNothing maxBytes keep size s where
  ordered := kept_ordered h.names h.records
  retained _ _ hr := accepted_retained h.names h.records h.retains hr
  bounded := h.budget.fits

/-- In a run in which no rotation drops what it may not, the log loses no record. -/
theorem log_loses_nothing {there : ℕ → Bool} (hkeep : 0 < keep)
    (h : Reaches (fun s w t => t = s.record maxBytes keep w) (Spares keep)
      (opened maxBytes keep size there) s) :
    LosesNothing maxBytes keep size s ∧
      ∀ w, Spares keep s w → Unharmed maxBytes keep s w := by
  have hinv : Keeping maxBytes keep size s := by
    refine h.invariant (.opened ..) ?_
    rintro s w t hs hspares rfl
    exact hs.record hkeep hspares
  exact ⟨hinv.losesNothing, fun w => unharmed hkeep⟩

end Runs

/-- Every step of the rotation succeeds. -/
def smooth : RotationScript :=
  { sync := true, remove := true, rename := fun _ => true, reopen := true }

/-- A record of three bytes. -/
def three (rotation : RotationScript) : LogWrite := ⟨[0, 0, 0], rotation, .ok⟩

theorem smooth_loses_nothing :
    EveryStep (fun s w => s.record 4 1 w) (Spares 1) (opened 4 1 0 fun _ => false)
        [three smooth, three smooth, three smooth] ∧
      LosesNothing 4 1 0
        ([three smooth, three smooth, three smooth].foldl (fun s w => s.record 4 1 w)
          (opened 4 1 0 fun _ => false)) := by
  have hsteps : EveryStep (fun s w => s.record 4 1 w) (Spares 1) (opened 4 1 0 fun _ => false)
      [three smooth, three smooth, three smooth] := by decide
  exact ⟨hsteps, (log_loses_nothing Nat.one_pos (Reaches.start.events hsteps)).1⟩

/-- With one generation kept and the active file where it cannot be moved, that
generation is removed and nothing takes its place. -/
theorem stuck_loses_record :
    ¬∀ maxBytes keep size there s, 0 < keep →
      Reaches (fun s w t => t = s.record maxBytes keep w) unrestricted
        (opened maxBytes keep size there) s →
      LosesNothing maxBytes keep size s ∧ ∀ w, Unharmed maxBytes keep s w := by
  intro hall
  have hrun := Reaches.start.events (everyStep_unrestricted (fun s w => s.record 4 1 w)
    (opened 4 1 0 fun _ => false)
    [three smooth, three smooth, three { smooth with rename := fun _ => false }])
  have hloses := (hall 4 1 0 (fun _ => false) _ Nat.one_pos hrun).1
  have hkept := hloses.retained ⟨0, [0, 0, 0]⟩ 1 (by decide)
  revert hkept
  decide

end Rotating

end SynologyFilestation.Fuse
