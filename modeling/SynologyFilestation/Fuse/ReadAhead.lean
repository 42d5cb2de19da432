import SynologyFilestation.Library.Transition
import Mathlib.Data.List.Range
import Mathlib.Data.List.TakeWhile
import Mathlib.Tactic.Ring

/-!
What to fetch before it is asked for (`fuse/src/fs/prefetch.rs`): the window at
open, and the window behind a reader that keeps reading on, which doubles up to
a depth. A number that leaves `u64`, or a vector that would take more bytes than
`isize::MAX`, ends the call.
-/

namespace SynologyFilestation.Fuse

open Library

inductive Panic
  | overflow
  | capacityOverflow
  deriving DecidableEq, Repr

/-- Arithmetic of `u64`. -/
def checked (n : ℕ) : Except Panic ℕ := if n < 2 ^ 64 then .ok n else .error .overflow

/-- `Vec::with_capacity`, of block numbers: eight bytes each. -/
def withCapacity (capacity : ℕ) : Except Panic ℕ :=
  if capacity * 8 < 2 ^ 63 then .ok capacity else .error .capacityOverflow

/-- `Vec::reserve`: a vector that has to grow at least doubles. -/
def reserve (capacity length additional : ℕ) : Except Panic ℕ :=
  if length + additional ≤ capacity then .ok capacity
  else withCapacity (max (max (capacity * 2) (length + additional)) 4)

def tailBlocks : ℕ := 4

def rampStart : ℕ := 2

/-- Block 0 is not in it: the caller has it. -/
def openWindow (totalBlocks depth : ℕ) (media : Bool) : Except Panic (List ℕ) :=
  if !media || depth = 0 || totalBlocks = 0 then .ok []
  else do
    let headEnd := min depth totalBlocks
    let capacity ← withCapacity (headEnd - 1)
    let blocks := List.range' 1 (headEnd - 1)
    if headEnd < totalBlocks then
      let tailStart := max (totalBlocks - tailBlocks) headEnd
      let _ ← reserve capacity (headEnd - 1) (totalBlocks - tailStart)
      .ok (blocks ++ List.range' tailStart (totalBlocks - tailStart))
    else .ok blocks

structure ReadAhead where
  /-- Where a read would have to start to go on from the last one. -/
  nextOffset : Option ℕ
  /-- In blocks; zero until a run is established. -/
  window : ℕ
  deriving DecidableEq, Repr

namespace ReadAhead

def new : ReadAhead := ⟨none, 0⟩

/-- The window of a read that goes on from the last. -/
def grown (depth : ℕ) (s : ReadAhead) : Except Panic ℕ :=
  if s.window = 0 then .ok (min rampStart depth)
  else (checked (s.window * 2)).map (min · depth)

def advance (offset size blockSize : ℕ) (totalBlocks : Option ℕ) (depth : ℕ) (s : ReadAhead) :
    Except Panic (List ℕ × ReadAhead) :=
  if size = 0 then .ok ([], s)
  else do
    let next ← checked (offset + size)
    if s.nextOffset ≠ some offset ∨ depth = 0 then .ok ([], ⟨some next, 0⟩)
    else
      let window ← s.grown depth
      let lastBlock := (next - 1) / blockSize
      let _ ← withCapacity window
      let first ← checked (lastBlock + 1)
      let last ← checked (lastBlock + window)
      let blocks := (List.range' first (last + 1 - first)).takeWhile fun idx =>
        totalBlocks.all (idx < ·)
      .ok (blocks, ⟨some next, window⟩)

end ReadAhead

/-- `u64::saturating_mul`. -/
def saturatingMul (a b : ℕ) : ℕ := min (a * b) (2 ^ 64 - 1)

def streamingDepth (depth connections cacheBlocks : ℕ) : ℕ :=
  min (saturatingMul depth connections) (max depth (cacheBlocks / 2))

/-- What of the mount's options bears on reading ahead. -/
structure Prefetch where
  blockSize : ℕ
  blockSize_pos : 0 < blockSize
  prefetchBlocks : ℕ
  /-- Of the read cache, in blocks. -/
  capacityBlocks : ℕ

/-- A read, the connections reads go over when it is made, and the file's size
if that is cached. -/
structure StreamRead where
  offset : ℕ
  size : ℕ
  connections : ℕ
  fileSize : Option ℕ
  offset_lt : offset < 2 ^ 63
  size_pos : 0 < size
  size_lt : size < 2 ^ 32

namespace Prefetch

/-- `None` when the size is not known, or nothing. -/
def totalBlocks (p : Prefetch) (fileSize : Option ℕ) : Option ℕ :=
  (fileSize.filter (0 < ·)).map fun size => (size + p.blockSize - 1) / p.blockSize

/-- The window of `prime_open`, once block 0 has been looked at. -/
def primeOpen (p : Prefetch) (fileSize : Option ℕ) (media : Bool) : Except Panic (List ℕ) :=
  match p.totalBlocks fileSize with
  | none => .ok []
  | some totalBlocks => openWindow totalBlocks p.prefetchBlocks media

def depth (p : Prefetch) (r : StreamRead) : ℕ :=
  streamingDepth p.prefetchBlocks r.connections p.capacityBlocks

/-- `read_ahead`, on one handle. -/
def readAhead (p : Prefetch) (s : ReadAhead) (r : StreamRead) :
    Except Panic (List ℕ × ReadAhead) :=
  s.advance r.offset r.size p.blockSize (p.totalBlocks r.fileSize) (p.depth r)

/-- What the handle keeps of a read. After a panic it is not looked at again: the
lock over the handles is poisoned. -/
def after (p : Prefetch) (s : ReadAhead) (r : StreamRead) : ReadAhead :=
  match p.readAhead s r with
  | .ok (_, s') => s'
  | .error _ => s

end Prefetch

/-! ### The window at open -/

/-- Ascending without repeats, and neither block 0 nor one past the end. -/
structure OpenListed (totalBlocks : ℕ) (blocks : List ℕ) : Prop where
  ascending : blocks.Pairwise (· < ·)
  inside : ∀ idx ∈ blocks, 1 ≤ idx ∧ idx < totalBlocks

/-- The head is a vector `isize` can measure, and so is what it grows to when the
tail is added. -/
def OpenFits (totalBlocks depth : ℕ) (media : Bool) : Prop :=
  media = true → depth ≠ 0 →
    if depth < totalBlocks then depth ≤ 2 ^ 59 else totalBlocks ≤ 2 ^ 60

section Open

variable {totalBlocks depth start stop n : ℕ} {media : Bool} {blocks : List ℕ}

@[simp] theorem withCapacity_eq_ok {capacity : ℕ} :
    withCapacity n = .ok capacity ↔ n < 2 ^ 60 ∧ n = capacity := by
  unfold withCapacity
  split
  case isTrue h => simpa using fun _ => by omega
  case isFalse h => simpa using fun _ => by omega

theorem withCapacity_of_lt (h : n < 2 ^ 60) : withCapacity n = .ok n :=
  withCapacity_eq_ok.mpr ⟨h, rfl⟩

theorem withCapacity_of_le (h : 2 ^ 60 ≤ n) : withCapacity n = .error .capacityOverflow := by
  rw [withCapacity, if_neg]
  omega

theorem openListed_nil : OpenListed totalBlocks [] :=
  ⟨List.Pairwise.nil, by simp⟩

theorem openListed_range (h : n ≤ totalBlocks) :
    OpenListed totalBlocks (List.range' 1 (n - 1)) := by
  refine ⟨List.pairwise_lt_range', fun idx hidx => ?_⟩
  rw [List.mem_range'_1] at hidx
  omega

/-- The tail starts where the head has ended, or later. -/
theorem OpenListed.tail (hn : n ≤ start) (hstart : start ≤ totalBlocks) (hpos : 0 < start) :
    OpenListed totalBlocks (List.range' 1 (n - 1) ++ List.range' start (totalBlocks - start)) := by
  constructor
  · rw [List.pairwise_append]
    refine ⟨List.pairwise_lt_range', List.pairwise_lt_range', fun a ha b hb => ?_⟩
    rw [List.mem_range'_1] at ha hb
    omega
  · intro idx hidx
    rw [List.mem_append, List.mem_range'_1, List.mem_range'_1] at hidx
    omega

/-- Growing for the tail doubles the head. -/
theorem reserve_tail {k : ℕ} (hk : 0 < k) (hk' : k ≤ tailBlocks) :
    (∃ capacity, reserve n n k = .ok capacity) ↔ n < 2 ^ 59 := by
  have hfull : ¬n + k ≤ n := by omega
  rw [tailBlocks] at hk'
  simp only [reserve, if_neg hfull, withCapacity_eq_ok, exists_eq_right']
  omega

/-- A file that ends within the window. -/
theorem openWindow_head (hmedia : media = true) (hdepth : depth ≠ 0) (htotal : totalBlocks ≠ 0)
    (h : totalBlocks ≤ depth) : openWindow totalBlocks depth media =
      (withCapacity (totalBlocks - 1)).map fun _ => List.range' 1 (totalBlocks - 1) := by
  have hmin : min depth totalBlocks = totalBlocks := min_eq_right h
  simp [openWindow, hmedia, hdepth, htotal, hmin]
  rfl

/-- A file that goes on after it. -/
theorem openWindow_tail (hmedia : media = true) (hdepth : depth ≠ 0)
    (h : depth < totalBlocks) :
    let tailStart := max (totalBlocks - tailBlocks) depth
    openWindow totalBlocks depth media = (do
      let capacity ← withCapacity (depth - 1)
      let _ ← reserve capacity (depth - 1) (totalBlocks - tailStart)
      .ok (List.range' 1 (depth - 1) ++ List.range' tailStart (totalBlocks - tailStart))) := by
  have htotal : totalBlocks ≠ 0 := by omega
  have hmin : min depth totalBlocks = depth := min_eq_left h.le
  simp [openWindow, hmedia, hdepth, htotal, hmin, h]

/-- **The window at open.** It is listed as it should be exactly when it fits. -/
theorem openWindow_iff : (∃ blocks, openWindow totalBlocks depth media = .ok blocks ∧
    OpenListed totalBlocks blocks) ↔ OpenFits totalBlocks depth media := by
  by_cases hempty : (!media || depth = 0 || totalBlocks = 0) = true
  · have hfits : OpenFits totalBlocks depth media := by
      intro hmedia hdepth
      have htotal : totalBlocks = 0 := by simpa [hmedia, hdepth] using hempty
      simp [htotal]
    simp only [openWindow, if_pos hempty, hfits, iff_true]
    exact ⟨[], rfl, openListed_nil⟩
  simp only [Bool.or_eq_true, Bool.not_eq_true', decide_eq_true_eq, not_or,
    Bool.not_eq_false] at hempty
  obtain ⟨⟨hmedia, hdepth⟩, htotal⟩ := hempty
  rcases lt_or_ge depth totalBlocks with hlt | hge
  · have hfits : OpenFits totalBlocks depth media ↔ depth - 1 < 2 ^ 59 := by
      simp only [OpenFits, hmedia, ne_eq, hdepth, not_false_eq_true, forall_const, if_pos hlt]
      omega
    have hcount : 0 < totalBlocks - max (totalBlocks - tailBlocks) depth ∧
        totalBlocks - max (totalBlocks - tailBlocks) depth ≤ tailBlocks := by
      rw [tailBlocks]
      omega
    have hlisted : OpenListed totalBlocks (List.range' 1 (depth - 1) ++
        List.range' (max (totalBlocks - tailBlocks) depth)
          (totalBlocks - max (totalBlocks - tailBlocks) depth)) :=
      .tail (le_max_right _ _) (by omega) (by omega)
    have hgrows := reserve_tail (n := depth - 1) hcount.1 hcount.2
    rw [hfits, ← hgrows, openWindow_tail hmedia hdepth hlt]
    rcases lt_or_ge (depth - 1) (2 ^ 60) with hhead | hhead
    · rw [withCapacity_of_lt hhead]
      simp only [bind, Except.bind]
      cases reserve (depth - 1) (depth - 1) _ with
      | error e => simp
      | ok capacity => simp [hlisted]
    · rw [withCapacity_of_le hhead]
      refine iff_of_false (by simp [bind, Except.bind]) ?_
      rw [hgrows]
      omega
  · have hfits : OpenFits totalBlocks depth media ↔ totalBlocks - 1 < 2 ^ 60 := by
      simp only [OpenFits, hmedia, ne_eq, hdepth, not_false_eq_true, forall_const,
        if_neg hge.not_gt]
      omega
    rw [hfits, openWindow_head hmedia hdepth htotal hge]
    rcases lt_or_ge (totalBlocks - 1) (2 ^ 60) with hlt | hge
    · rw [withCapacity_of_lt hlt]
      exact iff_of_true ⟨_, rfl, openListed_range le_rfl⟩ hlt
    · rw [withCapacity_of_le hge]
      exact iff_of_false (by simp [Except.map]) hge.not_gt

end Open

/-! ### The window behind a reader -/

/-- The blocks after the last one the read touched, in order, within the file and
no more than the depth. -/
def ReadsNext (p : Prefetch) (s : ReadAhead) (r : StreamRead) : Prop :=
  ∃ blocks s', p.readAhead s r = .ok (blocks, s') ∧
    (∃ n ≤ p.depth r, blocks = List.range' ((r.offset + r.size - 1) / p.blockSize + 1) n) ∧
    ∀ total, p.totalBlocks r.fileSize = some total → ∀ idx ∈ blocks, idx < total

/-- A read that goes on with a window of `2 ^ 59` blocks does not find a depth twice
as large. -/
def ReadFits (p : Prefetch) (s : ReadAhead) (r : StreamRead) : Prop :=
  s.nextOffset = some r.offset → 2 ^ 59 ≤ s.window →
    p.prefetchBlocks * r.connections < 2 ^ 60 ∨
      p.prefetchBlocks < 2 ^ 60 ∧ p.capacityBlocks < 2 ^ 61

instance (p : Prefetch) (s : ReadAhead) (r : StreamRead) : Decidable (ReadFits p s r) :=
  inferInstanceAs (Decidable (_ → _ → _))

section Reads

variable {p : Prefetch} {s : ReadAhead} {r : StreamRead} {depth : ℕ}

theorem depth_lt : p.depth r < 2 ^ 60 ↔ p.prefetchBlocks * r.connections < 2 ^ 60 ∨
    p.prefetchBlocks < 2 ^ 60 ∧ p.capacityBlocks < 2 ^ 61 := by
  rw [Prefetch.depth, streamingDepth, saturatingMul]
  omega

/-- What the window becomes. -/
def ReadAhead.next (s : ReadAhead) (depth : ℕ) : ℕ :=
  if s.window = 0 then min rampStart depth else min (s.window * 2) depth

theorem grown_eq (h : s.window < 2 ^ 60) : s.grown depth = .ok (s.next depth) := by
  have hfits : s.window * 2 < 2 ^ 64 := by omega
  rw [ReadAhead.grown, ReadAhead.next, checked, if_pos hfits]
  split <;> rfl

theorem next_le : s.next depth ≤ depth := by
  rw [ReadAhead.next]
  split <;> exact min_le_right _ _

theorem next_lt (h : s.window < 2 ^ 60) :
    s.next depth < 2 ^ 60 ↔ (2 ^ 59 ≤ s.window → depth < 2 ^ 60) := by
  rw [ReadAhead.next, rampStart]
  split <;> omega

theorem takeWhile_range' (start n : ℕ) (P : ℕ → Bool) :
    ∃ m ≤ n, (List.range' start n).takeWhile P = List.range' start m := by
  obtain ⟨rest, hrest⟩ := List.takeWhile_prefix P (l := List.range' start n)
  obtain ⟨m, hm, htake, _⟩ := List.range'_eq_append_iff.mp hrest.symm
  exact ⟨m, hm, htake⟩

/-- The last block a read touches. -/
def StreamRead.lastBlock (p : Prefetch) (r : StreamRead) : ℕ :=
  (r.offset + r.size - 1) / p.blockSize

theorem StreamRead.lastBlock_lt : r.lastBlock p < 2 ^ 63 + 2 ^ 32 := by
  have hdiv : r.lastBlock p ≤ r.offset + r.size - 1 := Nat.div_le_self _ _
  have hoffset := r.offset_lt
  have hsize := r.size_lt
  omega

/-- The blocks asked for, as far as the file goes. -/
def Prefetch.blocks (p : Prefetch) (s : ReadAhead) (r : StreamRead) : List ℕ :=
  (List.range' (r.lastBlock p + 1) (s.next (p.depth r))).takeWhile fun idx =>
    (p.totalBlocks r.fileSize).all (idx < ·)

/-- A read that starts where none ended, or with read-ahead off. -/
theorem readAhead_reset (h : s.nextOffset ≠ some r.offset ∨ p.depth r = 0) :
    p.readAhead s r = .ok ([], ⟨some (r.offset + r.size), 0⟩) := by
  have hsum : r.offset + r.size < 2 ^ 64 := by
    have hoffset := r.offset_lt
    have hsize := r.size_lt
    omega
  rw [Prefetch.readAhead, ReadAhead.advance, if_neg r.size_pos.ne', checked, if_pos hsum]
  simp only [bind, Except.bind, if_pos h]

/-- A read that goes on from the last. -/
theorem readAhead_goesOn (h : ¬(s.nextOffset ≠ some r.offset ∨ p.depth r = 0))
    (hs : s.window < 2 ^ 60) : p.readAhead s r = (withCapacity (s.next (p.depth r))).map
      fun _ => (p.blocks s r, ⟨some (r.offset + r.size), s.next (p.depth r)⟩) := by
  have hsum : r.offset + r.size < 2 ^ 64 := by
    have hoffset := r.offset_lt
    have hsize := r.size_lt
    omega
  have hlast : r.lastBlock p < 2 ^ 63 + 2 ^ 32 := r.lastBlock_lt
  rw [Prefetch.readAhead, ReadAhead.advance, if_neg r.size_pos.ne', checked, if_pos hsum]
  simp only [bind, Except.bind, if_neg h, grown_eq hs]
  rcases lt_or_ge (s.next (p.depth r)) (2 ^ 60) with hlt | hge
  · rw [withCapacity_of_lt hlt]
    have hcount : r.lastBlock p + s.next (p.depth r) + 1 - (r.lastBlock p + 1) =
        s.next (p.depth r) := by omega
    rw [← StreamRead.lastBlock, checked, checked, if_pos (by omega), if_pos (by omega)]
    simp only [Except.map, hcount, Prefetch.blocks]
  · rw [withCapacity_of_le hge]
    rfl

/-- **One read.** It asks for the next blocks exactly when its window fits. -/
theorem readsNext_iff (hs : s.window < 2 ^ 60) : ReadsNext p s r ↔ ReadFits p s r := by
  by_cases h : s.nextOffset ≠ some r.offset ∨ p.depth r = 0
  · have hfits : ReadFits p s r := by
      intro hsequential _
      rw [← depth_lt]
      have hdepth : p.depth r = 0 := h.resolve_left (not_not.mpr hsequential)
      omega
    refine iff_of_true ⟨[], _, readAhead_reset h, ⟨0, Nat.zero_le _, rfl⟩, ?_⟩ hfits
    simp
  · have hfits : ReadFits p s r ↔ s.next (p.depth r) < 2 ^ 60 := by
      rw [not_or, not_not] at h
      rw [next_lt hs, ReadFits, depth_lt]
      simp [h.1]
    rw [hfits, ReadsNext, readAhead_goesOn h hs]
    rcases lt_or_ge (s.next (p.depth r)) (2 ^ 60) with hlt | hge
    · rw [withCapacity_of_lt hlt]
      refine iff_of_true ⟨_, _, rfl, ?_, ?_⟩ hlt
      · obtain ⟨n, hn, hblocks⟩ := takeWhile_range' (r.lastBlock p + 1) (s.next (p.depth r))
          fun idx => (p.totalBlocks r.fileSize).all (idx < ·)
        exact ⟨n, hn.trans next_le, hblocks⟩
      · intro total htotal idx hidx
        have hlt := List.mem_takeWhile_imp hidx
        simpa [htotal] using hlt
    · rw [withCapacity_of_le hge]
      exact iff_of_false (by simp [Except.map]) hge.not_gt

/-- What is kept of a read whose window fits. -/
theorem after_eq (hs : s.window < 2 ^ 60) (hfits : ReadFits p s r) :
    p.after s r = ⟨some (r.offset + r.size),
      if s.nextOffset ≠ some r.offset ∨ p.depth r = 0 then 0 else s.next (p.depth r)⟩ := by
  rw [Prefetch.after]
  split_ifs with h
  · rw [readAhead_reset h]
  · have hlt : s.next (p.depth r) < 2 ^ 60 := by
      rw [not_or, not_not] at h
      rw [next_lt hs, depth_lt]
      exact hfits h.1
    rw [readAhead_goesOn h hs, withCapacity_of_lt hlt]
    rfl

/-- A window that was kept is one that fitted. -/
theorem after_window_lt (hs : s.window < 2 ^ 60) : (p.after s r).window < 2 ^ 60 := by
  rw [Prefetch.after]
  by_cases h : s.nextOffset ≠ some r.offset ∨ p.depth r = 0
  · rw [readAhead_reset h]
    simp
  · rw [readAhead_goesOn h hs]
    rcases lt_or_ge (s.next (p.depth r)) (2 ^ 60) with hlt | hge
    · rw [withCapacity_of_lt hlt]
      exact hlt
    · rw [withCapacity_of_le hge]
      exact hs

theorem everyStep_readsNext_iff (hs : s.window < 2 ^ 60) (reads : List StreamRead) :
    EveryStep p.after (ReadsNext p) s reads ↔ EveryStep p.after (ReadFits p) s reads :=
  everyStep_iff (I := fun s => s.window < 2 ^ 60) after_window_lt readsNext_iff hs reads

end Reads

/-! ### Runs -/

section Runs

variable {p : Prefetch} {s : ReadAhead}

/-- With an option and a cache of this size every read fits. -/
theorem everyStep_fits_of_options (hoption : p.prefetchBlocks < 2 ^ 60)
    (hcapacity : p.capacityBlocks < 2 ^ 61) (reads : List StreamRead) :
    EveryStep p.after (ReadFits p) s reads :=
  (everyStep_unrestricted p.after s reads).imp (I := fun _ => True) (fun _ _ => trivial)
    (fun _ _ _ _ => Or.inr ⟨hoption, hcapacity⟩) trivial

theorem next_le_double {k depth : ℕ} (h : s.window ≤ 2 ^ k) : s.next depth ≤ 2 ^ (k + 1) := by
  have hone : 1 ≤ 2 ^ k := Nat.one_le_two_pow
  rw [ReadAhead.next, rampStart, pow_succ]
  split <;> omega

/-- So does every read of a short run: the window doubles with each. -/
theorem everyStep_fits_of_length {reads : List StreamRead} {k : ℕ} (hs : s.window ≤ 2 ^ k)
    (hlength : reads.length + k ≤ 59) : EveryStep p.after (ReadFits p) s reads := by
  induction reads generalizing s k with
  | nil => trivial
  | cons r reads ih =>
      rw [List.length_cons] at hlength
      have hk : 2 ^ k ≤ 2 ^ 58 := Nat.pow_le_pow_right (by omega) (by omega)
      have hwindow : s.window < 2 ^ 60 := by omega
      have hfits : ReadFits p s r := fun _ hwide => by omega
      refine ⟨hfits, ih (k := k + 1) ?_ (by omega)⟩
      rw [after_eq hwindow hfits]
      show (if _ then 0 else _) ≤ _
      split
      · exact Nat.zero_le _
      · exact next_le_double hs

/-- **Read-ahead asks for the next blocks only**, at open and behind every read,
exactly when the window at open fits and so does that of each read. -/
theorem read_ahead_next_iff (p : Prefetch) (fileSize : Option ℕ) (media : Bool)
    (reads : List StreamRead) :
    ((∃ blocks, p.primeOpen fileSize media = .ok blocks ∧
        ∀ total, p.totalBlocks fileSize = some total → OpenListed total blocks) ∧
      EveryStep p.after (ReadsNext p) .new reads) ↔
    (∀ total, p.totalBlocks fileSize = some total → OpenFits total p.prefetchBlocks media) ∧
      EveryStep p.after (ReadFits p) .new reads := by
  have hreads := everyStep_readsNext_iff (p := p) (s := .new) (by simp [ReadAhead.new]) reads
  refine and_congr ?_ hreads
  rw [Prefetch.primeOpen]
  cases htotal : p.totalBlocks fileSize with
  | none => simp
  | some total => simpa using openWindow_iff

/-! A reader that streams, on a mount with a depth no vector can hold. -/

/-- Reads of a page each, one after the other. -/
def stream : (n offset : ℕ) → offset + n * 4096 < 2 ^ 63 → List StreamRead
  | 0, _, _ => []
  | n + 1, offset, h =>
      { offset := offset, size := 4096, connections := 1, fileSize := none,
        offset_lt := by omega, size_pos := by omega, size_lt := by omega } ::
        stream n (offset + 4096) (by omega)

/-- What is kept of one read of a stream, and of the window before it. -/
theorem after_stream (hp : 2 ^ 60 ≤ p.prefetchBlocks) {r : StreamRead} (hone : r.connections = 1)
    (hs : s.window < 2 ^ 59) (hsequential : s.nextOffset = some r.offset) :
    p.after s r = ⟨some (r.offset + r.size), if s.window = 0 then 2 else s.window * 2⟩ := by
  have hdepth : 2 ^ 60 ≤ p.depth r := by
    have hnot := depth_lt (p := p) (r := r)
    rw [hone] at hnot
    omega
  rw [after_eq (by omega) (fun _ hwide => by omega), if_neg (by simp [hsequential]; omega),
    ReadAhead.next, rampStart]
  congr 1
  split <;> omega

theorem stream_fails (hp : 2 ^ 60 ≤ p.prefetchBlocks) (n k offset : ℕ)
    (h : offset + (n + 1) * 4096 < 2 ^ 63) (hk : n + k = 59) :
    ¬EveryStep p.after (ReadFits p) ⟨some offset, 2 ^ k⟩ (stream (n + 1) offset h) := by
  induction n generalizing k offset with
  | zero =>
      obtain rfl : k = 59 := by omega
      rintro ⟨hfits, _⟩
      have hsmall := hfits rfl le_rfl
      simp at hsmall
      omega
  | succ n ih =>
      have hlt : 2 ^ k < 2 ^ 59 := Nat.pow_lt_pow_right (by omega) (by omega)
      rintro ⟨_, hrest⟩
      rw [after_stream hp rfl hlt rfl, if_neg (Nat.two_pow_pos k).ne', ← pow_succ] at hrest
      exact ih (k + 1) (offset + 4096) (by omega) (by omega) hrest

/-- The first read of a stream has none to go on from. -/
theorem after_first {r : StreamRead} : p.after .new r = ⟨some (r.offset + r.size), 0⟩ := by
  have hfirst : (ReadAhead.new.nextOffset ≠ some r.offset ∨ p.depth r = 0) :=
    Or.inl (by simp [ReadAhead.new])
  rw [after_eq (by simp [ReadAhead.new]) (fun h => by simp [ReadAhead.new] at h), if_pos hfirst]

/-- A depth of `2 ^ 61` blocks of one byte is too much at open, and one of `2 ^ 60`
for a reader that keeps on. -/
theorem read_ahead_panics :
    (⟨1, Nat.one_pos, 2 ^ 61, 2 ^ 28⟩ : Prefetch).primeOpen (some (2 ^ 61)) true =
        .error .capacityOverflow ∧
      ¬EveryStep (Prefetch.after ⟨2 ^ 18, by omega, 2 ^ 60, 2 ^ 10⟩)
        (ReadsNext ⟨2 ^ 18, by omega, 2 ^ 60, 2 ^ 10⟩) .new (stream 61 0 (by omega)) := by
  refine ⟨rfl, fun h => ?_⟩
  rw [everyStep_readsNext_iff (by simp [ReadAhead.new])] at h
  obtain ⟨_, _, hrest⟩ := h
  rw [after_first, after_stream le_rfl rfl (by simp) rfl] at hrest
  exact stream_fails le_rfl 58 1 8192 (by omega) rfl hrest

end Runs

end SynologyFilestation.Fuse
