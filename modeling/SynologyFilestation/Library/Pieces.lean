import SynologyFilestation.Library.Patch

/-!
An array filled by its pieces in any order, and one read by its pieces.

The pieces are cut from `data`, `left` are those still to be written. Whatever
the order, a position that none of them covers holds what `data` has there, so
when nothing is left the array is `data`. Pieces that are read one behind the
other and joined up to the first short one are what one read would give.
-/

namespace SynologyFilestation.Library

variable {α : Type*}

/-- The write covers the position. -/
def Covers (w : Write α) (i : ℕ) : Prop := w.1 ≤ i ∧ i < w.1 + w.2.length

/-- The write is a piece of `data`, where it lies there. -/
def CutFrom (data : List α) (w : Write α) : Prop :=
  ∀ j, j < w.2.length → w.2[j]? = data[w.1 + j]?

theorem cutFrom_writesFrom (front : List α) (chunks : List (List α)) :
    ∀ w ∈ writesFrom front.length chunks, CutFrom (front ++ chunks.flatten) w := by
  induction chunks generalizing front with
  | nil => exact nofun
  | cons first chunks ih =>
      intro w hw
      rw [writesFrom] at hw
      rcases List.mem_cons.mp hw with rfl | hw
      · intro j hj
        rw [List.flatten_cons, List.getElem?_append_right (Nat.le_add_right ..),
          Nat.add_sub_cancel_left, List.getElem?_append_left hj]
      · rw [List.flatten_cons, ← List.append_assoc]
        apply ih (front ++ first)
        rwa [List.length_append]

theorem covered_writesFrom {offset i : ℕ} {chunks : List (List α)} (hlow : offset ≤ i)
    (hhigh : i < offset + chunks.flatten.length) : ∃ w ∈ writesFrom offset chunks, Covers w i := by
  induction chunks generalizing offset with
  | nil =>
      simp only [List.flatten_nil, List.length_nil] at hhigh
      omega
  | cons first chunks ih =>
      by_cases hfirst : i < offset + first.length
      · exact ⟨(offset, first), .head _, hlow, hfirst⟩
      · rw [List.flatten_cons, List.length_append] at hhigh
        obtain ⟨w, hw, hcovers⟩ := ih (Nat.le_of_not_lt hfirst) (by omega)
        exact ⟨w, .tail _ hw, hcovers⟩

structure Filling (data : List α) (left : List (Write α)) (content : List α) : Prop where
  pieces : ∀ w ∈ left, CutFrom data w
  within : content.length ≤ data.length
  filled : ∀ i, i < data.length → (∀ w ∈ left, ¬Covers w i) → content[i]? = data[i]?

theorem filling_nil (chunks : List (List α)) :
    Filling chunks.flatten (writesFrom 0 chunks) [] where
  pieces := cutFrom_writesFrom [] chunks
  within := Nat.zero_le _
  filled i hi huncovered := by
    obtain ⟨w, hw, hcovers⟩ := covered_writesFrom (Nat.zero_le i) (by rwa [Nat.zero_add])
    exact (huncovered w hw hcovers).elim

theorem Filling.eq {data content : List α} (h : Filling data [] content) : content = data := by
  refine List.ext_getElem? fun i => ?_
  by_cases hi : i < data.length
  · exact h.filled i hi nofun
  · have hwithin := h.within
    rw [List.getElem?_eq_none (by omega), List.getElem?_eq_none (by omega)]

theorem Filling.write [Zero α] {data content : List α} {w : Write α} {before after : List (Write α)}
    (h : Filling data (before ++ w :: after) content) :
    Filling data (before ++ after) (patch content w.1 w.2) := by
  have hpiece := h.pieces w (by simp)
  have hlength : (patch content w.1 w.2).length ≤ data.length := by
    rw [length_patch]
    split
    case isTrue => exact h.within
    case isFalse hne =>
      have hpos : 0 < w.2.length := List.length_pos_iff.mpr hne
      have hlast := hpiece (w.2.length - 1) (by omega)
      rw [List.getElem?_eq_getElem (by omega)] at hlast
      obtain ⟨hlt, _⟩ := List.getElem?_eq_some_iff.mp hlast.symm
      exact max_le h.within (by omega)
  refine ⟨fun v hv => h.pieces v ?_, hlength, fun i hi huncovered => ?_⟩
  · rcases List.mem_append.mp hv with hv | hv
    · exact List.mem_append_left _ hv
    · exact List.mem_append_right _ (.tail _ hv)
  · have hread := getD_patch content w.1 w.2 i
    by_cases hcovers : Covers w i
    · -- The piece itself.
      have hcond : w.1 ≤ i ∧ i < w.1 + w.2.length := hcovers
      rw [if_pos hcond] at hread
      have hin : i < (patch content w.1 w.2).length := by
        rw [length_patch, if_neg (by rintro hnil; simp [Covers, hnil] at hcovers; omega)]
        exact lt_of_lt_of_le hcovers.2 (le_max_right _ _)
      have hj : i - w.1 < w.2.length := by have := hcovers.2; have := hcovers.1; omega
      have hsame := hpiece (i - w.1) hj
      rw [Nat.add_sub_cancel' hcovers.1] at hsame
      rw [List.getD_eq_getElem _ _ hin, List.getD_eq_getElem _ _ hj] at hread
      rw [List.getElem?_eq_getElem hin, hread, ← hsame, List.getElem?_eq_getElem hj]
    · -- Filled before, and kept.
      have hold : content[i]? = data[i]? := by
        refine h.filled i hi fun v hv => ?_
        rcases List.mem_append.mp hv with hv | hv
        · exact huncovered v (List.mem_append_left _ hv)
        · rcases List.mem_cons.mp hv with rfl | hv
          · exact hcovers
          · exact huncovered v (List.mem_append_right _ hv)
      have hin : i < content.length := by
        rw [List.getElem?_eq_getElem hi] at hold
        exact (List.getElem?_eq_some_iff.mp hold).1
      have hin' : i < (patch content w.1 w.2).length := by
        rw [length_patch]
        split
        · exact hin
        · exact lt_of_lt_of_le hin (le_max_left _ _)
      have hcond : ¬(w.1 ≤ i ∧ i < w.1 + w.2.length) := hcovers
      rw [if_neg hcond, List.getD_eq_getElem _ _ hin', List.getD_eq_getElem _ _ hin] at hread
      rw [List.getElem?_eq_getElem hin', hread, ← List.getElem?_eq_getElem hin, hold]

/-! ### Reading -/

/-- What a read of `length` elements at `pos` gives: fewer at the end. -/
def slice (data : List α) (pos length : ℕ) : List α := (data.drop pos).take length

theorem length_slice (data : List α) (pos length : ℕ) :
    (slice data pos length).length = min length (data.length - pos) := by
  rw [slice, List.length_take, List.length_drop]

theorem slice_add (data : List α) (pos first second : ℕ) :
    slice data pos (first + second) = slice data pos first ++ slice data (pos + first) second := by
  rw [slice, List.take_add, List.drop_drop]
  rfl

theorem slice_zero (data : List α) (pos : ℕ) : slice data pos 0 = [] := List.take_zero

/-- Nothing follows a short read. -/
theorem slice_of_short {data : List α} {pos first : ℕ} (h : (slice data pos first).length < first)
    (second : ℕ) : slice data pos (first + second) = slice data pos first := by
  rw [length_slice] at h
  have hend : slice data (pos + first) second = [] := by
    rw [slice, List.drop_eq_nil_of_le (by omega), List.take_nil]
  rw [slice_add, hend, List.append_nil]

/-- Parts with the lengths that were asked for, joined up to the first short one. -/
def joinParts : List (List α × ℕ) → List α
  | [] => []
  | (part, length) :: rest => if part.length < length then part else part ++ joinParts rest

/-- The parts of a read, one behind the other. -/
def slices (data : List α) : ℕ → List ℕ → List (List α × ℕ)
  | _, [] => []
  | pos, length :: lengths =>
      (slice data pos length, length) :: slices data (pos + length) lengths

theorem joinParts_slices (data : List α) (pos : ℕ) (lengths : List ℕ) :
    joinParts (slices data pos lengths) = slice data pos lengths.sum := by
  induction lengths generalizing pos with
  | nil => exact (slice_zero data pos).symm
  | cons length lengths ih =>
      rw [slices, joinParts, List.sum_cons]
      split
      case isTrue hshort => exact (slice_of_short hshort _).symm
      case isFalse => rw [ih, slice_add]

end SynologyFilestation.Library
