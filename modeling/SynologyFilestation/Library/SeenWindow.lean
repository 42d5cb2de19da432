import Mathlib.Data.Set.Insert
import Mathlib.Data.BitVec

/-!
Which of the last `n` numbers were seen, one bit each.

Bit `i` stands for the number `i` behind the highest. The window moves up to a
new highest number or marks one that it still covers; either way it records one
number more.
-/

namespace SynologyFilestation.Library

variable {n highest k : ℕ} {bits : BitVec n} {seen : Set ℕ}

/-- The bits are right about the numbers they cover, and no number lies above. -/
structure Records (highest : ℕ) (bits : BitVec n) (seen : Set ℕ) : Prop where
  le : ∀ k ∈ seen, k ≤ highest
  bit : ∀ i < n, bits.getLsbD i = true ↔ i ≤ highest ∧ highest - i ∈ seen

theorem records_empty : Records 0 (0#n) ∅ where
  le _ h := h.elim
  bit i _ := by simp

/-- A number the window covers is marked if it was seen. -/
theorem Records.covered (h : Records highest bits seen) (hle : k ≤ highest)
    (hcovers : highest - k < n) : bits.getLsbD (highest - k) = true ↔ k ∈ seen := by
  rw [h.bit _ hcovers, Nat.sub_sub_self hle]
  exact and_iff_right (Nat.sub_le ..)

theorem Records.notMem_of_lt (h : Records highest bits seen) (hlt : highest < k) : k ∉ seen :=
  fun hk => absurd (h.le k hk) (Nat.not_le_of_lt hlt)

/-- A new highest number: the others move up, out of the window for a long way. -/
theorem Records.advance (h : Records highest bits seen) (hlt : highest < k) :
    Records k (bits <<< (k - highest) ||| 1#n) (insert k seen) where
  le j hj := by
    rcases hj with rfl | hj
    · exact Nat.le_refl _
    · exact (h.le j hj).trans hlt.le
  bit i hi := by
    rw [BitVec.getLsbD_or, BitVec.getLsbD_shiftLeft, BitVec.getLsbD_one]
    rcases Nat.eq_zero_or_pos i with rfl | hpos
    · have hn : 0 < n := hi
      simp [hn]
    · have hne : k - i ≠ k := by omega
      simp only [hi, decide_true, Bool.true_and, Bool.or_eq_true, Bool.and_eq_true,
        Bool.not_eq_true', decide_eq_false_iff_not, decide_eq_true_eq, Set.mem_insert_iff]
      constructor
      · rintro (⟨hmoved, hbit⟩ | ⟨-, rfl⟩)
        · obtain ⟨hle, hmem⟩ := (h.bit _ (by omega)).mp hbit
          have hsame : highest - (i - (k - highest)) = k - i := by omega
          exact ⟨by omega, .inr (hsame ▸ hmem)⟩
        · exact absurd hpos (Nat.lt_irrefl 0)
      · rintro ⟨hle, heq | hmem⟩
        · exact absurd heq hne
        · have hold := h.le _ hmem
          have hsame : highest - (i - (k - highest)) = k - i := by omega
          exact .inl ⟨by omega, (h.bit _ (by omega)).mpr ⟨by omega, hsame ▸ hmem⟩⟩

/-- A number the window covers is marked. -/
theorem Records.mark (h : Records highest bits seen) (hle : k ≤ highest) :
    Records highest (bits ||| 1#n <<< (highest - k)) (insert k seen) where
  le j hj := by
    rcases hj with rfl | hj
    · exact hle
    · exact h.le j hj
  bit i hi := by
    rw [BitVec.getLsbD_or, BitVec.getLsbD_shiftLeft, BitVec.getLsbD_one]
    have hn : 0 < n := by omega
    simp only [hi, hn, decide_true, Bool.true_and, Bool.or_eq_true, Bool.and_eq_true,
      Bool.not_eq_true', decide_eq_false_iff_not, decide_eq_true_eq, Set.mem_insert_iff, h.bit i hi]
    constructor
    · rintro (⟨hile, hmem⟩ | ⟨hlow, heq⟩)
      · exact ⟨hile, .inr hmem⟩
      · exact ⟨by omega, .inl (by omega)⟩
    · rintro ⟨hile, heq | hmem⟩
      · exact .inr ⟨by omega, by omega⟩
      · exact .inl ⟨hile, hmem⟩

end SynologyFilestation.Library
