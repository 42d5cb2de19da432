import Mathlib.Data.Nat.ModEq

/-!
A cursor that goes round a range of so many places.

The place at each turn is a remainder. The same place comes again after a whole
round and not before, and in a round every place comes.
-/

namespace SynologyFilestation.Library

variable {size start : ℕ}

/-- Where a cursor is that started here, after so many turns. -/
def rotation (size start turn : ℕ) : ℕ := (start + turn) % size

theorem rotation_lt (hsize : 0 < size) (turn : ℕ) : rotation size start turn < size :=
  Nat.mod_lt _ hsize

theorem rotation_succ (size start turn : ℕ) :
    rotation size start (turn + 1) = (rotation size start turn + 1) % size :=
  (Nat.mod_add_mod (start + turn) size 1).symm

/-- A place comes again only after a whole round. -/
theorem round_of_rotation_eq {i j : ℕ} (h : rotation size start i = rotation size start j)
    (hlt : i < j) : i + size ≤ j := by
  have hmod : i ≡ j [MOD size] := Nat.ModEq.add_left_cancel' start h
  have hdvd : size ∣ j - i := (Nat.modEq_iff_dvd' hlt.le).mp hmod
  have hle : size ≤ j - i := Nat.le_of_dvd (Nat.sub_pos_of_lt hlt) hdvd
  omega

/-- In a round every place comes. -/
theorem exists_rotation_eq (start turn : ℕ) {place : ℕ} (hplace : place < size) :
    ∃ i < size, rotation size start (turn + i) = place := by
  have hsize : 0 < size := Nat.zero_lt_of_lt hplace
  have hnow : (start + turn) % size < size := Nat.mod_lt _ hsize
  refine ⟨(place + (size - (start + turn) % size)) % size, Nat.mod_lt _ hsize, ?_⟩
  calc (start + (turn + (place + (size - (start + turn) % size)) % size)) % size
      = ((start + turn) % size + (place + (size - (start + turn) % size))) % size := by
        rw [← Nat.add_assoc, Nat.add_mod_mod, Nat.mod_add_mod]
    _ = (place + size) % size := by congr 1; omega
    _ = place := by rw [Nat.add_mod_right, Nat.mod_eq_of_lt hplace]

end SynologyFilestation.Library
