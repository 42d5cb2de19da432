import Mathlib.Logic.Function.Basic

/-!
Tables of records under keys, of which one entry changes at a time.

A table is a partial function. What an updated table holds is the new entry or
an old one, and a property that every record keeps when its entry changes is
one that what the table holds keeps.
-/

namespace SynologyFilestation.Library

open Function (update update_self update_of_ne)

variable {ι β : Type*} [DecidableEq ι] {table : ι → Option β} {i j : ι} {x y z : β}

theorem update_eq_some (h : update table i (some y) j = some x) :
    j = i ∧ x = y ∨ j ≠ i ∧ table j = some x := by
  rcases eq_or_ne j i with rfl | hne
  · rw [update_self] at h
    exact Or.inl ⟨rfl, (Option.some.inj h).symm⟩
  · rw [update_of_ne hne] at h
    exact Or.inr ⟨hne, h⟩

/-- What is still in a table is not what was taken out of it. -/
theorem update_none_eq_some (h : update table i none j = some x) : j ≠ i ∧ table j = some x := by
  rcases eq_or_ne j i with rfl | hne
  · rw [update_self] at h
    cases h
  · rw [update_of_ne hne] at h
    exact ⟨hne, h⟩

/-- All that a table with one entry holds. -/
theorem update_empty_eq_some (h : update (fun _ : ι => none) i (some y) j = some x) :
    j = i ∧ x = y := by
  rcases update_eq_some h with hnew | ⟨_, hold⟩
  · exact hnew
  · cases hold

/-- A record that a table holds is held still when an entry changes, with what the
change keeps of it. -/
theorem exists_update (hy : table i = some y) {P Q : β → Prop}
    (h : ∃ x, table j = some x ∧ P x) (hsame : ∀ x, P x → Q x) (hnew : P y → Q z) :
    ∃ x, update table i (some z) j = some x ∧ Q x := by
  obtain ⟨x, hx, hP⟩ := h
  rcases eq_or_ne j i with rfl | hne
  · obtain rfl : y = x := Option.some.inj (hy.symm.trans hx)
    exact ⟨z, update_self .., hnew hP⟩
  · exact ⟨x, (update_of_ne hne ..).trans hx, hsame x hP⟩

/-- A new entry takes no other's place. -/
theorem exists_update_new (hnew : table i = none) {P : β → Prop}
    (h : ∃ x, table j = some x ∧ P x) : ∃ x, update table i (some y) j = some x ∧ P x := by
  obtain ⟨x, hx, hP⟩ := h
  have hne : j ≠ i := by
    rintro rfl
    cases hnew.symm.trans hx
  exact ⟨x, (update_of_ne hne ..).trans hx, hP⟩

end SynologyFilestation.Library
