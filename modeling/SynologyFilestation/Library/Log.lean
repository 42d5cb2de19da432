import Mathlib.Data.List.Infix

/-!
Logs: lists that only grow at their end. An entry stays where it is.
-/

namespace SynologyFilestation.Library

variable {α : Type*} {log : List α} {i : ℕ} {a x : α}

/-- All that a log with one more entry holds. -/
theorem getElem?_concat_eq_some (h : (log ++ [x])[i]? = some a) :
    log[i]? = some a ∨ i = log.length ∧ a = x := by
  rcases Nat.lt_trichotomy i log.length with hlt | rfl | hgt
  · rw [List.getElem?_append_left hlt] at h
    exact .inl h
  · rw [List.getElem?_concat_length] at h
    exact .inr ⟨rfl, (Option.some.inj h).symm⟩
  · rw [List.getElem?_eq_none (by rw [List.length_append]; exact hgt)] at h
    cases h

theorem getElem?_concat_of_some (h : log[i]? = some a) : (log ++ [x])[i]? = some a :=
  (List.getElem?_append_left (List.getElem?_eq_some_iff.mp h).1).trans h

end SynologyFilestation.Library
