import Mathlib.Data.List.ReduceOption

/-!
The first of several deadlines, some of which may not be there.
-/

namespace SynologyFilestation.Library

variable {α : Type*} [Min α]

def earliest (deadlines : List (Option α)) : Option α := deadlines.reduceOption.min?

variable [LE α] [Std.IsLinearOrder α] [Std.LawfulOrderMin α] {deadlines : List (Option α)} {a : α}

/-- It is one of them. -/
theorem mem_of_earliest (h : earliest deadlines = some a) : some a ∈ deadlines :=
  List.reduceOption_mem_iff.mp (List.min?_mem h)

/-- None of them is before it. -/
theorem exists_earliest_le (h : some a ∈ deadlines) :
    ∃ b, earliest deadlines = some b ∧ b ≤ a := by
  have hmem := List.reduceOption_mem_iff.mpr h
  cases hmin : earliest deadlines with
  | none =>
      rw [List.min?_eq_none_iff.mp hmin] at hmem
      cases hmem
  | some b => exact ⟨b, rfl, (List.min?_eq_some_iff.mp hmin).2 a hmem⟩

end SynologyFilestation.Library
