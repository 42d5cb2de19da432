import Mathlib.Data.List.Basic

/-!
Stories of something that is on or off: a turn for each time that it changes. Turns
alternate if each is to the other side than the one before.
-/

namespace SynologyFilestation.Library

/-- Every turn changes something that is on, or off, at first. -/
def Alternates : Bool → List Bool → Prop
  | _, [] => True
  | on, turn :: turns => turn = !on ∧ Alternates turn turns

/-- How it is in the end. -/
def turned : Bool → List Bool → Bool
  | on, [] => on
  | _, turn :: turns => turned turn turns

variable {on : Bool} {turns turns' : List Bool}

theorem alternates_append : Alternates on (turns ++ turns') ↔
    Alternates on turns ∧ Alternates (turned on turns) turns' := by
  induction turns generalizing on with
  | nil => exact (and_iff_right trivial).symm
  | cons turn turns ih => rw [List.cons_append, Alternates, Alternates, turned, ih, and_assoc]

@[simp] theorem turned_append : turned on (turns ++ turns') = turned (turned on turns) turns' := by
  induction turns generalizing on with
  | nil => rfl
  | cons turn turns ih => exact ih

/-- The story of one change, or of none. -/
def change (before after : Bool) : List Bool := if before = after then [] else [after]

theorem change_alternates (before after : Bool) : Alternates before (change before after) := by
  cases before <;> cases after <;> simp [change, Alternates]

@[simp] theorem turned_change (before after : Bool) :
    turned before (change before after) = after := by
  cases before <;> cases after <;> rfl

end SynologyFilestation.Library
