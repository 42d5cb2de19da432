import Mathlib.Logic.Basic

/-!
Steps that change a state and may fail, one behind the other.

A step that fails ends the sequence, and what the steps before it have changed
stays changed.
-/

namespace SynologyFilestation.Library

variable {ε σ : Type*}

/-- The next step, if the last one has not failed. -/
def andThen (done : Except ε Unit × σ) (next : σ → Except ε Unit × σ) : Except ε Unit × σ :=
  match done with
  | (.ok (), s) => next s
  | (.error e, s) => (.error e, s)

variable {done : Except ε Unit × σ} {next : σ → Except ε Unit × σ} {s t : σ} {e : ε}

@[simp] theorem andThen_ok : andThen (.ok (), s) next = next s := rfl

@[simp] theorem andThen_error : andThen (.error e, s) next = (.error e, s) := rfl

theorem andThen_eq_ok :
    andThen done next = (.ok (), t) ↔ ∃ s, done = (.ok (), s) ∧ next s = (.ok (), t) := by
  rcases done with ⟨_ | ⟨⟩, s⟩
  · exact ⟨nofun, fun ⟨_, h, _⟩ => nomatch h⟩
  · constructor
    · exact fun h => ⟨s, rfl, h⟩
    · rintro ⟨_, ⟨⟩, h⟩
      exact h

/-- What holds after every step holds at the end, wherever the sequence ends. -/
theorem andThen_invariant {P : σ → Prop} (hdone : P done.2)
    (hnext : ∀ s, done = (.ok (), s) → P (next s).2) : P (andThen done next).2 := by
  rcases done with ⟨_ | ⟨⟩, s⟩
  · exact hdone
  · exact hnext s rfl

end SynologyFilestation.Library
