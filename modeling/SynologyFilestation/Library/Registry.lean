import SynologyFilestation.Library.Table
import Mathlib.Data.Nat.Notation

/-!
A registry of shared records. Users ask for the record of a key: they get the one
that the registry has, or a new one. Records that nobody holds may be struck off
at any time, so a record is named by the order in which it was made. Whoever asks
with one key while another holds its record gets the same.
-/

namespace SynologyFilestation.Library

open Function

variable {κ ι : Type*}

structure Registry (κ : Type*) where
  entry : κ → Option ℕ
  /-- Records made so far. -/
  made : ℕ

namespace Registry

def empty : Registry κ := ⟨fun _ => none, 0⟩

/-- Every user holds the record that the registry has under its key, and a record is
under one key only. -/
structure Sound (r : Registry κ) (holds : ι → Option (κ × ℕ)) : Prop where
  numbered {k n} : r.entry k = some n → n < r.made
  one {k k' n} : r.entry k = some n → r.entry k' = some n → k = k'
  held {i k n} : holds i = some (k, n) → r.entry k = some n

variable {r r' : Registry κ} {holds holds' : ι → Option (κ × ℕ)} {i j : ι} {k k' : κ} {n n' : ℕ}

theorem sound_empty (hnone : ∀ i, holds i = none) : (empty : Registry κ).Sound holds where
  numbered := nofun
  one := nofun
  held hi := by cases (hnone _).symm.trans hi

/-- Users of one key that hold records at a time hold the same. -/
theorem Sound.shared (h : r.Sound holds) (hi : holds i = some (k, n))
    (hj : holds j = some (k, n')) : n = n' :=
  Option.some.inj ((h.held hi).symm.trans (h.held hj))

/-- Users that let go of their records, or get the record of their key. -/
theorem Sound.use (h : r.Sound holds)
    (hsub : ∀ i k n, holds' i = some (k, n) → holds i = some (k, n) ∨ r.entry k = some n) :
    r.Sound holds' where
  numbered := h.numbered
  one := h.one
  held hi := by
    rcases hsub _ _ _ hi with hold | hentry
    · exact h.held hold
    · exact hentry

/-- The records struck off are held by nobody. -/
theorem Sound.sub (h : r.Sound holds) (hmade : r'.made = r.made)
    (hsub : ∀ k n, r'.entry k = some n → r.entry k = some n)
    (hkeep : ∀ i k n, holds i = some (k, n) → r'.entry k = some n) : r'.Sound holds where
  numbered hk := hmade ▸ h.numbered (hsub _ _ hk)
  one hk hk' := h.one (hsub _ _ hk) (hsub _ _ hk')
  held hi := hkeep _ _ _ hi

section Entries

variable [DecidableEq κ]

/-- A new record under the key. -/
def enter (r : Registry κ) (k : κ) : Registry κ := ⟨update r.entry k (some r.made), r.made + 1⟩

def strike (r : Registry κ) (k : κ) : Registry κ := { r with entry := update r.entry k none }

/-- A key without a record: nobody holds one for it. -/
theorem Sound.enter (h : r.Sound holds) (hk : r.entry k = none) : (r.enter k).Sound holds where
  numbered {k' n} hk' := by
    show n < r.made + 1
    rcases update_eq_some hk' with ⟨_, rfl⟩ | ⟨_, hold⟩
    · exact Nat.lt_succ_self _
    · exact Nat.lt_succ_of_lt (h.numbered hold)
  one {k₁ k₂ n} hk₁ hk₂ := by
    -- the number of the new record is no other record's
    rcases update_eq_some hk₁ with ⟨heq₁, hn₁⟩ | ⟨_, hold₁⟩ <;>
      rcases update_eq_some hk₂ with ⟨heq₂, hn₂⟩ | ⟨_, hold₂⟩
    · exact heq₁.trans heq₂.symm
    · exact (Nat.lt_irrefl _ (hn₁ ▸ h.numbered hold₂)).elim
    · exact (Nat.lt_irrefl _ (hn₂ ▸ h.numbered hold₁)).elim
    · exact h.one hold₁ hold₂
  held {_ k' n} hi := by
    have hold := h.held hi
    have hne : k' ≠ k := by
      rintro rfl
      cases hk.symm.trans hold
    exact (update_of_ne hne _ r.entry).trans hold

theorem entry_enter : (r.enter k).entry k = some r.made := update_self k _ r.entry

/-- Nobody holds the record. -/
theorem Sound.strike (h : r.Sound holds) (hnone : ∀ i n, holds i ≠ some (k, n)) :
    (r.strike k).Sound holds := by
  refine h.sub rfl (fun k' n hk' => (update_none_eq_some hk').2) fun i k' n hi => ?_
  have hne : k' ≠ k := by
    rintro rfl
    exact hnone i n hi
  exact (update_of_ne hne _ r.entry).trans (h.held hi)

end Entries

end Registry

end SynologyFilestation.Library
