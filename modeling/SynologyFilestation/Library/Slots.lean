import SynologyFilestation.Library.Table
import Mathlib.Data.List.Basic
import Mathlib.Data.List.Range

/-!
Numbered slots that hold names, and moves of what they hold to the next slot.

Names are numbers, and the greater is the younger. In a row of slots that is `Aged`
the slots further up hold the older names; moving names up and taking them out keeps
it so. `shift` moves the names one slot up each, from the far end down, and stops at
the first that cannot be moved.
-/

namespace SynologyFilestation.Library

open Function (update update_self update_of_ne)

abbrev Slots := ℕ → Option ℕ

namespace Slots

/-- Further up are older names. -/
def Aged (top : ℕ) (slots : Slots) : Prop :=
  ∀ i j f g, i < j → j ≤ top → slots i = some f → slots j = some g → g < f

def Holds (top : ℕ) (slots : Slots) (f : ℕ) : Prop := ∃ n ≤ top, slots n = some f

def vacate (n : ℕ) (slots : Slots) : Slots := update slots n none

/-- To the next slot, in place of what it held. -/
def move (n : ℕ) (slots : Slots) : Slots := update (update slots (n + 1) (slots n)) n none

/-- The slots from `n` down to the first, each moved up if it holds something. -/
def shift (allowed : ℕ → Bool) : ℕ → Slots → Slots × Bool
  | 0, slots => (slots, true)
  | n + 1, slots =>
      if slots (n + 1) = none then shift allowed n slots
      else if allowed (n + 1) then shift allowed n (slots.move (n + 1))
      else (slots, false)

/-- The names, the oldest first. -/
def names (top : ℕ) (slots : Slots) : List ℕ := (List.range (top + 1)).reverse.filterMap slots

section Lemmas

variable {top n m f : ℕ} {slots : Slots} {allowed : ℕ → Bool}

@[simp] theorem move_self : slots.move n n = none := update_self ..

@[simp] theorem move_succ : slots.move n (n + 1) = slots n := by
  rw [move, update_of_ne (by omega), update_self]

theorem move_of_ne (h : m ≠ n) (h' : m ≠ n + 1) : slots.move n m = slots m := by
  rw [move, update_of_ne h, update_of_ne h']

theorem Aged.vacate (h : Aged top slots) (n : ℕ) : Aged top (slots.vacate n) :=
  fun i j f g hij hj hf hg =>
    h i j f g hij hj (update_none_eq_some hf).2 (update_none_eq_some hg).2

/-- Where a name in a slot was before the move. -/
theorem of_move (h : slots.move n m = some f) :
    (m = n + 1 ∧ slots n = some f) ∨ (m ≠ n ∧ m ≠ n + 1 ∧ slots m = some f) := by
  rcases eq_or_ne m n with rfl | hne
  · simp at h
  · rcases eq_or_ne m (n + 1) with rfl | hne'
    · exact Or.inl ⟨rfl, by simpa using h⟩
    · exact Or.inr ⟨hne, hne', by rwa [move_of_ne hne hne'] at h⟩

theorem Aged.move (h : Aged top slots) (n : ℕ) : Aged top (slots.move n) := by
  intro i j f g hij hj hf hg
  rcases of_move hf with ⟨hi, hf⟩ | ⟨hi, hi', hf⟩ <;>
    rcases of_move hg with ⟨hj', hg⟩ | ⟨hj', hj'', hg⟩
  · omega
  · exact h n j f g (by omega) hj hf hg
  · exact h i n f g (by omega) (by omega) hf hg
  · exact h i j f g hij hj hf hg

theorem Aged.shift (h : Aged top slots) : Aged top (Slots.shift allowed n slots).1 := by
  induction n generalizing slots with
  | zero => exact h
  | succ n ih =>
      rw [Slots.shift]
      split_ifs
      · exact ih h
      · exact ih (h.move _)
      · exact h

/-- The slots beyond the next are left alone. -/
theorem shift_above (h : n + 1 < m) : (shift allowed n slots).1 m = slots m := by
  induction n generalizing slots with
  | zero => rfl
  | succ n ih =>
      rw [shift]
      split_ifs
      · exact ih (by omega)
      · rw [ih (by omega), move_of_ne (by omega) (by omega)]
      · rfl

@[simp] theorem shift_zero : (shift allowed n slots).1 0 = slots 0 := by
  induction n generalizing slots with
  | zero => rfl
  | succ n ih =>
      rw [shift]
      split_ifs
      · exact ih
      · rw [ih, move_of_ne (by omega) (by omega)]
      · rfl

/-- Nothing comes in, and nothing comes down. -/
theorem of_shift (h : (shift allowed n slots).1 m = some f) : ∃ k ≤ m, slots k = some f := by
  induction n generalizing slots with
  | zero => exact ⟨m, le_rfl, h⟩
  | succ n ih =>
      rw [shift] at h
      split_ifs at h
      · exact ih h
      · obtain ⟨k, hk, hslot⟩ := ih h
        rcases of_move hslot with ⟨rfl, hold⟩ | ⟨_, _, hold⟩
        · exact ⟨n + 1, by omega, hold⟩
        · exact ⟨k, hk, hold⟩
      · exact ⟨m, le_rfl, h⟩

/-- What stood anywhere but in the slot that is moved on to first is there still. -/
theorem holds_shift (htop : n + 1 ≤ top) (hm : m ≤ top) (hne : m ≠ n + 1)
    (h : slots m = some f) : Holds top (shift allowed n slots).1 f := by
  induction n generalizing slots m with
  | zero => exact ⟨m, hm, h⟩
  | succ n ih =>
      rw [shift]
      split_ifs with hempty hallowed
      · refine ih (by omega) hm ?_ h
        rintro rfl
        cases hempty.symm.trans h
      · rcases eq_or_ne m (n + 1) with rfl | hm'
        · -- It has moved up, out of the way of the rest.
          refine ⟨n + 2, htop, ?_⟩
          rw [shift_above (by omega), move_succ, h]
        · exact ih (by omega) hm hm' (by rw [move_of_ne hm' hne, h])
      · exact ⟨m, hm, h⟩

/-- What stood in the slot that is moved on to first, where nothing moves on to it. -/
theorem shift_first (h : slots (n + 1) = none ∨ allowed (n + 1) = false) :
    (shift allowed (n + 1) slots).1 (n + 2) = slots (n + 2) := by
  rw [shift]
  split_ifs with hempty hallowed
  · exact shift_above (by omega)
  · simp [hempty, hallowed] at h
  · rfl

/-- A shift that went through leaves room in the first slot. -/
theorem shift_room (hn : 0 < n) (h : (shift allowed n slots).2 = true) :
    (shift allowed n slots).1 1 = none := by
  induction n generalizing slots with
  | zero => omega
  | succ n ih =>
      rw [shift] at h ⊢
      split_ifs at h ⊢ with hempty hallowed
      · rcases Nat.eq_zero_or_pos n with rfl | hpos
        · exact hempty
        · exact ih hpos h
      · rcases Nat.eq_zero_or_pos n with rfl | hpos
        · show slots.move 1 1 = none
          exact move_self
        · exact ih hpos h

/-- It goes through if every name may be moved. -/
theorem shift_through : (shift allowed n slots).2 = true ↔
    ∀ m, 0 < m → m ≤ n → slots m ≠ none → allowed m = true := by
  induction n generalizing slots with
  | zero =>
      refine iff_of_true rfl fun m hpos hle => ?_
      omega
  | succ n ih =>
      have hlast : ∀ P : ℕ → Prop, (∀ m, 0 < m → m ≤ n + 1 → P m) ↔
          (∀ m, 0 < m → m ≤ n → P m) ∧ P (n + 1) := by
        refine fun P => ⟨fun h => ?_, ?_⟩
        · exact ⟨fun m hpos hle => h m hpos (by omega), h _ (by omega) le_rfl⟩
        · rintro ⟨h, hP⟩ m hpos hle
          rcases Nat.lt_or_eq_of_le hle with hlt | rfl
          · exact h m hpos (by omega)
          · exact hP
      rw [shift, hlast]
      split_ifs with hempty hallowed
      · simp [ih, hempty]
      · rw [ih, and_iff_left fun _ => hallowed]
        refine forall_congr' fun m => forall_congr' fun _ => forall_congr' fun hle => ?_
        rw [move_of_ne (by omega) (by omega)]
      · simp [hempty, hallowed]

/-- A younger name in the first slot. -/
theorem Aged.put (h : Aged top slots) (hf : ∀ g, Holds top slots g → g < f) :
    Aged top (update slots 0 (some f)) := by
  intro i j f' g hij hj hf' hg
  rw [update_of_ne (by omega)] at hg
  by_cases hi : i = 0
  · subst hi
    rw [update_self] at hf'
    cases hf'
    exact hf g ⟨j, hj, hg⟩
  · rw [update_of_ne hi] at hf'
    exact h i j f' g hij hj hf' hg

/-- In a row without gaps the names go down by one a slot at least. -/
theorem Aged.add_le (h : Aged top slots) (hm : m ≤ top) (hfull : ∀ k < m, slots k ≠ none)
    {g : ℕ} (hf : slots 0 = some f) (hg : slots m = some g) : g + m ≤ f := by
  induction m generalizing g with
  | zero =>
      obtain rfl := Option.some.inj (hf.symm.trans hg)
      exact le_rfl
  | succ m ih =>
      obtain ⟨k, hk⟩ := Option.ne_none_iff_exists'.mp (hfull m (Nat.lt_succ_self m))
      have hlt := h m (m + 1) k g (Nat.lt_succ_self m) hm hk hg
      have hle := ih (by omega) (fun i hi => hfull i (by omega)) hk
      omega

theorem mem_names : f ∈ slots.names top ↔ Holds top slots f := by
  simp only [names, List.mem_filterMap, List.mem_reverse, List.mem_range, Holds,
    Nat.lt_succ_iff]

theorem Aged.names_sorted (h : Aged top slots) : (slots.names top).Pairwise (· < ·) := by
  rw [names, List.pairwise_filterMap, List.pairwise_reverse]
  refine List.pairwise_lt_range.imp_of_mem fun hi hj hij g hg f hf => ?_
  exact h _ _ f g hij (Nat.lt_succ_iff.mp (List.mem_range.mp hj)) hf hg

end Lemmas

end Slots

end SynologyFilestation.Library
