import Mathlib.Data.List.Perm.Basic
import Mathlib.Data.List.Nodup
import Mathlib.Algebra.Order.BigOperators.Group.List
import Mathlib.Algebra.Order.Group.Nat
import Mathlib.Data.UInt

/-!
Tokens in many hands.

Tokens are numbered as they are made. At any time each of them is in one hand or was given back,
and none is in two hands or came back twice. Whoever passes tokens on changes nothing about
that.
-/

namespace SynologyFilestation.Library

section Hands

variable {α β : Type*} {hands : List α} {i j : ℕ} {x y : α}

/-- What is held by one of many, and by the others, whatever that one does. -/
theorem exists_flatMap_set (held : α → List β) (h : hands[i]? = some x) :
    ∃ rest, (hands.flatMap held).Perm (held x ++ rest) ∧
      ∀ y, ((hands.set i y).flatMap held).Perm (held y ++ rest) := by
  obtain ⟨hlt, rfl⟩ := List.getElem?_eq_some_iff.mp h
  refine ⟨(hands.take i).flatMap held ++ (hands.drop (i + 1)).flatMap held, ?_, fun y => ?_⟩
  · conv_lhs => rw [← List.take_append_drop i hands, List.drop_eq_getElem_cons hlt]
    rw [List.flatMap_append, List.flatMap_cons]
    exact List.perm_append_comm_assoc ..
  · rw [List.set_eq_take_append_cons_drop, if_pos hlt, List.flatMap_append, List.flatMap_cons]
    exact List.perm_append_comm_assoc ..

theorem sum_map_set (share : α → ℕ) (h : hands[i]? = some x) (y : α) :
    ((hands.set i y).map share).sum + share x = (hands.map share).sum + share y := by
  obtain ⟨hlt, rfl⟩ := List.getElem?_eq_some_iff.mp h
  conv_rhs => rw [← List.take_append_drop i hands, List.drop_eq_getElem_cons hlt]
  rw [List.set_eq_take_append_cons_drop, if_pos hlt]
  simp only [List.map_append, List.map_cons, List.sum_append, List.sum_cons]
  omega

theorem share_le_sum (share : α → ℕ) (h : x ∈ hands) : share x ≤ (hands.map share).sum :=
  List.le_sum_of_mem (List.mem_map_of_mem h)

/-- Where the shares are one at the most, only one of many has any. -/
theorem index_unique (share : α → ℕ) (h : (hands.map share).sum ≤ 1) (hi : hands[i]? = some x)
    (hj : hands[j]? = some y) (hx : 0 < share x) (hy : 0 < share y) : i = j := by
  induction hands generalizing i j with
  | nil => cases hi
  | cons first hands ih =>
      rw [List.map_cons, List.sum_cons] at h
      have hrest {k : ℕ} {z : α} (hk : (first :: hands)[k + 1]? = some z) :
          share z ≤ (hands.map share).sum :=
        share_le_sum share (List.mem_of_getElem? hk)
      cases i with
      | zero =>
          obtain rfl : first = x := Option.some.inj hi
          cases j with
          | zero => rfl
          | succ j =>
              have hle := hrest hj
              omega
      | succ i =>
          cases j with
          | zero =>
              obtain rfl : first = y := Option.some.inj hj
              have hle := hrest hi
              omega
          | succ j => exact congrArg Nat.succ (ih (by omega) hi hj)

theorem exists_share (share : α → ℕ) (h : 0 < (hands.map share).sum) :
    ∃ (i : ℕ) (x : α), hands[i]? = some x ∧ 0 < share x := by
  obtain ⟨n, hn, hpos⟩ := List.sum_pos_iff_exists_pos_nat.mp h
  obtain ⟨x, hx, rfl⟩ := List.mem_map.mp hn
  obtain ⟨i, hi⟩ := List.mem_iff_getElem?.mp hx
  exact ⟨i, x, hi, hpos⟩

theorem sum_toNat (p : α → Bool) (hands : List α) :
    (hands.map fun x => (p x).toNat).sum = hands.countP p := by
  induction hands with
  | nil => rfl
  | cons x hands ih =>
      rw [List.map_cons, List.sum_cons, ih, List.countP_cons, Nat.add_comm]
      cases p x <;> rfl

end Hands

/-- Of the tokens made so far, those in hand and those given back. -/
def Custody (made : ℕ) (held returned : List ℕ) : Prop :=
  (held ++ returned).Perm (List.range made)

namespace Custody

variable {made token : ℕ} {held held' returned : List ℕ}

theorem start : Custody 0 [] [] := .nil

theorem pass (h : Custody made held returned) (hheld : held'.Perm held) :
    Custody made held' returned := (hheld.append_right returned).trans h

theorem make (h : Custody made held returned) : Custody (made + 1) (made :: held) returned := by
  rw [Custody, List.range_succ]
  exact (h.cons made).trans (List.perm_append_singleton made _).symm

theorem giveBack (h : Custody made (token :: held) returned) :
    Custody made held (token :: returned) := List.perm_middle.trans h

theorem nodup (h : Custody made held returned) : (held ++ returned).Nodup :=
  h.nodup_iff.mpr List.nodup_range

end Custody

end SynologyFilestation.Library
