import Mathlib.Data.List.Flatten
import Mathlib.Data.List.Infix

/-!
Symbols that arrive in pieces.

A read takes of the first piece what it has room for. Reading until there are so many symbols takes
them off the front of all that arrives, whatever the pieces are.
-/

namespace SynologyFilestation.Library

variable {σ : Type*}

/-- What one read can find: nothing at all is how a source ends. -/
abbrev Arrival (σ : Type*) := {piece : List σ // piece ≠ []}

/-- All that the pieces hold. -/
def symbolsOf (pieces : List (Arrival σ)) : List σ := (pieces.map Subtype.val).flatten

@[simp] theorem symbolsOf_nil : symbolsOf ([] : List (Arrival σ)) = [] := rfl

@[simp] theorem symbolsOf_cons (piece : Arrival σ) (pieces : List (Arrival σ)) :
    symbolsOf (piece :: pieces) = piece.val ++ symbolsOf pieces := rfl

/-- Reads on until there are so many symbols, or until there are no more. -/
def readExact : ℕ → List (Arrival σ) → Option (List σ × List (Arrival σ))
  | 0, pieces => some ([], pieces)
  | _ + 1, [] => none
  | n + 1, piece :: pieces =>
      if h : piece.val.length ≤ n + 1 then
        (readExact (n + 1 - piece.val.length) pieces).map fun (front, rest) =>
          (piece.val ++ front, rest)
      else some (piece.val.take (n + 1), ⟨piece.val.drop (n + 1), by simpa using h⟩ :: pieces)
termination_by structural _ pieces => pieces

variable {n : ℕ} {pieces rest : List (Arrival σ)} {front : List σ}

/-- **What is read is the front of what arrives, and what is left is the rest of it.** -/
theorem readExact_eq_some (h : readExact n pieces = some (front, rest)) :
    front.length = n ∧ symbolsOf pieces = front ++ symbolsOf rest := by
  fun_induction readExact n pieces generalizing front rest with
  | case1 pieces =>
      obtain ⟨rfl, rfl⟩ := Prod.mk.inj (Option.some.inj h)
      exact ⟨rfl, rfl⟩
  | case2 => cases h
  | case3 n piece pieces hle ih =>
      obtain ⟨⟨front', rest'⟩, hread, heq⟩ := Option.map_eq_some_iff.mp h
      obtain ⟨rfl, rfl⟩ := Prod.mk.inj heq
      obtain ⟨hlength, hsymbols⟩ := ih hread
      refine ⟨?_, ?_⟩
      · rw [List.length_append, hlength]
        omega
      · rw [symbolsOf_cons, hsymbols, List.append_assoc]
  | case4 n piece pieces hlong =>
      obtain ⟨rfl, rfl⟩ := Prod.mk.inj (Option.some.inj h)
      refine ⟨List.length_take_of_le (by omega), ?_⟩
      rw [symbolsOf_cons, symbolsOf_cons, ← List.append_assoc, List.take_append_drop]

/-- It fails if there are not as many, and only then. -/
theorem readExact_eq_none_iff : readExact n pieces = none ↔ (symbolsOf pieces).length < n := by
  fun_induction readExact n pieces with
  | case1 pieces => simp
  | case2 => simp
  | case3 n piece pieces hle ih =>
      rw [Option.map_eq_none_iff, ih, symbolsOf_cons, List.length_append]
      omega
  | case4 n piece pieces hlong =>
      rw [symbolsOf_cons, List.length_append]
      simp only [reduceCtorEq, false_iff]
      omega

theorem readExact_of_le (h : n ≤ (symbolsOf pieces).length) :
    ∃ rest, readExact n pieces = some ((symbolsOf pieces).take n, rest) ∧
      symbolsOf rest = (symbolsOf pieces).drop n := by
  cases hread : readExact n pieces with
  | none => exact absurd (readExact_eq_none_iff.mp hread) (by omega)
  | some found =>
      obtain ⟨front, rest⟩ := found
      obtain ⟨hlength, hsymbols⟩ := readExact_eq_some hread
      refine ⟨rest, ?_, ?_⟩
      · rw [hsymbols, ← hlength, List.take_left]
      · rw [hsymbols, ← hlength, List.drop_left]

end SynologyFilestation.Library
