import Mathlib.Data.List.Basic
import Mathlib.Data.Nat.Notation
import Mathlib.Data.UInt

/-!
Slices of a text at offsets that count bytes.

A text is a list of characters, each of which takes from one byte to four. A slice at an offset
inside a character does not exist. The offsets at which the text can be cut are the lengths of
what comes before.
-/

namespace SynologyFilestation.Library

/-- How many bytes a text takes. -/
def byteLen (text : List Char) : ℕ := (text.map Char.utf8Size).sum

/-- What begins at an offset. -/
def sliceFrom : List Char → ℕ → Option (List Char)
  | text, 0 => some text
  | [], _ + 1 => none
  | c :: text, n + 1 => if c.utf8Size ≤ n + 1 then sliceFrom text (n + 1 - c.utf8Size) else none

/-- What ends at an offset. -/
def sliceTo : List Char → ℕ → Option (List Char)
  | _, 0 => some []
  | [], _ + 1 => none
  | c :: text, n + 1 =>
      if c.utf8Size ≤ n + 1 then (sliceTo text (n + 1 - c.utf8Size)).map (c :: ·) else none

/-- What is between two offsets. -/
def sliceBetween (text : List Char) (start stop : ℕ) : Option (List Char) :=
  if start ≤ stop then (sliceTo text stop).bind fun front => sliceFrom front start else none

/-- The offset of the first character that is looked for. -/
def findChar (p : Char → Bool) : List Char → Option ℕ
  | [] => none
  | c :: text => if p c then some 0 else (findChar p text).map (c.utf8Size + ·)

/-- The characters with their offsets, the first of which is given. -/
def charIndices : ℕ → List Char → List (ℕ × Char)
  | _, [] => []
  | offset, c :: text => (offset, c) :: charIndices (offset + c.utf8Size) text

variable {text front rest : List Char} {p : Char → Bool} {offset : ℕ} {c : Char}

@[simp] theorem byteLen_nil : byteLen [] = 0 := rfl

@[simp] theorem byteLen_cons : byteLen (c :: text) = c.utf8Size + byteLen text := by
  simp [byteLen]

@[simp] theorem byteLen_append : byteLen (front ++ rest) = byteLen front + byteLen rest := by
  simp [byteLen]

@[simp] theorem sliceFrom_zero : sliceFrom text 0 = some text := by
  cases text <;> rfl

@[simp] theorem sliceTo_zero : sliceTo text 0 = some [] := by
  cases text <;> rfl

/-- A text can be cut behind anything that it begins with. -/
theorem sliceFrom_append : sliceFrom (front ++ rest) (byteLen front) = some rest := by
  induction front with
  | nil => simp
  | cons c front ih =>
      have hpos := c.utf8Size_pos
      obtain ⟨n, hn⟩ : ∃ n, byteLen (c :: front) = n + 1 :=
        ⟨byteLen (c :: front) - 1, by rw [byteLen_cons]; omega⟩
      have hrest : n + 1 - c.utf8Size = byteLen front := by rw [← hn, byteLen_cons]; omega
      rw [hn, List.cons_append, sliceFrom, if_pos (by rw [← hn, byteLen_cons]; omega), hrest, ih]

theorem sliceTo_append : sliceTo (front ++ rest) (byteLen front) = some front := by
  induction front with
  | nil => simp
  | cons c front ih =>
      have hpos := c.utf8Size_pos
      obtain ⟨n, hn⟩ : ∃ n, byteLen (c :: front) = n + 1 :=
        ⟨byteLen (c :: front) - 1, by rw [byteLen_cons]; omega⟩
      have hrest : n + 1 - c.utf8Size = byteLen front := by rw [← hn, byteLen_cons]; omega
      rw [hn, List.cons_append, sliceTo, if_pos (by rw [← hn, byteLen_cons]; omega), hrest, ih]
      rfl

theorem sliceBetween_append {middle : List Char} :
    sliceBetween (front ++ middle ++ rest) (byteLen front) (byteLen front + byteLen middle) =
      some middle := by
  rw [sliceBetween, if_pos (by omega), ← byteLen_append, sliceTo_append]
  exact sliceFrom_append

/-- The first one that is looked for has nothing of its kind before it. -/
theorem findChar_append (hfront : ∀ c ∈ front, p c = false) (hc : p c = true) :
    findChar p (front ++ c :: rest) = some (byteLen front) := by
  induction front with
  | nil => simp [findChar, hc]
  | cons d front ih =>
      simp only [List.mem_cons, forall_eq_or_imp] at hfront
      simp [findChar, hfront.1, ih hfront.2]

theorem findChar_eq_none (h : ∀ c ∈ text, p c = false) : findChar p text = none := by
  induction text with
  | nil => rfl
  | cons d text ih =>
      simp only [List.mem_cons, forall_eq_or_imp] at h
      simp [findChar, h.1, ih h.2]

theorem charIndices_append : charIndices offset (front ++ rest) =
    charIndices offset front ++ charIndices (offset + byteLen front) rest := by
  induction front generalizing offset with
  | nil => simp [charIndices]
  | cons d front ih => simp [charIndices, ih, Nat.add_assoc]

theorem mem_of_charIndices {i : ℕ} (h : (i, c) ∈ charIndices offset text) : c ∈ text := by
  induction text generalizing offset with
  | nil => cases h
  | cons d text ih =>
      rcases List.mem_cons.mp h with heq | hrest
      · exact (Prod.mk.inj heq).2 ▸ List.mem_cons_self
      · exact List.mem_cons_of_mem _ (ih hrest)

theorem length_le_byteLen : text.length ≤ byteLen text := by
  induction text with
  | nil => simp
  | cons d text ih =>
      have hpos := d.utf8Size_pos
      simp only [List.length_cons, byteLen_cons]
      omega

end SynologyFilestation.Library
