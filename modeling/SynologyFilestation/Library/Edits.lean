import SynologyFilestation.Library.Patch

/-!
Byte arrays edited by writes and changes of length, in any order.

`editAll` is what a sequence of edits makes of an array. As with writes alone,
the result is read pointwise: `lastSet` is the last edit to set a position,
where a cut below the position sets it to zero, for whatever grows over it later.
-/

namespace SynologyFilestation.Library

variable {α : Type*}

inductive Edit (α : Type*)
  | write (offset : ℕ) (data : List α)
  | resize (size : ℕ)

/-- The writes among `edits`. -/
def writesAmong (edits : List (Edit α)) : List (Write α) :=
  edits.filterMap fun
    | .write offset data => some (offset, data)
    | .resize _ => none

/-- The length an array of `len` elements has after one edit. -/
def Edit.lengthAfter (len : ℕ) : Edit α → ℕ
  | .write offset data => if data.isEmpty then len else max len (offset + data.length)
  | .resize size => size

def lengthAfter (len : ℕ) (edits : List (Edit α)) : ℕ := edits.foldl Edit.lengthAfter len

section Edits

variable [Zero α]

def Edit.apply (content : List α) : Edit α → List α
  | .write offset data => patch content offset data
  | .resize size => Library.resize content size

def editAll (content : List α) (edits : List (Edit α)) : List α := edits.foldl Edit.apply content

/-- What an edit makes of position `i`, where it has a say in it. -/
def Edit.sets (i : ℕ) : Edit α → Option α
  | .write offset data => if offset ≤ i then data[i - offset]? else none
  | .resize size => if size ≤ i then some 0 else none

/-- What the last of `edits` to set position `i` made of it. -/
def lastSet : List (Edit α) → ℕ → Option α
  | [], _ => none
  | e :: edits, i => (lastSet edits i).or (e.sets i)

variable (content : List α) (edits : List (Edit α))

@[simp] theorem editAll_nil : editAll content [] = content := rfl

theorem editAll_concat (e : Edit α) :
    editAll content (edits ++ [e]) = e.apply (editAll content edits) :=
  List.foldl_append ..

theorem length_editAll : (editAll content edits).length = lengthAfter content.length edits := by
  induction edits generalizing content with
  | nil => rfl
  | cons e edits ih =>
      have hlength : (e.apply content).length = e.lengthAfter content.length := by
        cases e with
        | write offset data => simp [Edit.apply, Edit.lengthAfter, length_patch]
        | resize size => simp [Edit.apply, Edit.lengthAfter]
      change (editAll (e.apply content) edits).length = _
      rw [ih, hlength]
      rfl

/-- One edit, read at one position. -/
theorem getD_apply (e : Edit α) (i : ℕ) :
    (e.apply content).getD i 0 = (e.sets i).getD (content.getD i 0) := by
  cases e with
  | write offset data =>
      rw [Edit.apply, getD_patch, Edit.sets]
      by_cases hlow : offset ≤ i
      · by_cases hhigh : i < offset + data.length
        · have hin : i - offset < data.length := by omega
          simp [hlow, hhigh, hin]
        · have hout : data[i - offset]? = none := List.getElem?_eq_none (by omega)
          simp [hhigh, hlow, hout]
      · simp [hlow]
  | resize size =>
      rw [Edit.apply, getD_resize, Edit.sets]
      by_cases hsize : i < size
      · simp [hsize, not_le.mpr hsize]
      · simp [hsize, not_lt.mp hsize]

theorem getD_editAll (i : ℕ) :
    (editAll content edits).getD i 0 = (lastSet edits i).getD (content.getD i 0) := by
  induction edits generalizing content with
  | nil => rfl
  | cons e edits ih =>
      change (editAll (e.apply content) edits).getD i 0 = _
      rw [ih, getD_apply, lastSet]
      cases lastSet edits i <;> rfl

/-- What an array must read like to be an edited one. -/
theorem eq_editAll_iff_getD {held : List α} :
    held = editAll content edits ↔
      held.length = lengthAfter content.length edits ∧
        ∀ i, (lastSet edits i).getD (content.getD i 0) = held.getD i 0 := by
  constructor
  · intro heq
    refine ⟨by rw [heq, length_editAll], fun i => ?_⟩
    rw [← getD_editAll, ← heq]
  · rintro ⟨hlen, hbytes⟩
    refine ext_getD (by rw [hlen, length_editAll]) fun i => ?_
    rw [getD_editAll, hbytes]

/-- When nothing but the writes shows: an array that reads like `ws` written onto
nothing is `content` under `edits` exactly when the lengths agree and at every
position the last edit leaves what the last write left. -/
theorem eq_editAll_iff {held : List α} {ws : List (Write α)}
    (hheld : ∀ i, held.getD i 0 = (patchAll [] ws).getD i 0) :
    held = editAll content edits ↔
      held.length = lengthAfter content.length edits ∧
        ∀ i, (lastSet edits i).getD (content.getD i 0) = (lastByte ws i).getD 0 := by
  have hread : ∀ i, held.getD i 0 = (lastByte ws i).getD 0 := by
    intro i
    rw [hheld, getD_patchAll]
    simp
  rw [eq_editAll_iff_getD]
  simp only [hread]

/-- The same of an array that reads like other edits of nothing. -/
theorem eq_editAll_iff_of_edits {held : List α} {edits' : List (Edit α)}
    (hheld : ∀ i, held.getD i 0 = (editAll [] edits').getD i 0) :
    held = editAll content edits ↔
      held.length = lengthAfter content.length edits ∧
        ∀ i, (lastSet edits i).getD (content.getD i 0) = (lastSet edits' i).getD 0 := by
  have hread : ∀ i, held.getD i 0 = (lastSet edits' i).getD 0 := by
    intro i
    rw [hheld, getD_editAll]
    simp
  rw [eq_editAll_iff_getD]
  simp only [hread]

end Edits

end SynologyFilestation.Library
