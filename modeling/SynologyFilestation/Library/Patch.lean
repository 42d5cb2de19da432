import Mathlib.Data.List.Basic
import Mathlib.Data.List.GetD
import Mathlib.Order.Lattice
import Mathlib.Algebra.Notation.Defs
import Mathlib.Data.UInt

/-!
Byte arrays patched by writes at offsets.

`patch content offset data` is what one write does to an array: the bytes it
covers are replaced, the rest is kept, and a gap between the old end and the
write reads as zeros. A write of no data changes nothing. `patchAll` folds a
sequence of writes. Every question about the result is answered pointwise, by
`lastByte`, the last write to cover a position, so no proof has to follow the
shapes of the intermediate arrays.
-/

namespace SynologyFilestation.Library

variable {α : Type*}

section Resize

variable [Zero α]

/-- `content` cut or zero-extended to `size` elements. -/
def resize (content : List α) (size : ℕ) : List α :=
  content.take size ++ List.replicate (size - content.length) 0

@[simp] theorem length_resize (content : List α) (size : ℕ) :
    (resize content size).length = size := by
  simp only [resize, List.length_append, List.length_take, List.length_replicate]
  omega

theorem getD_resize (content : List α) (size i : ℕ) :
    (resize content size).getD i 0 = if i < size then content.getD i 0 else 0 := by
  simp only [resize, List.getD_eq_getElem?_getD, List.getElem?_append, List.length_take,
    List.getElem?_take, List.getElem?_replicate]
  by_cases hsize : i < size
  · by_cases hlen : i < content.length
    · rw [if_pos (by omega), if_pos hsize, if_pos hsize]
    · have hmin : ¬ i < min size content.length := by omega
      have hpad : i - min size content.length < size - content.length := by omega
      rw [if_neg hmin, if_pos hpad, if_pos hsize, List.getElem?_eq_none (not_lt.mp hlen)]
      rfl
  · have hmin : ¬ i < min size content.length := by omega
    have hpad : ¬ i - min size content.length < size - content.length := by omega
    simp [hsize, hpad]

@[simp] theorem resize_zero (content : List α) : resize content 0 = [] := by
  simp [resize]

/-- What is past the new end does not matter. -/
theorem resize_take (content : List α) (size : ℕ) :
    resize (content.take size) size = resize content size := by
  have hpad : size - min size content.length = size - content.length := by omega
  simp only [resize, List.take_take, min_self, List.length_take, hpad]

theorem resize_resize (content : List α) (size : ℕ) :
    resize (resize content size) size = resize content size := by
  have htake : (resize content size).take size = resize content size :=
    List.take_of_length_le (length_resize content size).le
  rw [resize, htake, length_resize, Nat.sub_self, List.replicate_zero, List.append_nil]

/-- Two arrays of one length with the same zero-extended reading are equal. -/
theorem ext_getD {xs ys : List α} (hlen : xs.length = ys.length)
    (h : ∀ i, xs.getD i 0 = ys.getD i 0) : xs = ys := by
  refine List.ext_getElem hlen fun i h₁ h₂ => ?_
  have hi := h i
  rwa [List.getD_eq_getElem _ _ h₁, List.getD_eq_getElem _ _ h₂] at hi

end Resize

section Patch

variable [Zero α]

/-- `content` with `data` written at `offset`. -/
def patch (content : List α) (offset : ℕ) (data : List α) : List α :=
  match data with
  | [] => content
  | _ :: _ => resize content offset ++ data ++ content.drop (offset + data.length)

@[simp] theorem patch_nil (content : List α) (offset : ℕ) : patch content offset [] = content := rfl

theorem patch_of_ne_nil {data : List α} (h : data ≠ []) (content : List α) (offset : ℕ) :
    patch content offset data =
      resize content offset ++ data ++ content.drop (offset + data.length) := by
  cases data with
  | nil => exact absurd rfl h
  | cons _ _ => rfl

theorem length_patch (content : List α) (offset : ℕ) (data : List α) :
    (patch content offset data).length =
      if data = [] then content.length else max content.length (offset + data.length) := by
  by_cases h : data = []
  · simp [h]
  · rw [patch_of_ne_nil h, if_neg h]
    simp only [List.length_append, length_resize, List.length_drop]
    omega

/-- Reading a patched array: inside the write its data, outside the old
content, zero-extended. -/
theorem getD_patch (content : List α) (offset : ℕ) (data : List α) (i : ℕ) :
    (patch content offset data).getD i 0 =
      if offset ≤ i ∧ i < offset + data.length then data.getD (i - offset) 0
      else content.getD i 0 := by
  by_cases h : data = []
  · subst h
    rw [patch_nil, if_neg (by simp)]
  · rw [patch_of_ne_nil h]
    simp only [List.getD_eq_getElem?_getD, List.getElem?_append, List.length_append,
      length_resize, List.getElem?_drop]
    have hpos : 0 < data.length := List.length_pos_iff.mpr h
    by_cases hlow : i < offset
    · have hread := getD_resize content offset i
      simp only [List.getD_eq_getElem?_getD, hlow, if_true] at hread
      rw [if_pos (by omega), if_pos hlow, if_neg (by omega), hread]
    · by_cases hhigh : i < offset + data.length
      · rw [if_pos (by omega), if_neg hlow, if_pos (by omega)]
      · rw [if_neg (by omega), if_neg (by omega)]
        congr 2
        omega

/-- Two writes that follow each other are one write of both. -/
theorem patch_append (content : List α) (offset : ℕ) (first second : List α) :
    patch (patch content offset first) (offset + first.length) second =
      patch content offset (first ++ second) := by
  refine ext_getD ?_ fun i => ?_
  · simp only [length_patch, List.length_append, List.append_eq_nil_iff]
    by_cases hfirst : first = [] <;> by_cases hsecond : second = []
    · simp [hfirst, hsecond]
    · simp [hfirst, hsecond]
    · simp [hfirst, hsecond]
    · simp only [hfirst, hsecond, if_false, and_false]
      omega
  · rw [getD_patch, getD_patch, getD_patch, List.length_append]
    simp only [List.getD_eq_getElem?_getD, List.getElem?_append]
    by_cases hsecond : offset + first.length ≤ i ∧ i < offset + first.length + second.length
    · rw [if_pos hsecond, if_pos (by omega), if_neg (by omega)]
      congr 2
      omega
    · rw [if_neg hsecond]
      by_cases hfirst : offset ≤ i ∧ i < offset + first.length
      · rw [if_pos hfirst, if_pos (by omega), if_pos (by omega)]
      · rw [if_neg hfirst, if_neg (by omega)]

end Patch

/-! ### Sequences of writes -/

/-- A write: its offset and its data. -/
abbrev Write (α : Type*) := ℕ × List α

/-- The byte the last of `ws` to cover position `i` put there. -/
def lastByte : List (Write α) → ℕ → Option α
  | [], _ => none
  | (offset, data) :: ws, i =>
      (lastByte ws i).or (if offset ≤ i then data[i - offset]? else none)

/-- Where the furthest-reaching write of `ws` that carries data ends. -/
def extent : List (Write α) → ℕ
  | [] => 0
  | (offset, data) :: ws => max (if data.isEmpty then 0 else offset + data.length) (extent ws)

theorem lastByte_lt_extent {ws : List (Write α)} {i : ℕ} {b : α} (h : lastByte ws i = some b) :
    i < extent ws := by
  induction ws with
  | nil => simp [lastByte] at h
  | cons w ws ih =>
      obtain ⟨offset, data⟩ := w
      rw [extent]
      rw [lastByte, Option.or_eq_some_iff] at h
      rcases h with h | ⟨_, h⟩
      · exact lt_of_lt_of_le (ih h) (le_max_right _ _)
      · split at h
        · have hin : i - offset < data.length := by
            obtain ⟨hlt, _⟩ := List.getElem?_eq_some_iff.mp h
            exact hlt
          have hne : data.isEmpty = false := by
            cases data with
            | nil => simp at hin
            | cons _ _ => rfl
          rw [hne]
          exact lt_of_lt_of_le (by simp; omega) (le_max_left _ _)
        · simp at h

/-- `content` holds what `ws` wrote: at every position some write covers, the
byte the last of them put there. -/
def Holds (content : List α) (ws : List (Write α)) : Prop :=
  ∀ i b, lastByte ws i = some b → content[i]? = some b

section PatchAll

variable [Zero α]

/-- `content` patched by `ws` in order. -/
def patchAll (content : List α) (ws : List (Write α)) : List α :=
  ws.foldl (fun c w => patch c w.1 w.2) content

@[simp] theorem patchAll_nil (content : List α) : patchAll content [] = content := rfl

@[simp] theorem patchAll_cons (content : List α) (w : Write α) (ws : List (Write α)) :
    patchAll content (w :: ws) = patchAll (patch content w.1 w.2) ws := rfl

theorem patchAll_append (content : List α) (ws ws' : List (Write α)) :
    patchAll content (ws ++ ws') = patchAll (patchAll content ws) ws' :=
  List.foldl_append ..

theorem length_patchAll (content : List α) (ws : List (Write α)) :
    (patchAll content ws).length = max content.length (extent ws) := by
  induction ws generalizing content with
  | nil => simp [extent]
  | cons w ws ih =>
      rw [patchAll_cons, ih, length_patch, extent]
      by_cases h : w.2 = []
      · simp [h]
      · simp [h, max_assoc]

/-- A patched array reads as the last write to cover the position, and as the
old content where none did. -/
theorem getD_patchAll (content : List α) (ws : List (Write α)) (i : ℕ) :
    (patchAll content ws).getD i 0 = (lastByte ws i).getD (content.getD i 0) := by
  induction ws generalizing content with
  | nil => simp [lastByte]
  | cons w ws ih =>
      obtain ⟨offset, data⟩ := w
      rw [patchAll_cons, ih, lastByte, getD_patch]
      cases hlast : lastByte ws i with
      | some b => simp
      | none =>
          by_cases hlow : offset ≤ i
          · by_cases hhigh : i < offset + data.length
            · have hin : i - offset < data.length := by omega
              simp [hlow, hhigh, hin]
            · have hout : data[i - offset]? = none := List.getElem?_eq_none (by omega)
              simp [hhigh, hlow, hout]
          · simp [hlow]

theorem patchAll_holds (content : List α) (ws : List (Write α)) :
    Holds (patchAll content ws) ws := by
  intro i b h
  have hlt : i < (patchAll content ws).length := by
    rw [length_patchAll]
    exact lt_of_lt_of_le (lastByte_lt_extent h) (le_max_right _ _)
  have hread := getD_patchAll content ws i
  rw [h, Option.getD_some, List.getD_eq_getElem _ _ hlt] at hread
  rw [List.getElem?_eq_getElem hlt, hread]

/-- An array holds what `ws` wrote as soon as it is as long and reads the same
as some array patched by `ws`. -/
theorem holds_of_getD {content base : List α} {ws : List (Write α)}
    (hlen : extent ws ≤ content.length)
    (hread : ∀ i, content.getD i 0 = (patchAll base ws).getD i 0) : Holds content ws := by
  intro i b h
  have hlt : i < content.length := lt_of_lt_of_le (lastByte_lt_extent h) hlen
  have hi := hread i
  rw [getD_patchAll, h, Option.getD_some, List.getD_eq_getElem _ _ hlt] at hi
  rw [List.getElem?_eq_getElem hlt, hi]

/-- When patching hides the array underneath: an array that reads like `ws`
written onto nothing is `content` patched by `ws` exactly when the lengths
agree and every element of `content` no write covered is zero. -/
theorem eq_patchAll_iff {content held : List α} {ws : List (Write α)}
    (hheld : ∀ i, held.getD i 0 = (patchAll [] ws).getD i 0) :
    held = patchAll content ws ↔
      held.length = max content.length (extent ws) ∧
        ∀ i, i < content.length → lastByte ws i = none → content[i]? = some 0 := by
  constructor
  · intro heq
    refine ⟨by rw [heq, length_patchAll], fun i hi hnone => ?_⟩
    have hread : (patchAll content ws).getD i 0 = (patchAll [] ws).getD i 0 := by
      rw [← heq]; exact hheld i
    rw [getD_patchAll, getD_patchAll, hnone, Option.getD_none, Option.getD_none,
      List.getD_eq_getElem _ _ hi] at hread
    rw [List.getElem?_eq_getElem hi, hread]
    simp
  · rintro ⟨hlen, hzero⟩
    refine ext_getD (by rw [hlen, length_patchAll]) fun i => ?_
    rw [hheld, getD_patchAll, getD_patchAll]
    cases hlast : lastByte ws i with
    | some b => rfl
    | none =>
        by_cases hi : i < content.length
        · have hz := hzero i hi hlast
          simp [List.getD_eq_getElem?_getD, hz]
        · simp [List.getD_eq_getElem?_getD, List.getElem?_eq_none (not_lt.mp hi)]

/-- Patched arrays are the same when they reach as far and the last write of each, or what was
there before it, is the same everywhere. -/
theorem patchAll_eq_iff {content content' : List α} {ws ws' : List (Write α)} :
    patchAll content ws = patchAll content' ws' ↔
      max content.length (extent ws) = max content'.length (extent ws') ∧
        ∀ i, (lastByte ws i).getD (content.getD i 0) =
          (lastByte ws' i).getD (content'.getD i 0) := by
  constructor
  · intro heq
    refine ⟨?_, fun i => ?_⟩
    · rw [← length_patchAll, ← length_patchAll, heq]
    · rw [← getD_patchAll, ← getD_patchAll, heq]
  · rintro ⟨hlen, hlast⟩
    refine ext_getD ?_ fun i => ?_
    · rw [length_patchAll, length_patchAll, hlen]
    · rw [getD_patchAll, getD_patchAll, hlast]

/-- Where chunks lie that are stored one behind the other. -/
def writesFrom (offset : ℕ) : List (List α) → List (Write α)
  | [] => []
  | chunk :: chunks => (offset, chunk) :: writesFrom (offset + chunk.length) chunks

omit [Zero α] in
theorem writesFrom_concat (offset : ℕ) (chunks : List (List α)) (chunk : List α) :
    writesFrom offset (chunks ++ [chunk]) =
      writesFrom offset chunks ++ [(offset + chunks.flatten.length, chunk)] := by
  induction chunks generalizing offset with
  | nil => simp [writesFrom]
  | cons first chunks ih => simp [writesFrom, ih, Nat.add_assoc]

theorem patchAll_writesFrom (content : List α) (offset : ℕ) (chunks : List (List α)) :
    patchAll content (writesFrom offset chunks) = patch content offset chunks.flatten := by
  induction chunks generalizing content offset with
  | nil => simp [writesFrom]
  | cons first chunks ih => rw [writesFrom, patchAll_cons, ih, patch_append, List.flatten_cons]

end PatchAll

end SynologyFilestation.Library
