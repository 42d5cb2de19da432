import SynologyFilestation.Library.Patch
import Mathlib.Data.List.Induction

/-!
Segments of a log of writes.

Of the writes that set a position the last one decides what is there. It decides
it of every segment of the log that it is in (`exists_decisive`), so that an array
that holds a segment holds its byte.
-/

namespace SynologyFilestation.Library

variable {α : Type*}

/-- The entries of a log from the `since`-th on that come before the `upto`-th. -/
def segment (log : List α) (since upto : ℕ) : List α := (log.take upto).drop since

section Segments

variable {log : List α} {since upto : ℕ} {x : α}

theorem segment_length : segment log since log.length = log.drop since := by
  rw [segment, List.take_length]

theorem segment_of_le (h : upto ≤ since) : segment log since upto = [] := by
  rw [segment, List.drop_eq_nil_iff, List.length_take]
  omega

theorem segment_concat_of_le (h : upto ≤ log.length) :
    segment (log ++ [x]) since upto = segment log since upto := by
  rw [segment, segment, List.take_append_of_le_length h]

theorem segment_concat (h : since ≤ log.length) :
    segment (log ++ [x]) since (log.length + 1) = segment log since log.length ++ [x] := by
  rw [segment, List.take_of_length_le (by simp), List.drop_append_of_le_length h, segment_length]

end Segments

section Writes

variable {log ws ws' : List (Write α)} {i : ℕ} {b : α} {content : List α}

theorem lastByte_append (ws ws' : List (Write α)) (i : ℕ) :
    lastByte (ws ++ ws') i = (lastByte ws' i).or (lastByte ws i) := by
  induction ws with
  | nil => simp [lastByte]
  | cons w ws ih =>
      obtain ⟨offset, data⟩ := w
      rw [List.cons_append, lastByte, lastByte, ih, Option.or_assoc]

/-- The last write to set a position, and what comes before and after it. -/
theorem exists_lastByte (h : lastByte ws i = some b) :
    ∃ front w back, ws = front ++ w :: back ∧ lastByte [w] i = some b ∧ lastByte back i = none := by
  induction ws using List.reverseRecOn with
  | nil => cases h
  | append_singleton ws w ih =>
      rw [lastByte_append] at h
      cases hlast : lastByte [w] i with
      | some b' =>
          rw [hlast] at h
          exact ⟨ws, w, [], rfl, hlast.trans h, rfl⟩
      | none =>
          rw [hlast, Option.none_or] at h
          obtain ⟨front, w', back, rfl, hw', hback⟩ := ih h
          refine ⟨front, w', back ++ [w], by simp, hw', ?_⟩
          rw [lastByte_append, hlast, hback]
          rfl

/-- What the log makes of a position is decided by one entry, in every segment that has it. -/
theorem exists_decisive {r : ℕ} (h : lastByte (log.drop r) i = some b) :
    ∃ j, r ≤ j ∧ j < log.length ∧
      ∀ since upto, since ≤ j → j < upto → lastByte (segment log since upto) i = some b := by
  obtain ⟨front, w, back, hlog, hw, hback⟩ := exists_lastByte h
  have hsplit : log = (log.take r ++ front) ++ w :: back := by
    rw [List.append_assoc, ← hlog, List.take_append_drop]
  set start := log.take r ++ front with hstart
  have hr : r ≤ log.length := by
    by_contra hlong
    rw [List.drop_eq_nil_of_le (by omega)] at hlog
    cases front <;> cases hlog
  have hlength : start.length = r + front.length := by
    rw [hstart, List.length_append, List.length_take_of_le hr]
  refine ⟨start.length, by omega, by rw [hsplit]; simp, fun since upto hsince hupto => ?_⟩
  have hcut : ∃ back', (log.take upto).drop since = start.drop since ++ w :: back' ∧
      ∃ rest, back = back' ++ rest := by
    refine ⟨back.take (upto - start.length - 1), ?_, _, (List.take_append_drop _ back).symm⟩
    have hpos : upto - start.length = (upto - start.length - 1) + 1 := by omega
    rw [hsplit, List.take_append, List.take_of_length_le hupto.le, hpos, List.take_succ_cons,
      List.drop_append_of_le_length hsince]
    simp
  obtain ⟨back', hsegment, rest, hrest⟩ := hcut
  have hnone : lastByte back' i = none := by
    rw [hrest, lastByte_append, Option.or_eq_none_iff] at hback
    exact hback.2
  rw [segment, hsegment, lastByte_append, show w :: back' = [w] ++ back' from rfl, lastByte_append,
    hnone, hw]
  rfl

/-- What a later segment makes of a position the whole of it makes of it. -/
theorem lastByte_later {since since' upto : ℕ} (hle : since ≤ since')
    (h : lastByte (segment log since' upto) i = some b) :
    lastByte (segment log since upto) i = some b := by
  rw [segment, ← Nat.add_sub_cancel' hle, ← List.drop_drop] at h
  rw [segment, ← List.take_append_drop (since' - since) ((log.take upto).drop since),
    lastByte_append, h]
  rfl

/-- An array holds what a later segment of the log wrote. -/
theorem Holds.later {since since' upto : ℕ} (hle : since ≤ since')
    (h : Holds content (segment log since upto)) : Holds content (segment log since' upto) :=
  fun i b hb => h i b (lastByte_later hle hb)

theorem holds_nil (content : List α) : Holds content [] := nofun

/-- One more write, into an array that reads as if it had been patched. -/
theorem Holds.concat [Zero α] {w : Write α} {content' : List α} (h : Holds content ws)
    (hlen : (patch content w.1 w.2).length ≤ content'.length)
    (hread : ∀ i, content'.getD i 0 = (patch content w.1 w.2).getD i 0) :
    Holds content' (ws ++ [w]) := by
  have hall : (patchAll content [w]).length ≤ content'.length := hlen
  rw [length_patchAll] at hall
  have hin : ∀ {i b}, content'.getD i 0 = b → i < content'.length → content'[i]? = some b := by
    intro i b hi hlt
    rw [List.getD_eq_getElem _ _ hlt] at hi
    rw [List.getElem?_eq_getElem hlt, hi]
  intro i b hb
  have hi := (hread i).trans (getD_patchAll content [w] i)
  rw [lastByte_append] at hb
  cases hlast : lastByte [w] i with
  | some b' =>
      rw [hlast, Option.some_or] at hb
      rw [hlast, Option.getD_some] at hi
      obtain rfl := Option.some.inj hb
      exact hin hi (lt_of_lt_of_le (lastByte_lt_extent hlast) ((le_max_right _ _).trans hall))
  | none =>
      rw [hlast, Option.none_or] at hb
      rw [hlast, Option.getD_none] at hi
      obtain ⟨hlt, hold⟩ := List.getElem?_eq_some_iff.mp (h i b hb)
      rw [List.getD_eq_getElem _ _ hlt, hold] at hi
      exact hin hi (lt_of_lt_of_le hlt ((le_max_left _ _).trans hall))

end Writes

end SynologyFilestation.Library
