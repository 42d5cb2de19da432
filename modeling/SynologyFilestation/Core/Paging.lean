import SynologyFilestation.Core.Namespace
import SynologyFilestation.Core.SessionAuth

/-!
Listings that come in pages (`core/src/client/metadata.rs`, `list_paged`).

A page is asked for at the number of entries collected so far. The loop ends with an empty page,
with one that is shorter than was asked for, when the total is reached, and after so many pages.
-/

namespace SynologyFilestation.Core

/-- `LIST_PAGE_SIZE`. -/
def listPageSize : ℕ := 1000

/-- `LIST_MAX_PAGES`. -/
def listMaxPages : ℕ := 10000

/-- What `unpack` takes out of the data of a response. -/
structure ListData where
  entries : List SynoFileInfo
  total : Option ℕ

/-- What a request for a page comes to: no text at all, a text that is no response, or one
that is. -/
inductive PageAnswer
  | failed (e : SynoFsError)
  | unreadable (why : String)
  | response (response : SynoResponse ListData)

section Loop

variable (label : String) (serve : ℕ → ℕ → PageAnswer)

/-- The loop of `list_paged`: the server is asked for page after page, and may know how often
it was asked. What comes out is the listing, and the number of requests. -/
def listFrom : ℕ → ℕ → List SynoFileInfo → Except SynoFsError (List SynoFileInfo) × ℕ
  | 0, asked, collected => (.ok collected, asked)
  | left + 1, asked, collected =>
      match serve asked collected.length with
      | .failed e => (.error e, asked + 1)
      | .unreadable why => (.error (.io (label ++ " parse error: " ++ why)), asked + 1)
      | .response response =>
          if !response.success then (.error (.apiError (response.error.getD 0)), asked + 1)
          else
            let page := response.data.getD ⟨[], none⟩
            let all := collected ++ page.entries
            if page.entries.length = 0 || page.entries.length < listPageSize ||
                page.total.any (· ≤ all.length) then (.ok all, asked + 1)
            else listFrom left (asked + 1) all

/-- `list_paged`. -/
def listPaged : Except SynoFsError (List SynoFileInfo) × ℕ :=
  listFrom label serve listMaxPages 0 []

theorem listFrom_requests (left asked : ℕ) (collected : List SynoFileInfo) :
    (listFrom label serve left asked collected).2 ≤ asked + left := by
  induction left generalizing asked collected with
  | zero => exact le_rfl
  | succ left ih =>
      have hlast : asked + 1 ≤ asked + (left + 1) := by omega
      rw [listFrom]
      split
      · exact hlast
      · exact hlast
      · split
        · exact hlast
        · dsimp only
          split
          · exact hlast
          · exact (ih _ _).trans (by omega)

end Loop

/-- The server has these entries, says how many, and answers with those at the offset, one at
least and no more than it was asked for. -/
structure Serves (entries : List SynoFileInfo) (serve : ℕ → ℕ → PageAnswer)
    (page : ℕ → ℕ → List SynoFileInfo) : Prop where
  answer : ∀ asked offset, ∃ error, serve asked offset =
    .response ⟨true, some ⟨page asked offset, some entries.length⟩, error⟩
  prefix_drop : ∀ asked offset, page asked offset <+: entries.drop offset
  length_le : ∀ asked offset, (page asked offset).length ≤ listPageSize
  nonempty : ∀ asked offset, offset < entries.length → page asked offset ≠ []

section Complete

variable {label : String} {entries : List SynoFileInfo} {serve : ℕ → ℕ → PageAnswer}
  {page : ℕ → ℕ → List SynoFileInfo} {asked left offset : ℕ}

/-- The page behind this many full ones is as long as it can be. -/
def IsFull (entries : List SynoFileInfo) (page : ℕ → ℕ → List SynoFileInfo) (asked : ℕ) : Prop :=
  (page asked (asked * listPageSize)).length =
    min listPageSize (entries.length - asked * listPageSize)

theorem Serves.take_append (h : Serves entries serve page) (asked offset : ℕ) :
    entries.take offset ++ page asked offset =
      entries.take (offset + (page asked offset).length) := by
  rw [List.take_add, ← List.prefix_iff_eq_take.mp (h.prefix_drop asked offset)]

theorem Serves.add_length_le (h : Serves entries serve page) (hoffset : offset ≤ entries.length) :
    offset + (page asked offset).length ≤ entries.length := by
  have hle := (h.prefix_drop asked offset).length_le
  rw [List.length_drop] at hle
  omega

/-- One request of a loop that has collected this many entries. -/
theorem Serves.listFrom_succ (h : Serves entries serve page) (hoffset : offset ≤ entries.length) :
    listFrom label serve (left + 1) asked (entries.take offset) =
      if (page asked offset).length < listPageSize ∨
          entries.length ≤ offset + (page asked offset).length then
        (.ok (entries.take (offset + (page asked offset).length)), asked + 1)
      else listFrom label serve left (asked + 1)
        (entries.take (offset + (page asked offset).length)) := by
  obtain ⟨error, hanswer⟩ := h.answer asked offset
  have hlength : (entries.take offset).length = offset := List.length_take_of_le hoffset
  have hmore : (entries.take (offset + (page asked offset).length)).length =
      offset + (page asked offset).length := List.length_take_of_le (h.add_length_le hoffset)
  rw [listFrom, hlength, hanswer]
  simp only [Bool.not_true, Bool.false_eq_true, if_false, Option.getD_some, h.take_append, hmore,
    Option.any_some]
  refine if_congr ?_ rfl rfl
  simp only [Bool.or_eq_true, decide_eq_true_eq]
  constructor
  · rintro ((hnone | hshort) | htotal)
    · exact .inl (hnone ▸ by decide)
    · exact .inl hshort
    · exact .inr htotal
  · rintro (hshort | htotal)
    · exact .inl (.inr hshort)
    · exact .inr htotal

/-- Entries come in their order and once each, whatever the pages are. -/
theorem Serves.listFrom_prefix (h : Serves entries serve page) (hoffset : offset ≤ entries.length) :
    ∃ collected, (listFrom label serve left asked (entries.take offset)).1 = .ok collected ∧
      collected <+: entries := by
  induction left generalizing asked offset with
  | zero => exact ⟨_, rfl, List.take_prefix ..⟩
  | succ left ih =>
      rw [h.listFrom_succ hoffset]
      split
      · exact ⟨_, rfl, List.take_prefix ..⟩
      · exact ih (h.add_length_le hoffset)

theorem take_eq_self_iff {n : ℕ} : entries.take n = entries ↔ entries.length ≤ n := by
  constructor
  · intro h
    have hlength := congrArg List.length h
    rw [List.length_take] at hlength
    omega
  · exact List.take_of_length_le

/-- Behind full pages the loop comes to the end exactly if the others are full too. -/
theorem Serves.listFrom_eq_ok_iff (h : Serves entries serve page)
    (hbefore : asked * listPageSize < entries.length ∨ asked = 0)
    (hleft : entries.length ≤ (asked + left) * listPageSize) :
    (listFrom label serve left asked (entries.take (asked * listPageSize))).1 = .ok entries ↔
      ∀ i, asked ≤ i → i * listPageSize < entries.length → IsFull entries page i := by
  have hoffset : asked * listPageSize ≤ entries.length := by
    rcases hbefore with hlt | rfl
    · exact hlt.le
    · omega
  induction left generalizing asked with
  | zero =>
      rw [listFrom, Except.ok.injEq, take_eq_self_iff]
      refine iff_of_true hleft fun i hi hlt => absurd hlt (Nat.not_lt.mpr (hleft.trans ?_))
      exact Nat.mul_le_mul_right _ hi
  | succ left ih =>
      have hle := h.length_le asked (asked * listPageSize)
      have hadd : asked * listPageSize + (page asked (asked * listPageSize)).length ≤
          entries.length := h.add_length_le hoffset
      rw [h.listFrom_succ hoffset]
      by_cases hfull : IsFull entries page asked
      · have hsize := hfull
        rw [IsFull] at hsize
        by_cases htotal : entries.length ≤ asked * listPageSize +
            (page asked (asked * listPageSize)).length
        · rw [if_pos (.inr htotal), Except.ok.injEq, take_eq_self_iff]
          refine iff_of_true htotal fun i hi hlt => ?_
          rcases hi.eq_or_lt with rfl | hlater
          · exact hfull
          · have hend := Nat.mul_le_mul_right listPageSize (Nat.succ_le_of_lt hlater)
            rw [Nat.succ_mul] at hend
            omega
        · have hnext : asked * listPageSize + (page asked (asked * listPageSize)).length =
              (asked + 1) * listPageSize := by
            rw [Nat.succ_mul]
            omega
          have hmore : (asked + 1) * listPageSize < entries.length := by omega
          have hnotDone : ¬((page asked (asked * listPageSize)).length < listPageSize ∨
              entries.length ≤ asked * listPageSize +
                (page asked (asked * listPageSize)).length) := by
            rw [Nat.succ_mul] at hnext
            omega
          have hmoreLeft : entries.length ≤ (asked + 1 + left) * listPageSize := by
            rwa [Nat.add_assoc, Nat.add_comm 1]
          rw [if_neg hnotDone, hnext]
          refine (ih (.inl hmore) hmoreLeft hmore.le).trans ?_
          constructor
          · intro hall i hi hlt
            rcases hi.eq_or_lt with rfl | hlater
            · exact hfull
            · exact hall i hlater hlt
          · exact fun hall i hi hlt => hall i (Nat.le_of_succ_le hi) hlt
      · have hshort : (page asked (asked * listPageSize)).length <
            min listPageSize (entries.length - asked * listPageSize) := by
          rw [IsFull] at hfull
          omega
        rw [if_pos (.inl (by omega)), Except.ok.injEq, take_eq_self_iff]
        exact iff_of_false (by omega) fun hall => hfull (hall asked le_rfl (by omega))

/-- **Which listings are complete**: those of servers that never answer with a page shorter
than was asked for before the last one. Whatever the pages are, what is listed is in order and
without repetition, and no server is asked more often than the cap allows. -/
theorem listing_complete_iff (label : String) (entries : List SynoFileInfo)
    (hentries : entries.length ≤ listMaxPages * listPageSize) (serve : ℕ → ℕ → PageAnswer)
    (page : ℕ → ℕ → List SynoFileInfo) (h : Serves entries serve page) :
    ((listPaged label serve).1 = .ok entries ↔
      ∀ i, i * listPageSize < entries.length → IsFull entries page i) ∧
    (∃ collected, (listPaged label serve).1 = .ok collected ∧ collected <+: entries) ∧
    ∀ any, (listPaged label any).2 ≤ listMaxPages := by
  refine ⟨?_, h.listFrom_prefix (Nat.zero_le entries.length), fun any => ?_⟩
  · have hiff : (listFrom label serve listMaxPages 0 (entries.take (0 * listPageSize))).1 =
        .ok entries ↔
          ∀ i, 0 ≤ i → i * listPageSize < entries.length → IsFull entries page i :=
      h.listFrom_eq_ok_iff (.inr rfl) (by rwa [Nat.zero_add])
    rw [Nat.zero_mul, List.take_zero] at hiff
    rw [listPaged, hiff]
    exact forall_congr' fun i => imp_iff_right (Nat.zero_le i)
  · have hrequests := listFrom_requests label any listMaxPages 0 []
    rwa [Nat.zero_add] at hrequests

end Complete

/-! ### A server that returns fewer than asked -/

def numberedEntry (i : ℕ) : SynoFileInfo where
  name := toString i
  path := [toString i]
  isdir := false
  size := some i

/-- Two entries, one to a page. -/
def twoEntries : List SynoFileInfo := [numberedEntry 0, numberedEntry 1]

def oneByOne (_ offset : ℕ) : PageAnswer :=
  .response ⟨true, some ⟨(twoEntries.drop offset).take 1, some 2⟩, none⟩

def allAtOnce (_ offset : ℕ) : PageAnswer :=
  .response ⟨true, some ⟨twoEntries.drop offset, some 2⟩, none⟩

theorem serves_oneByOne :
    Serves twoEntries oneByOne fun _ offset => (twoEntries.drop offset).take 1 where
  answer _ _ := ⟨none, rfl⟩
  prefix_drop _ _ := List.take_prefix ..
  length_le _ _ := (List.length_take_le ..).trans (by decide)
  nonempty _ offset hoffset := by
    rw [ne_eq, List.take_eq_nil_iff, List.drop_eq_nil_iff]
    omega

theorem serves_allAtOnce :
    Serves twoEntries allAtOnce fun _ offset => twoEntries.drop offset where
  answer _ _ := ⟨none, rfl⟩
  prefix_drop _ _ := List.prefix_rfl
  length_le _ offset := by
    have htwo : twoEntries.length = 2 := rfl
    rw [List.length_drop, htwo, listPageSize]
    omega
  nonempty _ offset hoffset := by
    rw [ne_eq, List.drop_eq_nil_iff]
    omega

/-- The second entry is not listed, though the total says that there are two. -/
theorem one_by_one_cut_short :
    Serves twoEntries oneByOne (fun _ offset => (twoEntries.drop offset).take 1) ∧
      twoEntries.length ≤ listMaxPages * listPageSize ∧
      (listPaged "list_dir" oneByOne).1 = .ok [numberedEntry 0] ∧
        [numberedEntry 0] ≠ twoEntries :=
  ⟨serves_oneByOne, by decide, rfl, fun h => absurd (congrArg List.length h) (by decide)⟩

theorem all_at_once_complete : (listPaged "list_dir" allAtOnce).1 = .ok twoEntries := by
  refine (listing_complete_iff "list_dir" twoEntries (by decide) allAtOnce _
    serves_allAtOnce).1.mpr fun i hi => ?_
  have htwo : twoEntries.length = 2 := rfl
  have hzero : i = 0 := by
    rw [htwo, listPageSize] at hi
    omega
  subst hzero
  rfl

end SynologyFilestation.Core
