import SynologyFilestation.Library.SeenWindow

/-!
The replay window (`openvpn/src/replay.rs`).

Testing an id and recording it are one operation. The window of one clock value
refuses an id that it has recorded and one that it no longer covers, and a
refusal leaves it as it was.
-/

namespace SynologyFilestation.Openvpn

open Library

/-- `WINDOW`. -/
def replayWindow : ℕ := 64

/-- `ReplayWindow`. -/
structure ReplayWindow where
  time : UInt32
  highest : UInt32
  seen : BitVec 64
  deriving DecidableEq

namespace ReplayWindow

/-- `ReplayWindow::new`. -/
def new : ReplayWindow := ⟨0, 0, 0#64⟩

variable (w : ReplayWindow) (packetId netTime : UInt32)

/-- A new highest id. -/
def advance : ReplayWindow :=
  let advance := (packetId - w.highest).toNat
  { w with
    seen := if 64 ≤ advance then 1#64 else w.seen <<< advance ||| 1#64
    highest := packetId }

/-- How far behind the highest id. -/
def behind : ℕ := (w.highest - packetId).toNat

/-- What the window does with an id of its own clock. -/
def acceptSequence : Bool × ReplayWindow :=
  if w.highest < packetId then (true, w.advance packetId)
  else if replayWindow ≤ w.behind packetId then (false, w)
  else if w.seen &&& 1#64 <<< w.behind packetId ≠ 0#64 then (false, w)
  else (true, { w with seen := w.seen ||| 1#64 <<< w.behind packetId })

/-- `ReplayWindow::accept`. -/
def accept : Bool × ReplayWindow :=
  if packetId = 0 then (false, w)
  else if w.time < netTime then (true, ⟨netTime, packetId, 1#64⟩)
  else if netTime < w.time then (false, w)
  else w.acceptSequence packetId

variable {w packetId netTime}

theorem acceptSequence_refused (h : (w.acceptSequence packetId).1 = false) :
    (w.acceptSequence packetId).2 = w := by
  unfold acceptSequence at h ⊢
  split_ifs at h ⊢ <;> rfl

/-- A refused id leaves no trace. -/
theorem accept_refused (h : (w.accept packetId netTime).1 = false) :
    (w.accept packetId netTime).2 = w := by
  unfold accept at h ⊢
  split_ifs at h ⊢ <;> first | rfl | exact acceptSequence_refused h

/-- The bit of an id behind the highest. -/
theorem seen_and_bit {i : ℕ} (seen : BitVec 64) (hi : i < 64) :
    seen &&& 1#64 <<< i ≠ 0#64 ↔ seen.getLsbD i = true := by
  constructor
  · intro hne
    by_contra hbit
    apply hne
    apply BitVec.eq_of_getLsbD_eq
    intro j hj
    rw [BitVec.getLsbD_and, BitVec.getLsbD_shiftLeft, BitVec.getLsbD_one, BitVec.getLsbD_zero]
    rcases eq_or_ne j i with rfl | hne
    · simp [hbit]
    · have hfar : j < i ∨ j - i ≠ 0 := by omega
      rcases hfar with hlt | hpos
      · simp [hlt]
      · simp [hpos]
  · intro hbit hzero
    have hsame := congrArg (BitVec.getLsbD · i) hzero
    simp only [BitVec.getLsbD_and, BitVec.getLsbD_shiftLeft, BitVec.getLsbD_one, hbit,
      BitVec.getLsbD_zero, Nat.sub_self] at hsame
    simp [hi] at hsame

theorem behind_eq (h : ¬w.highest < packetId) :
    packetId.toNat ≤ w.highest.toNat ∧
      w.behind packetId = w.highest.toNat - packetId.toNat := by
  have hle : packetId ≤ w.highest := UInt32.not_lt.mp h
  exact ⟨UInt32.le_iff_toNat_le.mp hle, UInt32.toNat_sub_of_le _ _ hle⟩

/-- The window has taken these ids, all at its clock. -/
structure Took (w : ReplayWindow) (ids : Set ℕ) : Prop where
  records : Records w.highest.toNat w.seen ids
  zero : 0 ∉ ids
  reached : w.highest = 0 ∨ w.highest.toNat ∈ ids

theorem took_new : Took new ∅ := ⟨records_empty, fun h => h, .inl rfl⟩

variable {ids : Set ℕ}

/-- **Which ids the window takes**: those it has not taken and still covers. -/
theorem Took.accept_iff (h : Took w ids) :
    (w.accept packetId w.time).1 = true ↔
      packetId ≠ 0 ∧ packetId.toNat ∉ ids ∧ w.highest.toNat < packetId.toNat + replayWindow := by
  have hirrefl : ¬w.time < w.time := by rw [UInt32.lt_iff_toNat_lt]; exact Nat.lt_irrefl _
  rw [accept]
  by_cases hzero : packetId = 0
  · simp [hzero]
  rw [if_neg hzero, if_neg hirrefl, if_neg hirrefl, acceptSequence]
  by_cases hlt : w.highest < packetId
  · rw [if_pos hlt]
    have hlt' := UInt32.lt_iff_toNat_lt.mp hlt
    exact iff_of_true rfl ⟨hzero, h.records.notMem_of_lt hlt', by omega⟩
  · obtain ⟨hle, hbehind⟩ := behind_eq hlt
    rw [if_neg hlt, hbehind]
    by_cases hold : replayWindow ≤ w.highest.toNat - packetId.toNat
    · rw [if_pos hold]
      exact iff_of_false Bool.false_ne_true fun ⟨_, _, hcovers⟩ => by omega
    · have hcovers := Nat.lt_of_not_le hold
      have hbit := (seen_and_bit w.seen hcovers).trans (h.records.covered hle hcovers)
      rw [if_neg hold]
      by_cases hmem : packetId.toNat ∈ ids
      · rw [if_pos (hbit.mpr hmem)]
        exact iff_of_false Bool.false_ne_true fun ⟨_, hfresh, _⟩ => hfresh hmem
      · rw [if_neg (mt hbit.mp hmem)]
        exact iff_of_true rfl ⟨hzero, hmem, by omega⟩

/-- What the window has taken it records. -/
theorem Took.accept (h : Took w ids) (haccepted : (w.accept packetId w.time).1 = true) :
    (w.accept packetId w.time).2.Took (insert packetId.toNat ids) ∧
      (w.accept packetId w.time).2.time = w.time := by
  obtain ⟨hzero, hmem, hcovers⟩ := h.accept_iff.mp haccepted
  have hirrefl : ¬w.time < w.time := by rw [UInt32.lt_iff_toNat_lt]; exact Nat.lt_irrefl _
  have hzero' : 0 ∉ insert packetId.toNat ids := by
    rintro (heq | hold)
    · exact hzero (UInt32.toNat_inj.mp heq.symm)
    · exact h.zero hold
  rw [ReplayWindow.accept, if_neg hzero, if_neg hirrefl, if_neg hirrefl] at haccepted ⊢
  unfold acceptSequence at haccepted ⊢
  by_cases hlt : w.highest < packetId
  · rw [if_pos hlt]
    have hlt' := UInt32.lt_iff_toNat_lt.mp hlt
    have hadvance : (packetId - w.highest).toNat = packetId.toNat - w.highest.toNat :=
      UInt32.toNat_sub_of_le _ _ (UInt32.le_iff_toNat_le.mpr hlt'.le)
    refine ⟨⟨?_, hzero', .inr (.inl rfl)⟩, rfl⟩
    have hrecords := h.records.advance hlt'
    have hseen : (w.advance packetId).seen =
        w.seen <<< (packetId.toNat - w.highest.toNat) ||| 1#64 := by
      rw [advance, hadvance]
      dsimp only
      split
      case isTrue hfar => rw [BitVec.shiftLeft_eq_zero hfar, BitVec.zero_or]
      case isFalse => rfl
    rw [hseen]
    exact hrecords
  · obtain ⟨hle, hbehind⟩ := behind_eq hlt
    rw [if_neg hlt, hbehind] at haccepted ⊢
    split_ifs at haccepted ⊢
    exact ⟨⟨h.records.mark hle, hzero', h.reached.imp_right .inr⟩, rfl⟩

theorem Took.highest_lt_iff (h : Took w ids) {n : ℕ} (hn : 0 < n) :
    w.highest.toNat < n ↔ ∀ k ∈ ids, k < n := by
  constructor
  · exact fun hlt k hk => (h.records.le k hk).trans_lt hlt
  · intro hall
    rcases h.reached with hzero | hmem
    · rw [hzero]
      exact hn
    · exact hall _ hmem

/-- The first id of a clock. -/
theorem took_first (netTime : UInt32) (hne : packetId ≠ 0) :
    Took ⟨netTime, packetId, 1#64⟩ {packetId.toNat} := by
  have hpos : 0 < packetId.toNat := Nat.pos_of_ne_zero fun h => hne (UInt32.toNat_inj.mp h)
  refine ⟨?_, fun h => hpos.ne (Set.mem_singleton_iff.mp h), .inr rfl⟩
  have hrecords := (records_empty (n := 64)).advance hpos
  rwa [BitVec.zero_shiftLeft, BitVec.zero_or, insert_empty_eq] at hrecords

/-! ### Over a history of calls -/

/-- An id with the clock it was sent at. -/
abbrev Call := UInt32 × UInt32

def after (w : ReplayWindow) (call : Call) : ReplayWindow := (w.accept call.1 call.2).2

/-- Those of the calls that are accepted. -/
def accepted : ReplayWindow → List Call → List Call
  | _, [] => []
  | w, call :: calls =>
      if (w.accept call.1 call.2).1 then call :: (w.after call).accepted calls
      else (w.after call).accepted calls

/-- The ids among these that were sent at this clock. -/
def idsAt (netTime : UInt32) (calls : List Call) : List ℕ :=
  (calls.filter (·.2 = netTime)).map (·.1.toNat)

/-- The highest of them, or zero. -/
def highestAt (netTime : UInt32) (calls : List Call) : ℕ := (idsAt netTime calls).foldr max 0

theorem mem_idsAt {k : ℕ} {calls : List Call} :
    k ∈ idsAt netTime calls ↔ ∃ id, (id, netTime) ∈ calls ∧ id.toNat = k := by
  simp only [idsAt, List.mem_map, List.mem_filter, decide_eq_true_eq, Prod.exists]
  constructor
  · rintro ⟨id, _, ⟨hmem, rfl⟩, rfl⟩
    exact ⟨id, hmem, rfl⟩
  · rintro ⟨id, hmem, rfl⟩
    exact ⟨id, netTime, ⟨hmem, rfl⟩, rfl⟩

theorem highestAt_lt_iff {n : ℕ} (hn : 0 < n) {calls : List Call} :
    highestAt netTime calls < n ↔ ∀ k ∈ idsAt netTime calls, k < n := by
  unfold highestAt
  induction idsAt netTime calls with
  | nil => simpa using hn
  | cons k ids ih => simp [ih]

/-- The window knows which of these calls it accepted that were sent at its clock, and
that all the others are older. -/
structure Remembers (w : ReplayWindow) (calls : List Call) : Prop where
  took : w.Took {k | k ∈ idsAt w.time calls}
  le : ∀ call ∈ calls, call.2 ≤ w.time
  reached : w.time = 0 ∨ ∃ call ∈ calls, call.2 = w.time

theorem remembers_new : new.Remembers [] where
  took := by
    simp only [idsAt, List.filter_nil, List.map_nil, List.not_mem_nil, Set.ofPred_false]
    exact took_new
  le := nofun
  reached := .inl rfl

variable {calls : List Call}

theorem Remembers.time_le_iff (h : w.Remembers calls) :
    w.time ≤ netTime ↔ ∀ call ∈ calls, call.2 ≤ netTime := by
  constructor
  · exact fun hle call hcall => UInt32.le_trans (h.le call hcall) hle
  · intro hall
    rcases h.reached with hzero | ⟨call, hcall, hsame⟩
    · rw [hzero]
      exact UInt32.zero_le
    · exact hsame ▸ hall call hcall

/-- A fresh sequence: nothing was accepted at its clock. -/
theorem Remembers.idsAt_of_lt (h : w.Remembers calls) (hlater : w.time < netTime) :
    idsAt netTime calls = [] := by
  rw [List.eq_nil_iff_forall_not_mem]
  intro k hk
  obtain ⟨id, hid, -⟩ := mem_idsAt.mp hk
  exact UInt32.not_lt.mpr (h.le _ hid) hlater

theorem Remembers.accept_iff (h : w.Remembers calls) (packetId netTime : UInt32) :
    (w.accept packetId netTime).1 = true ↔
      packetId ≠ 0 ∧ (∀ call ∈ calls, call.2 ≤ netTime) ∧
        (highestAt netTime calls : ℤ) - replayWindow < packetId.toNat ∧
          (packetId, netTime) ∉ calls := by
  rw [← h.time_le_iff]
  have hcovers : (highestAt netTime calls : ℤ) - replayWindow < packetId.toNat ↔
      ∀ k ∈ idsAt netTime calls, k < packetId.toNat + replayWindow := by
    rw [← highestAt_lt_iff (by simp [replayWindow])]
    omega
  have hmem : (packetId, netTime) ∈ calls ↔ packetId.toNat ∈ idsAt netTime calls := by
    rw [mem_idsAt]
    constructor
    · exact fun hmem => ⟨packetId, hmem, rfl⟩
    · rintro ⟨id, hmem, hsame⟩
      exact UInt32.toNat_inj.mp hsame ▸ hmem
  rw [hcovers, hmem]
  by_cases hlater : w.time < netTime
  · rw [h.idsAt_of_lt hlater, accept, if_pos hlater]
    split
    case isTrue hzero => simp [hzero]
    case isFalse hne => simp [hne, UInt32.le_of_lt hlater]
  by_cases hpast : netTime < w.time
  · have hrefused : (w.accept packetId netTime).1 = false := by
      rw [accept, if_neg hlater, if_pos hpast]
      split <;> rfl
    rw [hrefused]
    exact iff_of_false Bool.false_ne_true fun ⟨_, hle, _⟩ => UInt32.not_lt.mpr hle hpast
  · obtain rfl := UInt32.le_antisymm (UInt32.not_lt.mp hlater) (UInt32.not_lt.mp hpast)
    rw [h.took.accept_iff, h.took.highest_lt_iff (by simp [replayWindow])]
    constructor
    · exact fun ⟨hne, hfresh, hall⟩ => ⟨hne, UInt32.le_refl _, hall, hfresh⟩
    · exact fun ⟨hne, _, hall, hfresh⟩ => ⟨hne, hfresh, hall⟩

theorem idsAt_append_self : {k | k ∈ idsAt netTime (calls ++ [(packetId, netTime)])} =
    insert packetId.toNat {k | k ∈ idsAt netTime calls} := by
  ext k
  simp [idsAt, or_comm]

/-- **One call**: an accepted one is remembered, and a refused one leaves the window as
it was. -/
theorem Remembers.after (h : w.Remembers calls) (call : Call) :
    (w.after call).Remembers
      (if (w.accept call.1 call.2).1 then calls ++ [call] else calls) := by
  obtain ⟨packetId, netTime⟩ := call
  cases haccepted : (w.accept packetId netTime).1 with
  | false =>
      rw [ReplayWindow.after, accept_refused haccepted]
      exact h
  | true =>
      rw [if_pos rfl, ReplayWindow.after]
      obtain ⟨hne, hall, -, -⟩ := (h.accept_iff _ _).mp haccepted
      by_cases hlater : w.time < netTime
      · have hwindow : (w.accept packetId netTime).2 = ⟨netTime, packetId, 1#64⟩ := by
          rw [accept, if_neg hne, if_pos hlater]
        have hnone : {k | k ∈ idsAt netTime calls} = ∅ := by
          rw [h.idsAt_of_lt hlater]
          exact Set.eq_empty_of_forall_notMem fun k => List.not_mem_nil
        rw [hwindow]
        refine ⟨?_, ?_, .inr ⟨_, List.mem_append_right _ (.head _), rfl⟩⟩
        · rw [idsAt_append_self, hnone, insert_empty_eq]
          exact took_first netTime hne
        · simpa [or_imp, forall_and] using hall
      · obtain rfl := UInt32.le_antisymm (h.time_le_iff.mpr hall) (UInt32.not_lt.mp hlater)
        obtain ⟨htook, htime⟩ := h.took.accept haccepted
        refine ⟨?_, ?_, .inr ⟨_, List.mem_append_right _ (.head _), htime.symm⟩⟩
        · rw [htime, idsAt_append_self]
          exact htook
        · rw [htime]
          simpa [or_imp, forall_and] using hall

theorem Remembers.run (h : w.Remembers calls) (more : List Call) :
    (more.foldl ReplayWindow.after w).Remembers (calls ++ w.accepted more) := by
  induction more generalizing w calls with
  | nil => simpa [accepted] using h
  | cons call more ih =>
      have hafter := ih (h.after call)
      rw [List.foldl_cons, accepted]
      cases haccepted : (w.accept call.1 call.2).1 with
      | false => simpa [haccepted] using hafter
      | true => simpa [haccepted] using hafter

theorem Remembers.nodup (h : w.Remembers calls) (hcalls : calls.Nodup) (more : List Call) :
    (calls ++ w.accepted more).Nodup := by
  induction more generalizing w calls with
  | nil => simpa [accepted] using hcalls
  | cons call more ih =>
      have hafter := ih (h.after call)
      rw [accepted]
      cases haccepted : (w.accept call.1 call.2).1 with
      | false => simpa [haccepted] using hafter (by simpa [haccepted] using hcalls)
      | true =>
          obtain ⟨-, -, -, hfresh⟩ := (h.accept_iff _ _).mp haccepted
          have hcalls' : (calls ++ [call]).Nodup := by
            rw [List.nodup_append_comm]
            exact List.nodup_cons.mpr ⟨hfresh, hcalls⟩
          simpa [haccepted] using hafter (by simpa [haccepted] using hcalls')

theorem accepted_subset (w : ReplayWindow) (calls : List Call) : w.accepted calls ⊆ calls := by
  induction calls generalizing w with
  | nil => exact List.nil_subset _
  | cons call calls ih =>
      rw [accepted]
      split
      · exact List.cons_subset_cons _ (ih _)
      · exact List.subset_cons_of_subset _ (ih _)

/-- **The replay window is exact.** No call is accepted twice. What is accepted after any
history is what is not zero, not older than anything accepted, inside the window of its
clock and new; while the clock stands still only the last three count. A refusal changes
nothing. -/
theorem accept_exact (calls : List Call) :
    (new.accepted calls).Nodup ∧
      (∀ id time, ((calls.foldl after new).accept id time).1 = true ↔
        id ≠ 0 ∧ (∀ call ∈ new.accepted calls, call.2 ≤ time) ∧
          (highestAt time (new.accepted calls) : ℤ) - 64 < id.toNat ∧
            (id, time) ∉ new.accepted calls) ∧
      (∀ id time, (∀ call ∈ calls, call.2 = time) →
        (((calls.foldl after new).accept id time).1 = true ↔
          id ≠ 0 ∧ (highestAt time (new.accepted calls) : ℤ) - 64 < id.toNat ∧
            (id, time) ∉ new.accepted calls)) ∧
      ∀ id time, ((calls.foldl after new).accept id time).1 = false →
        ((calls.foldl after new).accept id time).2 = calls.foldl after new := by
  have hremembers : (calls.foldl after new).Remembers (new.accepted calls) :=
    remembers_new.run calls
  have haccept := fun id time => hremembers.accept_iff id time
  refine ⟨remembers_new.nodup .nil calls, haccept, fun id time hconstant => ?_,
    fun id time => accept_refused⟩
  rw [haccept]
  have hle : ∀ call ∈ new.accepted calls, call.2 ≤ time := fun call hcall =>
    hconstant call (accepted_subset new calls hcall) ▸ UInt32.le_refl _
  exact and_congr_right fun _ => and_iff_right hle

end ReplayWindow

end SynologyFilestation.Openvpn
