import SynologyFilestation.Library.OrderedMap
import SynologyFilestation.Openvpn.Packet

/-!
Retransmission (`openvpn/src/reliable.rs`).

A window of messages that are sent until they are acknowledged, and a window of
messages that are put back into the order they were sent in. Instants and
durations are numbers without a bound.
-/

namespace SynologyFilestation.Openvpn

open Core Library

instance instLinearOrderUInt32 : LinearOrder UInt32 where
  le_refl _ := UInt32.le_refl _
  le_trans _ _ _ := UInt32.le_trans
  le_antisymm _ _ := UInt32.le_antisymm
  le_total := UInt32.le_total
  lt_iff_le_not_ge a b := by
    rw [UInt32.lt_iff_toNat_lt, UInt32.le_iff_toNat_le, UInt32.le_iff_toNat_le]
    omega
  toDecidableLE := inferInstance
  toDecidableLT := inferInstance
  toDecidableEq := inferInstance

/-- `Outgoing`. -/
structure Outgoing where
  opcode : Opcode
  packetId : UInt32
  payload : Bytes
  deriving DecidableEq

/-- `InFlight`. -/
structure InFlight where
  opcode : Opcode
  payload : Bytes
  nextTry : Option ℕ
  timeout : ℕ
  laterAcks : UInt8
  deriving DecidableEq

namespace InFlight

/-- `InFlight::is_due`. -/
def isDue (entry : InFlight) (now : ℕ) (fastRetransmitAfter : UInt8) : Bool :=
  match entry.nextTry with
  | none => true
  | some next => next ≤ now || fastRetransmitAfter ≤ entry.laterAcks

/-- What sending does to the schedule. -/
def sentAt (entry : InFlight) (now : ℕ) : InFlight :=
  { entry with nextTry := some (now + entry.timeout), timeout := entry.timeout * 2, laterAcks := 0 }

/-- A later message was acknowledged: `saturating_add(1)`. -/
def overtaken (entry : InFlight) : InFlight :=
  { entry with laterAcks := if entry.laterAcks = 255 then 255 else entry.laterAcks + 1 }

end InFlight

/-! ### Sending -/

/-- `SendWindow`. -/
structure SendWindow where
  inFlight : OrderedMap UInt32 InFlight
  nextId : UInt32
  initialTimeout : ℕ

namespace SendWindow

/-- `SendWindow::CAPACITY`. -/
def capacity : ℕ := 6

/-- `FAST_RETRANSMIT_AFTER`. -/
def fastRetransmitAfter : UInt8 := 3

/-- `SendWindow::new`. -/
def new (initialTimeout : ℕ) : SendWindow := ⟨.empty, 0, initialTimeout⟩

variable (w : SendWindow)

/-- `SendWindow::is_full`. -/
def isFull : Bool :=
  if capacity ≤ w.inFlight.entries.length then true
  else
    match w.inFlight.entries.head? with
    | some (oldest, _) => capacity ≤ (w.nextId - oldest).toNat
    | none => false

/-- `SendWindow::queue`. -/
def queue (opcode : Opcode) (payload : Bytes) : Option UInt32 × SendWindow :=
  if w.isFull then (none, w)
  else (some w.nextId, { w with
    nextId := w.nextId + 1
    inFlight := w.inFlight.insert w.nextId ⟨opcode, payload, none, w.initialTimeout, 0⟩ })

/-- `SendWindow::next_due`. -/
def nextDue (now : ℕ) : Option Outgoing × SendWindow :=
  match w.inFlight.entries.find? fun e => e.2.isDue now fastRetransmitAfter with
  | some (id, entry) =>
      (some ⟨entry.opcode, id, entry.payload⟩,
        { w with inFlight := w.inFlight.insert id (entry.sentAt now) })
  | none => (none, w)

/-- One id of `SendWindow::acknowledge`. -/
def acknowledgeOne (id : UInt32) : SendWindow :=
  match w.inFlight.get? id with
  | none => w
  | some _ => { w with
      inFlight := (w.inFlight.erase id).mapValues fun waiting entry =>
        if waiting < id then entry.overtaken else entry }

/-- `SendWindow::acknowledge`. -/
def acknowledge (ids : List UInt32) : SendWindow := ids.foldl acknowledgeOne w

end SendWindow

/-! ### Receiving -/

/-- `Delivery`. -/
inductive Delivery
  | buffered
  | duplicate
  | outOfWindow
  deriving DecidableEq

/-- `Delivery::should_acknowledge`. -/
def Delivery.shouldAcknowledge : Delivery → Bool
  | buffered | duplicate => true
  | outOfWindow => false

/-- `RecvWindow`. -/
structure RecvWindow where
  buffered : OrderedMap UInt32 (Opcode × Bytes)
  nextExpected : UInt32
  pendingAcks : List UInt32
  recentAcks : List UInt32

namespace RecvWindow

/-- `RecvWindow::CAPACITY`. -/
def capacity : UInt32 := 12

/-- `RECENT_ACKS`. -/
def recentCapacity : ℕ := 8

/-- `RecvWindow::new`. -/
def new : RecvWindow := ⟨.empty, 0, [], []⟩

variable (w : RecvWindow)

/-- `RecvWindow::in_window`, whose sum wraps. -/
def inWindow (packetId : UInt32) : Bool := packetId < w.nextExpected + capacity

/-- An id that is worth an acknowledgement is owed one, once. -/
def owe (packetId : UInt32) : RecvWindow :=
  if packetId ∈ w.pendingAcks then w
  else { w with pendingAcks := w.pendingAcks ++ [packetId] }

/-- What happens to a message that is offered. -/
def offer (packetId : UInt32) (message : Opcode × Bytes) : Delivery × RecvWindow :=
  if !w.inWindow packetId then (.outOfWindow, w)
  else if packetId < w.nextExpected || (w.buffered.get? packetId).isSome then (.duplicate, w)
  else (.buffered, { w with buffered := w.buffered.insert packetId message })

/-- `RecvWindow::accept`. -/
def accept (packetId : UInt32) (opcode : Opcode) (payload : Bytes) : Delivery × RecvWindow :=
  let (verdict, kept) := w.offer packetId (opcode, payload)
  (verdict, if verdict.shouldAcknowledge then kept.owe packetId else kept)

/-- `RecvWindow::next_in_order`. -/
def nextInOrder : Option (Opcode × Bytes) × RecvWindow :=
  match w.buffered.get? w.nextExpected with
  | some message => (some message, { w with
      buffered := w.buffered.erase w.nextExpected
      nextExpected := w.nextExpected + 1 })
  | none => (none, w)

/-- The next TLS record in order: resets are stepped over (the loop of `poll_control`). Every
message that comes out is one less that is kept. -/
def nextRecord : ℕ → RecvWindow → Option Bytes × RecvWindow
  | 0, w => (none, w)
  | n + 1, w =>
      match w.nextInOrder with
      | (some (.controlV1, record), w) => (some record, w)
      | (some _, w) => nextRecord n w
      | (none, w) => (none, w)

/-- `RecvWindow::owes_acks`. -/
def owesAcks : Bool := !w.pendingAcks.isEmpty

/-- An acknowledgement that is sent, in front of those sent before. -/
def promote (recent : List UInt32) (id : UInt32) : List UInt32 := id :: recent.filter (· ≠ id)

/-- `RecvWindow::take_acks`. -/
def takeAcks (max : ℕ) : List UInt32 × RecvWindow :=
  let room := min max recentCapacity
  let recent := ((w.pendingAcks.take room).reverse.foldl promote w.recentAcks).take recentCapacity
  (recent.take room, { w with pendingAcks := w.pendingAcks.drop room, recentAcks := recent })

end RecvWindow

/-! ### What a window holds -/

namespace SendWindow

/-- A message waits for its acknowledgement, whatever its schedule. -/
def Holds (w : SendWindow) (id : UInt32) (message : Opcode × Bytes) : Prop :=
  ∃ entry, (id, entry) ∈ w.inFlight.entries ∧ (entry.opcode, entry.payload) = message

variable {w w' : SendWindow} {id i : UInt32} {message m : Opcode × Bytes} {opcode : Opcode}
  {payload : Bytes} {now timeout : ℕ} {out : Outgoing} {ids : List UInt32}

theorem not_holds_new : ¬(new timeout).Holds id message :=
  fun ⟨_, hmem, _⟩ => OrderedMap.mem_empty hmem

theorem inFlight_eq_empty (h : ∀ i m, ¬w.Holds i m) : w.inFlight = .empty :=
  OrderedMap.eq_empty_iff.mpr fun e he => h e.1 _ ⟨e.2, he, rfl⟩

/-- Room means that nothing waits, or that the oldest message that does is less than
the capacity behind. -/
theorem room (hroom : w.isFull = false) : (∀ i m, ¬w.Holds i m) ∨ ∃ oldest m,
    w.Holds oldest m ∧ (∀ i m, w.Holds i m → oldest ≤ i) ∧
      (w.nextId - oldest).toNat < capacity := by
  cases hentries : w.inFlight.entries with
  | nil =>
      left
      rintro i m ⟨entry, hmem, -⟩
      rw [hentries] at hmem
      exact List.not_mem_nil hmem
  | cons least rest =>
      have hhead : w.inFlight.entries.head? = some least := by rw [hentries]; rfl
      refine .inr ⟨least.1, _, ⟨least.2, List.mem_of_head? hhead, rfl⟩, ?_, ?_⟩
      · rintro i m ⟨entry, hmem, -⟩
        exact OrderedMap.head_le hhead hmem
      · unfold isFull at hroom
        rw [hhead] at hroom
        split at hroom
        case isTrue => cases hroom
        case isFalse => exact Nat.lt_of_not_le (of_decide_eq_false hroom)

theorem queue_eq_some (h : w.queue opcode payload = (some id, w')) :
    w.isFull = false ∧ id = w.nextId ∧ w'.nextId = w.nextId + 1 ∧ ∀ i m,
      w'.Holds i m ↔ i = id ∧ m = (opcode, payload) ∨ i ≠ id ∧ w.Holds i m := by
  rw [queue] at h
  split at h
  case isTrue => cases h
  case isFalse hroom =>
    cases h
    refine ⟨Bool.eq_false_iff.mpr hroom, rfl, rfl, fun i m => ?_⟩
    simp only [Holds, OrderedMap.mem_insert, Prod.mk.injEq]
    constructor
    · rintro ⟨entry, ⟨rfl, rfl⟩ | ⟨hne, hmem⟩, rfl⟩
      · exact .inl ⟨rfl, rfl⟩
      · exact .inr ⟨hne, entry, hmem, rfl⟩
    · rintro (⟨rfl, rfl⟩ | ⟨hne, entry, hmem, rfl⟩)
      · exact ⟨_, .inl ⟨rfl, rfl⟩, rfl⟩
      · exact ⟨entry, .inr ⟨hne, hmem⟩, rfl⟩

/-- A message that is refused leaves no trace. -/
theorem queue_eq_none (h : w.queue opcode payload = (none, w')) : w' = w := by
  rw [queue] at h
  split at h
  case isTrue => exact (Prod.mk.inj h).2.symm
  case isFalse => cases h

/-- Sending moves the schedule and nothing else. -/
theorem nextDue_eq_some (h : w.nextDue now = (some out, w')) :
    w.Holds out.packetId (out.opcode, out.payload) ∧ w'.nextId = w.nextId ∧
      ∀ i m, w'.Holds i m ↔ w.Holds i m := by
  unfold nextDue at h
  split at h
  case h_2 => cases h
  case h_1 id entry hfind =>
    cases h
    have hentry := List.mem_of_find?_eq_some hfind
    refine ⟨⟨entry, hentry, rfl⟩, rfl, fun i m => ?_⟩
    simp only [Holds, OrderedMap.mem_insert, Prod.mk.injEq]
    constructor
    · rintro ⟨_, ⟨rfl, rfl⟩ | ⟨-, hmem⟩, rfl⟩
      · exact ⟨entry, hentry, rfl⟩
      · exact ⟨_, hmem, rfl⟩
    · rintro ⟨entry', hmem, rfl⟩
      by_cases hi : i = id
      · subst hi
        rw [OrderedMap.value_unique hmem hentry]
        exact ⟨_, .inl ⟨rfl, rfl⟩, rfl⟩
      · exact ⟨entry', .inr ⟨hi, hmem⟩, rfl⟩

theorem holds_acknowledgeOne : (w.acknowledgeOne id).Holds i m ↔ i ≠ id ∧ w.Holds i m := by
  unfold acknowledgeOne
  split
  case h_1 hnone =>
    refine (and_iff_right_of_imp ?_).symm
    rintro ⟨entry, hmem, -⟩ rfl
    exact OrderedMap.get?_eq_none.mp hnone entry hmem
  case h_2 =>
    simp only [Holds, OrderedMap.mem_mapValues, OrderedMap.mem_erase]
    constructor
    · rintro ⟨_, ⟨entry, ⟨hne, hmem⟩, hentry⟩, rfl⟩
      refine ⟨hne, entry, hmem, ?_⟩
      rw [← hentry]
      split <;> rfl
    · rintro ⟨hne, entry, hmem, rfl⟩
      refine ⟨if i < id then entry.overtaken else entry, ⟨entry, ⟨hne, hmem⟩, ?_⟩, ?_⟩
      · rfl
      · split <;> rfl

theorem nextId_acknowledgeOne : (w.acknowledgeOne id).nextId = w.nextId := by
  unfold acknowledgeOne
  split <;> rfl

/-- What is acknowledged waits no longer. -/
theorem holds_acknowledge : (w.acknowledge ids).Holds i m ↔ i ∉ ids ∧ w.Holds i m := by
  induction ids generalizing w with
  | nil => exact (and_iff_right List.not_mem_nil).symm
  | cons id ids ih =>
      rw [acknowledge, List.foldl_cons, ← acknowledge, ih, holds_acknowledgeOne,
        List.mem_cons, not_or]
      tauto

@[simp] theorem nextId_acknowledge : (w.acknowledge ids).nextId = w.nextId := by
  induction ids generalizing w with
  | nil => rfl
  | cons id ids ih => exact ih.trans nextId_acknowledgeOne

end SendWindow

namespace RecvWindow

/-- A message is here: delivered, or waiting for those before it. -/
def Has (w : RecvWindow) (id : UInt32) : Prop :=
  id < w.nextExpected ∨ ∃ message, (id, message) ∈ w.buffered.entries

/-- An id that may be acknowledged, for the first time or again. -/
def Owes (w : RecvWindow) (id : UInt32) : Prop := id ∈ w.pendingAcks ∨ id ∈ w.recentAcks

variable {w w' : RecvWindow} {id i : UInt32} {opcode : Opcode} {payload : Bytes} {max : ℕ}
  {message : Opcode × Bytes} {ids : List UInt32}

theorem not_owes_new : ¬new.Owes id := by
  rintro (h | h) <;> cases h

@[simp] theorem buffered_owe : (w.owe id).buffered = w.buffered := by
  unfold owe
  split <;> rfl

@[simp] theorem nextExpected_owe : (w.owe id).nextExpected = w.nextExpected := by
  unfold owe
  split <;> rfl

theorem has_owe : (w.owe id).Has i ↔ w.Has i := by
  rw [Has, Has, buffered_owe, nextExpected_owe]

theorem owes_owe (h : (w.owe id).Owes i) : i = id ∨ w.Owes i := by
  unfold owe at h
  split at h
  case isTrue => exact .inr h
  case isFalse =>
    rcases h with hpending | hrecent
    · rcases List.mem_append.mp hpending with hold | hnew
      · exact .inr (.inl hold)
      · exact .inl (List.mem_singleton.mp hnew)
    · exact .inr (.inr hrecent)

theorem has_insert : { w with buffered := w.buffered.insert id message }.Has i ↔
    i = id ∨ w.Has i := by
  simp only [Has, OrderedMap.mem_insert, Prod.mk.injEq]
  constructor
  · rintro (hlt | ⟨m, ⟨rfl, -⟩ | ⟨-, hm⟩⟩)
    · exact .inr (.inl hlt)
    · exact .inl rfl
    · exact .inr (.inr ⟨m, hm⟩)
  · rintro (rfl | hlt | ⟨m, hm⟩)
    · exact .inr ⟨message, .inl ⟨rfl, rfl⟩⟩
    · exact .inl hlt
    · by_cases hi : i = id
      · exact .inr ⟨message, .inl ⟨hi, rfl⟩⟩
      · exact .inr ⟨m, .inr ⟨hi, hm⟩⟩

/-- All that can come of offering a message. -/
theorem accept_cases (w : RecvWindow) (id : UInt32) (opcode : Opcode) (payload : Bytes) :
    w.inWindow id = false ∧ w.accept id opcode payload = (.outOfWindow, w) ∨
    w.inWindow id = true ∧ w.Has id ∧ w.accept id opcode payload = (.duplicate, w.owe id) ∨
    w.inWindow id = true ∧ ¬w.Has id ∧ w.accept id opcode payload = (.buffered,
      { w with buffered := w.buffered.insert id (opcode, payload) }.owe id) := by
  have hhas : w.Has id ↔
      (decide (id < w.nextExpected) || (w.buffered.get? id).isSome) = true := by
    rw [Has, Bool.or_eq_true, decide_eq_true_eq, Option.isSome_iff_exists]
    exact or_congr_right (exists_congr fun _ => OrderedMap.get?_eq_some.symm)
  unfold accept offer
  cases hwindow : w.inWindow id with
  | false => exact .inl ⟨rfl, rfl⟩
  | true =>
      by_cases h : w.Has id
      · refine .inr (.inl ⟨rfl, h, ?_⟩)
        rw [if_pos (hhas.mp h)]
        rfl
      · refine .inr (.inr ⟨rfl, h, ?_⟩)
        rw [if_neg (mt hhas.mpr h)]
        rfl

theorem nextInOrder_eq_some (h : w.nextInOrder = (some message, w')) :
    (w.nextExpected, message) ∈ w.buffered.entries ∧ w' = { w with
      buffered := w.buffered.erase w.nextExpected, nextExpected := w.nextExpected + 1 } := by
  unfold nextInOrder at h
  split at h
  case h_1 hget =>
    cases h
    exact ⟨OrderedMap.get?_eq_some.mp hget, rfl⟩
  case h_2 => cases h

/-- Everything that could be handed out has been. -/
theorem nextInOrder_eq_none :
    w.nextInOrder.1 = none ↔ ∀ message, (w.nextExpected, message) ∉ w.buffered.entries := by
  rw [← OrderedMap.get?_eq_none]
  unfold nextInOrder
  split
  case h_1 hget => simp [hget]
  case h_2 hget => simp [hget]

theorem length_nextInOrder (h : w.nextInOrder = (some message, w')) :
    w'.buffered.entries.length < w.buffered.entries.length := by
  obtain ⟨hmem, rfl⟩ := nextInOrder_eq_some h
  exact OrderedMap.length_erase_lt hmem

/-- A record is ready when one comes out. -/
def isReady (w : RecvWindow) : Bool := (w.nextRecord w.buffered.entries.length).1.isSome

/-- A record that comes out is one message less. -/
theorem length_nextRecord {n : ℕ} {record : Bytes} (h : w.nextRecord n = (some record, w')) :
    w'.buffered.entries.length < w.buffered.entries.length := by
  induction n generalizing w with
  | zero => cases h
  | succ n ih =>
      rw [nextRecord] at h
      split at h
      case h_1 hnext =>
        obtain ⟨-, rfl⟩ := Prod.mk.inj h
        exact length_nextInOrder hnext
      case h_2 hnext => exact (ih h).trans (length_nextInOrder hnext)
      case h_3 => cases h

/-- When no record comes out, nothing is left that is in order. -/
theorem nextInOrder_of_nextRecord {n : ℕ} (hn : w.buffered.entries.length ≤ n)
    (h : w.nextRecord n = (none, w')) :
    w'.nextInOrder.1 = none ∧ w'.buffered.entries.length ≤ w.buffered.entries.length := by
  induction n generalizing w with
  | zero =>
      obtain ⟨-, rfl⟩ := Prod.mk.inj h
      have hempty := List.length_eq_zero_iff.mp (Nat.le_zero.mp hn)
      refine ⟨nextInOrder_eq_none.mpr fun message hmem => ?_, le_rfl⟩
      rw [hempty] at hmem
      cases hmem
  | succ n ih =>
      rw [nextRecord] at h
      split at h
      case h_1 => cases h
      case h_2 hnext =>
        have hlength := length_nextInOrder hnext
        obtain ⟨hnone, hle⟩ := ih (by omega) h
        exact ⟨hnone, hle.trans hlength.le⟩
      case h_3 hnext =>
        obtain ⟨-, rfl⟩ := Prod.mk.inj h
        unfold nextInOrder at hnext ⊢
        split at hnext
        case h_1 => cases hnext
        case h_2 hget =>
          obtain ⟨-, rfl⟩ := Prod.mk.inj hnext
          rw [hget]
          exact ⟨rfl, le_rfl⟩

theorem isReady_of_nextRecord (h : w.nextRecord w.buffered.entries.length = (none, w')) :
    w'.isReady = false := by
  have hnone := (nextInOrder_of_nextRecord le_rfl h).1
  rw [isReady]
  cases w'.buffered.entries.length with
  | zero => rfl
  | succ n =>
      rw [nextRecord]
      split
      case h_1 heq =>
        rw [heq] at hnone
        cases hnone
      case h_2 heq =>
        rw [heq] at hnone
        cases hnone
      case h_3 => rfl

theorem mem_foldl_promote {recent : List UInt32} (h : i ∈ ids.foldl promote recent) :
    i ∈ ids ∨ i ∈ recent := by
  induction ids generalizing recent with
  | nil => exact .inr h
  | cons id ids ih =>
      rcases ih h with hids | hpromoted
      · exact .inl (List.mem_cons_of_mem _ hids)
      · rcases List.mem_cons.mp hpromoted with rfl | hrecent
        · exact .inl List.mem_cons_self
        · exact .inr (List.mem_filter.mp hrecent).1

/-- What is taken was owed, and nothing new is owed after it. -/
theorem takeAcks_eq (h : w.takeAcks max = (ids, w')) :
    w'.buffered = w.buffered ∧ w'.nextExpected = w.nextExpected ∧
      (∀ i ∈ ids, w.Owes i) ∧ ∀ i, w'.Owes i → w.Owes i := by
  obtain ⟨rfl, rfl⟩ := Prod.mk.inj h
  have hrecent : ∀ i, i ∈ (w.takeAcks max).2.recentAcks → w.Owes i := by
    intro i hi
    rcases mem_foldl_promote (List.mem_of_mem_take hi) with hpending | hrecent
    · exact .inl (List.mem_of_mem_take (List.mem_reverse.mp hpending))
    · exact .inr hrecent
  refine ⟨rfl, rfl, fun i hi => hrecent i (List.mem_of_mem_take hi), fun i hi => ?_⟩
  rcases hi with hpending | hi
  · exact .inl (List.mem_of_mem_drop hpending)
  · exact hrecent i hi

end RecvWindow

end SynologyFilestation.Openvpn
