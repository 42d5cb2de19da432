import SynologyFilestation.Library.Log
import SynologyFilestation.Library.Transition
import SynologyFilestation.Openvpn.Reliable

/-!
A send window at one end, a receive window at the other, and whatever the network
does with datagrams and acknowledgements.

What was put on the network stays there: it may arrive any number of times, in
any order, or never. What was queued and what was delivered is written down
beside the windows.
-/

namespace SynologyFilestation.Openvpn

open Core Library

structure ReliableLink where
  send : SendWindow
  recv : RecvWindow
  queued : List (Opcode × Bytes)
  delivered : List (Opcode × Bytes)
  sent : List Outgoing
  acked : List (List UInt32)

def ReliableLink.new (timeout : ℕ) : ReliableLink := ⟨.new timeout, .new, [], [], [], []⟩

/-- Nothing more can be handed out. -/
def ReliableLink.Drained (s : ReliableLink) : Prop := s.recv.nextInOrder.1 = none

inductive ReliableEvent
  | queue
  | transmit
  | accept
  | deliver
  | takeAcks
  | acknowledge

/-- One call at either end. The receiver hands out what it can before it is offered
more. -/
inductive ReliableStep : ReliableLink → ReliableEvent → ReliableLink → Prop
  | queue {s : ReliableLink} {opcode : Opcode} {payload : Bytes} {id : UInt32} {w : SendWindow}
      (h : s.send.queue opcode payload = (some id, w)) :
      ReliableStep s .queue { s with send := w, queued := s.queued ++ [(opcode, payload)] }
  | transmit {s : ReliableLink} {now : ℕ} {out : Outgoing} {w : SendWindow}
      (h : s.send.nextDue now = (some out, w)) :
      ReliableStep s .transmit { s with send := w, sent := s.sent ++ [out] }
  | accept {s : ReliableLink} {out : Outgoing} {verdict : Delivery} {w : RecvWindow}
      (hsent : out ∈ s.sent) (hdrained : s.Drained)
      (h : s.recv.accept out.packetId out.opcode out.payload = (verdict, w)) :
      ReliableStep s .accept { s with recv := w }
  | deliver {s : ReliableLink} {message : Opcode × Bytes} {w : RecvWindow}
      (h : s.recv.nextInOrder = (some message, w)) :
      ReliableStep s .deliver { s with recv := w, delivered := s.delivered ++ [message] }
  | takeAcks {s : ReliableLink} {max : ℕ} {ids : List UInt32} {w : RecvWindow}
      (h : s.recv.takeAcks max = (ids, w)) :
      ReliableStep s .takeAcks { s with recv := w, acked := s.acked ++ [ids] }
  | acknowledge {s : ReliableLink} {ids : List UInt32} (hacked : ids ∈ s.acked) :
      ReliableStep s .acknowledge { s with send := s.send.acknowledge ids }

theorem ReliableStep.queued_eq {s t : ReliableLink} {event : ReliableEvent}
    (h : ReliableStep s event t) (hevent : event ≠ .queue) : t.queued = s.queued := by
  cases h with
  | queue => exact absurd rfl hevent
  | _ => rfl

namespace ReliableLink

/-- The windows agree with what was queued. Below the messages that wait everything is
here, and what waits is close behind the next id. -/
structure InOrder (s : ReliableLink) : Prop where
  next : s.send.nextId.toNat = s.queued.length
  waiting {id m} : s.send.Holds id m → s.queued[id.toNat]? = some m
  near {id m} : s.send.Holds id m → s.queued.length ≤ id.toNat + SendWindow.capacity
  gone {id} : id.toNat < s.queued.length → (∀ m, ¬s.send.Holds id m) → s.recv.Has id
  sent {out} : out ∈ s.sent → s.queued[out.packetId.toNat]? = some (out.opcode, out.payload)
  kept {id m} : (id, m) ∈ s.recv.buffered.entries →
    s.recv.nextExpected ≤ id ∧ s.queued[id.toNat]? = some m
  low {id} : s.recv.Has id → id.toNat + 8 ≤ 2 ^ 32
  reached : s.recv.nextExpected.toNat ≤ s.queued.length
  delivered : s.delivered = s.queued.take s.recv.nextExpected.toNat
  owed {id} : s.recv.Owes id → s.recv.Has id
  acked {ids id} : ids ∈ s.acked → id ∈ ids → s.recv.Has id

variable {s t : ReliableLink} {event : ReliableEvent}

theorem inOrder_new (timeout : ℕ) : (new timeout).InOrder where
  next := rfl
  waiting h := absurd h SendWindow.not_holds_new
  near h := absurd h SendWindow.not_holds_new
  gone h := absurd h (Nat.not_lt_zero _)
  sent h := absurd h List.not_mem_nil
  kept h := absurd h OrderedMap.mem_empty
  low h := by
    rcases h with h | ⟨_, h⟩
    · exact absurd (UInt32.lt_iff_toNat_lt.mp h) (Nat.not_lt_zero _)
    · exact absurd h OrderedMap.mem_empty
  reached := Nat.le_refl _
  delivered := rfl
  owed h := absurd h RecvWindow.not_owes_new
  acked h := absurd h List.not_mem_nil

/-- The next expected message is not here when everything was handed out. -/
theorem Drained.not_has (h : s.Drained) : ¬s.recv.Has s.recv.nextExpected := by
  rintro (hlt | ⟨m, hm⟩)
  · exact UInt32.lt_irrefl _ hlt
  · exact RecvWindow.nextInOrder_eq_none.mp h m hm

/-- The receiver is not far behind. -/
theorem InOrder.drained_near (h : s.InOrder) (hdrained : s.Drained) :
    s.queued.length ≤ s.recv.nextExpected.toNat + SendWindow.capacity := by
  by_contra hfar
  have hlt : s.recv.nextExpected.toNat < s.queued.length := by omega
  have hnone : ∀ m, ¬s.send.Holds s.recv.nextExpected m :=
    fun m hm => hfar (h.near hm)
  exact hdrained.not_has (h.gone hlt hnone)

/-- The sender stops before its ids wrap. -/
theorem InOrder.queued_lt (h : s.InOrder) (hroom : s.send.isFull = false) :
    s.queued.length + 1 < 2 ^ 32 ∧
      ∀ id m, s.send.Holds id m → s.queued.length + 1 ≤ id.toNat + SendWindow.capacity := by
  have hbelow : ∀ n, n ≤ s.queued.length → (∀ id m, s.send.Holds id m → n ≤ id.toNat) →
      n + 7 ≤ 2 ^ 32 := by
    intro n hn hleast
    rcases Nat.eq_zero_or_pos n with rfl | hpos
    · decide
    have hnext := s.send.nextId.toNat_lt
    have hid : (UInt32.ofNat (n - 1)).toNat = n - 1 := by
      have := h.next
      rw [UInt32.toNat_ofNat']
      omega
    have hgone : s.recv.Has (.ofNat (n - 1)) := h.gone (by omega) fun m hm => by
      have := hleast _ _ hm
      omega
    have hlow := h.low hgone
    omega
  rcases SendWindow.room hroom with hnone | ⟨oldest, m, hheld, hleast, hdiff⟩
  · have := hbelow _ le_rfl fun id m hm => absurd hm (hnone id m)
    exact ⟨by omega, fun id m hm => absurd hm (hnone id m)⟩
  · have hlt := (List.getElem?_eq_some_iff.mp (h.waiting hheld)).1
    have hle : ∀ id m, s.send.Holds id m → oldest.toNat ≤ id.toNat :=
      fun id m hm => UInt32.le_iff_toNat_le.mp (hleast id m hm)
    have := hbelow oldest.toNat hlt.le hle
    rw [UInt32.toNat_sub_of_le _ _ (UInt32.le_iff_toNat_le.mpr (h.next ▸ hlt.le)), h.next,
      SendWindow.capacity] at hdiff
    refine ⟨by omega, fun id m hm => ?_⟩
    have := hle id m hm
    rw [SendWindow.capacity]
    omega

theorem InOrder.queue (h : s.InOrder) {opcode : Opcode} {payload : Bytes} {id : UInt32}
    {w : SendWindow} (hqueue : s.send.queue opcode payload = (some id, w)) :
    InOrder { s with send := w, queued := s.queued ++ [(opcode, payload)] } := by
  obtain ⟨hroom, rfl, hnext, hholds⟩ := SendWindow.queue_eq_some hqueue
  obtain ⟨hlength, hnear⟩ := h.queued_lt hroom
  have hid := h.next
  refine { h with
    next := ?_
    waiting := ?_
    near := ?_
    gone := ?_
    sent := fun hout => getElem?_concat_of_some (h.sent hout)
    kept := fun hm => ⟨(h.kept hm).1, getElem?_concat_of_some (h.kept hm).2⟩
    reached := ?_
    delivered := ?_ }
  · rw [hnext, UInt32.toNat_add, UInt32.toNat_one, List.length_append, List.length_singleton, hid]
    exact Nat.mod_eq_of_lt hlength
  · intro i m hm
    rcases (hholds i m).mp hm with ⟨rfl, rfl⟩ | ⟨-, hm⟩
    · rw [hid]
      exact List.getElem?_concat_length
    · exact getElem?_concat_of_some (h.waiting hm)
  · intro i m hm
    rw [List.length_append, List.length_singleton]
    rcases (hholds i m).mp hm with ⟨rfl, rfl⟩ | ⟨-, hm⟩
    · rw [hid, SendWindow.capacity]
      omega
    · exact hnear i m hm
  · intro i hi hnone
    have hne : i ≠ s.send.nextId := fun heq => hnone _ ((hholds _ _).mpr (.inl ⟨heq, rfl⟩))
    have hne' : i.toNat ≠ s.queued.length := fun heq =>
      hne (UInt32.toNat_inj.mp (heq.trans hid.symm))
    rw [List.length_append, List.length_singleton] at hi
    exact h.gone (by omega) fun m hm => hnone m ((hholds i m).mpr (.inr ⟨hne, hm⟩))
  · rw [List.length_append]
    exact Nat.le_add_right_of_le h.reached
  · rw [List.take_append_of_le_length h.reached]
    exact h.delivered

/-- A message that the receiver keeps is close to what it expects. -/
theorem InOrder.kept_new (h : s.InOrder) (hdrained : s.Drained) {id : UInt32}
    (hlt : id.toNat < s.queued.length) (hwindow : s.recv.inWindow id = true)
    (hnot : ¬s.recv.Has id) : s.recv.nextExpected ≤ id ∧ id.toNat + 8 ≤ 2 ^ 32 := by
  have hle : s.recv.nextExpected ≤ id := UInt32.not_lt.mp fun hlt => hnot (.inl hlt)
  have hnear := h.drained_near hdrained
  have hle' := UInt32.le_iff_toNat_le.mp hle
  have hwindow' := UInt32.lt_iff_toNat_lt.mp (of_decide_eq_true hwindow)
  have hexpected := s.recv.nextExpected.toNat_lt
  rw [UInt32.toNat_add, show RecvWindow.capacity.toNat = 12 from rfl] at hwindow'
  rw [SendWindow.capacity] at hnear
  exact ⟨hle, by omega⟩

theorem InOrder.owe (h : s.InOrder) {id : UInt32} (hhas : s.recv.Has id) :
    InOrder { s with recv := s.recv.owe id } := by
  refine { h with
    gone := fun hi hnone => RecvWindow.has_owe.mpr (h.gone hi hnone)
    kept := fun hm => ?_
    low := fun hi => h.low (RecvWindow.has_owe.mp hi)
    reached := ?_
    delivered := ?_
    owed := fun hi => RecvWindow.has_owe.mpr ?_
    acked := fun hids hi => RecvWindow.has_owe.mpr (h.acked hids hi) }
  · rw [RecvWindow.buffered_owe] at hm
    rw [RecvWindow.nextExpected_owe]
    exact h.kept hm
  · rw [RecvWindow.nextExpected_owe]
    exact h.reached
  · rw [RecvWindow.nextExpected_owe]
    exact h.delivered
  · rcases RecvWindow.owes_owe hi with rfl | hi
    · exact hhas
    · exact h.owed hi

theorem InOrder.keep (h : s.InOrder) {id : UInt32} {message : Opcode × Bytes}
    (hqueued : s.queued[id.toNat]? = some message)
    (hid : s.recv.nextExpected ≤ id ∧ id.toNat + 8 ≤ 2 ^ 32) :
    InOrder { s with recv :=
      { s.recv with buffered := s.recv.buffered.insert id message } } := by
  refine { h with
    gone := fun hi hnone => RecvWindow.has_insert.mpr (.inr (h.gone hi hnone))
    kept := fun hm => ?_
    low := fun hi => ?_
    owed := fun hi => RecvWindow.has_insert.mpr (.inr (h.owed hi))
    acked := fun hids hi => RecvWindow.has_insert.mpr (.inr (h.acked hids hi)) }
  · rcases OrderedMap.mem_insert.mp hm with heq | ⟨-, hm⟩
    · obtain ⟨rfl, rfl⟩ := Prod.mk.inj heq
      exact ⟨hid.1, hqueued⟩
    · exact h.kept hm
  · rcases RecvWindow.has_insert.mp hi with rfl | hi
    · exact hid.2
    · exact h.low hi

theorem InOrder.accept (h : s.InOrder) (hdrained : s.Drained) {out : Outgoing}
    (hsent : out ∈ s.sent) {verdict : Delivery} {w : RecvWindow}
    (haccept : s.recv.accept out.packetId out.opcode out.payload = (verdict, w)) :
    InOrder { s with recv := w } := by
  have hqueued := h.sent hsent
  rcases s.recv.accept_cases out.packetId out.opcode out.payload with
    ⟨-, heq⟩ | ⟨-, hhas, heq⟩ | ⟨hwindow, hnot, heq⟩
  all_goals
    obtain ⟨-, rfl⟩ := Prod.mk.inj (haccept.symm.trans heq)
  · exact h
  · exact h.owe hhas
  · have hid := h.kept_new hdrained (List.getElem?_eq_some_iff.mp hqueued).1 hwindow hnot
    exact (h.keep hqueued hid).owe (RecvWindow.has_insert.mpr (.inl rfl))

theorem InOrder.deliver (h : s.InOrder) {message : Opcode × Bytes} {w : RecvWindow}
    (hnext : s.recv.nextInOrder = (some message, w)) :
    InOrder { s with recv := w, delivered := s.delivered ++ [message] } := by
  obtain ⟨hmem, rfl⟩ := RecvWindow.nextInOrder_eq_some hnext
  have hqueued := (h.kept hmem).2
  have hlt := (List.getElem?_eq_some_iff.mp hqueued).1
  have hlow := h.low (.inr ⟨message, hmem⟩)
  have hexpected : (s.recv.nextExpected + 1).toNat = s.recv.nextExpected.toNat + 1 := by
    rw [UInt32.toNat_add, UInt32.toNat_one]
    omega
  have hle : ∀ {id : UInt32}, s.recv.nextExpected ≤ id → id ≠ s.recv.nextExpected →
      s.recv.nextExpected + 1 ≤ id := by
    intro id hle hne
    have hne' : id.toNat ≠ s.recv.nextExpected.toNat := fun heq => hne (UInt32.toNat_inj.mp heq)
    rw [UInt32.le_iff_toNat_le] at hle ⊢
    omega
  have hhas : ∀ {id : UInt32}, RecvWindow.Has { s.recv with
      buffered := s.recv.buffered.erase s.recv.nextExpected
      nextExpected := s.recv.nextExpected + 1 } id ↔ s.recv.Has id := by
    intro id
    simp only [RecvWindow.Has, OrderedMap.mem_erase, UInt32.lt_iff_toNat_lt, hexpected]
    constructor
    · rintro (hid | ⟨m, -, hm⟩)
      · rcases Nat.lt_succ_iff_lt_or_eq.mp hid with hid | heq
        · exact .inl hid
        · exact .inr ⟨message, (UInt32.toNat_inj.mp heq) ▸ hmem⟩
      · exact .inr ⟨m, hm⟩
    · rintro (hid | ⟨m, hm⟩)
      · exact .inl (by omega)
      · by_cases hid : id = s.recv.nextExpected
        · exact .inl (by rw [hid]; omega)
        · exact .inr ⟨m, hid, hm⟩
  refine { h with
    gone := fun hi hnone => hhas.mpr (h.gone hi hnone)
    kept := fun hm => ?_
    low := fun hi => h.low (hhas.mp hi)
    reached := hexpected.trans_le hlt
    delivered := ?_
    owed := fun hi => hhas.mpr (h.owed hi)
    acked := fun hids hi => hhas.mpr (h.acked hids hi) }
  · obtain ⟨hne, hm⟩ := OrderedMap.mem_erase.mp hm
    exact ⟨hle (h.kept hm).1 hne, (h.kept hm).2⟩
  · rw [hexpected, List.take_add_one, hqueued, ← h.delivered]
    rfl

theorem InOrder.takeAcks (h : s.InOrder) {max : ℕ} {ids : List UInt32} {w : RecvWindow}
    (htake : s.recv.takeAcks max = (ids, w)) :
    InOrder { s with recv := w, acked := s.acked ++ [ids] } := by
  obtain ⟨hbuffered, hexpected, htaken, howes⟩ := RecvWindow.takeAcks_eq htake
  have hhas : ∀ {id}, w.Has id ↔ s.recv.Has id := by
    intro id
    rw [RecvWindow.Has, RecvWindow.Has, hbuffered, hexpected]
  refine { h with
    gone := fun hi hnone => hhas.mpr (h.gone hi hnone)
    kept := fun hm => ?_
    low := fun hi => h.low (hhas.mp hi)
    reached := by rw [hexpected]; exact h.reached
    delivered := by rw [hexpected]; exact h.delivered
    owed := fun hi => hhas.mpr (h.owed (howes _ hi))
    acked := fun hids hi => hhas.mpr ?_ }
  · rw [hbuffered] at hm
    rw [hexpected]
    exact h.kept hm
  · rcases List.mem_append.mp hids with hold | hnew
    · exact h.acked hold hi
    · obtain rfl := List.mem_singleton.mp hnew
      exact h.owed (htaken _ hi)

theorem InOrder.acknowledge (h : s.InOrder) {ids : List UInt32} (hacked : ids ∈ s.acked) :
    InOrder { s with send := s.send.acknowledge ids } := by
  refine { h with
    next := SendWindow.nextId_acknowledge.symm ▸ h.next
    waiting := fun hm => h.waiting (SendWindow.holds_acknowledge.mp hm).2
    near := fun hm => h.near (SendWindow.holds_acknowledge.mp hm).2
    gone := fun {id} hi hnone => ?_ }
  by_cases hid : id ∈ ids
  · exact h.acked hacked hid
  · exact h.gone hi fun m hm => hnone m (SendWindow.holds_acknowledge.mpr ⟨hid, hm⟩)

theorem InOrder.transmit (h : s.InOrder) {now : ℕ} {out : Outgoing} {w : SendWindow}
    (hdue : s.send.nextDue now = (some out, w)) :
    InOrder { s with send := w, sent := s.sent ++ [out] } := by
  obtain ⟨hout, hnext, hholds⟩ := SendWindow.nextDue_eq_some hdue
  refine { h with
    next := hnext ▸ h.next
    waiting := fun hm => h.waiting ((hholds _ _).mp hm)
    near := fun hm => h.near ((hholds _ _).mp hm)
    gone := fun hi hnone => h.gone hi fun m hm => hnone m ((hholds _ _).mpr hm)
    sent := fun hsent => ?_ }
  rcases List.mem_append.mp hsent with hold | hnew
  · exact h.sent hold
  · obtain rfl := List.mem_singleton.mp hnew
    exact h.waiting hout

theorem InOrder.step (h : s.InOrder) (hstep : ReliableStep s event t) : t.InOrder := by
  cases hstep with
  | queue hqueue => exact h.queue hqueue
  | transmit hdue => exact h.transmit hdue
  | accept hsent hdrained haccept => exact h.accept hdrained hsent haccept
  | deliver hnext => exact h.deliver hnext
  | takeAcks htake => exact h.takeAcks htake
  | acknowledge hacked => exact h.acknowledge hacked

theorem inOrder_of_reaches {timeout : ℕ}
    (h : Reaches ReliableStep unrestricted (new timeout) s) : s.InOrder :=
  h.invariant (inOrder_new timeout) fun hs _ hstep => hs.step hstep

/-! ### What a run delivers -/

theorem InOrder.length_delivered (h : s.InOrder) :
    s.delivered.length = s.recv.nextExpected.toNat := by
  rw [h.delivered, List.length_take, Nat.min_eq_left h.reached]

/-- A message that waits is out of the window when the bound of the window has wrapped. -/
theorem InOrder.inWindow_iff (h : s.InOrder) (hdrained : s.Drained) {id : UInt32}
    {message : Opcode × Bytes} (hheld : s.send.Holds id message) :
    s.recv.inWindow id = true ↔ s.delivered.length + 12 < 2 ^ 32 := by
  have hlt := (List.getElem?_eq_some_iff.mp (h.waiting hheld)).1
  have hheld := h.near hheld
  have hnear := h.drained_near hdrained
  have hreached := h.reached
  have hlow : s.recv.nextExpected.toNat + 7 ≤ 2 ^ 32 := by
    rcases Nat.eq_zero_or_pos s.recv.nextExpected.toNat with hzero | hpos
    · omega
    have hbefore : (s.recv.nextExpected - 1).toNat = s.recv.nextExpected.toNat - 1 :=
      UInt32.toNat_sub_of_le _ _ (UInt32.le_iff_toNat_le.mpr hpos)
    have := h.low (.inl (UInt32.lt_iff_toNat_lt.mpr (hbefore.trans_lt (Nat.sub_one_lt_of_lt hpos))))
    omega
  rw [RecvWindow.inWindow, decide_eq_true_eq, UInt32.lt_iff_toNat_lt, UInt32.toNat_add,
    show RecvWindow.capacity.toNat = 12 from rfl, h.length_delivered]
  rw [SendWindow.capacity] at hheld hnear
  omega

/-- **Messages are delivered once and in order.** One that still waits is turned away as
too far ahead exactly when the receiver's bound has wrapped. -/
theorem delivered_in_order {timeout : ℕ}
    (h : Reaches ReliableStep unrestricted (new timeout) s) :
    s.delivered <+: s.queued ∧ ∀ id opcode payload, s.Drained → s.send.Holds id (opcode, payload) →
      ((s.recv.accept id opcode payload).1 = .outOfWindow ↔ 2 ^ 32 ≤ s.delivered.length + 12) := by
  have hs := inOrder_of_reaches h
  refine ⟨hs.delivered ▸ List.take_prefix .., fun id opcode payload hdrained hheld => ?_⟩
  have hwindow := hs.inWindow_iff hdrained hheld
  rcases s.recv.accept_cases id opcode payload with
    ⟨hout, heq⟩ | ⟨hin, -, heq⟩ | ⟨hin, -, heq⟩
  · rw [heq]
    exact iff_of_true rfl (Nat.le_of_not_lt (mt hwindow.mpr (Bool.eq_false_iff.mp hout)))
  all_goals
    rw [heq]
    exact iff_of_false nofun (Nat.not_le_of_lt (hwindow.mp hin))

/-- A first message is queued. -/
def opened : ReliableLink where
  send := ((SendWindow.new 2).queue .controlV1 []).2
  recv := .new
  queued := [(.controlV1, [])]
  delivered := []
  sent := []
  acked := []

theorem first_message_in_window :
    Reaches ReliableStep unrestricted (new 2) opened ∧
      ([] <+: [(Opcode.controlV1, ([] : Bytes))] ∧
        ((RecvWindow.new.accept 0 .controlV1 []).1 = .outOfWindow ↔ 2 ^ 32 ≤ 0 + 12)) := by
  have hqueue : ReliableStep (new 2) .queue opened := @ReliableStep.queue _ _ _ 0 _ rfl
  have hreach : Reaches ReliableStep unrestricted (new 2) opened := .next .start trivial hqueue
  obtain ⟨hfront, hwindow⟩ := delivered_in_order hreach
  exact ⟨hreach, hfront, hwindow 0 .controlV1 [] rfl ⟨_, List.mem_singleton.mpr rfl, rfl⟩⟩

/-! ### Four billion messages -/

/-- Everything queued was delivered, and the sender knows. -/
structure Idle (s : ReliableLink) : Prop where
  inFlight : s.send.inFlight = .empty
  buffered : s.recv.buffered = .empty
  pendingAcks : s.recv.pendingAcks = []

theorem Idle.nextExpected (hidle : s.Idle) (h : s.InOrder) :
    s.recv.nextExpected = s.send.nextId := by
  apply UInt32.toNat_inj.mp
  rw [h.next]
  refine le_antisymm h.reached (Nat.le_of_not_lt fun hlt => ?_)
  have hnone : ∀ m, ¬s.send.Holds s.recv.nextExpected m := by
    rintro m ⟨entry, hmem, -⟩
    rw [hidle.inFlight] at hmem
    exact OrderedMap.mem_empty hmem
  rcases h.gone hlt hnone with hself | ⟨m, hm⟩
  · exact UInt32.lt_irrefl _ hself
  · rw [hidle.buffered] at hm
    exact OrderedMap.mem_empty hm

/-- A message that is queued, sent, accepted, delivered and acknowledged. -/
theorem Idle.round {timeout : ℕ} (hidle : s.Idle)
    (h : Reaches ReliableStep unrestricted (new timeout) s)
    (hlength : s.queued.length + 12 < 2 ^ 32) :
    ∃ t, Reaches ReliableStep unrestricted (new timeout) t ∧ t.Idle ∧
      t.queued.length = s.queued.length + 1 := by
  have hs := inOrder_of_reaches h
  have hexpected := hidle.nextExpected hs
  obtain ⟨⟨inFlight, id, initialTimeout⟩, ⟨buffered, nextExpected, pendingAcks, recentAcks⟩, queued,
    delivered, sent, acked⟩ := s
  obtain ⟨rfl, rfl, rfl⟩ := hidle
  obtain rfl : nextExpected = id := hexpected
  have hid : nextExpected.toNat = queued.length := hs.next
  have hqueue : SendWindow.queue ⟨.empty, nextExpected, initialTimeout⟩ .controlV1 [] =
      (some nextExpected, ⟨OrderedMap.empty.insert nextExpected
        ⟨.controlV1, [], none, initialTimeout, 0⟩, nextExpected + 1, initialTimeout⟩) := rfl
  have hdue : SendWindow.nextDue ⟨OrderedMap.empty.insert nextExpected
        ⟨.controlV1, [], none, initialTimeout, 0⟩, nextExpected + 1, initialTimeout⟩ 0 =
      (some ⟨.controlV1, nextExpected, []⟩, _) := rfl
  have hsent := (h.next trivial (.queue hqueue)).next trivial (.transmit hdue)
  have haccept :
      RecvWindow.accept ⟨.empty, nextExpected, [], recentAcks⟩ nextExpected .controlV1 [] =
      (.buffered, ⟨OrderedMap.empty.insert nextExpected (.controlV1, []), nextExpected,
        [nextExpected], recentAcks⟩) := by
    rcases RecvWindow.accept_cases ⟨.empty, nextExpected, [], recentAcks⟩ nextExpected
      .controlV1 [] with
      ⟨hout, -⟩ | ⟨-, hhas, -⟩ | ⟨-, -, heq⟩
    · have hbound := UInt32.not_lt.mp (of_decide_eq_false hout)
      rw [UInt32.le_iff_toNat_le, UInt32.toNat_add, Nat.mod_eq_of_lt (hid ▸ hlength)] at hbound
      exact absurd hbound (Nat.not_le_of_lt (Nat.lt_add_of_pos_right (by decide)))
    · rcases hhas with hself | ⟨m, hm⟩
      · exact absurd hself (UInt32.lt_irrefl _)
      · exact absurd hm OrderedMap.mem_empty
    · exact heq
  have haccepted := hsent.next trivial
    (.accept (List.mem_append_right _ (List.mem_singleton_self _)) rfl haccept)
  have hnext : RecvWindow.nextInOrder ⟨OrderedMap.empty.insert nextExpected (.controlV1, []),
      nextExpected, [nextExpected], recentAcks⟩ =
      (some (.controlV1, []), ⟨.empty, nextExpected + 1, [nextExpected], recentAcks⟩) := by
    rw [RecvWindow.nextInOrder,
      OrderedMap.get?_eq_some.mpr (OrderedMap.mem_insert.mpr (.inl rfl))]
    have herase : (OrderedMap.empty.insert nextExpected (Opcode.controlV1, ([] : Bytes))).erase
        nextExpected = .empty :=
      OrderedMap.eq_empty_iff.mpr fun e he => by
        obtain ⟨hne, he⟩ := OrderedMap.mem_erase.mp he
        rcases OrderedMap.mem_insert.mp he with rfl | ⟨-, he⟩
        · exact hne rfl
        · exact OrderedMap.mem_empty he
    exact congrArg (fun m => (some (Opcode.controlV1, ([] : Bytes)),
      (⟨m, nextExpected + 1, [nextExpected], recentAcks⟩ : RecvWindow))) herase
  have htake : RecvWindow.takeAcks ⟨.empty, nextExpected + 1, [nextExpected], recentAcks⟩ 8 =
      (_ :: _, ⟨.empty, nextExpected + 1, [], _⟩) := rfl
  have htaken := (haccepted.next trivial (.deliver hnext)).next trivial (.takeAcks htake)
  have hacknowledged := htaken.next trivial
    (.acknowledge (List.mem_append_right _ (List.mem_singleton_self _)))
  refine ⟨_, hacknowledged, ⟨?_, rfl, rfl⟩, List.length_append⟩
  refine SendWindow.inFlight_eq_empty fun i m hheld => ?_
  obtain ⟨hnot, hsent⟩ := SendWindow.holds_acknowledge.mp hheld
  have hqueued := ((SendWindow.nextDue_eq_some hdue).2.2 i m).mp hsent
  rcases ((SendWindow.queue_eq_some hqueue).2.2.2 i m).mp hqueued with ⟨rfl, -⟩ | ⟨-, _, hnone, -⟩
  · exact hnot List.mem_cons_self
  · exact OrderedMap.mem_empty hnone

/-- As many rounds as the receiver's bound allows. -/
theorem rounds (n : ℕ) (hn : n + 12 ≤ 2 ^ 32) :
    ∃ s, Reaches ReliableStep unrestricted (new 2) s ∧ s.Idle ∧ s.queued.length = n := by
  induction n with
  | zero => exact ⟨new 2, .start, ⟨rfl, rfl, rfl⟩, rfl⟩
  | succ n ih =>
      obtain ⟨s, hreach, hidle, rfl⟩ := ih (by omega)
      exact hidle.round hreach (by omega)

/-- **Four billion messages.** With twelve ids left the receiver's bound wraps, and the next
message is turned away. -/
theorem wrapped_bound_rejects : ¬∀ s : ReliableLink,
    Reaches ReliableStep unrestricted (new 2) s → s.queued.length < 2 ^ 32 →
      s.delivered <+: s.queued ∧ ∀ id opcode payload, s.Drained →
        s.send.Holds id (opcode, payload) →
          (s.recv.accept id opcode payload).1 ≠ .outOfWindow := by
  intro hclaim
  obtain ⟨s, hreach, hidle, hlength⟩ := rounds (2 ^ 32 - 12) (by decide)
  have hs := inOrder_of_reaches hreach
  have hroom : s.send.isFull = false := by
    rw [SendWindow.isFull, hidle.inFlight]
    rfl
  have hqueue : s.send.queue .controlV1 [] = (some s.send.nextId, _) :=
    if_neg (Bool.eq_false_iff.mp hroom)
  have hnext := hreach.next trivial (.queue hqueue)
  have hdrained : s.recv.nextInOrder.1 = none :=
    RecvWindow.nextInOrder_eq_none.mpr fun m hm => by
      rw [hidle.buffered] at hm
      exact OrderedMap.mem_empty hm
  have hheld := ((SendWindow.queue_eq_some hqueue).2.2.2 s.send.nextId (.controlV1, [])).mpr
    (.inl ⟨rfl, rfl⟩)
  have hin := (hs.queue hqueue).inWindow_iff hdrained hheld
  refine (hclaim _ hnext ?_).2 _ _ _ hdrained hheld ?_
  · rw [List.length_append, List.length_singleton, hlength]
    decide
  · rcases s.recv.accept_cases s.send.nextId .controlV1 [] with
      ⟨-, heq⟩ | ⟨hwindow, -⟩ | ⟨hwindow, -⟩
    · exact congrArg Prod.fst heq
    all_goals
      have hdelivered := hin.mp hwindow
      rw [hs.length_delivered, hidle.nextExpected hs, hs.next, hlength] at hdelivered
      exact absurd hdelivered (by decide)

end ReliableLink

end SynologyFilestation.Openvpn
