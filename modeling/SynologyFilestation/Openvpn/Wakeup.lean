import SynologyFilestation.Openvpn.AuthFailure
import SynologyFilestation.Openvpn.Deadlines

/-!
What `next_wakeup` says after `poll_transmit` has had nothing to send
(`openvpn/src/session.rs`).

When nothing is sent, every outbox is empty or its window is full, nothing is due and no
acknowledgement is owed. Both functions then look at the same deadlines, with one difference: a
keepalive that cannot be encrypted is not sent, and stays due.
-/

namespace SynologyFilestation.Openvpn

open Core Library

/-! ### A channel with nothing to send -/

namespace SendWindow

variable {w : SendWindow} {now later wakeup : ℕ} {entry : InFlight}

/-- Nothing is due. -/
def Idle (w : SendWindow) (now : ℕ) : Prop :=
  ∀ e ∈ w.inFlight.entries, e.2.isDue now fastRetransmitAfter = false

theorem nextDue_eq_none_iff : (w.nextDue now).1 = none ↔ w.Idle now := by
  unfold nextDue Idle
  split
  case h_1 hfind =>
    refine iff_of_false nofun fun h => ?_
    have hdue := List.find?_some hfind
    rw [h _ (List.mem_of_find?_eq_some hfind)] at hdue
    cases hdue
  case h_2 hfind =>
    refine iff_of_true rfl fun e he => ?_
    exact Bool.eq_false_iff.mpr (List.find?_eq_none.mp hfind e he)

/-- A message that is not due was sent, and waits for its time. -/
theorem exists_nextTry (h : entry.isDue now fastRetransmitAfter = false) :
    ∃ next, entry.nextTry = some next ∧ now < next ∧
      ∀ later, entry.isDue later fastRetransmitAfter = true → next ≤ later := by
  unfold InFlight.isDue at h ⊢
  cases hnext : entry.nextTry with
  | none =>
      rw [hnext] at h
      cases h
  | some next =>
      rw [hnext] at h
      simp only [Bool.or_eq_false_iff, decide_eq_false_iff_not] at h
      refine ⟨next, rfl, Nat.lt_of_not_le h.1, fun later hlater => ?_⟩
      simp only [Bool.or_eq_true, decide_eq_true_eq] at hlater
      exact hlater.resolve_right h.2

theorem Idle.lt_nextWakeup (h : w.Idle now) (hwakeup : w.nextWakeup now = some wakeup) :
    now < wakeup := by
  obtain ⟨e, he, heq⟩ := List.mem_map.mp (mem_of_earliest hwakeup)
  obtain ⟨next, hnext, hlt, -⟩ := exists_nextTry (h e he)
  rw [h e he, hnext] at heq
  rw [← Option.some.inj heq]
  exact hlt

/-- What becomes due later is waited for. -/
theorem Idle.nextWakeup_le (h : w.Idle now) (hlater : ¬w.Idle later) :
    ∃ wakeup, w.nextWakeup now = some wakeup ∧ wakeup ≤ later := by
  simp only [Idle, not_forall, Bool.not_eq_false] at hlater
  obtain ⟨e, he, hdue⟩ := hlater
  obtain ⟨next, hnext, -, hle⟩ := exists_nextTry (h e he)
  have hmem : some next ∈ w.inFlight.entries.map fun e =>
      some (if e.2.isDue now fastRetransmitAfter then now else e.2.nextTry.getD now) := by
    refine List.mem_map.mpr ⟨e, he, ?_⟩
    rw [h e he, hnext]
    rfl
  obtain ⟨wakeup, hwakeup, hfirst⟩ := exists_earliest_le hmem
  exact ⟨wakeup, hwakeup, hfirst.trans (hle later hdue)⟩

end SendWindow

namespace ControlChannel

variable {c c' : ControlChannel} {keyId other : KeyId} {state : KeyState} {hmac : Hmac}
  {now later wakeup : ℕ} {netTime : UInt32} {payload : Bytes}

/-- No message is due, and no acknowledgement is owed. -/
structure Idle (c : ControlChannel) (now : ℕ) : Prop where
  owes : ∀ state ∈ c.states, state.recv.owesAcks = false
  due : ∀ state ∈ c.states, state.send.Idle now

theorem nextPacket_eq_none (h : c.nextPacket keyId now = (none, c')) :
    c' = c ∧ ∀ state, c.stateOf keyId = some state →
      state.recv.owesAcks = false ∧ state.send.Idle now := by
  unfold nextPacket at h
  split at h
  case h_1 hnone =>
    obtain ⟨-, rfl⟩ := Prod.mk.inj h
    refine ⟨rfl, fun state hstate => ?_⟩
    rw [hnone] at hstate
    cases hstate
  case h_2 state hstate =>
    dsimp only at h
    split at h
    case isTrue hquiet =>
      obtain ⟨-, rfl⟩ := Prod.mk.inj h
      refine ⟨rfl, fun state' hstate' => ?_⟩
      obtain rfl := Option.some.inj (hstate.symm.trans hstate')
      rw [Bool.and_eq_true, Bool.not_eq_true', Option.isNone_iff_eq_none] at hquiet
      exact ⟨hquiet.2, SendWindow.nextDue_eq_none_iff.mp hquiet.1⟩
    case isFalse => cases h

theorem transmitFrom_eq_none {keyIds : List KeyId}
    (h : transmitFrom hmac now netTime keyIds c = (none, c')) :
    c' = c ∧ ∀ keyId ∈ keyIds, ∀ state, c.stateOf keyId = some state →
      state.recv.owesAcks = false ∧ state.send.Idle now := by
  induction keyIds with
  | nil => exact ⟨(Prod.mk.inj h).2.symm, nofun⟩
  | cons keyId keyIds ih =>
      rw [transmitFrom] at h
      split at h
      case h_1 => cases h
      case h_2 c'' hnext =>
        obtain ⟨rfl, hfirst⟩ := nextPacket_eq_none hnext
        obtain ⟨hsame, hrest⟩ := ih h
        refine ⟨hsame, fun other hmem => ?_⟩
        rcases List.mem_cons.mp hmem with rfl | hmem
        · exact hfirst
        · exact hrest other hmem

/-- A channel that sends nothing stays as it is, and has nothing to send. -/
theorem idle_of_pollTransmit (hother : ∀ pending, c.pending = some pending →
      pending.keyId ≠ c.primary.keyId) (h : c.pollTransmit hmac now netTime = (none, c')) :
    c' = c ∧ c.Idle now := by
  obtain ⟨hsame, hidle⟩ := transmitFrom_eq_none h
  have hstates : ∀ state ∈ c.states, state.recv.owesAcks = false ∧ state.send.Idle now := by
    intro state hmem
    rcases mem_states.mp hmem with rfl | hpending
    · refine hidle c.primary.keyId ?_ _ (if_pos rfl)
      unfold keyIds
      split <;> simp
    · refine hidle state.keyId ?_ _ ?_
      · simp [keyIds, hpending]
      · rw [stateOf, if_neg (hother state hpending).symm, hpending]
        exact if_pos rfl
  exact ⟨hsame, fun state hmem => (hstates state hmem).1, fun state hmem => (hstates state hmem).2⟩

theorem Idle.pollTransmit (h : c.Idle now) : c.pollTransmit hmac now netTime = (none, c) := by
  have hnext : ∀ keyId, c.nextPacket keyId now = (none, c) := by
    intro keyId
    unfold nextPacket
    split
    case h_1 => rfl
    case h_2 state hstate =>
      have hmem := mem_states_of_stateOf hstate
      have hdue := SendWindow.nextDue_eq_none_iff.mpr (h.due state hmem)
      dsimp only
      rw [if_pos (by rw [hdue, h.owes state hmem]; rfl)]
  have hrun : ∀ keyIds, transmitFrom hmac now netTime keyIds c = (none, c) := by
    intro keyIds
    induction keyIds with
    | nil => rfl
    | cons keyId keyIds ih =>
        rw [transmitFrom, hnext keyId]
        exact ih
  exact hrun _

theorem Idle.lt_nextWakeup (h : c.Idle now) (hwakeup : c.nextWakeup now = some wakeup) :
    now < wakeup := by
  obtain ⟨state, hmem, heq⟩ := List.mem_map.mp (mem_of_earliest hwakeup)
  rw [h.owes state hmem, if_neg Bool.false_ne_true] at heq
  exact (h.due state hmem).lt_nextWakeup heq

theorem Idle.nextWakeup_le (h : c.Idle now) (hlater : ¬c.Idle later) :
    ∃ wakeup, c.nextWakeup now = some wakeup ∧ wakeup ≤ later := by
  have hdue : ∃ state ∈ c.states, ¬state.send.Idle later := by
    by_contra hall
    simp only [not_exists, not_and, not_not] at hall
    exact hlater ⟨h.owes, hall⟩
  obtain ⟨state, hmem, hdue⟩ := hdue
  obtain ⟨wakeup, hwakeup, hle⟩ := (h.due state hmem).nextWakeup_le hdue
  have hin : some wakeup ∈ c.states.map fun state =>
      if state.recv.owesAcks then some now else state.send.nextWakeup now := by
    refine List.mem_map.mpr ⟨state, hmem, ?_⟩
    rw [h.owes state hmem, if_neg Bool.false_ne_true]
    exact hwakeup
  obtain ⟨first, hfirst, hfirst'⟩ := exists_earliest_le hin
  exact ⟨first, hfirst, hfirst'.trans hle⟩

/-! ### Draining -/

theorem canSendFor_eq (c : ControlChannel) (keyId : KeyId) :
    c.canSendFor keyId = (c.stateOf keyId).any fun state => !state.send.isFull := by
  unfold canSendFor states stateOf
  rw [List.find?_cons]
  by_cases hprimary : c.primary.keyId = keyId
  · rw [if_pos hprimary, decide_eq_true hprimary]
  · rw [if_neg hprimary, decide_eq_false hprimary]
    cases c.pending with
    | none => rfl
    | some pending =>
        by_cases hpending : pending.keyId = keyId <;> simp [hpending]

theorem withState_self (h : c.stateOf keyId = some state) : c.withState keyId state = c := by
  unfold stateOf at h
  unfold withState
  split at h
  case isTrue hprimary =>
    obtain rfl := Option.some.inj h
    rw [if_pos hprimary]
  case isFalse hprimary =>
    rw [if_neg hprimary]
    split at h
    case h_1 hpending =>
      split at h
      case isTrue => rw [← h, ← hpending]
      case isFalse => cases h
    case h_2 => cases h

theorem stateOf_withState_of_ne (hkeyId : state.keyId = keyId) (hold : (c.stateOf keyId).isSome)
    (hne : other ≠ keyId) : (c.withState keyId state).stateOf other = c.stateOf other := by
  unfold withState
  split
  case isTrue hprimary =>
    rw [stateOf, if_neg (hkeyId ▸ hne.symm), stateOf, if_neg (hprimary ▸ hne.symm)]
  case isFalse hprimary =>
    rw [stateOf, stateOf]
    split
    · rfl
    · unfold stateOf at hold
      rw [if_neg hprimary] at hold
      split at hold
      case h_1 pending hpending =>
        split at hold
        case isTrue hkey => simp [hkeyId, hkey, hne.symm]
        case isFalse => cases hold
      case h_2 => cases hold

/-- A piece is refused when there is no room, and nothing changes. -/
theorem sendControl_eq_false (h : c.sendControl keyId payload = (false, c')) :
    c' = c ∧ c.canSendFor keyId = false := by
  rw [canSendFor_eq]
  unfold sendControl at h
  split at h
  case h_1 state hstate =>
    by_cases hfull : state.send.isFull = true
    · rw [SendWindow.queue, if_pos hfull] at h
      obtain ⟨-, rfl⟩ := Prod.mk.inj h
      refine ⟨withState_self hstate, ?_⟩
      rw [hstate, Option.any_some, hfull]
      rfl
    · rw [SendWindow.queue, if_neg hfull] at h
      cases h
  case h_2 hnone =>
    obtain ⟨-, rfl⟩ := Prod.mk.inj h
    exact ⟨rfl, by rw [hnone]; rfl⟩

theorem sendControl_refused (h : c.canSendFor keyId = false) :
    c.sendControl keyId payload = (false, c) := by
  rw [canSendFor_eq] at h
  unfold sendControl
  split
  case h_1 state hstate =>
    rw [hstate, Option.any_some, Bool.not_eq_false'] at h
    rw [SendWindow.queue, if_pos h]
    exact Prod.ext rfl (withState_self hstate)
  case h_2 => rfl

theorem stateOf_sendControl_of_ne (hne : other ≠ keyId) :
    (c.sendControl keyId payload).2.stateOf other = c.stateOf other := by
  unfold sendControl
  split
  case h_1 state hstate =>
    have hkeyId := keyId_of_stateOf hstate
    exact stateOf_withState_of_ne hkeyId (Option.isSome_of_eq_some hstate) hne
  case h_2 => rfl

end ControlChannel

namespace Outbox

variable {c : ControlChannel} {keyId other : KeyId} {outbox : Outbox}

/-- Nothing waits, or there is no room for it. -/
def Held (outbox : Outbox) (c : ControlChannel) (keyId : KeyId) : Prop :=
  outbox.pending = [] ∨ c.canSendFor keyId = false

theorem held_drainInto :
    (outbox.drainInto c keyId).1.Held (outbox.drainInto c keyId).2 keyId := by
  rcases @drain_stops _ _ maxTlsFragment
    (fun (c : ControlChannel) piece => c.sendControl keyId piece) (by decide) outbox.pending c
    with hempty | ⟨c', piece, hrefused⟩
  · exact .inl hempty
  · obtain ⟨hsame, hfull⟩ := ControlChannel.sendControl_eq_false hrefused
    exact .inr (hsame ▸ hfull)

theorem Held.drainInto (h : outbox.Held c keyId) : outbox.drainInto c keyId = (outbox, c) := by
  unfold Outbox.drainInto
  rcases h with hempty | hfull
  · rw [hempty]
    exact Prod.ext (congrArg Outbox.mk hempty.symm) rfl
  · rw [drain_refused fun piece => ControlChannel.sendControl_refused hfull]

theorem canSendFor_drainInto_of_ne (hne : other ≠ keyId) :
    (outbox.drainInto c keyId).2.canSendFor other = c.canSendFor other := by
  have hstate : (outbox.drainInto c keyId).2.stateOf other = c.stateOf other :=
    drain_invariant (P := fun _ c' => c'.stateOf other = c.stateOf other) rfl
      (fun _ _ _ h _ hsend => (congrArg (ControlChannel.stateOf ·.2 other) hsend.symm).trans
        (ControlChannel.stateOf_sendControl_of_ne hne) |>.trans h)
      fun _ _ _ h hsend => (congrArg (ControlChannel.stateOf ·.2 other) hsend.symm).trans
        (ControlChannel.stateOf_sendControl_of_ne hne) |>.trans h
  rw [ControlChannel.canSendFor_eq, ControlChannel.canSendFor_eq, hstate]

end Outbox

/-! ### A session with nothing to send -/

/-- Nothing is left to write when it was written. -/
def Tls.Drains (tls : Tls) : Prop := ∀ state, tls.wantsWrite (tls.pump state).1 = false

theorem Tls.pump_idle {tls : Tls} {state : tls.State} (h : tls.wantsWrite state = false) :
    tls.pump state = (state, []) := by
  rw [pump, pumpUpTo, h]
  rfl

variable {p : Primitives}

namespace Session

variable {s t u init : Session p} {now later wakeup : ℕ} {netTime : UInt32}
  {iv : {iv : Bytes // iv.length = 16}} {connection : Connection p.tls} {outbox : Outbox}
  {channel : ControlChannel} {keyId : KeyId} {interval : ℕ}

/-- No connection has bytes that its generation has room for. -/
structure Drained (s : Session p) : Prop where
  primary : p.tls.wantsWrite s.tls.state = false ∧
    s.outbox.Held s.channel s.channel.primary.keyId
  renegotiation : ∀ r, s.renegotiation = some r →
    p.tls.wantsWrite r.tls.state = false ∧ r.outbox.Held s.channel r.keyId

theorem flush_drained (hdrains : p.tls.Drains) :
    p.tls.wantsWrite (flush connection outbox channel keyId).1.state = false ∧
      (flush connection outbox channel keyId).2.1.Held
        (flush connection outbox channel keyId).2.2 keyId :=
  ⟨hdrains _, Outbox.held_drainInto⟩

theorem flush_idle (hwants : p.tls.wantsWrite connection.state = false)
    (hheld : outbox.Held channel keyId) :
    flush connection outbox channel keyId = (connection, outbox, channel) := by
  unfold flush
  rw [Tls.pump_idle hwants]
  dsimp only
  rw [Outbox.push, List.append_nil, hheld.drainInto]

theorem keyId_flush :
    (flush connection outbox channel keyId).2.2.primary.keyId = channel.primary.keyId :=
  congrArg (·.primary.key) (ControlChannel.toGenerations_drainInto (c := channel) _)

theorem drained_flushed (hdrains : p.tls.Drains)
    (hother : ∀ r, s.renegotiation = some r → r.keyId ≠ s.channel.primary.keyId) :
    s.flushed.Drained := by
  have hprimary := @flush_drained _ s.tls s.outbox s.channel s.channel.primary.keyId hdrains
  have hkeyId := @keyId_flush _ s.tls s.outbox s.channel s.channel.primary.keyId
  unfold flushed flushRenegotiation
  split
  case h_1 hnone =>
    refine ⟨⟨hprimary.1, ?_⟩, fun r hr => ?_⟩
    · rw [show s.flushPrimary.channel.primary.keyId = _ from hkeyId]
      exact hprimary.2
    · rw [hnone] at hr
      cases hr
  case h_2 r hr =>
    have hne : s.channel.primary.keyId ≠ r.keyId := (hother r hr).symm
    have hpending := @flush_drained _ r.tls r.outbox s.flushPrimary.channel r.keyId hdrains
    have hkeyId' := @keyId_flush _ r.tls r.outbox s.flushPrimary.channel r.keyId
    refine ⟨⟨hprimary.1, ?_⟩, ?_⟩
    · -- The other generation's pieces leave the room of this one as it is.
      have hroom : (flush r.tls r.outbox s.flushPrimary.channel r.keyId).2.2.canSendFor
          s.channel.primary.keyId = s.flushPrimary.channel.canSendFor s.channel.primary.keyId :=
        Outbox.canSendFor_drainInto_of_ne hne
      rw [show (flush r.tls r.outbox s.flushPrimary.channel r.keyId).2.2.primary.keyId =
        s.channel.primary.keyId from hkeyId'.trans hkeyId]
      rcases hprimary.2 with hempty | hfull
      · exact .inl hempty
      · exact .inr (hroom.trans hfull)
    · rintro _ ⟨⟩
      exact hpending

theorem flushed_of_drained (h : s.Drained) : s.flushed = s := by
  have hprimary : s.flushPrimary = s := by
    rw [flushPrimary, flush_idle h.primary.1 h.primary.2]
  rw [flushed, hprimary, flushRenegotiation]
  split
  case h_1 => rfl
  case h_2 r hr =>
    obtain ⟨hwants, hheld⟩ := h.renegotiation r hr
    rw [flush_idle hwants hheld]
    dsimp only
    rw [← hr]

/-- Only the deadlines are left to wake for. -/
theorem Drained.nextWakeup (h : s.Drained) (now : ℕ) : s.nextWakeup now =
    earliest [s.channel.nextWakeup now, s.keepaliveDue now, s.pushRetryDue] := by
  have hguard : ∀ {connection : Connection p.tls} {outbox : Outbox} {keyId : KeyId},
      p.tls.wantsWrite connection.state = false → outbox.Held s.channel keyId →
        (s.channel.canSendFor keyId && hasOutput connection outbox) = false := by
    intro connection outbox keyId hwants hheld
    rw [hasOutput, hwants, Bool.false_or]
    rcases hheld with hempty | hfull
    · simp [hempty]
    · rw [hfull, Bool.false_and]
  have hprimary : (s.channel.canSend && hasOutput s.tls s.outbox) = false :=
    hguard h.primary.1 h.primary.2
  have hrenegotiation : (s.renegotiation.any fun pending =>
      s.channel.canSendFor pending.keyId && hasOutput pending.tls pending.outbox) = false := by
    cases hr : s.renegotiation with
    | none => rfl
    | some r => exact hguard (h.renegotiation r hr).1 (h.renegotiation r hr).2
  rw [Session.nextWakeup, hprimary, hrenegotiation, if_neg Bool.false_ne_true,
    if_neg Bool.false_ne_true]

/-! ### The deadlines of a session -/

theorem isSince_some {since : ℕ} (hpos : 0 < interval) :
    isSince (some since) interval now = true ↔ since + interval ≤ now := by
  rw [isSince, decide_eq_true_eq]
  omega

theorem isSince_some_false {since : ℕ} (hpos : 0 < interval) :
    isSince (some since) interval now = false ↔ now < since + interval := by
  rw [← Bool.not_eq_true, isSince_some hpos, Nat.not_le]

/-- The tunnel has been quiet for long enough. -/
def keepaliveIsDue (s : Session p) (now : ℕ) : Bool :=
  (s.push.bind fun reply => reply.ping).any fun interval =>
    s.data.isSome && !(s.lastSent.isSome && !isSince s.lastSent interval now)

/-- The tunnel has used all of its packet ids. -/
def isSpent (s : Session p) : Bool := s.data.any fun data => data.nextPacketId = 0xffffffff

theorem keepaliveIsDue_iff (hs : s.Reckoned) :
    s.keepaliveIsDue now = true ↔ ∃ due, s.keepaliveDue now = some due ∧ due ≤ now := by
  unfold keepaliveIsDue keepaliveDue
  cases hping : s.push.bind fun reply => reply.ping with
  | none => simp
  | some interval =>
      have hpos : 0 < interval := by
        obtain ⟨reply, hreply, hinterval⟩ := Option.bind_eq_some_iff.mp hping
        refine Nat.pos_of_ne_zero fun hzero => hs.ping reply hreply ?_
        rw [hinterval, hzero]
      cases s.data with
      | none => simp
      | some data =>
          cases s.lastSent with
          | none => simp
          | some last =>
              simp only [Option.any_some, Option.isSome_some, Bool.true_and, Bool.not_not,
                isSince_some hpos]
              simp

/-- A keepalive that is due later is waited for. -/
theorem keepaliveDue_le (hs : s.Reckoned) (hle : now ≤ later)
    (hdue : s.keepaliveIsDue later = true) :
    ∃ due, s.keepaliveDue now = some due ∧ due ≤ later := by
  obtain ⟨due, hlater, hdue⟩ := (keepaliveIsDue_iff hs).mp hdue
  unfold keepaliveDue at hlater ⊢
  split at hlater
  case h_1 => cases hlater
  case h_2 =>
    split at hlater
    case h_1 => cases hlater
    case h_2 =>
      split at hlater
      case h_1 => exact ⟨due, hlater, hdue⟩
      case h_2 => exact ⟨now, rfl, hle⟩

theorem pollKeepalive_idle (h : s.keepaliveIsDue now = false) :
    s.pollKeepalive now iv = (none, s) := by
  unfold keepaliveIsDue at h
  unfold pollKeepalive
  split
  case h_1 => rfl
  case h_2 interval hping =>
    rw [hping, Option.any_some] at h
    split
    case isTrue => rfl
    case isFalse hdue =>
      split
      case h_1 => rfl
      case h_2 data hdata =>
        rw [hdata, Option.isSome_some, Bool.true_and, Bool.not_eq_false'] at h
        exact absurd h hdue

/-- A keepalive that is due is sent, if it can be encrypted. -/
theorem pollKeepalive_eq_none (h : s.pollKeepalive now iv = (none, t)) :
    t = s ∧ (s.keepaliveIsDue now = true → s.isSpent = true) := by
  by_cases hdue : s.keepaliveIsDue now = true
  · unfold pollKeepalive at h
    unfold keepaliveIsDue at hdue
    split at h
    case h_1 hping =>
      rw [hping] at hdue
      cases hdue
    case h_2 interval hping =>
      rw [hping, Option.any_some, Bool.and_eq_true, Bool.not_eq_true'] at hdue
      split at h
      case isTrue hwaits =>
        rw [hdue.2] at hwaits
        cases hwaits
      case isFalse =>
        split at h
        case h_1 hdata =>
          rw [hdata] at hdue
          cases hdue.1
        case h_2 data hdata =>
          split at h
          case h_1 hencrypt =>
            obtain ⟨-, rfl⟩ := Prod.mk.inj h
            obtain ⟨hspent, -, rfl⟩ := DataChannel.encryptWithIv_exhausted hencrypt
            refine ⟨by rw [← hdata], fun _ => ?_⟩
            rw [isSpent, hdata, Option.any_some]
            exact decide_eq_true hspent
          case h_2 => cases h
  · rw [pollKeepalive_idle (Bool.eq_false_iff.mpr hdue)] at h
    exact ⟨(Prod.mk.inj h).2.symm, fun hdue' => absurd hdue' hdue⟩

/-- A keepalive that is due and cannot be encrypted is not sent. -/
def KeepaliveStuck (s : Session p) (now : ℕ) : Prop :=
  s.keepaliveIsDue now = true ∧ s.isSpent = true

/-- What is the case after a poll that had nothing to send. -/
structure Settled (s : Session p) (now : ℕ) : Prop where
  drained : s.Drained
  idle : s.channel.Idle now
  requested : s.phase = .awaitingPush → s.pushRequestedAt.isSome ∧ s.pushFirstRequestedAt.isSome
  retry : ∀ due, s.pushRetryDue = some due → now < due

theorem pushRetryDue_eq {sent first : ℕ} (hphase : s.phase = .awaitingPush)
    (hsent : s.pushRequestedAt = some sent) (hfirst : s.pushFirstRequestedAt = some first) :
    s.pushRetryDue = some (min (sent + pushRequestInterval) (first + pushRequestTimeout)) := by
  rw [pushRetryDue, if_neg (not_not.mpr hphase), hsent, hfirst]

/-- When the request was looked after, the next time is later. -/
theorem lt_pushRetryDue (hs : s.Reckoned) (h : s.resendPushRequest now = (.ok (), t)) :
    (t.phase = .awaitingPush → t.pushRequestedAt.isSome ∧ t.pushFirstRequestedAt.isSome) ∧
      ∀ due, t.pushRetryDue = some due → now < due := by
  have hinterval : 0 < pushRequestInterval := by decide
  have htimeout : 0 < pushRequestTimeout := by decide
  rcases resendPushRequest_ok h with ⟨rfl, hwaits⟩ | ⟨hsince, state, ht⟩
  · constructor
    · intro hphase
      obtain ⟨-, sent, hsent, -⟩ := hwaits hphase
      have hrequested := Option.isSome_of_eq_some hsent
      exact ⟨hrequested, hs.first hrequested⟩
    · intro due hdue
      by_cases hphase : t.phase = .awaitingPush
      · obtain ⟨hsince, sent, hsent, hrecent⟩ := hwaits hphase
        obtain ⟨first, hfirst⟩ :=
          Option.isSome_iff_exists.mp (hs.first (Option.isSome_of_eq_some hsent))
        rw [pushRetryDue_eq hphase hsent hfirst] at hdue
        rw [hfirst, isSince_some_false htimeout] at hsince
        rw [hsent, isSince_some_false hinterval] at hrecent
        rw [← Option.some.inj hdue]
        exact lt_min hrecent hsince
      · rw [pushRetryDue, if_pos hphase] at hdue
        cases hdue
  · have hrequested : t.pushRequestedAt = some now := congrArg pushRequestedAt ht
    have hasked : t.pushFirstRequestedAt = some (s.pushFirstRequestedAt.getD now) :=
      congrArg pushFirstRequestedAt ht
    refine ⟨fun _ => ⟨Option.isSome_of_eq_some hrequested, Option.isSome_of_eq_some hasked⟩,
      fun due hdue => ?_⟩
    by_cases hphase : t.phase = .awaitingPush
    · rw [pushRetryDue_eq hphase hrequested hasked] at hdue
      rw [← Option.some.inj hdue]
      refine lt_min (Nat.lt_add_of_pos_right hinterval) ?_
      cases hfirst : s.pushFirstRequestedAt with
      | none => exact Nat.lt_add_of_pos_right htimeout
      | some first =>
          rw [hfirst, isSince_some_false htimeout] at hsince
          exact hsince
    · rw [pushRetryDue, if_pos hphase] at hdue
      cases hdue

/-- Until the deadline nothing is asked again. -/
theorem Settled.resendPushRequest (h : s.Settled now)
    (hwaits : ∀ due, s.pushRetryDue = some due → later < due) :
    s.resendPushRequest later = (.ok (), s) := by
  unfold Session.resendPushRequest
  split
  case isTrue => rfl
  case isFalse hphase =>
    have hphase := not_not.mp hphase
    obtain ⟨hrequested, hfirst⟩ := h.requested hphase
    obtain ⟨sent, hsent⟩ := Option.isSome_iff_exists.mp hrequested
    obtain ⟨first, hfirst⟩ := Option.isSome_iff_exists.mp hfirst
    have hlater := hwaits _ (pushRetryDue_eq hphase hsent hfirst)
    rw [lt_min_iff] at hlater
    rw [hsent, hfirst, (isSince_some_false (by decide)).mpr hlater.1,
      (isSince_some_false (by decide)).mpr hlater.2]
    rfl

/-- **What a poll leaves that has sent nothing**: all that it looked at is settled, apart from a
keepalive that could not be encrypted. -/
theorem settled_of_pollTransmit (hdrains : p.tls.Drains) (hs : s.Consistent)
    (hreckoned : s.Reckoned) (hpoll : s.pollTransmit now netTime iv = (none, t))
    (hfailure : t.failure = none) :
    t.Settled now ∧ (t.keepaliveIsDue now = true → t.isSpent = true) := by
  have hpolls := s.polls now netTime iv
  generalize hresult : s.pollTransmit now netTime iv = result at hpolls hpoll
  cases hpolls with
  | stopped h =>
      obtain rfl := (Prod.mk.inj hpoll).2
      rw [hfailure] at h
      cases h
  | failed =>
      obtain rfl := (Prod.mk.inj hpoll).2
      cases hfailure
  | sent => cases hpoll
  | @quiet t' channel hnone h hsent =>
      -- The flushes came after the request, and nothing came after them but the keepalive.
      have hresend := hs.resendPushRequest now
      rw [h] at hresend
      have hprimary := hresend.consistent.flushPrimary
      have hflushed : t'.flushed.Consistent := hprimary.consistent.flushRenegotiation.consistent
      have hother : ∀ r, t'.renegotiation = some r → r.keyId ≠ t'.channel.primary.keyId := by
        intro r hr
        have hsound := hresend.consistent.sound
        rcases hsound.candidate (c := r.toGeneration) (congrArg (Option.map _) hr) with
          hpending | ⟨-, hgiven⟩
        · exact hsound.consistent.other hpending
        · exact hsound.consistent.given hgiven
      obtain ⟨rfl, hidle⟩ := ControlChannel.idle_of_pollTransmit (fun pending hpending =>
        @Generations.Consistent.other _ _ hflushed.sound.consistent pending.toGeneration
          (congrArg (Option.map _) hpending)) hsent
      obtain ⟨rfl, hspent⟩ := pollKeepalive_eq_none hpoll
      obtain ⟨hrequested, hretry⟩ := lt_pushRetryDue hreckoned h
      refine ⟨⟨drained_flushed hdrains hother, hidle, ?_, ?_⟩, hspent⟩
      · obtain ⟨tls, outbox, renegotiation, channel, heq⟩ := t'.flushed_frame
        rw [heq]
        exact hrequested
      · obtain ⟨tls, outbox, renegotiation, channel, heq⟩ := t'.flushed_frame
        rw [heq]
        exact hretry

/-- A later poll that sends something, or fails, was waited for. -/
theorem Settled.nextWakeup_le (h : s.Settled now) (hs : s.Reckoned) (hfailure : s.failure = none)
    (hle : now ≤ later) (hacts : (s.pollTransmit later netTime iv).1.isSome ∨
      (s.pollTransmit later netTime iv).2.failure ≠ s.failure) :
    ∃ wakeup, s.nextWakeup now = some wakeup ∧ wakeup ≤ later := by
  rw [h.drained.nextWakeup]
  have hearly : ∀ due, some due ∈ [s.channel.nextWakeup now, s.keepaliveDue now, s.pushRetryDue] →
      due ≤ later → ∃ wakeup,
        earliest [s.channel.nextWakeup now, s.keepaliveDue now, s.pushRetryDue] = some wakeup ∧
          wakeup ≤ later := by
    intro due hmem hdue
    obtain ⟨wakeup, hwakeup, hfirst⟩ := exists_earliest_le hmem
    exact ⟨wakeup, hwakeup, hfirst.trans hdue⟩
  -- Where none of the three deadlines is reached, the later poll does nothing.
  by_cases hretry : ∃ due, s.pushRetryDue = some due ∧ due ≤ later
  · obtain ⟨due, heq, hdue⟩ := hretry
    exact hearly due (by simp [heq]) hdue
  · by_cases hidle : s.channel.Idle later
    · cases hkeepalive : s.keepaliveIsDue later with
      | true =>
          obtain ⟨due, heq, hdue⟩ := keepaliveDue_le hs hle hkeepalive
          exact hearly due (by simp [heq]) hdue
      | false =>
          have hresend : s.resendPushRequest later = (.ok (), s) :=
            h.resendPushRequest fun due heq => Nat.lt_of_not_le fun hdue => hretry ⟨due, heq, hdue⟩
          have hnothing : s.pollTransmit later netTime iv = (none, s) := by
            rw [pollTransmit, hfailure, if_neg (by simp), hresend]
            dsimp only
            rw [← flushed, flushed_of_drained h.drained, hidle.pollTransmit]
            exact pollKeepalive_idle hkeepalive
          rw [hnothing] at hacts
          rcases hacts with hsome | hne
          · cases hsome
          · exact absurd rfl hne
    · obtain ⟨due, heq, hdue⟩ := h.idle.nextWakeup_le hidle
      exact hearly due (by simp [heq]) hdue

/-- The session does not ask to be woken at once when it has had nothing to say, and asks to be
woken by the time it has something to say again. -/
structure Wakes (s : Session p) (now : ℕ) : Prop where
  asleep : ∀ wakeup, s.nextWakeup now = some wakeup → now < wakeup
  inTime : ∀ later netTime iv, now < later → (s.pollTransmit later netTime iv).1.isSome ∨
      (s.pollTransmit later netTime iv).2.failure ≠ s.failure →
    ∃ wakeup, s.nextWakeup now = some wakeup ∧ wakeup ≤ later

/-- What a keepalive depends on is not what a poll without a datagram changes. -/
theorem keepaliveStuck_of_none (hpoll : s.pollTransmit now netTime iv = (none, t))
    (hfailure : t.failure = none) : t.KeepaliveStuck now ↔ s.KeepaliveStuck now := by
  have hpolls := s.polls now netTime iv
  generalize hresult : s.pollTransmit now netTime iv = result at hpolls hpoll
  cases hpolls with
  | stopped =>
      obtain rfl := (Prod.mk.inj hpoll).2
      exact Iff.rfl
  | failed =>
      obtain rfl := (Prod.mk.inj hpoll).2
      cases hfailure
  | sent => cases hpoll
  | @quiet t' channel hnone h hsent =>
      obtain ⟨rfl, -⟩ := pollKeepalive_eq_none hpoll
      obtain ⟨tls, outbox, renegotiation, channel', heq⟩ := t'.flushed_frame
      rw [heq]
      rcases resendPushRequest_ok h with ⟨rfl, -⟩ | ⟨-, state, rfl⟩
      · exact Iff.rfl
      · exact Iff.rfl

/-- The HMACs of the packets of a server whose tunnel has an interval. -/
def intervalHmac : Hmac := envelopeHmac [
    serverAnswerMac,
    ⟨[4, 26, 218, 24, 93, 97, 202, 192, 187, 237, 223, 235, 18, 129, 234, 70, 236, 99, 219, 20,
      91, 103, 131, 162, 32, 42, 157, 152, 184, 98, 222, 205, 79, 142, 242, 83, 6, 78, 121, 140,
      228, 62, 76, 21, 68, 253, 123, 201, 145, 196, 200, 205, 116, 187, 141, 117, 85, 244, 162,
      31, 165, 22, 27, 204], rfl⟩,
    ⟨[59, 37, 189, 148, 109, 133, 125, 55, 195, 3, 195, 146, 61, 123, 156, 52, 91, 199, 162,
      216, 14, 108, 107, 63, 186, 200, 151, 190, 18, 48, 235, 68, 103, 33, 81, 5, 233, 131, 123,
      103, 251, 17, 125, 134, 253, 189, 206, 135, 60, 153, 98, 193, 149, 97, 172, 72, 123, 6,
      84, 239, 56, 103, 88, 184], rfl⟩,
    ⟨[190, 35, 80, 180, 141, 52, 237, 199, 104, 128, 230, 218, 22, 96, 117, 95, 128, 150, 98,
      200, 63, 17, 7, 240, 176, 76, 138, 39, 72, 208, 33, 78, 86, 38, 173, 124, 228, 164, 199,
      140, 172, 181, 140, 31, 91, 171, 84, 24, 227, 69, 230, 100, 95, 192, 42, 39, 64, 231, 129,
      76, 168, 111, 252, 156], rfl⟩,
    ⟨[111, 159, 152, 125, 89, 105, 57, 102, 105, 107, 111, 152, 173, 204, 225, 180, 168, 151,
      217, 122, 136, 191, 41, 223, 86, 82, 138, 184, 241, 11, 37, 132, 57, 28, 245, 89, 154, 75,
      7, 195, 239, 45, 206, 129, 239, 225, 47, 51, 43, 91, 139, 133, 44, 213, 136, 224, 41, 120,
      50, 248, 117, 249, 233, 202], rfl⟩]

/-- A record of the server that acknowledges a message. -/
def answeringRecord (id : UInt32) (payload : Bytes) (acked : UInt32) : ControlPacket :=
  { serverRecord .FIRST id payload with
    acks := some ⟨[acked], ourId, (by simp : [acked].length ≤ 8)⟩ }

abbrev intervalPrimitives : Primitives := clearPrimitives intervalHmac vectorCipher zeroPrf

def zeroIv : {iv : Bytes // iv.length = 16} := ⟨List.replicate 16 0, List.length_replicate⟩

def pollAt (now : ℕ) : SessionEvent intervalPrimitives := .pollTransmit now 0x6a87eba5 zeroIv

theorem pollAt_eq {s : Session intervalPrimitives} {now : ℕ}
    (h : (s.pollTransmit now 0x6a87eba5 zeroIv).1 = none) :
    s.pollTransmit now 0x6a87eba5 zeroIv = (none, s.after (pollAt now)) := Prod.ext h rfl

def arrivalOf (packet : ControlPacket) (id : UInt32) : SessionEvent intervalPrimitives :=
  .handle (serverSends intervalHmac packet id) 0 (clearFresh ..)

/-- Every message is acknowledged by the answer to it. -/
def keyedRun : List (SessionEvent intervalPrimitives) := [
  pollAt 0,
  arrivalOf serverAnswer 1,
  pollAt 0,
  arrivalOf (answeringRecord 1 [1] 1) 2,
  pollAt 0,
  arrivalOf (answeringRecord 2 serverKeyMaterial 2) 3,
  pollAt 0]

/-- The push reply, and what is sent for it. -/
def pushedRun (text : Bytes) (id : UInt32) : List (SessionEvent intervalPrimitives) :=
  [arrivalOf (answeringRecord 3 (text ++ [0]) 3) id, pollAt 0]

def opening : Session intervalPrimitives := clearSession intervalHmac vectorCipher zeroPrf

def keyed : Session intervalPrimitives := keyedRun.foldl after opening

def pushed (text : Bytes) (id : UInt32) : Session intervalPrimitives :=
  (pushedRun text id).foldl after keyed

theorem reaches_pushed (text : Bytes) (id : UInt32) :
    Reaches Step unrestricted opening (pushed text id) :=
  have hkeyed : Reaches Step unrestricted opening keyed :=
    Reaches.start.events (everyStep_unrestricted after opening keyedRun)
  hkeyed.events (everyStep_unrestricted after keyed (pushedRun text id))

/-- Payloads that are sent use packet ids, and nothing else changes when they are sent at the
moment of the last datagram. -/
theorem reaches_sends {data : DataChannel} {n : ℕ} (hs : Reaches Step unrestricted init s)
    (hdata : s.data = some data) (hlast : s.lastSent = some now)
    (hn : data.nextPacketId.toNat + n < 2 ^ 32) (iv : {iv : Bytes // iv.length = 16}) :
    Reaches Step unrestricted init
      { s with data := some { data with nextPacketId := data.nextPacketId + .ofNat n } } := by
  induction n with
  | zero =>
      have hsame : data.nextPacketId + .ofNat 0 = data.nextPacketId := UInt32.add_zero _
      rw [hsame, ← hdata]
      exact hs
  | succ n ih =>
      have hbefore := ih (by omega)
      refine hbefore.next (e := .sendPayload now [] iv) trivial ?_
      have hroom : data.nextPacketId + .ofNat n ≠ 0xffffffff := by
        intro hfull
        have hnat := congrArg UInt32.toNat hfull
        rw [UInt32.toNat_add, UInt32.toNat_ofNat'] at hnat
        have hend : (0xffffffff : UInt32).toNat = 2 ^ 32 - 1 := rfl
        omega
      have hsucc : data.nextPacketId + .ofNat n + 1 = data.nextPacketId + .ofNat (n + 1) := by
        rw [UInt32.add_assoc, UInt32.ofNat_add]
        rfl
      rw [Step, after, sendPayload]
      dsimp only
      rw [DataChannel.encryptWithIv, if_neg hroom]
      dsimp only
      rw [hsucc, ← hlast]

/-- A poll that has nothing to say while the first messages wait for their answer. -/
def greeted : Session intervalPrimitives := [pollAt 0, pollAt 0].foldl after opening

theorem plain_drains : Tls.plain.Drains := by
  rintro ⟨handshaking, unread, _ | ⟨byte, toSend⟩⟩
  · rfl
  · rfl

/-- The tunnel of a server that wants a keepalive every ten seconds. -/
def tenSeconds : Session intervalPrimitives := pushed (ascii "PUSH_REPLY,ping 10") 4

/-- It has sent as many payloads as there are packet ids. -/
def spent : Session intervalPrimitives := { tenSeconds with
  data := tenSeconds.data.map fun data => { data with nextPacketId := 0xffffffff } }

theorem reaches_spent : Reaches Step unrestricted opening spent := by
  obtain ⟨hfirst, hlast⟩ : tenSeconds.data.map (·.nextPacketId) = some 1 ∧
      tenSeconds.lastSent = some 0 := by
    decide +kernel
  obtain ⟨data, hdata, hid⟩ := Option.map_eq_some_iff.mp hfirst
  have hsent := reaches_sends (n := 2 ^ 32 - 2) (reaches_pushed (ascii "PUSH_REPLY,ping 10") 4)
    hdata hlast (by rw [hid, UInt32.toNat_one]; omega) zeroIv
  rw [hid] at hsent
  have hspent : spent = { tenSeconds with
      data := some { data with nextPacketId := 0xffffffff } } := by
    rw [spent, hdata]
    rfl
  rw [hspent]
  exact hsent

end Session

end SynologyFilestation.Openvpn
