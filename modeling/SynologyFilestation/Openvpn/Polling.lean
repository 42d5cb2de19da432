import SynologyFilestation.Openvpn.OwedAcks
import SynologyFilestation.Openvpn.Timers

/-!
Polling a control channel at one instant (`openvpn/src/channel.rs`, `openvpn/src/reliable.rs`).

A poll that sends something uses it up: the message is not due again before its timeout, which is
not zero, and a batch of acknowledgements is owed no longer. So polling comes to an end, and a
message that was brought forward is not brought forward again until something more is
acknowledged.
-/

namespace SynologyFilestation.Openvpn

open Core Library

namespace SendWindow

variable {w : SendWindow} {now timeout : ℕ} {id : UInt32} {entry : InFlight} {out : Outgoing}
  {opcode : Opcode} {payload : Bytes} {ids : List UInt32}

/-- Every message has a timeout, and so will those to come. -/
structure Timed (w : SendWindow) : Prop where
  initial : 0 < w.initialTimeout
  each : ∀ e ∈ w.inFlight.entries, 0 < e.2.timeout

theorem Timed.queue (h : w.Timed) (opcode : Opcode) (payload : Bytes) :
    (w.queue opcode payload).2.Timed := by
  unfold SendWindow.queue
  split
  case isTrue => exact h
  case isFalse =>
    refine ⟨h.initial, fun e he => ?_⟩
    rcases OrderedMap.mem_insert.mp he with rfl | ⟨-, hold⟩
    · exact h.initial
    · exact h.each e hold

theorem Timed.nextDue (h : w.Timed) : (w.nextDue now).2.Timed := by
  unfold SendWindow.nextDue
  split
  case h_1 id entry hfind =>
    refine ⟨h.initial, fun e he => ?_⟩
    rcases OrderedMap.mem_insert.mp he with rfl | ⟨-, hold⟩
    · exact Nat.mul_pos (h.each _ (List.mem_of_find?_eq_some hfind)) (by decide)
    · exact h.each e hold
  case h_2 => exact h

theorem Timed.acknowledge (h : w.Timed) (ids : List UInt32) : (w.acknowledge ids).Timed := by
  induction ids generalizing w with
  | nil => exact h
  | cons id ids ih =>
      refine @ih (w.acknowledgeOne id) ?_
      unfold acknowledgeOne
      split
      case h_1 => exact h
      case h_2 =>
        refine ⟨h.initial, fun e he => ?_⟩
        obtain ⟨entry, hentry, heq⟩ := OrderedMap.mem_mapValues.mp he
        have hpos : 0 < entry.timeout := h.each _ (OrderedMap.mem_erase.mp hentry).2
        rw [← heq]
        show 0 < (if e.1 < id then entry.overtaken else entry).timeout
        split <;> exact hpos

/-- How many messages are due. -/
def dueCount (w : SendWindow) (now : ℕ) : ℕ :=
  w.inFlight.entries.countP fun e => e.2.isDue now fastRetransmitAfter

/-- A message that was sent is not due before its timeout is over. -/
theorem not_isDue_sentAt (h : 0 < entry.timeout) :
    (entry.sentAt now).isDue now fastRetransmitAfter = false := by
  have hlater : ¬now + entry.timeout ≤ now := by omega
  have hnone : ¬fastRetransmitAfter ≤ 0 := by decide
  simp [InFlight.isDue, InFlight.sentAt, hlater, hnone]

theorem dueCount_nextDue (h : w.Timed) :
    (w.nextDue now).2.dueCount now + (if (w.nextDue now).1.isSome then 1 else 0) ≤
      w.dueCount now := by
  unfold nextDue
  split
  case h_1 id entry hfind =>
    have hmem := List.mem_of_find?_eq_some hfind
    have hdue := List.find?_some hfind
    have hinsert := OrderedMap.countP_insert (m := w.inFlight) (k := id) (b := entry.sentAt now)
      (q := fun e => e.2.isDue now fastRetransmitAfter)
    have herase := OrderedMap.countP_erase_of_mem (m := w.inFlight)
      (q := fun e => e.2.isDue now fastRetransmitAfter) hmem
    rw [if_neg (by rw [not_isDue_sentAt (h.each _ hmem)]; simp)] at hinsert
    rw [if_pos hdue] at herase
    simp only [dueCount, Option.isSome_some, if_true]
    omega
  case h_2 => simp

theorem nextDue_entry (h : (w.nextDue now).1 = some out) :
    ∃ entry, w.inFlight.get? out.packetId = some entry ∧
      entry.isDue now fastRetransmitAfter = true ∧
      (w.nextDue now).2.inFlight = w.inFlight.insert out.packetId (entry.sentAt now) := by
  unfold nextDue at h ⊢
  split at h
  case h_1 id entry hfind =>
    rw [← Option.some.inj h]
    exact ⟨entry, OrderedMap.get?_eq_some.mpr (List.mem_of_find?_eq_some hfind),
      by simpa using List.find?_some hfind, rfl⟩
  case h_2 => cases h

end SendWindow

/-! ### A run of a channel -/

/-- The calls that change a channel. -/
inductive ChannelEvent
  | opening
  | sendControl (keyId : KeyId) (payload : Bytes)
  | promote
  | pollControl
  | pollTransmit (now : ℕ) (netTime : UInt32)
  | handle (datagram : Bytes) (now : ℕ)

namespace ControlChannel

/-- The channel after a call. -/
def after (hmac : Hmac) (c : ControlChannel) : ChannelEvent → ControlChannel
  | .opening => c.opening
  | .sendControl keyId payload => (c.sendControl keyId payload).2
  | .promote => c.promote
  | .pollControl => c.pollControl.2
  | .pollTransmit now netTime => (c.pollTransmit hmac now netTime).2
  | .handle datagram now => (c.handle hmac datagram now).2

/-- The generation that a poll sends for, and the message that it sends, if it is not only
acknowledgements. -/
def sending (c : ControlChannel) (now : ℕ) : Option (KeyState × Option (UInt32 × InFlight)) := do
  let keyId ← c.keyIds.find? fun keyId => (c.nextPacket keyId now).1.isSome
  let state ← c.stateOf keyId
  let packet ← (c.nextPacket keyId now).1
  return (state, packet.packetId.bind fun id => (state.send.inFlight.get? id).map (id, ·))

/-- The poll sends this message of this generation ahead of its deadline. -/
def hastens (c : ControlChannel) (now generation : ℕ) (id : UInt32) : Bool :=
  match c.sending now with
  | some (state, some (i, entry)) =>
      state.generation = generation && i = id && entry.nextTry.any (now < ·)
  | _ => false

/-- How often a call sends this message ahead of its deadline. -/
def hastenings (c : ControlChannel) (generation : ℕ) (id : UInt32) : ChannelEvent → ℕ
  | .pollTransmit now _ => if c.hastens now generation id then 1 else 0
  | _ => 0

/-- How often several calls do. -/
def hastened (hmac : Hmac) (generation : ℕ) (id : UInt32) : ControlChannel → List ChannelEvent → ℕ
  | _, [] => 0
  | c, event :: events =>
      c.hastenings generation id event + hastened hmac generation id (c.after hmac event) events

/-- The call reaches `acknowledge` of this generation. -/
def Acknowledges (hmac : Hmac) (c : ControlChannel) (generation : ℕ) : ChannelEvent → Prop
  | .handle datagram now => (c.handle hmac datagram now).1 = .ok () ∧ ∃ packet header state,
      c.auth.unwrap hmac datagram = .ok (packet, header) ∧ packet.acks.isSome ∧
        (c.adopt packet).stateOf packet.keyId = some state ∧ state.generation = generation
  | _ => False

/-- No call reaches it. -/
def Unacknowledged (hmac : Hmac) (generation : ℕ) : ControlChannel → List ChannelEvent → Prop
  | _, [] => True
  | c, event :: events => ¬c.Acknowledges hmac generation event ∧
      Unacknowledged hmac generation (c.after hmac event) events

/-- The channel after so many polls at one instant. -/
def polled (hmac : Hmac) (now : ℕ) (netTime : ℕ → UInt32) (c : ControlChannel) :
    ℕ → ControlChannel
  | 0 => c
  | n + 1 => ((polled hmac now netTime c n).pollTransmit hmac now (netTime n)).2

variable {c c' : ControlChannel} {keyId : KeyId} {state : KeyState} {packet : ControlPacket}
  {hmac : Hmac} {datagram payload : Bytes} {now generation : ℕ} {netTime : UInt32} {id : UInt32}
  {event : ChannelEvent} {events : List ChannelEvent}

/-! ### What a poll sends -/

/-- A generation after it has sent something. -/
def spoken (state : KeyState) (now : ℕ) (remoteSession : Option SessionId) : KeyState :=
  { state with
    send := (state.send.nextDue now).2
    recv := (takeAcks state.recv remoteSession).2 }

theorem nextPacket_eq_some (h : c.nextPacket keyId now = (some packet, c')) :
    ∃ state, c.stateOf keyId = some state ∧
      ((state.send.nextDue now).1.isSome ∨ state.recv.owesAcks) ∧
      packet.packetId = (state.send.nextDue now).1.map (·.packetId) ∧
      c' = c.withState keyId (spoken state now c.remoteSession) := by
  unfold nextPacket at h
  split at h
  case h_1 => cases h
  case h_2 state hstate =>
    dsimp only at h
    split at h
    case isTrue => cases h
    case isFalse hnews =>
      obtain ⟨hpacket, rfl⟩ := Prod.mk.inj h
      refine ⟨state, hstate, ?_, ?_, rfl⟩
      · rw [Bool.and_eq_true, Bool.not_eq_true', Option.isNone_iff_eq_none, not_and_or,
          ← ne_eq, ← Option.isSome_iff_ne_none, Bool.not_eq_false] at hnews
        exact hnews
      · rw [← Option.some.inj hpacket]
        cases (state.send.nextDue now).1 <;> rfl

/-- What a poll that sends something comes to: one generation had something to send. -/
structure Sends (now : ℕ) (c c' : ControlChannel) (state : KeyState) : Prop where
  stateOf : c.stateOf state.keyId = some state
  news : (state.send.nextDue now).1.isSome ∨ state.recv.owesAcks
  sending : c.sending now = some (state, (state.send.nextDue now).1.bind fun out =>
    (state.send.inFlight.get? out.packetId).map (out.packetId, ·))
  after : c' = { c.withState state.keyId (spoken state now c.remoteSession) with
    nextReplayId := c'.nextReplayId }

theorem sends_of_pollTransmit (h : c.pollTransmit hmac now netTime = (some datagram, c')) :
    ∃ state, c.Sends now c' state := by
  have hrun : ∀ keyIds, transmitFrom hmac now netTime keyIds c = (some datagram, c') →
      ∃ keyId packet c'', keyIds.find? (fun keyId => (c.nextPacket keyId now).1.isSome) =
          some keyId ∧ c.nextPacket keyId now = (some packet, c'') ∧
        c' = { c'' with nextReplayId := c''.nextReplayId + 1 } := by
    intro keyIds
    induction keyIds with
    | nil => nofun
    | cons keyId keyIds ih =>
        intro hsent
        rw [transmitFrom] at hsent
        rw [List.find?_cons]
        split at hsent
        case h_1 packet c'' hnext =>
          obtain ⟨-, rfl⟩ := Prod.mk.inj hsent
          exact ⟨keyId, packet, c'', by rw [hnext]; rfl, hnext, rfl⟩
        case h_2 c'' hnext =>
          obtain ⟨rfl, -⟩ := nextPacket_eq_none hnext
          rw [hnext]
          exact ih hsent
  obtain ⟨keyId, packet, c'', hfind, hnext, rfl⟩ := hrun _ h
  obtain ⟨state, hstate, hnews, hpacket, rfl⟩ := nextPacket_eq_some hnext
  have hkey : state.keyId = keyId := keyId_of_stateOf hstate
  subst hkey
  refine ⟨state, hstate, hnews, ?_, rfl⟩
  simp only [ControlChannel.sending, hfind, hstate, hnext, hpacket, Option.bind_eq_bind,
    Option.bind_some, Option.pure_def]
  cases (state.send.nextDue now).1 <;> rfl

/-- A poll sends nothing, or what one generation has. -/
theorem pollTransmit_cases (c : ControlChannel) (hmac : Hmac) (now : ℕ) (netTime : UInt32) :
    c.pollTransmit hmac now netTime = (none, c) ∧ c.sending now = none ∨
      ∃ datagram c' state, c.pollTransmit hmac now netTime = (some datagram, c') ∧
        c.Sends now c' state := by
  cases hpoll : c.pollTransmit hmac now netTime with
  | mk result c' =>
    cases result with
    | some datagram =>
        obtain ⟨state, hsends⟩ := sends_of_pollTransmit hpoll
        exact .inr ⟨datagram, c', state, rfl, hsends⟩
    | none =>
        obtain ⟨rfl, hquiet⟩ := transmitFrom_eq_none hpoll
        refine .inl ⟨rfl, ?_⟩
        have hnone : c'.keyIds.find? (fun keyId => (c'.nextPacket keyId now).1.isSome) = none := by
          refine List.find?_eq_none.mpr fun keyId hmem hsome => ?_
          obtain ⟨packet, hpacket⟩ := Option.isSome_iff_exists.mp hsome
          obtain ⟨state, hstate, hnews, -⟩ :=
            @nextPacket_eq_some c' (c'.nextPacket keyId now).2 keyId packet now
              (Prod.ext hpacket rfl)
          obtain ⟨howes, hidle⟩ := hquiet keyId hmem state hstate
          rw [howes, SendWindow.nextDue_eq_none_iff.mpr hidle] at hnews
          simp at hnews
        simp [ControlChannel.sending, hnone]

/-! ### What holds in every run -/

/-- A message has a timeout, nothing is owed to a peer that is not known, and the generations can
be told apart. -/
structure Pollable (c : ControlChannel) : Prop where
  timed : c.Windows SendWindow.Timed
  known : c.remoteSession = none → ∀ state ∈ c.states, state.recv.owesAcks = false
  consistent : c.toGenerations.Consistent

theorem owesAcks_nextRecord {n : ℕ} {w : RecvWindow} :
    (w.nextRecord n).2.owesAcks = w.owesAcks := by
  induction n generalizing w with
  | zero => rfl
  | succ n ih =>
      have hpending : w.nextInOrder.2.owesAcks = w.owesAcks := by
        rw [RecvWindow.owesAcks, RecvWindow.pendingAcks_nextInOrder, RecvWindow.owesAcks]
      rw [RecvWindow.nextRecord]
      split
      case h_1 heq => rw [← hpending, heq]
      case h_2 heq => rw [ih, ← hpending, heq]
      case h_3 heq => rw [← hpending, heq]

theorem remoteSession_withState : (c.withState keyId state).remoteSession = c.remoteSession := by
  unfold withState
  split <;> rfl

theorem remoteSession_pollKeys {keyIds : List KeyId} :
    (pollKeys keyIds c).2.remoteSession = c.remoteSession := by
  induction keyIds generalizing c with
  | nil => rfl
  | cons keyId keyIds ih =>
      rw [pollKeys]
      split
      case h_1 => rfl
      case h_2 =>
        split
        case h_1 => exact remoteSession_withState
        case h_2 => exact ih.trans remoteSession_withState

theorem Sends.remoteSession (h : c.Sends now c' state) : c'.remoteSession = c.remoteSession := by
  rw [h.after]
  exact remoteSession_withState

theorem Sends.forall_states {Q : KeyState → Prop} (h : c.Sends now c' state)
    (heach : ∀ state ∈ c.states, Q state) (hspoken : Q (spoken state now c.remoteSession)) :
    ∀ state ∈ c'.states, Q state := by
  rw [h.after]
  exact forall_states_withState heach hspoken

/-- Whoever is not known after a datagram has not been heard. -/
theorem states_handle (h : (c.handle hmac datagram now).2.remoteSession = none) :
    c.remoteSession = none ∧ (c.handle hmac datagram now).2.states = c.states := by
  have hinterpret : ∀ {c : ControlChannel} {packet : ControlPacket},
      (c.interpret packet).2.remoteSession = none →
        c.remoteSession = none ∧ (c.interpret packet).2.states = c.states := by
    intro c packet h
    unfold interpret at h ⊢
    split at h
    case h_1 => exact ⟨h, rfl⟩
    case h_2 =>
      split at h
      case h_1 => exact ⟨h, rfl⟩
      case h_2 =>
        unfold deliver at h
        split at h
        case h_1 =>
          rw [remoteSession_withState] at h
          cases h
        case h_2 => cases h
  unfold handle at h ⊢
  split at h
  case h_1 => exact ⟨h, rfl⟩
  case h_2 =>
    dsimp only at h ⊢
    split at h
    case isTrue heq =>
      rw [if_pos heq]
      exact ⟨h, rfl⟩
    case isFalse heq =>
      rw [if_neg heq]
      exact hinterpret h

theorem remoteSession_pollTransmit :
    (c.pollTransmit hmac now netTime).2.remoteSession = c.remoteSession := by
  rcases c.pollTransmit_cases hmac now netTime with ⟨heq, -⟩ | ⟨_, _, _, heq, hsends⟩
  · rw [heq]
  · rw [heq]
    exact hsends.remoteSession

theorem Pollable.known_after (h : c.Pollable) (event : ChannelEvent)
    (hnone : (c.after hmac event).remoteSession = none) :
    ∀ state ∈ (c.after hmac event).states, state.recv.owesAcks = false := by
  cases event with
  | opening =>
      intro state hmem
      rcases mem_states.mp hmem with rfl | hpending
      · exact h.known hnone c.primary (mem_states.mpr (.inl rfl))
      · exact h.known hnone state (mem_states.mpr (.inr hpending))
  | sendControl keyId payload =>
      rw [ControlChannel.after] at hnone ⊢
      unfold sendControl at hnone ⊢
      split at hnone
      case h_1 state hstate =>
        rw [remoteSession_withState] at hnone
        exact forall_states_withState (h.known hnone)
          (h.known hnone state (mem_states_of_stateOf hstate))
      case h_2 => exact h.known hnone
  | promote => exact forall_states_promote (h.known (remoteSession_promote.symm.trans hnone))
  | pollControl =>
      refine forall_states_pollKeys (h.known (remoteSession_pollKeys.symm.trans hnone)) ?_
      exact fun state n hstate => owesAcks_nextRecord.trans hstate
  | pollTransmit now netTime =>
      have hbefore := h.known (remoteSession_pollTransmit.symm.trans hnone)
      rcases c.pollTransmit_cases hmac now netTime with ⟨heq, -⟩ | ⟨_, _, state, heq, hsends⟩
      · rw [after, heq]
        exact hbefore
      · rw [after, heq]
        refine hsends.forall_states hbefore ?_
        rw [remoteSession_pollTransmit.symm.trans hnone]
        exact hbefore state (mem_states_of_stateOf hsends.stateOf)
  | handle datagram now =>
      obtain ⟨hunknown, hstates⟩ := states_handle hnone
      rw [after, hstates]
      exact h.known hunknown

theorem Windows.opening {P : SendWindow → Prop} (h : c.Windows P)
    (hqueue : ∀ w opcode payload, P w → P (w.queue opcode payload).2) :
    c.opening.Windows P := by
  refine ⟨h.fresh, fun state hmem => ?_⟩
  rcases mem_states.mp hmem with rfl | hpending
  · exact hqueue _ _ _ (h.each _ (mem_states.mpr (.inl rfl)))
  · exact h.each _ (mem_states.mpr (.inr hpending))

theorem Pollable.after (h : c.Pollable) (event : ChannelEvent) : (c.after hmac event).Pollable := by
  refine ⟨?_, h.known_after event, ?_⟩
  · cases event with
    | opening => exact h.timed.opening fun _ _ _ hw => hw.queue _ _
    | sendControl => exact h.timed.sendControl fun _ _ _ hw => hw.queue _ _
    | promote => exact h.timed.promote
    | pollControl => exact h.timed.pollKeys
    | pollTransmit => exact h.timed.pollTransmit (fun _ hw => hw.nextDue) hmac _
    | handle => exact h.timed.handle (fun _ _ hw => hw.acknowledge _) hmac _ _
  · cases event with
    | opening => exact h.consistent
    | sendControl keyId payload =>
        rw [ControlChannel.after, toGenerations_sendControl]
        exact h.consistent
    | promote =>
        rw [ControlChannel.after]
        cases hpending : c.pending with
        | none =>
            rw [promote, hpending]
            exact h.consistent
        | some state =>
            rw [toGenerations_promote hpending]
            exact h.consistent.replace (congrArg (Option.map _) hpending)
    | pollControl =>
        rw [ControlChannel.after, toGenerations_pollControl]
        exact h.consistent
    | pollTransmit now netTime =>
        rw [ControlChannel.after, toGenerations_pollTransmit]
        exact h.consistent
    | handle datagram now =>
        rw [ControlChannel.after]
        exact h.consistent.starting (c.starting_handle hmac datagram now)

theorem Pollable.new {auth : TlsAuth} {localSession : SessionId} {tlsTimeout : ℕ}
    (h : 0 < tlsTimeout) : (new auth localSession tlsTimeout).Pollable := by
  have hstates : ∀ state ∈ (ControlChannel.new auth localSession tlsTimeout).states,
      state = .new .FIRST tlsTimeout 0 := fun state hmem =>
    (mem_states.mp hmem).resolve_right nofun
  have htimed : (SendWindow.new tlsTimeout).Timed := ⟨h, fun e he => absurd he List.not_mem_nil⟩
  refine ⟨⟨htimed, fun state hmem => ?_⟩, fun _ state hmem => ?_, ?_⟩
  · rw [hstates state hmem]
    exact htimed
  · rw [hstates state hmem]
    rfl
  · exact ⟨nofun, nofun, nofun, Nat.le_refl _, nofun⟩

theorem Pollable.foldl (h : c.Pollable) (events : List ChannelEvent) :
    (events.foldl (ControlChannel.after hmac) c).Pollable := by
  induction events generalizing c with
  | nil => exact h
  | cons event events ih => exact ih (h.after event)

/-! ### Polling comes to an end -/

/-- What a generation may still send at an instant. -/
def news (state : KeyState) (now : ℕ) : ℕ :=
  state.send.dueCount now + state.recv.pendingAcks.length

/-- What a channel may still send at an instant. -/
def backlog (c : ControlChannel) (now : ℕ) : ℕ := (c.states.map (news · now)).sum

/-- One generation is written, and the others stay. -/
theorem sum_states_withState {state' : KeyState} (f : KeyState → ℕ)
    (h : c.stateOf keyId = some state) :
    ((c.withState keyId state').states.map f).sum + f state =
      (c.states.map f).sum + f state' := by
  unfold stateOf at h
  unfold withState states
  split at h
  case isTrue hprimary =>
    obtain rfl := Option.some.inj h
    rw [if_pos hprimary]
    simp only [List.map_cons, List.sum_cons]
    omega
  case isFalse hprimary =>
    rw [if_neg hprimary]
    split at h
    case h_1 pending hpending =>
      split at h
      case isTrue =>
        obtain rfl := Option.some.inj h
        simp [hpending]
        omega
      case isFalse => cases h
    case h_2 => cases h

theorem length_pendingAcks_takeAcks (w : RecvWindow) {remoteSession : Option SessionId}
    (h : remoteSession.isSome) :
    (takeAcks w remoteSession).2.pendingAcks.length = w.pendingAcks.length - 8 := by
  obtain ⟨sessionId, rfl⟩ := Option.isSome_iff_exists.mp h
  show (w.takeAcks Acks.max).2.pendingAcks.length = w.pendingAcks.length - 8
  rw [RecvWindow.pendingAcks_takeAcks, List.length_drop]
  rfl

/-- What is sent is sent no more at this instant. -/
theorem Pollable.news_spoken (h : c.Pollable) (hsends : c.Sends now c' state) :
    news (spoken state now c.remoteSession) now < news state now := by
  have hmem := mem_states_of_stateOf hsends.stateOf
  have hdue := @SendWindow.dueCount_nextDue _ now (h.timed.each state hmem)
  simp only [news, spoken]
  cases hremote : c.remoteSession with
  | none =>
      have hsome := hsends.news.resolve_right (by rw [h.known hremote state hmem]; simp)
      rw [if_pos hsome] at hdue
      exact Nat.add_lt_add_of_lt_of_le hdue (Nat.le_refl _)
  | some sessionId =>
      rw [length_pendingAcks_takeAcks _ rfl]
      rcases hsends.news with hsome | howes
      · rw [if_pos hsome] at hdue
        omega
      · have hpos : 0 < state.recv.pendingAcks.length := by
          rw [RecvWindow.owesAcks, Bool.not_eq_true', List.isEmpty_eq_false_iff] at howes
          exact List.length_pos_iff.mpr howes
        omega

theorem Pollable.backlog_lt (h : c.Pollable) (hsends : c.Sends now c' state) :
    c'.backlog now < c.backlog now := by
  have hsum := @sum_states_withState _ _ _ (spoken state now c.remoteSession) (news · now)
    hsends.stateOf
  have hless := h.news_spoken hsends
  have hstates : c'.states = (c.withState state.keyId
      (spoken state now c.remoteSession)).states := by
    rw [hsends.after]
    rfl
  rw [backlog, hstates, backlog]
  omega

/-- **Polling at one instant ends**, after no more polls than there is to send. -/
theorem Pollable.exists_polled (h : c.Pollable) (hmac : Hmac) (now : ℕ) (netTime : ℕ → UInt32) :
    ∃ n ≤ c.backlog now, ((c.polled hmac now netTime n).pollTransmit hmac now (netTime n)).1 =
      none := by
  have hrun : ∀ n, (c.polled hmac now netTime n).Pollable ∧
      ((∀ k < n, ((c.polled hmac now netTime k).pollTransmit hmac now (netTime k)).1 ≠ none) →
        (c.polled hmac now netTime n).backlog now + n ≤ c.backlog now) := by
    intro n
    induction n with
    | zero => exact ⟨h, fun _ => Nat.le_refl _⟩
    | succ n ih =>
        refine ⟨ih.1.after (.pollTransmit now (netTime n)), fun hall => ?_⟩
        have hbefore := ih.2 fun k hk => hall k (hk.trans (Nat.lt_succ_self n))
        rcases (c.polled hmac now netTime n).pollTransmit_cases hmac now (netTime n) with
          ⟨heq, -⟩ | ⟨datagram, c', state, heq, hsends⟩
        · exact absurd (congrArg Prod.fst heq) (hall n (Nat.lt_succ_self n))
        · have hless := ih.1.backlog_lt hsends
          rw [polled, heq]
          show c'.backlog now + (n + 1) ≤ c.backlog now
          omega
  by_contra hnone
  have hall : ∀ k < c.backlog now + 1,
      ((c.polled hmac now netTime k).pollTransmit hmac now (netTime k)).1 ≠ none :=
    fun k hk heq => hnone ⟨k, Nat.le_of_lt_succ hk, heq⟩
  have hover := (hrun (c.backlog now + 1)).2 hall
  omega

/-! ### The wakeup agrees -/

theorem exists_due (h : ¬c.Idle now) :
    ∃ state ∈ c.states, state.recv.owesAcks = true ∨ ¬state.send.Idle now := by
  by_contra hall
  simp only [not_exists, not_and, not_or, not_not, Bool.not_eq_true] at hall
  exact h ⟨fun state hmem => (hall state hmem).1, fun state hmem => (hall state hmem).2⟩

/-- What is there to be sent wakes at once. -/
theorem nextWakeup_le_of_not_idle (h : ¬c.Idle now) :
    ∃ wakeup, c.nextWakeup now = some wakeup ∧ wakeup ≤ now := by
  obtain ⟨state, hmem, hnews⟩ := exists_due h
  have hstate : ∃ wakeup, (if state.recv.owesAcks then some now else state.send.nextWakeup now) =
      some wakeup ∧ wakeup ≤ now := by
    split
    case isTrue => exact ⟨now, rfl, Nat.le_refl _⟩
    case isFalse howes =>
      have hdue := hnews.resolve_left howes
      simp only [SendWindow.Idle, not_forall, Bool.not_eq_false] at hdue
      obtain ⟨e, he, hdue⟩ := hdue
      refine exists_earliest_le (List.mem_map.mpr ⟨e, he, ?_⟩)
      rw [if_pos hdue]
  obtain ⟨wakeup, hwakeup, hle⟩ := hstate
  have hin : some wakeup ∈ c.states.map fun state =>
      if state.recv.owesAcks then some now else state.send.nextWakeup now :=
    List.mem_map.mpr ⟨state, hmem, hwakeup⟩
  obtain ⟨first, hfirst, hfirst'⟩ := exists_earliest_le hin
  exact ⟨first, hfirst, hfirst'.trans hle⟩

/-- A pending generation of the channel's record is one of its generations. -/
theorem Pollable.other (h : c.Pollable) (pending : KeyState) (hpending : c.pending = some pending) :
    pending.keyId ≠ c.primary.keyId :=
  @Generations.Consistent.other _ _ h.consistent pending.toGeneration
    (congrArg (Option.map _) hpending)

/-- **The wakeup has come exactly if a poll would send.** -/
theorem Pollable.nextWakeup_le_iff (h : c.Pollable) (hmac : Hmac) (now : ℕ) (netTime : UInt32) :
    (∃ wakeup, c.nextWakeup now = some wakeup ∧ wakeup ≤ now) ↔
      (c.pollTransmit hmac now netTime).1.isSome := by
  constructor
  · rintro ⟨wakeup, hwakeup, hle⟩
    by_contra hnone
    have hidle := (idle_of_pollTransmit h.other
      (Prod.ext (Option.not_isSome_iff_eq_none.mp hnone) rfl)).2
    exact absurd (hidle.lt_nextWakeup hwakeup) (Nat.not_lt.mpr hle)
  · intro hsome
    refine nextWakeup_le_of_not_idle fun hidle => ?_
    rw [hidle.pollTransmit] at hsome
    cases hsome

/-! ### A message is brought forward once -/

/-- Nothing that came after this message has been acknowledged since it was sent. -/
def Unhurried (generation : ℕ) (id : UInt32) (state : KeyState) : Prop :=
  state.generation = generation →
    ∀ entry, (id, entry) ∈ state.send.inFlight.entries → entry.laterAcks = 0

theorem Unhurried.queue (h : Unhurried generation id state) (opcode : Opcode) (payload : Bytes)
    (opened : Bool) : Unhurried generation id
      { state with send := (state.send.queue opcode payload).2, opened := opened } := by
  intro hgeneration entry hmem
  unfold SendWindow.queue at hmem
  dsimp only at hmem
  split at hmem
  case isTrue => exact h hgeneration entry hmem
  case isFalse =>
    rcases OrderedMap.mem_insert.mp hmem with hnew | ⟨-, hold⟩
    · rw [(Prod.mk.inj hnew).2]
    · exact h hgeneration entry hold

theorem Unhurried.spoken (h : Unhurried generation id state) (remoteSession : Option SessionId) :
    Unhurried generation id (spoken state now remoteSession) := by
  intro hgeneration entry hmem
  simp only [ControlChannel.spoken, SendWindow.nextDue] at hmem
  split at hmem
  case h_1 =>
    rcases OrderedMap.mem_insert.mp hmem with hnew | ⟨-, hold⟩
    · rw [(Prod.mk.inj hnew).2]
      rfl
    · exact h hgeneration entry hold
  case h_2 => exact h hgeneration entry hmem

theorem adopt_replay (replay : ReplayWindow) :
    adopt { c with replay := replay } packet = { c.adopt packet with replay := replay } := by
  have hstarts : starts { c with replay := replay } packet = c.starts packet := rfl
  rw [adopt, adopt, hstarts]
  split <;> rfl

/-- A datagram leaves the generations alone, or one of them takes it. -/
theorem interpret_cases (c : ControlChannel) (packet : ControlPacket) :
    (c.interpret packet).2.states = c.states ∨
      ∃ state, (c.adopt packet).stateOf packet.keyId = some state ∧
        (c.interpret packet).1 = .ok () ∧ (c.interpret packet).2.states =
          ((c.adopt packet).withState packet.keyId (state.take packet)).states := by
  cases hresult : (c.interpret packet).1 with
  | error e =>
      left
      rcases interpret_error hresult with heq | ⟨-, -, -, -, heq⟩ <;> rw [heq]
      rfl
  | ok =>
      right
      unfold interpret deliver at hresult ⊢
      split at hresult
      case h_1 => cases hresult
      case h_2 =>
        split at hresult
        case h_1 => cases hresult
        case h_2 =>
          cases hstate : (c.adopt packet).stateOf packet.keyId with
          | none =>
              rw [stateOf_identify, hstate] at hresult
              cases hresult
          | some state =>
              refine ⟨state, rfl, rfl, ?_⟩
              rw [stateOf_identify, hstate]
              dsimp only
              rw [withState, withState, identify]
              dsimp only
              split <;> rfl

theorem handle_cases (c : ControlChannel) (hmac : Hmac) (datagram : Bytes) (now : ℕ) :
    (c.handle hmac datagram now).2.states = c.states ∨
      ∃ packet header state, c.auth.unwrap hmac datagram = .ok (packet, header) ∧
        (c.adopt packet).stateOf packet.keyId = some state ∧
        (c.handle hmac datagram now).1 = .ok () ∧ (c.handle hmac datagram now).2.states =
          ((c.adopt packet).withState packet.keyId (state.take packet)).states := by
  unfold handle
  cases c.auth.unwrap hmac datagram with
  | error e => exact .inl rfl
  | ok found =>
      obtain ⟨packet, header⟩ := found
      dsimp only
      split
      case isTrue => exact .inl rfl
      case isFalse =>
        rcases interpret_cases { c with replay := (c.replay.accept header.packetId
          header.netTime).2 } packet with hsame | ⟨state, hstate, hok, hstates⟩
        · exact .inl hsame
        · rw [adopt_replay] at hstate hstates
          refine .inr ⟨packet, header, state, rfl, hstate, hok, hstates.trans ?_⟩
          unfold withState
          dsimp only
          split <;> rfl

/-- What is not acknowledged is not hurried. -/
theorem unhurried_handle (h : ∀ state ∈ c.states, Unhurried generation id state)
    (hack : ¬c.Acknowledges hmac generation (.handle datagram now)) :
    ∀ state ∈ (c.handle hmac datagram now).2.states, Unhurried generation id state := by
  rcases c.handle_cases hmac datagram now with
    hsame | ⟨packet, header, state, hunwrap, hstate, hok, hstates⟩
  · rw [hsame]
    exact h
  · have hadopted : ∀ state ∈ (c.adopt packet).states, Unhurried generation id state :=
      forall_states_adopt h fun _ _ hmem => absurd hmem List.not_mem_nil
    have hwindow := hadopted state (mem_states_of_stateOf hstate)
    rw [hstates]
    refine forall_states_withState hadopted fun hgeneration entry hmem => ?_
    unfold KeyState.take at hmem
    cases hacks : packet.acks with
    | none =>
        rw [hacks] at hmem
        exact hwindow hgeneration entry hmem
    | some acks =>
        exact absurd ⟨hok, packet, header, state, hunwrap, by rw [hacks]; rfl, hstate,
          hgeneration⟩ hack

/-- A message that is sent ahead of its deadline, and the generation it is sent for. -/
theorem sends_of_hastens (hmac : Hmac) (netTime : UInt32)
    (h : c.hastens now generation id = true) :
    ∃ state entry, c.Sends now (c.pollTransmit hmac now netTime).2 state ∧
      state.generation = generation ∧ (id, entry) ∈ state.send.inFlight.entries ∧
      SendWindow.fastRetransmitAfter ≤ entry.laterAcks ∧
      (state.send.nextDue now).2.inFlight =
        state.send.inFlight.insert id (entry.sentAt now) := by
  unfold hastens at h
  split at h
  case h_2 => cases h
  case h_1 state i entry hsending =>
    rcases c.pollTransmit_cases hmac now netTime with ⟨-, hnone⟩ | ⟨_, c', state', heq, hsends⟩
    · rw [hnone] at hsending
      cases hsending
    · obtain ⟨rfl, hentry⟩ := Prod.mk.inj (Option.some.inj (hsends.sending.symm.trans hsending))
      simp only [Bool.and_eq_true, decide_eq_true_eq] at h
      obtain ⟨⟨hgeneration, rfl⟩, hahead⟩ := h
      obtain ⟨out, hout, hget⟩ := Option.bind_eq_some_iff.mp hentry
      obtain ⟨_, hget', hpair⟩ := Option.map_eq_some_iff.mp hget
      obtain ⟨rfl, rfl⟩ := Prod.mk.inj hpair
      obtain ⟨_, hfound, hdue, hsent⟩ := SendWindow.nextDue_entry hout
      obtain rfl := Option.some.inj (hget'.symm.trans hfound)
      rename_i entry
      refine ⟨state', entry, by rw [heq]; exact hsends, hgeneration,
        OrderedMap.get?_eq_some.mp hfound, ?_, hsent⟩
      obtain ⟨next, hnext, hlater⟩ := (Option.any_eq_true _ _).mp hahead
      rw [InFlight.isDue, hnext] at hdue
      simp only [decide_eq_true_eq, Bool.or_eq_true] at hdue hlater
      exact hdue.resolve_left (Nat.not_le.mpr hlater)

/-- What was sent is not sent again ahead of its deadline. -/
theorem not_hastens (hmac : Hmac) (h : ∀ state ∈ c.states, Unhurried generation id state) :
    c.hastens now generation id = false := by
  by_contra htrue
  obtain ⟨state, entry, hsends, hgeneration, hmem, hlater, -⟩ :=
    sends_of_hastens hmac 0 (Bool.eq_true_of_not_eq_false htrue)
  have hnone := h state (mem_states_of_stateOf hsends.stateOf) hgeneration entry hmem
  rw [hnone] at hlater
  exact absurd hlater (by decide)

/-- The other generation is another one. -/
theorem Pollable.generation_unique {other : KeyState} (h : c.Pollable) (hmem : state ∈ c.states)
    (hother : other ∈ c.states) (heq : state.generation = other.generation) : state = other := by
  have hlater : ∀ pending, c.pending = some pending →
      c.primary.generation < pending.generation := fun pending hpending =>
    (@Generations.Consistent.later _ _ h.consistent pending.toGeneration
      (congrArg (Option.map _) hpending)).1
  rcases mem_states.mp hmem with rfl | hpending <;> rcases mem_states.mp hother with rfl | hpending'
  · rfl
  · exact absurd heq (hlater other hpending').ne
  · exact absurd heq (hlater state hpending).ne'
  · exact Option.some.inj (hpending.symm.trans hpending')

/-- The generation that is written takes the place of the one that was read. -/
theorem Pollable.mem_states_withState {written other : KeyState} (h : c.Pollable)
    (hstate : c.stateOf keyId = some state) (hmem : other ∈ (c.withState keyId written).states) :
    other = written ∨ other ∈ c.states ∧ other ≠ state := by
  have hkey := keyId_of_stateOf hstate
  unfold withState at hmem
  split at hmem
  case isTrue hprimary =>
    rcases mem_states.mp hmem with rfl | hpending
    · exact .inl rfl
    · refine .inr ⟨mem_states.mpr (.inr hpending), ?_⟩
      rintro rfl
      exact h.other other hpending (hkey.trans hprimary.symm)
  case isFalse hprimary =>
    rcases mem_states.mp hmem with rfl | hpending
    · refine .inr ⟨mem_states.mpr (.inl rfl), ?_⟩
      rintro rfl
      exact hprimary hkey
    · exact .inl (Option.some.inj hpending).symm

/-- A message that was sent is not hurried. -/
theorem Pollable.unhurried_of_hastens (h : c.Pollable) (hmac : Hmac) (netTime : UInt32)
    (hhastens : c.hastens now generation id = true) :
    ∀ state ∈ (c.pollTransmit hmac now netTime).2.states, Unhurried generation id state := by
  obtain ⟨state, entry, hsends, hgeneration, -, -, hsent⟩ := sends_of_hastens hmac netTime hhastens
  intro other hmem hother entry' hentry'
  rw [hsends.after] at hmem
  rcases h.mem_states_withState hsends.stateOf hmem with rfl | ⟨hold, hne⟩
  · simp only [spoken, hsent] at hentry'
    rcases OrderedMap.mem_insert.mp hentry' with hnew | ⟨hkey, -⟩
    · rw [(Prod.mk.inj hnew).2]
      rfl
    · exact absurd rfl hkey
  · exact absurd (h.generation_unique hold (mem_states_of_stateOf hsends.stateOf)
      (hother.trans hgeneration.symm)) hne

theorem unhurried_pollTransmit (netTime : UInt32)
    (h : ∀ state ∈ c.states, Unhurried generation id state) :
    ∀ state ∈ (c.pollTransmit hmac now netTime).2.states, Unhurried generation id state := by
  rcases c.pollTransmit_cases hmac now netTime with ⟨heq, -⟩ | ⟨_, _, state, heq, hsends⟩
  · rw [heq]
    exact h
  · rw [heq]
    exact hsends.forall_states h ((h state (mem_states_of_stateOf hsends.stateOf)).spoken _)

/-- Without acknowledgements a message that is not hurried stays so. -/
theorem unhurried_after (h : ∀ state ∈ c.states, Unhurried generation id state)
    (hack : ¬c.Acknowledges hmac generation event) :
    ∀ state ∈ (c.after hmac event).states, Unhurried generation id state := by
  cases event with
  | opening =>
      intro state hmem
      rcases mem_states.mp hmem with rfl | hpending
      · exact (h c.primary (mem_states.mpr (.inl rfl))).queue _ _ true
      · exact h state (mem_states.mpr (.inr hpending))
  | sendControl keyId payload =>
      rw [after]
      unfold sendControl
      split
      case h_1 state hstate =>
        exact forall_states_withState h ((h state (mem_states_of_stateOf hstate)).queue _ _ _)
      case h_2 => exact h
  | promote => exact forall_states_promote h
  | pollControl => exact forall_states_pollKeys h fun _ _ hstate => hstate
  | pollTransmit now netTime => exact unhurried_pollTransmit netTime h
  | handle datagram now => exact unhurried_handle h hack

theorem hastened_eq_zero (h : ∀ state ∈ c.states, Unhurried generation id state)
    (hack : Unacknowledged hmac generation c events) :
    c.hastened hmac generation id events = 0 := by
  induction events generalizing c with
  | nil => rfl
  | cons event events ih =>
      have hnone : c.hastenings generation id event = 0 := by
        unfold hastenings
        split
        case h_1 => rw [not_hastens hmac h, if_neg Bool.false_ne_true]
        case h_2 => rfl
      rw [hastened, ih (unhurried_after h hack.1) hack.2, hnone]

/-- **A message is brought forward at most once** between two acknowledgements. -/
theorem Pollable.hastened_le_one (h : c.Pollable)
    (hack : Unacknowledged hmac generation c events) :
    c.hastened hmac generation id events ≤ 1 := by
  induction events generalizing c with
  | nil => exact Nat.zero_le _
  | cons event events ih =>
      have hrest := ih (h.after event) hack.2
      rw [hastened]
      unfold hastenings
      split
      case h_1 now netTime =>
        split
        case isTrue hhastens =>
          have hzero := hastened_eq_zero (h.unhurried_of_hastens hmac netTime hhastens) hack.2
          rw [ControlChannel.after, hzero]
        case isFalse => omega
      case h_2 => omega

end ControlChannel

end SynologyFilestation.Openvpn
