import SynologyFilestation.Library.Earliest
import SynologyFilestation.Openvpn.Generations

/-!
The deadlines of a session (`next_wakeup` in `openvpn/src/session.rs`, `channel.rs` and
`reliable.rs`), and what the calls of a session do to what they are reckoned from.

Only sending moves a clock. A datagram that is handled leaves all of them where they are, apart
from the interval that a push reply brings and the messages that are acknowledged.
-/

namespace SynologyFilestation.Openvpn

open Core Library

/-! ### The next deadline -/

/-- `SendWindow::next_wakeup`. -/
def SendWindow.nextWakeup (w : SendWindow) (now : ℕ) : Option ℕ :=
  earliest <| w.inFlight.entries.map fun e =>
    some (if e.2.isDue now fastRetransmitAfter then now else e.2.nextTry.getD now)

namespace ControlChannel

variable (c : ControlChannel)

/-- `ControlChannel::states`. -/
def states : List KeyState := c.primary :: c.pending.toList

/-- `ControlChannel::can_send_for`. -/
def canSendFor (keyId : KeyId) : Bool :=
  (c.states.find? fun state => state.keyId = keyId).any fun state => !state.send.isFull

/-- `ControlChannel::can_send`. -/
def canSend : Bool := c.canSendFor c.primary.keyId

/-- `ControlChannel::next_wakeup`. -/
def nextWakeup (now : ℕ) : Option ℕ :=
  earliest <| c.states.map fun state =>
    if state.recv.owesAcks then some now else state.send.nextWakeup now

end ControlChannel

variable {p : Primitives}

namespace Session

variable (s : Session p)

/-- `keepalive_due`. -/
def keepaliveDue (now : ℕ) : Option ℕ :=
  match s.push.bind fun reply => reply.ping with
  | none => none
  | some interval =>
      match s.data with
      | none => none
      | some _ =>
          match s.lastSent with
          | some last => some (last + interval)
          | none => some now

/-- `push_retry_due`. -/
def pushRetryDue : Option ℕ :=
  if s.phase ≠ .awaitingPush then none
  else
    match s.pushRequestedAt, s.pushFirstRequestedAt with
    | some sent, some first => some (min (sent + pushRequestInterval) (first + pushRequestTimeout))
    | _, _ => none

/-- A connection has bytes for its generation to send. -/
def hasOutput (connection : Connection p.tls) (outbox : Outbox) : Bool :=
  p.tls.wantsWrite connection.state || outbox.pending ≠ []

/-- `Session::next_wakeup`. -/
def nextWakeup (now : ℕ) : Option ℕ :=
  if s.channel.canSend && hasOutput s.tls s.outbox then some now
  else if s.renegotiation.any fun pending =>
      s.channel.canSendFor pending.keyId && hasOutput pending.tls pending.outbox then some now
  else earliest [s.channel.nextWakeup now, s.keepaliveDue now, s.pushRetryDue]

end Session

/-! ### What a datagram leaves -/

namespace ControlChannel

variable {P : SendWindow → Prop} {c : ControlChannel} {keyId : KeyId} {state : KeyState}
  {packet : ControlPacket}

theorem mem_states : state ∈ c.states ↔ state = c.primary ∨ c.pending = some state := by
  rw [states, List.mem_cons, Option.mem_toList]

theorem mem_states_of_stateOf (h : c.stateOf keyId = some state) : state ∈ c.states := by
  rw [mem_states]
  unfold stateOf at h
  split at h
  case isTrue => exact .inl (Option.some.inj h).symm
  case isFalse =>
    split at h
    case h_1 hpending =>
      split at h
      case isTrue => exact .inr (hpending.trans h)
      case isFalse => cases h
    case h_2 => cases h

section

variable {Q : KeyState → Prop}

/-- What holds of every generation still does, if it holds of the one that is written. -/
theorem forall_states_withState (h : ∀ state ∈ c.states, Q state) (hstate : Q state) :
    ∀ state' ∈ (c.withState keyId state).states, Q state' := by
  intro other hmem
  unfold ControlChannel.withState at hmem
  split at hmem
  case isTrue =>
    rcases mem_states.mp hmem with rfl | hpending
    · exact hstate
    · exact h other (mem_states.mpr (.inr hpending))
  case isFalse =>
    rcases mem_states.mp hmem with rfl | hpending
    · exact h _ (mem_states.mpr (.inl rfl))
    · obtain rfl := Option.some.inj hpending
      exact hstate

theorem forall_states_pollKeys {keyIds : List KeyId} (h : ∀ state ∈ c.states, Q state)
    (hrecord : ∀ state n, Q state → Q { state with recv := (state.recv.nextRecord n).2 }) :
    ∀ state ∈ (pollKeys keyIds c).2.states, Q state := by
  induction keyIds generalizing c with
  | nil => exact h
  | cons keyId keyIds ih =>
      rw [ControlChannel.pollKeys]
      split
      case h_1 => exact h
      case h_2 state hstate =>
        have hwritten := hrecord _ state.recv.buffered.entries.length
          (h state (mem_states_of_stateOf hstate))
        split
        case h_1 heq =>
          rw [heq] at hwritten
          exact forall_states_withState h hwritten
        case h_2 heq =>
          rw [heq] at hwritten
          exact ih (forall_states_withState h hwritten)

theorem forall_states_promote (h : ∀ state ∈ c.states, Q state) :
    ∀ state ∈ c.promote.states, Q state := by
  unfold ControlChannel.promote
  split
  case h_1 pending hpending =>
    intro state hmem
    rcases mem_states.mp hmem with rfl | hnone
    · exact h _ (mem_states.mpr (.inr hpending))
    · cases hnone
  case h_2 => exact h

theorem forall_states_adopt (h : ∀ state ∈ c.states, Q state)
    (hfresh : Q (.new packet.keyId c.tlsTimeout (c.generations + 1))) :
    ∀ state ∈ (c.adopt packet).states, Q state := by
  unfold ControlChannel.adopt
  split
  case isTrue =>
    intro state hmem
    rcases mem_states.mp hmem with rfl | hpending
    · exact h _ (mem_states.mpr (.inl rfl))
    · obtain rfl := Option.some.inj hpending
      exact hfresh
  case isFalse => exact h

end

/-- Something holds of every send window, and of a new one. -/
structure Windows (P : SendWindow → Prop) (c : ControlChannel) : Prop where
  fresh : P (.new c.tlsTimeout)
  each : ∀ state ∈ c.states, P state.send

theorem tlsTimeout_withState : (c.withState keyId state).tlsTimeout = c.tlsTimeout := by
  unfold ControlChannel.withState
  split <;> rfl

theorem tlsTimeout_pollKeys {keyIds : List KeyId} :
    (pollKeys keyIds c).2.tlsTimeout = c.tlsTimeout := by
  induction keyIds generalizing c with
  | nil => rfl
  | cons keyId keyIds ih =>
      rw [ControlChannel.pollKeys]
      split
      case h_1 => rfl
      case h_2 =>
        split
        case h_1 => exact tlsTimeout_withState
        case h_2 => exact ih.trans tlsTimeout_withState

theorem Windows.withState (h : c.Windows P) (hstate : P state.send) :
    (c.withState keyId state).Windows P where
  fresh := (@tlsTimeout_withState c keyId state).symm ▸ h.fresh
  each := forall_states_withState (Q := fun state => P state.send) h.each hstate

theorem Windows.pollKeys {keyIds : List KeyId} (h : c.Windows P) :
    (pollKeys keyIds c).2.Windows P where
  fresh := (@tlsTimeout_pollKeys c keyIds).symm ▸ h.fresh
  each := forall_states_pollKeys (Q := fun state => P state.send) h.each fun _ _ hstate => hstate

theorem Windows.promote (h : c.Windows P) : c.promote.Windows P := by
  have heach := forall_states_promote (Q := fun state => P state.send) h.each
  unfold ControlChannel.promote at heach ⊢
  split
  case h_1 heq =>
    rw [heq] at heach
    exact ⟨h.fresh, heach⟩
  case h_2 => exact h

theorem Windows.adopt (h : c.Windows P) : (c.adopt packet).Windows P := by
  have heach := @forall_states_adopt c packet (fun state => P state.send) h.each h.fresh
  unfold ControlChannel.adopt at heach ⊢
  split
  case isTrue heq =>
    rw [if_pos heq] at heach
    exact ⟨h.fresh, heach⟩
  case isFalse => exact h

/-- What acknowledgements keep, a datagram keeps. -/
theorem Windows.handle (h : c.Windows P) (hack : ∀ w ids, P w → P (w.acknowledge ids))
    (hmac : Hmac) (datagram : Bytes) (now : ℕ) : (c.handle hmac datagram now).2.Windows P := by
  have hinterpret : ∀ {c : ControlChannel} {packet : ControlPacket}, c.Windows P →
      (c.interpret packet).2.Windows P := by
    intro c packet h
    unfold interpret
    split
    case h_1 => exact h
    case h_2 =>
      split
      case h_1 => exact h
      case h_2 =>
        have hadopted : ((c.adopt packet).identify packet).Windows P :=
          ⟨h.adopt.fresh, h.adopt.each⟩
        unfold deliver
        split
        case h_1 state hstate =>
          refine hadopted.withState ?_
          have hwindow := hadopted.each state (mem_states_of_stateOf hstate)
          unfold KeyState.take
          dsimp only
          split
          case h_1 acks _ => exact hack _ _ hwindow
          case h_2 => exact hwindow
        case h_2 => exact hadopted
  unfold ControlChannel.handle
  split
  case h_1 => exact h
  case h_2 =>
    dsimp only
    split
    case isTrue => exact ⟨h.fresh, h.each⟩
    case isFalse => exact hinterpret ⟨h.fresh, h.each⟩

end ControlChannel

namespace Session

variable {s t u : Session p}

/-- No clock has moved. Only a push reply brings an interval, and only acknowledgements change a
window. -/
structure Untimed (s t : Session p) : Prop where
  lastSent : t.lastSent = s.lastSent
  requested : t.pushRequestedAt = s.pushRequestedAt
  first : t.pushFirstRequestedAt = s.pushFirstRequestedAt
  push : t.push = s.push ∨ ∃ text reply, PushReply.parse text = .ok reply ∧ t.push = some reply
  windows {P : SendWindow → Prop} : (∀ w ids, P w → P (w.acknowledge ids)) →
    s.channel.Windows P → t.channel.Windows P

theorem Untimed.trans (h : s.Untimed t) (h' : t.Untimed u) : s.Untimed u where
  lastSent := h'.lastSent.trans h.lastSent
  requested := h'.requested.trans h.requested
  first := h'.first.trans h.first
  push := by
    rcases h'.push with hsame | hreply
    · rw [hsame]
      exact h.push
    · exact .inr hreply
  windows hack hs := h'.windows hack (h.windows hack hs)

theorem Untimed.andThen {done : Except Error Unit × Session p}
    {next : Session p → Except Error Unit × Session p} (hdone : s.Untimed done.2)
    (hnext : ∀ m, Untimed m (next m).2) : s.Untimed (andThen done next).2 :=
  andThen_invariant (P := s.Untimed) hdone fun m hm => by
    rw [hm] at hdone
    exact hdone.trans (hnext m)

/-- What else a session has is not reckoned from. -/
theorem Untimed.of_eq (hlastSent : t.lastSent = s.lastSent)
    (hrequested : t.pushRequestedAt = s.pushRequestedAt)
    (hfirst : t.pushFirstRequestedAt = s.pushFirstRequestedAt) (hpush : t.push = s.push)
    (hchannel : t.channel = s.channel) : s.Untimed t :=
  ⟨hlastSent, hrequested, hfirst, .inl hpush, fun _ hs => hchannel ▸ hs⟩

theorem Untimed.refl (s : Session p) : s.Untimed s := .of_eq rfl rfl rfl rfl rfl

theorem Untimed.channel {channel : ControlChannel}
    (h : ∀ {P : SendWindow → Prop}, (∀ w ids, P w → P (w.acknowledge ids)) →
      s.channel.Windows P → channel.Windows P) : s.Untimed { s with channel := channel } :=
  ⟨rfl, rfl, rfl, .inl rfl, h⟩

theorem untimed_feedRecords {n : ℕ} : s.Untimed (feedRecords n s).2 := by
  induction n generalizing s with
  | zero => exact .refl s
  | succ n ih =>
      rw [feedRecords]
      split
      case h_1 channel heq =>
        refine .channel fun _ hs => ?_
        have hpolled := @ControlChannel.Windows.pollKeys _ _ s.channel.keyIds hs
        rwa [← ControlChannel.pollControl, heq] at hpolled
      case h_2 keyId record channel heq =>
        have hpolled : s.Untimed { s with channel := channel } := by
          refine .channel fun _ hs => ?_
          have hpolled := @ControlChannel.Windows.pollKeys _ _ s.channel.keyIds hs
          rwa [← ControlChannel.pollControl, heq] at hpolled
        obtain ⟨-, tls, renegotiation, hfed⟩ :=
          feedRecord_frame { s with channel := channel } keyId record
        refine Untimed.andThen ?_ fun _ => ih
        rw [hfed]
        exact hpolled.trans (.of_eq rfl rfl rfl rfl rfl)

theorem untimed_receive (datagram : Bytes) (now : ℕ) : s.Untimed (s.receive datagram now).2 := by
  unfold receive
  split
  case h_1 => exact .of_eq rfl rfl rfl rfl rfl
  case h_2 =>
    have hchannel : s.Untimed { s with channel := (s.channel.handle p.hmac datagram now).2 } :=
      .channel fun hack hs => hs.handle hack p.hmac datagram now
    split
    case h_1 heq =>
      rw [heq] at hchannel
      exact hchannel
    case h_2 heq =>
      rw [heq] at hchannel
      exact hchannel.trans untimed_feedRecords

theorem untimed_sendOurKeyMaterial : s.Untimed s.sendOurKeyMaterial.2 := by
  unfold sendOurKeyMaterial
  split
  case isTrue => exact .refl s
  case isFalse =>
    split
    case h_1 => exact .refl s
    case h_2 => split <;> exact .of_eq rfl rfl rfl rfl rfl

theorem untimed_openTunnel : s.Untimed s.openTunnel.2 := by
  unfold openTunnel
  split
  case h_1 => exact .refl s
  case h_2 => split <;> exact .of_eq rfl rfl rfl rfl rfl

theorem untimed_takePushReply {text : Bytes} : s.Untimed (s.takePushReply text).2 := by
  unfold takePushReply
  split
  case h_1 => exact .refl s
  case h_2 =>
    split
    case h_1 => exact .refl s
    case h_2 reply hparse =>
      split_ifs
      · exact .refl s
      · exact .refl s
      · have hpushed : s.Untimed { s with push := some reply, phase := .ready } :=
          ⟨rfl, rfl, rfl, .inr ⟨text, reply, hparse, rfl⟩, fun _ hs => hs⟩
        exact hpushed.trans untimed_openTunnel

theorem untimed_receivePushReply : s.Untimed s.receivePushReply.2 := by
  unfold receivePushReply
  split
  case isTrue => exact .refl s
  case isFalse =>
    split
    case h_4 text used _ =>
      have hread : s.Untimed { s with inbound := s.inbound.drop used } :=
        .of_eq rfl rfl rfl rfl rfl
      exact hread.trans untimed_takePushReply
    all_goals exact .of_eq rfl rfl rfl rfl rfl

theorem untimed_receiveTheirKeyMaterial : s.Untimed s.receiveTheirKeyMaterial.2 := by
  unfold receiveTheirKeyMaterial
  split
  case isTrue => exact .refl s
  case isFalse =>
    split
    case h_4 reply used _ =>
      dsimp only
      split
      case h_1 => exact .of_eq rfl rfl rfl rfl rfl
      case h_2 =>
        refine Untimed.trans ?_ untimed_receivePushReply
        exact .of_eq rfl rfl rfl rfl rfl
    all_goals exact .of_eq rfl rfl rfl rfl rfl

theorem untimed_beginRenegotiation (fresh : Fresh p) :
    s.Untimed (s.beginRenegotiation fresh).2 := by
  unfold beginRenegotiation
  split
  case h_1 => exact .refl s
  case h_2 =>
    split
    case isTrue => exact .refl s
    case isFalse => split <;> exact .of_eq rfl rfl rfl rfl rfl

theorem untimed_takeOver (r : Renegotiation p) (reply : ServerKeyMethod2) (used : ℕ) :
    s.Untimed (s.takeOver r reply used).2 := by
  unfold takeOver
  dsimp only
  split
  case h_1 => exact .of_eq rfl rfl rfl rfl rfl
  case h_2 =>
    split
    case isTrue =>
      refine Untimed.trans ?_ untimed_openTunnel
      exact ⟨rfl, rfl, rfl, .inl rfl, fun _ hs => hs.promote⟩
    case isFalse => exact ⟨rfl, rfl, rfl, .inl rfl, fun _ hs => hs.promote⟩

theorem untimed_advanceRenegotiation : s.Untimed s.advanceRenegotiation.2 := by
  unfold advanceRenegotiation
  split
  case h_1 => exact .refl s
  case h_2 =>
    split
    case h_1 => exact .of_eq rfl rfl rfl rfl rfl
    case h_2 =>
      split
      case h_4 reply used _ => exact untimed_takeOver _ reply used
      all_goals exact .of_eq rfl rfl rfl rfl rfl

/-- **A datagram that is handled moves no clock.** -/
theorem untimed_handle (datagram : Bytes) (now : ℕ) (fresh : Fresh p) :
    s.Untimed (s.handle datagram now fresh).2 := by
  have hprocess : ∀ m : Session p, m.Untimed (m.process fresh).2 := fun m =>
    ((((untimed_sendOurKeyMaterial.andThen fun m => .of_eq rfl rfl rfl rfl rfl).andThen
      fun _ => untimed_receiveTheirKeyMaterial).andThen fun _ => untimed_receivePushReply).andThen
        fun _ => untimed_beginRenegotiation fresh).andThen fun _ => untimed_advanceRenegotiation
  exact (untimed_receive datagram now).andThen hprocess

theorem untimed_receivePayload (datagram : Bytes) : s.Untimed (s.receivePayload datagram).2 := by
  unfold receivePayload
  split
  case h_1 => exact .refl s
  case h_2 =>
    split
    case h_1 => exact .of_eq rfl rfl rfl rfl rfl
    case h_2 => split <;> exact .of_eq rfl rfl rfl rfl rfl
    case h_3 => exact .of_eq rfl rfl rfl rfl rfl

/-! ### What sending moves -/

/-- What TLS has written is with the channel, as far as there is room. -/
def flushed (s : Session p) : Session p := s.flushPrimary.flushRenegotiation

/-- The clocks that sending something at a moment sets. -/
structure Moved (now : ℕ) (s t : Session p) : Prop where
  push : t.push = s.push
  lastSent : t.lastSent = s.lastSent ∨ t.lastSent = some now
  requests : t.pushRequestedAt = s.pushRequestedAt ∧
      t.pushFirstRequestedAt = s.pushFirstRequestedAt ∨
    t.pushRequestedAt = some now ∧ t.pushFirstRequestedAt = some (s.pushFirstRequestedAt.getD now)

variable {now : ℕ} {netTime : UInt32} {iv : {iv : Bytes // iv.length = 16}} {payload : Bytes}
  {e : Error}

theorem flushed_frame (s : Session p) : ∃ tls outbox renegotiation channel, s.flushed =
    { s with tls := tls, outbox := outbox, renegotiation := renegotiation,
             channel := channel } := by
  unfold flushed flushRenegotiation
  split
  case h_1 => exact ⟨_, _, _, _, rfl⟩
  case h_2 => exact ⟨_, _, _, _, rfl⟩

/-- Either it is not yet time to ask again, or the request goes out. -/
theorem resendPushRequest_ok (h : s.resendPushRequest now = (.ok (), t)) :
    t = s ∧ (s.phase = .awaitingPush →
      isSince s.pushFirstRequestedAt pushRequestTimeout now = false ∧
        ∃ sent, s.pushRequestedAt = some sent ∧
          isSince s.pushRequestedAt pushRequestInterval now = false) ∨
      isSince s.pushFirstRequestedAt pushRequestTimeout now = false ∧ ∃ state, t = { s with
        tls := { s.tls with state := state }
        pushRequestedAt := some now
        pushFirstRequestedAt := some (s.pushFirstRequestedAt.getD now) } := by
  unfold resendPushRequest at h
  split at h
  case isTrue hphase =>
    obtain ⟨-, rfl⟩ := Prod.mk.inj h
    exact .inl ⟨rfl, fun hawaiting => absurd hawaiting hphase⟩
  case isFalse =>
    split at h
    case isTrue => cases h
    case isFalse htimeout =>
      have htimeout := Bool.eq_false_iff.mpr htimeout
      split at h
      case isTrue hwaits =>
        obtain ⟨-, rfl⟩ := Prod.mk.inj h
        rw [Bool.and_eq_true, Bool.not_eq_true'] at hwaits
        obtain ⟨sent, hsent⟩ := Option.isSome_iff_exists.mp hwaits.1
        exact .inl ⟨rfl, fun _ => ⟨htimeout, sent, hsent, hwaits.2⟩⟩
      case isFalse =>
        unfold sendPushRequest at h
        split at h
        case h_1 => cases h
        case h_2 =>
          obtain ⟨-, rfl⟩ := Prod.mk.inj h
          exact .inr ⟨htimeout, _, rfl⟩

theorem resendPushRequest_error (h : s.resendPushRequest now = (.error e, t)) :
    ∃ state, t = { s with tls := { s.tls with state := state } } := by
  unfold resendPushRequest at h
  split at h
  case isTrue => cases h
  case isFalse =>
    split at h
    case isTrue =>
      obtain ⟨-, rfl⟩ := Prod.mk.inj h
      exact ⟨_, rfl⟩
    case isFalse =>
      split at h
      case isTrue => cases h
      case isFalse =>
        unfold sendPushRequest at h
        split at h
        case h_1 =>
          obtain ⟨-, rfl⟩ := Prod.mk.inj h
          exact ⟨_, rfl⟩
        case h_2 => cases h

/-- What a call of `poll_transmit` comes to. -/
inductive Polls (now : ℕ) (netTime : UInt32) (iv : {iv : Bytes // iv.length = 16})
    (s : Session p) : Option Bytes × Session p → Prop
  | stopped (h : s.failure.isSome) : Polls now netTime iv s (none, s)
  | failed {t : Session p} {e : Error} (hnone : s.failure = none)
      (h : s.resendPushRequest now = (.error e, t)) :
      Polls now netTime iv s (none, { t with failure := some e })
  | sent {t : Session p} {datagram : Bytes} {channel : ControlChannel} (hnone : s.failure = none)
      (h : s.resendPushRequest now = (.ok (), t))
      (hsent : t.flushed.channel.pollTransmit p.hmac now netTime = (some datagram, channel)) :
      Polls now netTime iv s
        (some datagram, { t.flushed with channel := channel, lastSent := some now })
  | quiet {t : Session p} {channel : ControlChannel} (hnone : s.failure = none)
      (h : s.resendPushRequest now = (.ok (), t))
      (hsent : t.flushed.channel.pollTransmit p.hmac now netTime = (none, channel)) :
      Polls now netTime iv s ({ t.flushed with channel := channel }.pollKeepalive now iv)

theorem polls (s : Session p) (now : ℕ) (netTime : UInt32) (iv : {iv : Bytes // iv.length = 16}) :
    s.Polls now netTime iv (s.pollTransmit now netTime iv) := by
  unfold pollTransmit
  split
  case isTrue hfailure => exact .stopped hfailure
  case isFalse hfailure =>
    have hnone := Option.not_isSome_iff_eq_none.mp hfailure
    split
    case h_1 heq => exact .failed hnone heq
    case h_2 t heq =>
      dsimp only
      split
      case h_1 hsent => exact .sent hnone heq hsent
      case h_2 hsent => exact .quiet hnone heq hsent

theorem Moved.trans (h : s.Moved now t) (h' : t.Moved now u) : s.Moved now u where
  push := h'.push.trans h.push
  lastSent := by
    rcases h'.lastSent with hsame | hnow
    · rw [hsame]
      exact h.lastSent
    · exact .inr hnow
  requests := by
    rcases h'.requests with ⟨hrequested, hfirst⟩ | ⟨hrequested, hfirst⟩
    · rw [hrequested, hfirst]
      exact h.requests
    · refine .inr ⟨hrequested, ?_⟩
      rcases h.requests with ⟨-, hsame⟩ | ⟨-, hset⟩
      · rw [hfirst, hsame]
      · rw [hfirst, hset]
        rfl

theorem Moved.of_eq (hpush : t.push = s.push) (hlastSent : t.lastSent = s.lastSent)
    (hrequested : t.pushRequestedAt = s.pushRequestedAt)
    (hfirst : t.pushFirstRequestedAt = s.pushFirstRequestedAt) : s.Moved now t :=
  ⟨hpush, .inl hlastSent, .inl ⟨hrequested, hfirst⟩⟩

theorem moved_flushed : s.Moved now s.flushed := by
  obtain ⟨tls, outbox, renegotiation, channel, hflushed⟩ := s.flushed_frame
  rw [hflushed]
  exact .of_eq rfl rfl rfl rfl

theorem moved_resendPushRequest (h : s.resendPushRequest now = (.ok (), t)) : s.Moved now t := by
  rcases resendPushRequest_ok h with ⟨rfl, -⟩ | ⟨-, state, rfl⟩
  · exact .of_eq rfl rfl rfl rfl
  · exact ⟨rfl, .inl rfl, .inr ⟨rfl, rfl⟩⟩

theorem moved_pollKeepalive : s.Moved now (s.pollKeepalive now iv).2 := by
  unfold pollKeepalive
  split
  case h_1 => exact .of_eq rfl rfl rfl rfl
  case h_2 =>
    split
    case isTrue => exact .of_eq rfl rfl rfl rfl
    case isFalse =>
      split
      case h_1 => exact .of_eq rfl rfl rfl rfl
      case h_2 =>
        split
        case h_1 => exact .of_eq rfl rfl rfl rfl
        case h_2 => exact ⟨rfl, .inr rfl, .inl ⟨rfl, rfl⟩⟩

theorem moved_pollTransmit : s.Moved now (s.pollTransmit now netTime iv).2 := by
  have hpolls := s.polls now netTime iv
  generalize s.pollTransmit now netTime iv = result at hpolls ⊢
  cases hpolls with
  | stopped => exact .of_eq rfl rfl rfl rfl
  | failed _ h =>
      obtain ⟨state, rfl⟩ := resendPushRequest_error h
      exact .of_eq rfl rfl rfl rfl
  | sent _ h =>
      have hflushed := (moved_resendPushRequest h).trans moved_flushed
      exact ⟨hflushed.push, .inr rfl, hflushed.requests⟩
  | @quiet t channel _ h =>
      have hflushed := (moved_resendPushRequest h).trans moved_flushed
      have hchannel : s.Moved now { t.flushed with channel := channel } :=
        hflushed.trans (.of_eq rfl rfl rfl rfl)
      exact hchannel.trans moved_pollKeepalive

theorem moved_sendPayload : s.Moved now (s.sendPayload now payload iv).2 := by
  unfold sendPayload
  split
  case h_1 => exact .of_eq rfl rfl rfl rfl
  case h_2 =>
    split
    case h_1 => exact .of_eq rfl rfl rfl rfl
    case h_2 => exact ⟨rfl, .inr rfl, .inl ⟨rfl, rfl⟩⟩

end Session

/-! ### What holds in every run -/

namespace PushReply

variable {parsed reply : PushReply} {directive name text : Bytes} {rest : List Bytes}

/-- Zero is off. -/
theorem ping_take (h : parsed.ping ≠ some 0) (htake : parsed.take directive name rest = .ok reply) :
    reply.ping ≠ some 0 := by
  have hsame : ∀ {parsed' : PushReply}, Except.ok (ε := Error) parsed' = .ok reply →
      parsed'.ping = parsed.ping → reply.ping ≠ some 0 := by
    intro parsed' heq hping
    rw [← Except.ok.inj heq, hping]
    exact h
  unfold take at htake
  split_ifs at htake
  · split at htake
    case h_1 id =>
      cases hid : peerIdFrom id directive with
      | error =>
          rw [hid] at htake
          cases htake
      | ok peerId =>
          rw [hid] at htake
          exact hsame htake rfl
    case h_2 => exact hsame htake rfl
  · split at htake
    · exact hsame htake rfl
    · exact hsame htake rfl
  · split at htake
    · split at htake
      · exact hsame htake rfl
      · cases htake
    · exact hsame htake rfl
  · exact hsame htake rfl
  · exact hsame htake rfl
  · split at htake
    case h_1 seconds _ =>
      cases hseconds : secondsFrom seconds directive with
      | error =>
          rw [hseconds] at htake
          cases htake
      | ok interval =>
          rw [hseconds] at htake
          rw [← Except.ok.inj htake]
          dsimp only
          split
          case isTrue => nofun
          case isFalse hne => exact fun heq => hne (Option.some.inj heq)
    case h_2 => exact hsame htake rfl
  · split at htake
    case h_1 seconds _ =>
      cases hseconds : secondsFrom seconds directive with
      | error =>
          rw [hseconds] at htake
          cases htake
      | ok limit =>
          rw [hseconds] at htake
          refine hsame htake ?_
          dsimp only
          split <;> rfl
    case h_2 => exact hsame htake rfl
  · exact hsame htake rfl

theorem ping_parse (h : parse text = .ok reply) : reply.ping ≠ some 0 := by
  have hfold : ∀ (directives : List Bytes) (parsed : PushReply), parsed.ping ≠ some 0 →
      directives.foldlM takeDirective parsed = .ok reply → reply.ping ≠ some 0 := by
    intro directives
    induction directives with
    | nil =>
        rintro parsed hparsed ⟨⟩
        exact hparsed
    | cons directive directives ih =>
        intro parsed hparsed hok
        rw [List.foldlM_cons] at hok
        cases htaken : takeDirective parsed directive with
        | error e =>
            rw [htaken] at hok
            cases hok
        | ok taken =>
            rw [htaken] at hok
            refine ih taken ?_ hok
            unfold takeDirective at htaken
            dsimp only at htaken
            split at htaken
            · rw [← Except.ok.inj htaken]
              exact hparsed
            · have hdirectives : ({ parsed with
                  directives := parsed.directives ++ [directive] } : PushReply).ping ≠ some 0 :=
                hparsed
              exact ping_take hdirectives htaken
  unfold parse at h
  split at h
  case isTrue =>
    refine hfold _ default ?_ h
    rw [default]
    nofun
  case isFalse => cases h

end PushReply

namespace Session

variable {s t init : Session p} {event : SessionEvent p}

/-- What deadlines are reckoned from: a request that went out was the first or came after it, and
an interval is not zero. -/
structure Reckoned (s : Session p) : Prop where
  first : s.pushRequestedAt.isSome → s.pushFirstRequestedAt.isSome
  ping : ∀ reply, s.push = some reply → reply.ping ≠ some 0

theorem Untimed.reckoned (h : s.Untimed t) (hs : s.Reckoned) : t.Reckoned where
  first := by
    rw [h.requested, h.first]
    exact hs.first
  ping reply hreply := by
    rcases h.push with hsame | ⟨text, reply', hparse, hpush⟩
    · exact hs.ping reply (hsame ▸ hreply)
    · rw [hpush] at hreply
      rw [← Option.some.inj hreply]
      exact PushReply.ping_parse hparse

theorem Moved.reckoned {now : ℕ} (h : s.Moved now t) (hs : s.Reckoned) : t.Reckoned where
  first := by
    rcases h.requests with ⟨hrequested, hfirst⟩ | ⟨-, hfirst⟩
    · rw [hrequested, hfirst]
      exact hs.first
    · rw [hfirst]
      exact fun _ => rfl
  ping := by
    rw [h.push]
    exact hs.ping

theorem Reckoned.after (h : s.Reckoned) (event : SessionEvent p) : (s.after event).Reckoned := by
  cases event with
  | handle datagram now fresh => exact (untimed_handle datagram now fresh).reckoned h
  | pollTransmit now netTime iv => exact moved_pollTransmit.reckoned h
  | sendPayload now payload iv => exact moved_sendPayload.reckoned h
  | receivePayload datagram => exact (untimed_receivePayload datagram).reckoned h

theorem Reckoned.new {auth : TlsAuth} {localSession : SessionId} {tlsTimeout : ℕ}
    {credentials : Option Credentials} {peerTimeout : Option ℕ} {fresh : Fresh p}
    (h : Session.new auth localSession tlsTimeout credentials peerTimeout fresh = .ok init) :
    init.Reckoned := by
  unfold Session.new at h
  split at h
  case h_1 => cases h
  case h_2 =>
    obtain rfl := Except.ok.inj h
    exact ⟨nofun, nofun⟩

theorem Reckoned.reaches (h : init.Reckoned) (hs : Reaches Step unrestricted init s) :
    s.Reckoned :=
  hs.invariant h fun hs _ hstep => by
    rw [hstep]
    exact hs.after _

end Session

end SynologyFilestation.Openvpn
