import SynologyFilestation.Openvpn.Driver
import SynologyFilestation.Openvpn.Polling

/-!
What a call of a session leaves as it is, for the task that drives it.

A tunnel that is open stays open under the push reply that opened it, the session does nothing with
its channel but call it, and what it keeps as its failure ends it.
-/

namespace SynologyFilestation.Openvpn

open Core Library

variable {p : Primitives}

namespace Outbox

/-- What is drained goes out by calls. -/
theorem drainInto_calls (hmac : Hmac) (outbox : Outbox) (c : ControlChannel) (keyId : KeyId) :
    ∃ events : List ChannelEvent,
      (outbox.drainInto c keyId).2 = events.foldl (ControlChannel.after hmac) c := by
  refine drain_invariant (P := fun (_ : List UInt8) (c' : ControlChannel) =>
    ∃ events : List ChannelEvent, c' = events.foldl (ControlChannel.after hmac) c) ⟨[], rfl⟩ ?_ ?_
  · rintro pending _ c' ⟨events, rfl⟩ - hsend
    refine ⟨events ++ [.sendControl keyId (pending.take maxTlsFragment)], ?_⟩
    rw [List.foldl_append]
    exact (congrArg Prod.snd hsend).symm
  · rintro pending _ c' ⟨events, rfl⟩ hsend
    refine ⟨events ++ [.sendControl keyId (pending.take maxTlsFragment)], ?_⟩
    rw [List.foldl_append]
    exact (congrArg Prod.snd hsend).symm

end Outbox

namespace Session

/-- What a call leaves as it is. -/
structure Abides (s t : Session p) : Prop where
  ready : s.phase = .ready → t.phase = .ready ∧ t.push = s.push
  failure : ∀ e, t.failure = some e → s.failure = some e ∨ e.isFatal = true
  channel : ∃ events : List ChannelEvent,
    t.channel = events.foldl (ControlChannel.after p.hmac) s.channel

variable {s t u : Session p} {now : ℕ} {netTime : UInt32} {iv : {iv : Bytes // iv.length = 16}}
  {payload : Bytes} {e : Error} {event : ChannelEvent}

theorem Abides.trans (h : s.Abides t) (h' : t.Abides u) : s.Abides u where
  ready hready := by
    obtain ⟨hphase, hpush⟩ := h.ready hready
    obtain ⟨hphase', hpush'⟩ := h'.ready hphase
    exact ⟨hphase', hpush'.trans hpush⟩
  failure e he := by
    rcases h'.failure e he with hbefore | hfatal
    · exact h.failure e hbefore
    · exact .inr hfatal
  channel := by
    obtain ⟨events, hevents⟩ := h.channel
    obtain ⟨events', hevents'⟩ := h'.channel
    exact ⟨events ++ events', by rw [hevents', hevents, List.foldl_append]⟩

theorem Abides.andThen {done : Except Error Unit × Session p}
    {next : Session p → Except Error Unit × Session p} (hdone : s.Abides done.2)
    (hnext : ∀ m, Abides m (next m).2) : s.Abides (andThen done next).2 :=
  andThen_invariant (P := s.Abides) hdone fun m hm => by
    rw [hm] at hdone
    exact hdone.trans (hnext m)

/-- What else a session has, nobody minds. -/
theorem Abides.of_eq (hphase : t.phase = s.phase) (hpush : t.push = s.push)
    (hfailure : t.failure = s.failure) (hchannel : t.channel = s.channel) : s.Abides t :=
  ⟨fun h => ⟨hphase.trans h, hpush⟩, fun _ he => .inl (hfailure ▸ he), [], hchannel⟩

theorem Abides.refl (s : Session p) : s.Abides s := .of_eq rfl rfl rfl rfl

/-- A tunnel that is not open may be opened. -/
theorem Abides.of_unready (hphase : s.phase ≠ .ready) (hfailure : t.failure = s.failure)
    (hchannel : t.channel = s.channel) : s.Abides t :=
  ⟨fun h => absurd h hphase, fun _ he => .inl (hfailure ▸ he), [], hchannel⟩

theorem Abides.called (event : ChannelEvent) {channel : ControlChannel}
    (h : s.channel.after p.hmac event = channel) : s.Abides { s with channel := channel } :=
  ⟨fun h => ⟨h, rfl⟩, fun _ he => .inl he, [event], h.symm⟩

/-! ### Handling a datagram -/

theorem abides_feedRecords {n : ℕ} : s.Abides (feedRecords n s).2 := by
  induction n generalizing s with
  | zero => exact .refl s
  | succ n ih =>
      rw [feedRecords]
      split
      case h_1 channel heq => exact .called .pollControl (congrArg Prod.snd heq)
      case h_2 keyId record channel heq =>
        have hpolled : s.Abides { s with channel := channel } :=
          .called .pollControl (congrArg Prod.snd heq)
        obtain ⟨-, tls, renegotiation, hfed⟩ :=
          feedRecord_frame { s with channel := channel } keyId record
        refine Abides.andThen ?_ fun _ => ih
        rw [hfed]
        exact hpolled.trans (.of_eq rfl rfl rfl rfl)

theorem abides_receive (datagram : Bytes) (now : ℕ) : s.Abides (s.receive datagram now).2 := by
  unfold receive
  split
  case h_1 =>
    refine ⟨fun h => ⟨h, rfl⟩, fun e he => ?_, [], rfl⟩
    cases he
  case h_2 =>
    split
    case h_1 heq => exact .called (.handle datagram now) (congrArg Prod.snd heq)
    case h_2 channel heq =>
      have hhandled : s.Abides { s with channel := channel } :=
        .called (.handle datagram now) (congrArg Prod.snd heq)
      exact hhandled.trans abides_feedRecords

theorem abides_sendOurKeyMaterial : s.Abides s.sendOurKeyMaterial.2 := by
  unfold sendOurKeyMaterial
  split
  case isTrue => exact .refl s
  case isFalse hphase =>
    have htls : s.phase = .tls := by
      by_contra hne
      exact hphase (by simp [hne])
    have hunready : s.phase ≠ .ready := by
      rw [htls]
      decide
    split
    case h_1 => exact .refl s
    case h_2 => split <;> exact .of_unready hunready rfl rfl

theorem openTunnel_frame (s : Session p) :
    ∃ data, s.openTunnel.2 = { s with data := data } := by
  unfold openTunnel
  split
  case h_1 => exact ⟨_, rfl⟩
  case h_2 => split <;> exact ⟨_, rfl⟩

theorem abides_openTunnel : s.Abides s.openTunnel.2 := by
  obtain ⟨data, hopened⟩ := s.openTunnel_frame
  rw [hopened]
  exact .of_eq rfl rfl rfl rfl

/-- A reply is taken by a session whose tunnel is not open. -/
theorem abides_takePushReply {text : Bytes} (hunready : s.phase ≠ .ready) :
    s.Abides (s.takePushReply text).2 := by
  unfold takePushReply
  split
  case h_1 => exact .refl s
  case h_2 =>
    split
    case h_1 => exact .refl s
    case h_2 reply _ =>
      split_ifs
      · exact .refl s
      · exact .refl s
      · obtain ⟨data, hopened⟩ := openTunnel_frame { s with push := some reply, phase := .ready }
        rw [hopened]
        exact .of_unready hunready rfl rfl

theorem abides_receivePushReply : s.Abides s.receivePushReply.2 := by
  unfold receivePushReply
  split
  case isTrue => exact .refl s
  case isFalse hphase =>
    have hawaiting : s.phase = .awaitingPush := by
      by_contra hne
      exact hphase (by simp [hne])
    have hunready : s.phase ≠ .ready := by
      rw [hawaiting]
      decide
    split
    case h_4 text used _ =>
      have hread : s.Abides { s with inbound := s.inbound.drop used } := .of_eq rfl rfl rfl rfl
      exact hread.trans (abides_takePushReply hunready)
    all_goals exact .of_eq rfl rfl rfl rfl

theorem abides_receiveTheirKeyMaterial : s.Abides s.receiveTheirKeyMaterial.2 := by
  unfold receiveTheirKeyMaterial
  split
  case isTrue => exact .refl s
  case isFalse hphase =>
    have hunready : s.phase ≠ .ready := by
      rw [not_not.mp hphase]
      decide
    split
    case h_4 reply used _ =>
      dsimp only
      split
      case h_1 => exact .of_eq rfl rfl rfl rfl
      case h_2 =>
        refine Abides.trans ?_ abides_receivePushReply
        exact .of_unready hunready rfl rfl
    all_goals exact .of_eq rfl rfl rfl rfl

theorem abides_beginRenegotiation (fresh : Fresh p) :
    s.Abides (s.beginRenegotiation fresh).2 := by
  unfold beginRenegotiation
  split
  case h_1 => exact .refl s
  case h_2 =>
    split
    case isTrue => exact .refl s
    case isFalse => split <;> exact .of_eq rfl rfl rfl rfl

theorem abides_takeOver (r : Renegotiation p) (reply : ServerKeyMethod2) (used : ℕ) :
    s.Abides (s.takeOver r reply used).2 := by
  unfold takeOver
  dsimp only
  split
  case h_1 => exact .of_eq rfl rfl rfl rfl
  case h_2 =>
    split
    case isTrue =>
      refine Abides.trans ?_ abides_openTunnel
      exact ⟨fun h => ⟨h, rfl⟩, fun _ he => .inl he, [.promote], rfl⟩
    case isFalse => exact ⟨fun h => ⟨h, rfl⟩, fun _ he => .inl he, [.promote], rfl⟩

theorem abides_advanceRenegotiation : s.Abides s.advanceRenegotiation.2 := by
  unfold advanceRenegotiation
  split
  case h_1 => exact .refl s
  case h_2 =>
    split
    case h_1 => exact .of_eq rfl rfl rfl rfl
    case h_2 =>
      split
      case h_4 reply used _ => exact abides_takeOver _ reply used
      all_goals exact .of_eq rfl rfl rfl rfl

theorem abides_handle (datagram : Bytes) (now : ℕ) (fresh : Fresh p) :
    s.Abides (s.handle datagram now fresh).2 := by
  have hprocess : ∀ m : Session p, m.Abides (m.process fresh).2 := fun m =>
    ((((abides_sendOurKeyMaterial.andThen fun m => .of_eq rfl rfl rfl rfl).andThen
      fun _ => abides_receiveTheirKeyMaterial).andThen fun _ => abides_receivePushReply).andThen
        fun _ => abides_beginRenegotiation fresh).andThen fun _ => abides_advanceRenegotiation
  exact (abides_receive datagram now).andThen hprocess

theorem abides_receivePayload (datagram : Bytes) : s.Abides (s.receivePayload datagram).2 := by
  unfold receivePayload
  split
  case h_1 => exact .refl s
  case h_2 =>
    split
    case h_1 => exact .of_eq rfl rfl rfl rfl
    case h_2 => split <;> exact .of_eq rfl rfl rfl rfl
    case h_3 => exact .of_eq rfl rfl rfl rfl

/-! ### Sending -/

theorem abides_sendPayload : s.Abides (s.sendPayload now payload iv).2 := by
  unfold sendPayload
  split
  case h_1 => exact .refl s
  case h_2 => split <;> exact .of_eq rfl rfl rfl rfl

/-- The request for the configuration fails for good. -/
theorem isFatal_resendPushRequest (h : s.resendPushRequest now = (.error e, t)) :
    e.isFatal = true := by
  unfold resendPushRequest at h
  split_ifs at h
  · cases h
  · obtain ⟨heq, -⟩ := Prod.mk.inj h
    rw [← Except.error.inj heq]
    rfl
  · cases h
  · unfold sendPushRequest at h
    split at h
    case h_1 =>
      obtain ⟨heq, -⟩ := Prod.mk.inj h
      rw [← Except.error.inj heq]
      rfl
    case h_2 => cases h

theorem abides_flushPrimary : s.Abides s.flushPrimary := by
  obtain ⟨events, hevents⟩ := Outbox.drainInto_calls p.hmac
    (s.outbox.push (p.tls.pump s.tls.state).2) s.channel s.channel.primary.keyId
  exact ⟨fun h => ⟨h, rfl⟩, fun _ he => .inl he, events, hevents⟩

theorem abides_flushed : s.Abides s.flushed := by
  refine abides_flushPrimary.trans ?_
  unfold flushed flushRenegotiation
  split
  case h_1 => exact .refl _
  case h_2 pending _ =>
    obtain ⟨events, hevents⟩ := Outbox.drainInto_calls p.hmac
      (pending.outbox.push (p.tls.pump pending.tls.state).2) s.flushPrimary.channel pending.keyId
    exact ⟨fun h => ⟨h, rfl⟩, fun _ he => .inl he, events, hevents⟩

theorem abides_resendPushRequest (h : s.resendPushRequest now = (.ok (), t)) : s.Abides t := by
  rcases resendPushRequest_ok h with ⟨rfl, -⟩ | ⟨-, state, rfl⟩ <;> exact .of_eq rfl rfl rfl rfl

theorem abides_pollKeepalive : s.Abides (s.pollKeepalive now iv).2 := by
  unfold pollKeepalive
  split
  case h_1 => exact .refl s
  case h_2 =>
    split
    case isTrue => exact .refl s
    case isFalse =>
      split
      case h_1 => exact .refl s
      case h_2 => split <;> exact .of_eq rfl rfl rfl rfl

theorem abides_pollTransmit : s.Abides (s.pollTransmit now netTime iv).2 := by
  have hpolls := s.polls now netTime iv
  generalize s.pollTransmit now netTime iv = result at hpolls ⊢
  cases hpolls with
  | stopped => exact .refl s
  | failed _ h =>
      have hfatal := isFatal_resendPushRequest h
      obtain ⟨state, rfl⟩ := resendPushRequest_error h
      refine ⟨fun h => ⟨h, rfl⟩, fun e he => .inr ?_, [], rfl⟩
      rwa [← Option.some.inj he]
  | @sent t datagram channel _ h hsent =>
      have hflushed := (abides_resendPushRequest h).trans abides_flushed
      have hchannel : t.flushed.Abides { t.flushed with channel := channel } :=
        .called (.pollTransmit now netTime) (congrArg Prod.snd hsent)
      exact (hflushed.trans hchannel).trans (.of_eq rfl rfl rfl rfl)
  | @quiet t channel _ h hsent =>
      have hflushed := (abides_resendPushRequest h).trans abides_flushed
      have hchannel : t.flushed.Abides { t.flushed with channel := channel } :=
        .called (.pollTransmit now netTime) (congrArg Prod.snd hsent)
      exact (hflushed.trans hchannel).trans abides_pollKeepalive

theorem abides_step {call : SessionEvent p} (h : s.Step call t) : s.Abides t := by
  subst h
  cases call with
  | handle datagram now fresh => exact abides_handle datagram now fresh
  | pollTransmit now netTime iv => exact abides_pollTransmit
  | sendPayload now payload iv => exact abides_sendPayload
  | receivePayload datagram => exact abides_receivePayload datagram

/-- **The channel of a session can be polled in every run of it.** -/
theorem pollable_reaches {auth : TlsAuth} {localSession : SessionId} {tlsTimeout : ℕ}
    {credentials : Option Credentials} {peerTimeout : Option ℕ} {fresh : Fresh p}
    {init : Session p} (htimeout : 0 < tlsTimeout)
    (hnew : Session.new auth localSession tlsTimeout credentials peerTimeout fresh = .ok init)
    (hs : Reaches Step unrestricted init s) : s.channel.Pollable := by
  have hinit : init.channel.Pollable := by
    unfold Session.new at hnew
    split at hnew
    case h_1 => cases hnew
    case h_2 =>
      obtain rfl := Except.ok.inj hnew
      exact @ControlChannel.Pollable.after _ p.hmac (.new htimeout) .opening
  refine hs.invariant (P := fun s => s.channel.Pollable) hinit ?_
  intro m call u hm _ hstep
  obtain ⟨events, hevents⟩ := (abides_step hstep).channel
  rw [hevents]
  exact hm.foldl events

end Session

end SynologyFilestation.Openvpn
