import SynologyFilestation.Openvpn.DriverRuns
import SynologyFilestation.Openvpn.Wakeup

/-!
The task that drives a session, and the time (`openvpn/src/driver.rs`).

What a session has to say at one instant comes to an end, so the task comes to where it looks
whether the peer is still there, and from there it waits for a second at most.
-/

namespace SynologyFilestation.Openvpn

open Core Library

variable {p : Primitives}

/-! ### A window that sends -/

theorem SendWindow.isFull_nextDue (w : SendWindow) (now : ℕ) :
    (w.nextDue now).2.isFull = w.isFull := by
  unfold nextDue
  split
  case h_1 id entry hfind =>
    have hkeys := OrderedMap.keys_insert (b := entry.sentAt now) (List.mem_of_find?_eq_some hfind)
    have hlength := congrArg List.length hkeys
    have hhead := congrArg List.head? hkeys
    rw [List.length_map, List.length_map] at hlength
    rw [List.head?_map, List.head?_map] at hhead
    unfold isFull
    dsimp only
    rw [hlength]
    cases hbefore : w.inFlight.entries.head? with
    | none =>
        rw [hbefore, Option.map_none, Option.map_eq_none_iff] at hhead
        rw [hhead]
    | some first =>
        obtain ⟨key, value⟩ := first
        rw [hbefore] at hhead
        obtain ⟨⟨key', value'⟩, hafter, hsame⟩ := Option.map_eq_some_iff.mp hhead
        obtain rfl : key' = key := hsame
        rw [hafter]
  case h_2 => rfl

namespace ControlChannel

variable {c c' : ControlChannel} {state : KeyState} {now : ℕ} {keyId : KeyId}

/-- A generation that sends has as much room as before. -/
theorem Sends.canSendFor (h : c.Sends now c' state) (keyId : KeyId) :
    c'.canSendFor keyId = c.canSendFor keyId := by
  have hafter : c'.canSendFor keyId =
      (c.withState state.keyId (spoken state now c.remoteSession)).canSendFor keyId := by
    rw [h.after]
    rfl
  have hkeyId : (spoken state now c.remoteSession).keyId = state.keyId := rfl
  rw [hafter, canSendFor_eq, canSendFor_eq]
  by_cases hkey : keyId = state.keyId
  · subst hkey
    have hfull := state.send.isFull_nextDue now
    rw [h.stateOf, stateOf_withState hkeyId, Option.any_some, Option.any_some, spoken, hfull]
  · rw [stateOf_withState_of_ne hkeyId (by rw [h.stateOf]; rfl) hkey]

end ControlChannel

/-! ### A session that is polled at one instant -/

namespace Session

variable {s t init : Session p} {now : ℕ} {netTime : UInt32}
  {iv : {iv : Bytes // iv.length = 16}} {datagram : Bytes}

/-- A request for the configuration is not due at this instant. -/
def Asked (s : Session p) (now : ℕ) : Prop :=
  s.phase = .awaitingPush → isSince s.pushFirstRequestedAt pushRequestTimeout now = false ∧
    s.pushRequestedAt.isSome ∧ isSince s.pushRequestedAt pushRequestInterval now = false

theorem Asked.resendPushRequest (h : s.Asked now) : s.resendPushRequest now = (.ok (), s) := by
  unfold Session.resendPushRequest
  split
  case isTrue => rfl
  case isFalse hphase =>
    obtain ⟨hfirst, hsome, hrequested⟩ := h (not_not.mp hphase)
    rw [hfirst, hsome, hrequested]
    rfl

theorem isSince_now {interval : ℕ} (hpos : 0 < interval) :
    isSince (some now) interval now = false := by
  rw [isSince_some_false hpos]
  omega

/-- A request that has gone out is not due again. -/
theorem asked_of_resendPushRequest (h : s.resendPushRequest now = (.ok (), t)) : t.Asked now := by
  intro hphase
  rcases resendPushRequest_ok h with ⟨rfl, hwaits⟩ | ⟨hfirst, state, rfl⟩
  · obtain ⟨hfirst, sent, hsent, hrequested⟩ := hwaits hphase
    exact ⟨hfirst, by rw [hsent]; rfl, hrequested⟩
  · refine ⟨?_, rfl, isSince_now (by decide)⟩
    cases hbefore : s.pushFirstRequestedAt with
    | none => exact isSince_now (by decide)
    | some first =>
        rw [hbefore] at hfirst
        exact hfirst

/-- What a session still has to say at an instant once its connections are drained. -/
def toSay (s : Session p) (now : ℕ) : ℕ :=
  s.channel.backlog now + if s.keepaliveIsDue now then 1 else 0

/-- Nothing new is going to be said at this instant. -/
structure Poised (s : Session p) (now : ℕ) : Prop where
  drained : s.Drained
  asked : s.Asked now

/-- A packet that goes out leaves everything where it was. -/
theorem Drained.sends (h : s.Drained) {channel : ControlChannel} {state : KeyState}
    (hsends : s.channel.Sends now channel state)
    (hgenerations : channel.toGenerations = s.channel.toGenerations) (lastSent : Option ℕ) :
    { s with channel := channel, lastSent := lastSent }.Drained := by
  have hheld {outbox : Outbox} {keyId : KeyId} (hheld : outbox.Held s.channel keyId) :
      outbox.Held channel keyId :=
    hheld.imp id fun hfull => (hsends.canSendFor keyId).trans hfull
  have hprimary : channel.primary.keyId = s.channel.primary.keyId :=
    congrArg (·.primary.key) hgenerations
  refine ⟨⟨h.primary.1, ?_⟩, fun r hr => ⟨(h.renegotiation r hr).1, hheld (h.renegotiation r hr).2⟩⟩
  show s.outbox.Held channel channel.primary.keyId
  rw [hprimary]
  exact hheld h.primary.2

/-- A keepalive that goes out is one that is due. -/
theorem pollKeepalive_sends (h : s.pollKeepalive now iv = (some datagram, t)) :
    s.keepaliveIsDue now = true ∧ ∃ data, t = { s with data := data, lastSent := some now } := by
  constructor
  · by_contra hidle
    rw [pollKeepalive_idle (Bool.eq_false_iff.mpr hidle)] at h
    cases h
  · unfold pollKeepalive at h
    split at h
    case h_1 => cases h
    case h_2 =>
      split at h
      case isTrue => cases h
      case isFalse =>
        split at h
        case h_1 => cases h
        case h_2 =>
          split at h
          case h_1 => cases h
          case h_2 =>
            obtain ⟨-, rfl⟩ := Prod.mk.inj h
            exact ⟨_, rfl⟩

/-- Whatever goes out puts the next keepalive off. -/
theorem keepaliveIsDue_now (hs : s.Reckoned) (hlast : s.lastSent = some now) :
    s.keepaliveIsDue now = false := by
  unfold keepaliveIsDue
  cases hping : s.push.bind fun reply => reply.ping with
  | none => rfl
  | some interval =>
      have hpos : 0 < interval := by
        obtain ⟨reply, hreply, hinterval⟩ := Option.bind_eq_some_iff.mp hping
        refine Nat.pos_of_ne_zero fun hzero => hs.ping reply hreply ?_
        rw [hinterval, hzero]
      rw [Option.any_some, hlast, isSince_now hpos]
      simp

theorem lastSent_of_sends (h : s.pollTransmit now netTime iv = (some datagram, t)) :
    t.lastSent = some now := by
  have hpolls := s.polls now netTime iv
  generalize s.pollTransmit now netTime iv = result at hpolls h
  cases hpolls with
  | stopped => cases h
  | failed => cases h
  | sent =>
      obtain ⟨-, rfl⟩ := Prod.mk.inj h
      rfl
  | quiet =>
      obtain ⟨-, data, rfl⟩ := pollKeepalive_sends h
      rfl

/-- After a poll that sent something, all that was written has been handed on. -/
theorem poised_of_sends (hdrains : p.tls.Drains) (hs : s.Consistent)
    (h : s.pollTransmit now netTime iv = (some datagram, t)) : t.Poised now := by
  have hpolls := s.polls now netTime iv
  generalize s.pollTransmit now netTime iv = result at hpolls h
  have hdrained {m : Session p} (hresend : s.resendPushRequest now = (.ok (), m)) :
      m.flushed.Drained := by
    have hkeeps := hs.resendPushRequest now
    rw [hresend] at hkeeps
    refine drained_flushed hdrains fun r hr => ?_
    have hsound := hkeeps.consistent.sound
    rcases hsound.candidate (c := r.toGeneration) (congrArg (Option.map _) hr) with
      hpending | ⟨-, hgiven⟩
    · exact hsound.consistent.other hpending
    · exact hsound.consistent.given hgiven
  have hasked {m : Session p} (hresend : s.resendPushRequest now = (.ok (), m)) :
      m.flushed.Asked now := by
    have hbefore := asked_of_resendPushRequest hresend
    obtain ⟨tls, outbox, renegotiation, channel, hflushed⟩ := m.flushed_frame
    rw [hflushed]
    exact hbefore
  cases hpolls with
  | stopped => cases h
  | failed => cases h
  | @sent m _ channel hnone hresend hsent =>
      obtain ⟨-, rfl⟩ := Prod.mk.inj h
      obtain ⟨state, hsends⟩ := ControlChannel.sends_of_pollTransmit hsent
      have hgenerations := m.flushed.channel.toGenerations_pollTransmit p.hmac now netTime
      rw [hsent] at hgenerations
      exact ⟨(hdrained hresend).sends hsends hgenerations _, hasked hresend⟩
  | @quiet m channel hnone hresend hsent =>
      obtain ⟨rfl, -⟩ := ControlChannel.transmitFrom_eq_none hsent
      obtain ⟨-, data, rfl⟩ := pollKeepalive_sends h
      have hbefore := hdrained hresend
      exact ⟨⟨hbefore.primary, hbefore.renegotiation⟩, hasked hresend⟩

/-- **What goes out was one of what there was to say.** -/
theorem Poised.toSay_lt (h : s.Poised now) (hpollable : s.channel.Pollable) (ht : t.Reckoned)
    (hpoll : s.pollTransmit now netTime iv = (some datagram, t)) : t.toSay now < s.toSay now := by
  have hlast := keepaliveIsDue_now ht (lastSent_of_sends hpoll)
  have hpolls := s.polls now netTime iv
  generalize s.pollTransmit now netTime iv = result at hpolls hpoll
  cases hpolls with
  | stopped => cases hpoll
  | failed => cases hpoll
  | @sent m _ channel hnone hresend hsent =>
      rw [h.asked.resendPushRequest] at hresend
      obtain ⟨-, rfl⟩ := Prod.mk.inj hresend
      rw [flushed_of_drained h.drained] at hsent hpoll
      obtain ⟨-, rfl⟩ := Prod.mk.inj hpoll
      obtain ⟨state, hsends⟩ := ControlChannel.sends_of_pollTransmit hsent
      have hless := hpollable.backlog_lt hsends
      rw [toSay, hlast, toSay]
      exact Nat.lt_of_lt_of_le hless (Nat.le_add_right _ _)
  | @quiet m channel hnone hresend hsent =>
      rw [h.asked.resendPushRequest] at hresend
      obtain ⟨-, rfl⟩ := Prod.mk.inj hresend
      rw [flushed_of_drained h.drained] at hsent hpoll
      obtain ⟨rfl, -⟩ := ControlChannel.transmitFrom_eq_none hsent
      obtain ⟨hdue, data, rfl⟩ := pollKeepalive_sends hpoll
      have hdue : s.keepaliveIsDue now = true := hdue
      rw [toSay, hlast, toSay, hdue]
      exact Nat.lt_succ_self _

end Session

/-! ### The task -/

namespace Driver

variable {d t : Driver p} {session : Session p} {event : DriverEvent p} {auth : TlsAuth}
  {localSession : SessionId} {tlsTimeout now : ℕ} {credentials : Option Credentials}
  {peerTimeout : Option ℕ} {fresh : Fresh p}

theorem session_settle (result : Except Error Unit) (session : Session p) :
    (d.settle result session).session = session := by
  unfold settle
  split
  case h_1 => rfl
  case h_2 => split <;> rfl

theorem session_handUp (payload : Bytes) : (d.handUp payload).session = d.session := by
  unfold handUp
  split_ifs <;> rfl

theorem session_announce : d.announce.session = d.session := by
  unfold announce
  split <;> rfl

theorem session_decide : d.decide.session = d.session := by
  unfold decide
  split
  case h_1 => rfl
  case h_2 =>
    split
    case h_1 => split <;> exact session_announce
    case h_2 => exact session_announce

/-- **The task does nothing with its session but call it.** -/
theorem session_after (d : Driver p) (event : DriverEvent p) :
    (d.after event).session = d.session ∨ ∃ call, d.session.Step call (d.after event).session := by
  have hwoken {next : Driver p}
      (hnext : next.session = d.session ∨ ∃ call, d.session.Step call next.session) :
      (d.woken next).session = d.session ∨ ∃ call, d.session.Step call (d.woken next).session := by
    unfold woken
    split
    case h_1 => exact hnext
    case h_2 => exact .inl rfl
  cases event with
  | transmit netTime iv =>
      rw [after]
      split
      case isTrue =>
        refine .inr ⟨.pollTransmit d.clock netTime iv, ?_⟩
        rw [Session.Step, Session.after]
        unfold transmit
        split
        case h_1 heq => exact (congrArg Prod.snd heq).symm
        case h_2 heq => exact (congrArg Prod.snd heq).symm
      case isFalse => exact .inl rfl
  | decide =>
      left
      rw [after]
      split
      case isTrue => exact session_decide
      case isFalse => rfl
  | arrive datagram fresh =>
      refine hwoken (.inr ?_)
      unfold arrive
      dsimp only
      split
      case isTrue =>
        refine ⟨.receivePayload (datagram.take bufferSize), ?_⟩
        rw [Session.Step, Session.after]
        split
        case h_1 heq => rw [session_settle, heq]
        case h_2 heq => rw [session_handUp, heq]
        case h_3 heq => rw [session_settle, heq]
      case isFalse =>
        refine ⟨.handle (datagram.take bufferSize) d.clock fresh, ?_⟩
        rw [Session.Step, Session.after, session_settle]
  | socketFails error =>
      refine hwoken (.inl ?_)
      unfold socketFails
      split <;> rfl
  | outbound iv =>
      refine hwoken ?_
      unfold outbound
      split
      case h_1 payload rest _ =>
        refine .inr ⟨.sendPayload d.clock payload iv, ?_⟩
        dsimp only
        rw [session_settle, Session.Step, Session.after]
      case h_2 =>
        left
        split <;> rfl
  | timer =>
      left
      rw [after]
      split
      case h_1 => split <;> rfl
      case h_2 => rfl
  | send payload =>
      left
      rw [after, send]
      split <;> rfl
  | recv =>
      left
      rw [after, recv]
      split
      case h_1 => split <;> rfl
      case h_2 => rfl
  | drop => exact .inl rfl
  | abort =>
      left
      rw [after]
      split <;> rfl
  | passes time => exact .inl rfl

/-- What holds of every run of a session holds of the one that the task drives. -/
theorem reaches_session {meets : Driver p → DriverEvent p → Prop}
    (hd : Reaches Step meets (begun session now) d) :
    Reaches Session.Step unrestricted session d.session := by
  refine hd.invariant (P := fun d => Reaches Session.Step unrestricted session d.session) .start ?_
  rintro m event u hm - rfl
  rcases m.session_after event with hsame | ⟨call, hcall⟩
  · rw [hsame]
    exact hm
  · exact hm.next trivial hcall

/-! ### The inner loop -/

/-- The task after so many turns of its inner loop, with what each of them draws. -/
def spoken (turns : ℕ → UInt32 × {iv : Bytes // iv.length = 16}) (d : Driver p) : ℕ → Driver p
  | 0 => d
  | n + 1 => (spoken turns d n).after (.transmit (turns n).1 (turns n).2)

variable {turns : ℕ → UInt32 × {iv : Bytes // iv.length = 16}}

/-- A turn sends something, or it is the last. -/
theorem turn_cases (hpoint : d.point = .sending) (netTime : UInt32)
    (iv : {iv : Bytes // iv.length = 16}) :
    (d.after (.transmit netTime iv)).point = .deciding ∨
      (d.after (.transmit netTime iv)).point = .sending ∧
        (d.after (.transmit netTime iv)).clock = d.clock ∧
        ∃ datagram, d.session.pollTransmit d.clock netTime iv =
          (some datagram, (d.after (.transmit netTime iv)).session) := by
  rw [after, if_pos hpoint]
  unfold transmit
  split
  case h_1 datagram session heq => exact .inr ⟨hpoint, rfl, datagram, heq⟩
  case h_2 => exact .inl rfl

theorem reaches_spoken (hd : Reaches Step unrestricted (begun session now) d) (n : ℕ) :
    Reaches Step unrestricted (begun session now) (d.spoken turns n) := by
  induction n with
  | zero => exact hd
  | succ n ih => exact ih.next trivial rfl

/-- **What there is to say comes to an end**: whatever the turns draw, the task leaves its inner
loop, if a connection that has been written out has nothing more to write. -/
theorem sending_ends (hdrains : p.tls.Drains) (htimeout : 0 < tlsTimeout)
    (hnew : Session.new auth localSession tlsTimeout credentials peerTimeout fresh = .ok session)
    (hd : Reaches Step unrestricted (begun session now) d) (hpoint : d.point = .sending)
    (turns : ℕ → UInt32 × {iv : Bytes // iv.length = 16}) :
    ∃ n, (d.spoken turns n).point = .deciding := by
  by_contra hnever
  rw [not_exists] at hnever
  have hsending : ∀ n, (d.spoken turns n).point = .sending ∧
      (d.spoken turns n).clock = d.clock := by
    intro n
    induction n with
    | zero => exact ⟨hpoint, rfl⟩
    | succ n ih =>
        rcases turn_cases ih.1 (turns n).1 (turns n).2 with hlast | ⟨hmore, hclock, -⟩
        · exact absurd hlast (hnever (n + 1))
        · exact ⟨hmore, hclock.trans ih.2⟩
  have hsends : ∀ n, ∃ datagram, (d.spoken turns n).session.pollTransmit d.clock (turns n).1
      (turns n).2 = (some datagram, (d.spoken turns (n + 1)).session) := by
    intro n
    rcases turn_cases (hsending n).1 (turns n).1 (turns n).2 with hlast | ⟨-, -, hsent⟩
    · exact absurd hlast (hnever (n + 1))
    · rw [(hsending n).2] at hsent
      exact hsent
  have hsession : ∀ n, Reaches Session.Step unrestricted session (d.spoken turns n).session :=
    fun n => reaches_session (reaches_spoken hd n)
  -- From the first turn on, every turn says one thing less.
  have hless : ∀ n, (d.spoken turns (n + 2)).session.toSay d.clock <
      (d.spoken turns (n + 1)).session.toSay d.clock := by
    intro n
    obtain ⟨_, hbefore⟩ := hsends n
    obtain ⟨_, hsent⟩ := hsends (n + 1)
    have hpoised := Session.poised_of_sends hdrains
      ((Session.Consistent.new hnew).reaches (hsession n)) hbefore
    exact hpoised.toSay_lt (Session.pollable_reaches htimeout hnew (hsession (n + 1)))
      ((Session.Reckoned.new hnew).reaches (hsession (n + 2))) hsent
  have hsum : ∀ n, (d.spoken turns (n + 1)).session.toSay d.clock + n ≤
      (d.spoken turns 1).session.toSay d.clock := by
    intro n
    induction n with
    | zero => exact Nat.le_refl _
    | succ n ih =>
        have hnext : (d.spoken turns (n + 1 + 1)).session.toSay d.clock <
            (d.spoken turns (n + 1)).session.toSay d.clock := hless n
        omega
  have hover := hsum ((d.spoken turns 1).session.toSay d.clock + 1)
  omega

open Session (intervalPrimitives intervalHmac zeroIv)

theorem sending_ends_opening :
    ∃ n, ((begun Session.opening 0).spoken (fun _ => (0x6a87eba5, zeroIv)) n).point = .deciding :=
  sending_ends Session.plain_drains (by decide) (new_clearSession ..) .start rfl _

/-! ### A peer that is silent -/

theorem silenceLimit_of_eq {s t : Session p} (hpush : t.push = s.push)
    (hlimit : t.peerTimeout = s.peerTimeout) : t.silenceLimit = s.silenceLimit := by
  rw [Session.silenceLimit, Session.silenceLimit, hpush, hlimit]

theorem peerTimeout_pollTransmit (s : Session p) (now : ℕ) (netTime : UInt32)
    (iv : {iv : Bytes // iv.length = 16}) :
    (s.pollTransmit now netTime iv).2.peerTimeout = s.peerTimeout := by
  have hpolls := s.polls now netTime iv
  generalize s.pollTransmit now netTime iv = result at hpolls ⊢
  have hflushed {m : Session p} (hresend : s.resendPushRequest now = (.ok (), m)) :
      m.flushed.peerTimeout = s.peerTimeout := by
    obtain ⟨tls, outbox, renegotiation, channel, heq⟩ := m.flushed_frame
    rw [heq]
    rcases Session.resendPushRequest_ok hresend with ⟨rfl, -⟩ | ⟨-, state, rfl⟩ <;> rfl
  cases hpolls with
  | stopped => rfl
  | failed hnone hresend =>
      obtain ⟨state, rfl⟩ := Session.resendPushRequest_error hresend
      rfl
  | sent hnone hresend => exact hflushed hresend
  | @quiet m channel hnone hresend =>
      have hkept : ({ m.flushed with channel := channel }.pollKeepalive now iv).2.peerTimeout =
          m.flushed.peerTimeout := by
        unfold Session.pollKeepalive
        split
        case h_1 => rfl
        case h_2 =>
          split
          case isTrue => rfl
          case isFalse =>
            split
            case h_1 => rfl
            case h_2 => split <;> rfl
      exact hkept.trans (hflushed hresend)

theorem silenceLimit_pollTransmit (s : Session p) (now : ℕ) (netTime : UInt32)
    (iv : {iv : Bytes // iv.length = 16}) :
    (s.pollTransmit now netTime iv).2.silenceLimit = s.silenceLimit :=
  silenceLimit_of_eq Session.moved_pollTransmit.push (peerTimeout_pollTransmit s now netTime iv)

theorem silenceLimit_sendPayload (s : Session p) (now : ℕ) (payload : Bytes)
    (iv : {iv : Bytes // iv.length = 16}) :
    (s.sendPayload now payload iv).2.silenceLimit = s.silenceLimit := by
  refine silenceLimit_of_eq Session.moved_sendPayload.push ?_
  unfold Session.sendPayload
  split
  case h_1 => rfl
  case h_2 => split <;> rfl

/-- The clock may come to read this while the task is there. -/
def Allows (slack clock : ℕ) : TaskPoint → Prop
  | .waiting deadline => clock ≤ deadline + slack
  | .stopped | .aborted => True
  | .sending | .deciding => False

instance decidableAllows (slack clock : ℕ) : ∀ point, Decidable (Allows slack clock point)
  | .waiting deadline => inferInstanceAs (Decidable (clock ≤ deadline + slack))
  | .stopped | .aborted => inferInstanceAs (Decidable True)
  | .sending | .deciding => inferInstanceAs (Decidable False)

/-- Time passes while the task waits, and it is woken no later than this after its deadline. When
it has ended, time passes as it likes. -/
def OnTime (slack : ℕ) (d : Driver p) : DriverEvent p → Prop
  | .passes time => Allows slack (d.clock + time) d.point
  | _ => True

instance decidableOnTime (slack : ℕ) (d : Driver p) : ∀ event, Decidable (OnTime slack d event)
  | .passes time => decidableAllows slack (d.clock + time) d.point
  | .transmit .. | .decide | .arrive .. | .socketFails _ | .outbound _ | .timer | .send _ | .recv
  | .drop | .abort => inferInstanceAs (Decidable True)

/-- How long the peer may have been silent. -/
structure Timely (slack : ℕ) (d : Driver p) : Prop where
  heard : d.lastHeard ≤ d.clock
  bounded : ∀ limit, d.session.silenceLimit = some limit → d.point ≠ .stopped →
    d.point ≠ .aborted → d.clock < d.lastHeard + limit + fromSecs 1 + slack
  deadline : ∀ limit deadline, d.session.silenceLimit = some limit →
    d.point = .waiting deadline → deadline < d.lastHeard + limit + fromSecs 1
  gone : ∀ limit, d.failure = some (.peerGone limit) →
    d.session.silenceLimit = some limit ∧ d.lastHeard + limit ≤ d.clock

namespace Timely

variable {slack : ℕ}

theorem begun (session : Session p) (now : ℕ) : Timely slack (Driver.begun session now) where
  heard := Nat.le_refl _
  bounded limit _ _ _ := by
    have hsecond : 0 < fromSecs 1 := by decide
    show now < now + limit + fromSecs 1 + slack
    omega
  deadline limit deadline _ hpoint := by cases hpoint
  gone limit hgone := by cases hgone

/-- The task goes on under the same limit. -/
theorem goesOn (h : Timely slack d) (hpoint : d.point ≠ .stopped ∧ d.point ≠ .aborted)
    (hlimit : t.session.silenceLimit = d.session.silenceLimit) (hheard : t.lastHeard = d.lastHeard)
    (hclock : t.clock = d.clock) (hfailure : t.failure = d.failure)
    (hmoved : ∀ deadline, t.point ≠ .waiting deadline) : Timely slack t where
  heard := by
    rw [hheard, hclock]
    exact h.heard
  bounded limit hsome _ _ := by
    rw [hclock, hheard]
    exact h.bounded limit (hlimit ▸ hsome) hpoint.1 hpoint.2
  deadline limit deadline _ hwaiting := absurd hwaiting (hmoved deadline)
  gone limit hgone := by
    rw [hlimit, hheard, hclock]
    exact h.gone limit (hfailure ▸ hgone)

/-- What the caller does changes nothing of it. -/
theorem of_eq (h : Timely slack d) (hsession : t.session = d.session)
    (hheard : t.lastHeard = d.lastHeard) (hclock : t.clock = d.clock)
    (hfailure : t.failure = d.failure) (hpoint : t.point = d.point) : Timely slack t where
  heard := by
    rw [hheard, hclock]
    exact h.heard
  bounded := by
    rw [hsession, hpoint, hclock, hheard]
    exact h.bounded
  deadline := by
    rw [hsession, hpoint, hheard]
    exact h.deadline
  gone := by
    rw [hfailure, hsession, hheard, hclock]
    exact h.gone

/-- The peer has just been heard. -/
theorem justHeard (hheard : d.lastHeard = d.clock) (hnone : d.failure = none)
    (hmoved : ∀ deadline, d.point ≠ .waiting deadline) : Timely slack d where
  heard := hheard.le
  bounded limit _ _ _ := by
    have hsecond : 0 < fromSecs 1 := by decide
    omega
  deadline limit deadline _ hwaiting := absurd hwaiting (hmoved deadline)
  gone limit hgone := by
    rw [hnone] at hgone
    cases hgone

/-- The task ends, and if it is for the peer's silence, the peer has been silent. -/
theorem stop (hheard : d.lastHeard ≤ d.clock) (hnone : d.failure = none) {e : LinkError}
    (hgone : ∀ limit, e = .peerGone limit →
      d.session.silenceLimit = some limit ∧ d.lastHeard + limit ≤ d.clock) :
    Timely slack (d.stop e) where
  heard := hheard
  bounded limit _ hpoint := absurd rfl hpoint
  deadline limit deadline _ hpoint := by cases hpoint
  gone limit hfailure := by
    rw [Driver.stop, hnone] at hfailure
    exact hgone limit (Option.some.inj hfailure)

theorem settle (hheard : d.lastHeard ≤ d.clock) (hnone : d.failure = none)
    (h : Timely slack { d with session := session, point := .sending })
    (result : Except Error Unit) : Timely slack (d.settle result session) := by
  unfold Driver.settle
  split
  case h_1 => exact h
  case h_2 e =>
    split
    case isTrue =>
      exact stop (d := { d with session := session }) (e := .session e) hheard hnone
        fun limit he => by cases he
    case isFalse => exact h

theorem wakeup_le (d : Driver p) : d.wakeup ≤ fromSecs 1 :=
  (Nat.min_le_right _ _).trans (by decide)

theorem announce (h : Timely slack d) : Timely slack d.announce := by
  unfold Driver.announce
  split
  case isTrue => exact h.of_eq rfl rfl rfl rfl rfl
  case isFalse => exact h

theorem decide (h : Timely slack d) (hnone : d.failure = none) : Timely slack d.decide := by
  have hframe : d.announce.session = d.session ∧ d.announce.lastHeard = d.lastHeard ∧
      d.announce.clock = d.clock ∧ d.announce.failure = d.failure := by
    unfold Driver.announce
    split <;> exact ⟨rfl, rfl, rfl, rfl⟩
  obtain ⟨hsession, hlast, hclock, hfailure⟩ := hframe
  have hheard := h.heard
  have hwakeup := wakeup_le d.announce
  -- The wait is that of a peer that was heard less long ago than the limit.
  have hwait (hless : ∀ limit, d.session.silenceLimit = some limit →
      d.clock < d.lastHeard + limit) : Timely slack d.announce.wait := by
    refine ⟨?_, ?_, ?_, ?_⟩
    · show d.announce.lastHeard ≤ d.announce.clock
      rw [hlast, hclock]
      exact hheard
    · intro limit hsome _ _
      have hlimit := hless limit (hsession ▸ hsome)
      show d.announce.clock < d.announce.lastHeard + limit + fromSecs 1 + slack
      omega
    · intro limit deadline hsome hwaiting
      have hlimit := hless limit (hsession ▸ hsome)
      have hdeadline : d.announce.clock + d.announce.wakeup = deadline :=
        TaskPoint.waiting.inj hwaiting
      show deadline < d.announce.lastHeard + limit + fromSecs 1
      omega
    · intro limit hgone
      have hgone : d.announce.failure = some (.peerGone limit) := hgone
      rw [hfailure, hnone] at hgone
      cases hgone
  unfold Driver.decide
  split
  case h_1 e _ =>
    exact stop (e := .session e) hheard hnone fun limit he => by cases he
  case h_2 =>
    split
    case h_1 limit hlimit =>
      split
      case isTrue hsilent =>
        refine stop (by omega) (hfailure.trans hnone) fun limit' he => ?_
        obtain rfl := LinkError.peerGone.inj he
        rw [hsession, hlast, hclock]
        exact ⟨hlimit, by omega⟩
      case isFalse hsilent =>
        refine hwait fun limit' hlimit' => ?_
        obtain rfl := Option.some.inj (hlimit.symm.trans hlimit')
        omega
    case h_2 hnolimit =>
      refine hwait fun limit hlimit => ?_
      rw [hnolimit] at hlimit
      cases hlimit

theorem arrive (hnone : d.failure = none) (datagram : Bytes) (fresh : Fresh p) :
    Timely slack (d.arrive datagram fresh) := by
  have hsettle (result : Except Error Unit) (session : Session p) :
      Timely slack ({ d with lastHeard := d.clock }.settle result session) := by
    have hheard : Timely slack
        { d with lastHeard := d.clock, session := session, point := .sending } :=
      justHeard rfl hnone fun deadline hpoint => by cases hpoint
    exact @settle _ { d with lastHeard := d.clock } session slack (Nat.le_refl _) hnone hheard
      result
  unfold Driver.arrive
  dsimp only
  split
  case isTrue =>
    split
    case h_1 => exact hsettle _ _
    case h_2 =>
      unfold Driver.handUp
      split_ifs
      · refine stop ?_ ?_ fun limit he => ?_
        · exact Nat.le_refl d.clock
        · exact hnone
        · cases he
      · exact justHeard rfl hnone fun deadline hpoint => by cases hpoint
      · exact justHeard rfl hnone fun deadline hpoint => by cases hpoint
    case h_3 => exact hsettle _ _
  case isFalse => exact hsettle _ _

theorem outbound (h : Timely slack d) (hpoint : d.point ≠ .stopped ∧ d.point ≠ .aborted)
    (hnone : d.failure = none) (iv : {iv : Bytes // iv.length = 16}) :
    Timely slack (d.outbound iv) := by
  unfold Driver.outbound
  split
  case h_1 payload rest _ =>
    have hlimit := silenceLimit_sendPayload d.session d.clock payload iv
    have htaken : Timely slack
        { d with
          fromCaller := rest
          passed := { d.passed with wrapped := d.passed.wrapped ++ [payload] }
          session := (d.session.sendPayload d.clock payload iv).2
          point := .sending } :=
      h.goesOn hpoint hlimit rfl rfl rfl fun deadline hwaiting => by cases hwaiting
    exact @settle _
      { d with
        fromCaller := rest
        passed := { d.passed with wrapped := d.passed.wrapped ++ [payload] } }
      _ slack h.heard hnone htaken _
  case h_2 =>
    split
    case isTrue => exact h
    case isFalse => exact stop h.heard hnone fun limit he => by cases he

theorem after (h : Timely slack d) (hnone : d.point ≠ .stopped → d.failure = none)
    (hmeets : OnTime slack d event) : Timely slack (d.after event) := by
  have hwoken {next : Driver p} (hnext : (d.point ≠ .stopped ∧ d.point ≠ .aborted) →
      d.failure = none → Timely slack next) : Timely slack (d.woken next) := by
    unfold Driver.woken
    split
    case h_1 deadline hpoint =>
      have hrunning : d.point ≠ .stopped ∧ d.point ≠ .aborted := by simp [hpoint]
      exact hnext hrunning (hnone hrunning.1)
    case h_2 => exact h
  cases event with
  | transmit netTime iv =>
      rw [Driver.after]
      split
      case isTrue hpoint =>
        have hlimit := silenceLimit_pollTransmit d.session d.clock netTime iv
        have hrunning : d.point ≠ .stopped ∧ d.point ≠ .aborted := by simp [hpoint]
        unfold Driver.transmit
        split
        case h_1 session heq =>
          rw [heq] at hlimit
          exact h.goesOn hrunning hlimit rfl rfl rfl (by simp [hpoint])
        case h_2 session heq =>
          rw [heq] at hlimit
          exact h.goesOn hrunning hlimit rfl rfl rfl (by simp)
      case isFalse => exact h
  | decide =>
      rw [Driver.after]
      split
      case isTrue hpoint => exact h.decide (hnone (by simp [hpoint]))
      case isFalse => exact h
  | arrive datagram fresh => exact hwoken fun _ hnone => arrive hnone datagram fresh
  | socketFails error =>
      refine hwoken fun hrunning hnone => ?_
      unfold Driver.socketFails
      split
      case isTrue => exact h.goesOn hrunning rfl rfl rfl rfl (by simp)
      case isFalse => exact stop h.heard hnone fun limit he => by cases he
  | outbound iv => exact hwoken fun hrunning hnone => h.outbound hrunning hnone iv
  | timer =>
      rw [Driver.after]
      split
      case h_1 deadline hpoint =>
        split
        case isTrue => exact h.goesOn (by simp [hpoint]) rfl rfl rfl rfl (by simp)
        case isFalse => exact h
      case h_2 => exact h
  | send payload =>
      rw [Driver.after, Driver.send]
      split
      case isTrue => exact h.of_eq rfl rfl rfl rfl rfl
      case isFalse => exact h
  | recv =>
      rw [Driver.after, Driver.recv]
      split
      case h_1 =>
        split
        case isTrue => exact h.of_eq rfl rfl rfl rfl rfl
        case isFalse => exact h
      case h_2 => exact h
  | drop => exact h.of_eq rfl rfl rfl rfl rfl
  | abort =>
      rw [Driver.after]
      split
      case isTrue => exact h
      case isFalse =>
        refine ⟨h.heard, fun limit _ _ haborted => absurd rfl haborted, ?_, h.gone⟩
        intro limit deadline _ hpoint
        cases hpoint
  | passes time =>
      refine ⟨h.heard.trans (Nat.le_add_right _ _), ?_, h.deadline, ?_⟩
      · intro limit hlimit hstopped haborted
        have hlate : ∃ deadline, d.point = .waiting deadline ∧
            d.clock + time ≤ deadline + slack := by
          have hallows : Allows slack (d.clock + time) d.point := hmeets
          cases hpoint : d.point with
          | waiting deadline =>
              rw [hpoint] at hallows
              exact ⟨deadline, rfl, hallows⟩
          | stopped => exact absurd hpoint hstopped
          | aborted => exact absurd hpoint haborted
          | sending =>
              rw [hpoint] at hallows
              exact hallows.elim
          | deciding =>
              rw [hpoint] at hallows
              exact hallows.elim
        obtain ⟨deadline, hpoint, hlate⟩ := hlate
        have hbefore := h.deadline limit deadline hlimit hpoint
        show d.clock + time < d.lastHeard + limit + fromSecs 1 + slack
        omega
      · intro limit hgone
        obtain ⟨hlimit, hsilent⟩ := h.gone limit hgone
        exact ⟨hlimit, hsilent.trans (Nat.le_add_right _ _)⟩

end Timely

/-- **A peer that has gone is noticed in time, and no other.** While the task runs, its peer was
heard within the limit that is in force, a second, and what the task is woken late by. When it has
ended because its peer had gone, nothing had been heard for as long as the limit. -/
theorem silence_noticed {slack : ℕ}
    (hnew : Session.new auth localSession tlsTimeout credentials peerTimeout fresh = .ok session)
    (hd : Reaches Step (OnTime slack) (begun session now) d) :
    (∀ limit, d.session.silenceLimit = some limit → d.point ≠ .stopped → d.point ≠ .aborted →
      d.clock < d.lastHeard + limit + fromSecs 1 + slack) ∧
    ∀ limit, d.failure = some (.peerGone limit) →
      d.session.silenceLimit = some limit ∧ d.lastHeard + limit ≤ d.clock := by
  have h : d.Sound ∧ Timely slack d := by
    refine hd.invariant (P := fun d => d.Sound ∧ Timely slack d)
      ⟨sound_begun hnew now, .begun session now⟩ ?_
    rintro m event u ⟨hsound, htimely⟩ hmeets rfl
    exact ⟨hsound.after event, htimely.after hsound.running hmeets⟩
  exact ⟨h.2.bounded, h.2.gone⟩

/-- A session that gives its peer five nanoseconds. -/
def watched : Session intervalPrimitives := { Session.opening with peerTimeout := some 5 }

theorem new_watched : Session.new (.new plainKey .inverse) ourId 2 none (some 5)
    (clearFresh intervalHmac vectorCipher Session.zeroPrf) = .ok watched := rfl

/-- The first message goes out, and again when it is due, which is noticed late. -/
def lost : Driver intervalPrimitives :=
  (speaks ++ .passes 5 :: .timer :: speaks).foldl after (begun watched 0)

theorem silence_noticed_lost : lost.point = .stopped ∧ lost.lastHeard + 5 ≤ lost.clock := by
  have hreach : Reaches Step (OnTime 3) (begun watched 0) lost :=
    Reaches.start.events (by decide +kernel)
  have hgone : lost.failure = some (.peerGone 5) := by decide +kernel
  obtain ⟨-, hsilent⟩ := silence_noticed (p := intervalPrimitives) new_watched hreach
  exact ⟨by decide +kernel, (hsilent 5 hgone).2⟩

end Driver

end SynologyFilestation.Openvpn
