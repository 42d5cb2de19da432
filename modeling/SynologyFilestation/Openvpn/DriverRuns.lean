import SynologyFilestation.Openvpn.Calls
import SynologyFilestation.Openvpn.Wakeup

/-!
What holds of the task that drives a session, whatever happens to it and in whatever order
(`openvpn/src/driver.rs`).

Whoever waits for the tunnel is answered once, and what is answered stays so. Nothing ends the task
but what ends the tunnel. Payloads keep their order in both directions, and what is lost on the way
up is lost to a caller who is behind.
-/

namespace SynologyFilestation.Openvpn

open Core Library

variable {p : Primitives}

namespace Driver

variable {d t : Driver p} {session : Session p} {e : LinkError} {event : DriverEvent p}

/-! ### The answer and the reason -/

/-- What was answered, and why the task ended. -/
structure Sound (d : Driver p) : Prop where
  consistent : d.session.Consistent
  grave : ∀ e, d.session.failure = some e → e.isFatal = true
  unanswered : d.ready = true ↔ d.answer = none
  told : ∀ ifconfig, d.answer = some (.ok ifconfig) →
    d.session.phase = .ready ∧ d.session.ifconfig = ifconfig
  refused : ∀ e, d.answer = some (.error e) → d.point = .stopped ∧ d.failure = some e
  ended : d.point = .stopped → d.answer.isSome ∧ ∃ e, d.failure = some e ∧ e.isFatal = true
  running : d.point ≠ .stopped → d.failure = none
  aborted : d.point = .aborted → d.held = false

namespace Sound

theorem begun (h : session.Consistent) (hfailure : session.failure = none) (now : ℕ) :
    (Driver.begun session now).Sound where
  consistent := h
  grave e he := by
    rw [Driver.begun, hfailure] at he
    cases he
  unanswered := ⟨fun _ => rfl, fun _ => rfl⟩
  told ifconfig h := by cases h
  refused e h := by cases h
  ended h := by cases h
  running _ := rfl
  aborted h := by cases h

/-- A call of the session, which stays under what was answered. -/
theorem call (h : d.Sound) (habides : d.session.Abides session)
    (hconsistent : session.Consistent) : { d with session := session }.Sound where
  consistent := hconsistent
  grave e he := (habides.failure e he).elim (h.grave e) id
  unanswered := h.unanswered
  told ifconfig hanswer := by
    obtain ⟨hready, hsame⟩ := h.told ifconfig hanswer
    obtain ⟨hphase, hpush⟩ := habides.ready hready
    refine ⟨hphase, ?_⟩
    rw [← hsame, Session.ifconfig, Session.ifconfig, hpush]
  refused := h.refused
  ended := h.ended
  running := h.running
  aborted := h.aborted

/-- The task goes on elsewhere. -/
theorem move (h : d.Sound) (hbefore : d.point ≠ .stopped) {point : TaskPoint}
    (hstopped : point ≠ .stopped) (haborted : point ≠ .aborted) :
    { d with point := point }.Sound where
  consistent := h.consistent
  grave := h.grave
  unanswered := h.unanswered
  told := h.told
  refused e he := absurd (h.refused e he).1 hbefore
  ended hpoint := absurd hpoint hstopped
  running _ := h.running hbefore
  aborted hpoint := absurd hpoint haborted

/-- What nobody is told of changes. -/
theorem of_eq (h : d.Sound) (hsession : t.session = d.session) (hready : t.ready = d.ready)
    (hanswer : t.answer = d.answer) (hfailure : t.failure = d.failure)
    (hpoint : t.point = d.point) (hheld : t.held = true → d.held = true) : t.Sound where
  consistent := hsession ▸ h.consistent
  grave := hsession ▸ h.grave
  unanswered := by
    rw [hready, hanswer]
    exact h.unanswered
  told := by
    rw [hanswer, hsession]
    exact h.told
  refused := by
    rw [hanswer, hpoint, hfailure]
    exact h.refused
  ended := by
    rw [hanswer, hpoint, hfailure]
    exact h.ended
  running := by
    rw [hpoint, hfailure]
    exact h.running
  aborted haborted := by
    rw [hpoint] at haborted
    by_contra hnot
    have hbefore := hheld (by simpa using hnot)
    rw [h.aborted haborted] at hbefore
    exact Bool.false_ne_true hbefore

theorem stop (h : d.Sound) (hpoint : d.point ≠ .stopped) (hfatal : e.isFatal = true) :
    (d.stop e).Sound := by
  have hfailure : (d.stop e).failure = some e := by
    rw [Driver.stop, h.running hpoint]
    rfl
  have hanswer : (d.ready = true ∧ (d.stop e).answer = some (.error e)) ∨
      (d.ready = false ∧ (d.stop e).answer = d.answer ∧ d.answer.isSome) := by
    cases hready : d.ready with
    | true => exact .inl ⟨rfl, by rw [Driver.stop, hready]; rfl⟩
    | false =>
        refine .inr ⟨rfl, by rw [Driver.stop, hready]; rfl, ?_⟩
        rw [Option.isSome_iff_ne_none]
        intro hnone
        rw [h.unanswered.mpr hnone] at hready
        cases hready
  refine ⟨h.consistent, h.grave, ?_, ?_, ?_, fun _ => ⟨?_, e, hfailure, hfatal⟩,
    fun hrunning => absurd rfl hrunning, fun haborted => (by cases haborted)⟩
  · refine ⟨fun hready => (by cases hready), fun hnone => ?_⟩
    rcases hanswer with ⟨-, hsome⟩ | ⟨-, hsame, hsome⟩
    · rw [hnone] at hsome
      cases hsome
    · rw [← hsame, hnone] at hsome
      cases hsome
  · intro ifconfig hok
    rcases hanswer with ⟨-, hsome⟩ | ⟨-, hsame, -⟩
    · rw [hok] at hsome
      cases hsome
    · exact h.told ifconfig (hsame ▸ hok)
  · intro e' herror
    refine ⟨rfl, ?_⟩
    rcases hanswer with ⟨-, hsome⟩ | ⟨-, hsame, -⟩
    · rw [herror] at hsome
      rw [hfailure]
      exact congrArg some (Except.error.inj (Option.some.inj hsome)).symm
    · exact absurd (h.refused e' (hsame ▸ herror)).1 hpoint
  · rcases hanswer with ⟨-, hsome⟩ | ⟨-, hsame, hsome⟩
    · rw [hsome]
      rfl
    · rw [hsame]
      exact hsome

theorem announce (h : d.Sound) (hpoint : d.point ≠ .stopped) : d.announce.Sound := by
  unfold Driver.announce
  split
  case isFalse => exact h
  case isTrue hready =>
    rw [Bool.and_eq_true] at hready
    refine ⟨h.consistent, h.grave,
      ⟨fun hready => (by cases hready), fun hnone => (by cases hnone)⟩, ?_,
      fun e herror => (by cases herror), fun hstopped => absurd hstopped hpoint,
      fun _ => h.running hpoint, h.aborted⟩
    intro ifconfig hok
    exact ⟨h.consistent.ready hready.1, Except.ok.inj (Option.some.inj hok)⟩

theorem settle (h : d.Sound) (hpoint : d.point ≠ .stopped) (habides : d.session.Abides session)
    (hconsistent : session.Consistent) (result : Except Error Unit) :
    (d.settle result session).Sound := by
  have hcalled := h.call habides hconsistent
  have hmoved : { d with session := session, point := .sending }.Sound :=
    hcalled.move hpoint (by simp) (by simp)
  unfold Driver.settle
  split
  case h_1 => exact hmoved
  case h_2 e =>
    split
    case isTrue hfatal => exact hcalled.stop hpoint hfatal
    case isFalse => exact hmoved

theorem handUp (h : d.Sound) (hpoint : d.point ≠ .stopped) (payload : Bytes) :
    (d.handUp payload).Sound := by
  have hmoved : { d with point := .sending }.Sound := h.move hpoint (by simp) (by simp)
  unfold Driver.handUp
  split_ifs
  · exact h.stop hpoint rfl
  · exact hmoved.of_eq rfl rfl rfl rfl rfl id
  · exact hmoved

theorem transmit (h : d.Sound) (hpoint : d.point = .sending) (netTime : UInt32)
    (iv : {iv : Bytes // iv.length = 16}) : (d.transmit netTime iv).Sound := by
  have habides := @Session.abides_pollTransmit _ d.session d.clock netTime iv
  have hconsistent := (h.consistent.step
    (rfl : d.session.Step (.pollTransmit d.clock netTime iv) _)).consistent
  have hcalled := h.call habides hconsistent
  have hrunning : d.point ≠ .stopped := by
    rw [hpoint]
    simp
  unfold Driver.transmit
  split
  case h_1 session heq =>
    have hsession : (d.session.pollTransmit d.clock netTime iv).2 = session :=
      congrArg Prod.snd heq
    rw [hsession] at hcalled
    exact hcalled
  case h_2 session heq =>
    have hsession : (d.session.pollTransmit d.clock netTime iv).2 = session :=
      congrArg Prod.snd heq
    rw [hsession] at hcalled
    exact hcalled.move hrunning (by simp) (by simp)

theorem point_announce : d.announce.point = d.point := by
  unfold Driver.announce
  split <;> rfl

theorem decide (h : d.Sound) (hpoint : d.point = .deciding) : d.decide.Sound := by
  have hrunning : d.point ≠ .stopped := by
    rw [hpoint]
    simp
  have hannounced := h.announce hrunning
  have hpoint' : d.announce.point ≠ .stopped := by
    rw [point_announce]
    exact hrunning
  unfold Driver.decide
  split
  case h_1 e he => exact h.stop hrunning (h.grave e he)
  case h_2 =>
    split
    case h_1 limit _ =>
      split
      case isTrue => exact hannounced.stop hpoint' rfl
      case isFalse => exact hannounced.move hpoint' (by simp) (by simp)
    case h_2 => exact hannounced.move hpoint' (by simp) (by simp)

theorem arrive (h : d.Sound) (hpoint : d.point ≠ .stopped) (datagram : Bytes)
    (fresh : Fresh p) : (d.arrive datagram fresh).Sound := by
  have hheard : { d with lastHeard := d.clock }.Sound := h.of_eq rfl rfl rfl rfl rfl id
  have hpayload := @Session.abides_receivePayload _ d.session (datagram.take bufferSize)
  have hpayload' := (h.consistent.step
    (rfl : d.session.Step (.receivePayload (datagram.take bufferSize)) _)).consistent
  have hcontrol := @Session.abides_handle _ d.session (datagram.take bufferSize) d.clock fresh
  have hcontrol' := (h.consistent.step
    (rfl : d.session.Step (.handle (datagram.take bufferSize) d.clock fresh) _)).consistent
  unfold Driver.arrive
  dsimp only
  split
  case isTrue =>
    rw [Session.after] at hpayload'
    split
    case h_1 session heq =>
      rw [heq] at hpayload hpayload'
      exact hheard.settle hpoint hpayload hpayload' _
    case h_2 payload session heq =>
      rw [heq] at hpayload hpayload'
      have hcalled := hheard.call hpayload hpayload'
      have hopened : { d with
          session := session
          lastHeard := d.clock
          passed := { d.passed with opened := d.passed.opened ++ [payload] } }.Sound :=
        hcalled.of_eq rfl rfl rfl rfl rfl id
      exact hopened.handUp hpoint payload
    case h_3 e session heq =>
      rw [heq] at hpayload hpayload'
      exact hheard.settle hpoint hpayload hpayload' _
  case isFalse => exact hheard.settle hpoint hcontrol hcontrol' _

theorem socketFails (h : d.Sound) (hpoint : d.point ≠ .stopped) (error : SocketError) :
    (d.socketFails error).Sound := by
  unfold Driver.socketFails
  split
  case isTrue => exact h.move hpoint (by simp) (by simp)
  case isFalse => exact h.stop hpoint rfl

theorem outbound (h : d.Sound) (hpoint : d.point ≠ .stopped)
    (iv : {iv : Bytes // iv.length = 16}) : (d.outbound iv).Sound := by
  unfold Driver.outbound
  split
  case h_1 payload rest _ =>
    have habides := @Session.abides_sendPayload _ d.session d.clock iv payload
    have hconsistent := (h.consistent.step
      (rfl : d.session.Step (.sendPayload d.clock payload iv) _)).consistent
    have hwrapped : { d with
        fromCaller := rest
        passed := { d.passed with wrapped := d.passed.wrapped ++ [payload] } }.Sound :=
      h.of_eq rfl rfl rfl rfl rfl id
    exact hwrapped.settle hpoint habides hconsistent _
  case h_2 =>
    split
    case isTrue => exact h
    case isFalse => exact h.stop hpoint rfl

/-- **What was answered and why it ended agree after every step.** -/
theorem after (h : d.Sound) (event : DriverEvent p) : (d.after event).Sound := by
  have hwoken {next : Driver p} (hnext : d.point ≠ .stopped → next.Sound) :
      (d.woken next).Sound := by
    unfold Driver.woken
    split
    case h_1 deadline hpoint =>
      refine hnext ?_
      rw [hpoint]
      simp
    case h_2 => exact h
  cases event with
  | transmit netTime iv =>
      rw [Driver.after]
      split
      case isTrue hpoint => exact h.transmit hpoint netTime iv
      case isFalse => exact h
  | decide =>
      rw [Driver.after]
      split
      case isTrue hpoint => exact h.decide hpoint
      case isFalse => exact h
  | arrive datagram fresh => exact hwoken fun hpoint => h.arrive hpoint datagram fresh
  | socketFails error => exact hwoken fun hpoint => h.socketFails hpoint error
  | outbound iv => exact hwoken fun hpoint => h.outbound hpoint iv
  | timer =>
      rw [Driver.after]
      split
      case h_1 deadline hpoint =>
        split
        case isTrue => exact h.move (by rw [hpoint]; simp) (by simp) (by simp)
        case isFalse => exact h
      case h_2 => exact h
  | send payload =>
      rw [Driver.after, Driver.send]
      split
      case isTrue => exact h.of_eq rfl rfl rfl rfl rfl id
      case isFalse => exact h
  | recv =>
      rw [Driver.after, Driver.recv]
      split
      case h_1 =>
        split
        case isTrue => exact h.of_eq rfl rfl rfl rfl rfl id
        case isFalse => exact h
      case h_2 => exact h
  | drop => exact h.of_eq rfl rfl rfl rfl rfl fun hheld => (by cases hheld)
  | abort =>
      rw [Driver.after]
      split
      case isTrue => exact h
      case isFalse hgone =>
        rw [Bool.or_eq_true, not_or, decide_eq_true_eq] at hgone
        refine ⟨h.consistent, h.grave, h.unanswered, h.told,
          fun e he => absurd (h.refused e he).1 hgone.2, fun hstopped => (by cases hstopped),
          fun _ => h.running hgone.2, fun _ => (by simpa using hgone.1)⟩
  | passes time => exact h.of_eq rfl rfl rfl rfl rfl id

end Sound

/-! ### Nothing is said twice -/

/-- Whoever was told is told nothing else. -/
structure Silent (d t : Driver p) : Prop where
  ready : t.ready = false
  answer : t.answer = d.answer

theorem silent_stop (hready : d.ready = false) (e : LinkError) : d.Silent (d.stop e) :=
  ⟨rfl, by simp [stop, hready]⟩

theorem announce_of_told (hready : d.ready = false) : d.announce = d := by
  simp [announce, hready]

theorem silent_settle (hready : d.ready = false) (result : Except Error Unit)
    (session : Session p) : d.Silent (d.settle result session) := by
  unfold settle
  split
  case h_1 => exact ⟨hready, rfl⟩
  case h_2 e =>
    split
    case isTrue =>
      have hstop := @silent_stop _ { d with session := session } hready (.session e)
      exact ⟨hstop.ready, hstop.answer⟩
    case isFalse => exact ⟨hready, rfl⟩

theorem silent_handUp (hready : d.ready = false) (payload : Bytes) :
    d.Silent (d.handUp payload) := by
  unfold handUp
  split_ifs
  · exact silent_stop hready _
  · exact ⟨hready, rfl⟩
  · exact ⟨hready, rfl⟩

theorem silent_arrive (hready : d.ready = false) (datagram : Bytes) (fresh : Fresh p) :
    d.Silent (d.arrive datagram fresh) := by
  have hsettle (result : Except Error Unit) (session : Session p) :
      d.Silent ({ d with lastHeard := d.clock }.settle result session) := by
    have hsilent := @silent_settle _ { d with lastHeard := d.clock } hready result session
    exact ⟨hsilent.ready, hsilent.answer⟩
  unfold arrive
  dsimp only
  split
  case isTrue =>
    split
    case h_1 => exact hsettle _ _
    case h_2 payload session _ =>
      have hsilent := @silent_handUp _ { d with
        session := session
        lastHeard := d.clock
        passed := { d.passed with opened := d.passed.opened ++ [payload] } } hready payload
      exact ⟨hsilent.ready, hsilent.answer⟩
    case h_3 => exact hsettle _ _
  case isFalse => exact hsettle _ _

theorem silent_outbound (hready : d.ready = false) (iv : {iv : Bytes // iv.length = 16}) :
    d.Silent (d.outbound iv) := by
  unfold outbound
  split
  case h_1 payload rest _ =>
    have hsilent := @silent_settle _ { d with
      fromCaller := rest
      passed := { d.passed with wrapped := d.passed.wrapped ++ [payload] } } hready
        ((d.session.sendPayload d.clock payload iv).1.map fun _ => ())
        (d.session.sendPayload d.clock payload iv).2
    exact ⟨hsilent.ready, hsilent.answer⟩
  case h_2 =>
    split
    case isTrue => exact ⟨hready, rfl⟩
    case isFalse => exact silent_stop hready _

theorem silent_decide (hready : d.ready = false) : d.Silent d.decide := by
  unfold decide
  rw [announce_of_told hready]
  split
  case h_1 => exact silent_stop hready _
  case h_2 =>
    split
    case h_1 =>
      split
      case isTrue => exact silent_stop hready _
      case isFalse => exact ⟨hready, rfl⟩
    case h_2 => exact ⟨hready, rfl⟩

theorem silent_after (hready : d.ready = false) (event : DriverEvent p) :
    d.Silent (d.after event) := by
  have hsame : d.Silent d := ⟨hready, rfl⟩
  have hwoken {next : Driver p} (hnext : d.Silent next) : d.Silent (d.woken next) := by
    unfold woken
    split
    case h_1 => exact hnext
    case h_2 => exact hsame
  cases event with
  | transmit netTime iv =>
      rw [after]
      split
      case isTrue =>
        unfold transmit
        split <;> exact ⟨hready, rfl⟩
      case isFalse => exact hsame
  | decide =>
      rw [after]
      split
      case isTrue => exact silent_decide hready
      case isFalse => exact hsame
  | arrive datagram fresh => exact hwoken (silent_arrive hready datagram fresh)
  | socketFails error =>
      refine hwoken ?_
      unfold socketFails
      split
      case isTrue => exact ⟨hready, rfl⟩
      case isFalse => exact silent_stop hready _
  | outbound iv => exact hwoken (silent_outbound hready iv)
  | timer =>
      rw [after]
      split
      case h_1 => split <;> exact ⟨hready, rfl⟩
      case h_2 => exact hsame
  | send payload =>
      rw [after, send]
      split <;> exact ⟨hready, rfl⟩
  | recv =>
      rw [after, recv]
      split
      case h_1 => split <;> exact ⟨hready, rfl⟩
      case h_2 => exact hsame
  | drop => exact ⟨hready, rfl⟩
  | abort =>
      rw [after]
      split <;> exact ⟨hready, rfl⟩
  | passes time => exact ⟨hready, rfl⟩

/-- A task that has ended does nothing. -/
theorem stopped_after (hpoint : d.point = .stopped) (event : DriverEvent p) :
    (d.after event).point = .stopped ∧ (d.after event).failure = d.failure := by
  cases event with
  | recv =>
      rw [after, recv]
      split
      case h_1 => split <;> exact ⟨hpoint, rfl⟩
      case h_2 => exact ⟨hpoint, rfl⟩
  | drop => exact ⟨hpoint, rfl⟩
  | passes time => exact ⟨hpoint, rfl⟩
  | _ => simp [after, woken, send, hpoint]

/-! ### Payloads -/

/-- What was sent was wrapped in its order or waits for it, and what was received or waits to be
is part of what came, in its order. -/
structure Orderly (d : Driver p) : Prop where
  outgoing : d.passed.sent = d.passed.wrapped ++ d.fromCaller
  incoming : (d.passed.taken ++ d.toCaller).Sublist d.passed.opened
  roomDown : d.fromCaller.length ≤ channelBound
  roomUp : d.toCaller.length ≤ channelBound

namespace Orderly

theorem of_eq (h : d.Orderly) (hpassed : t.passed = d.passed)
    (hfrom : t.fromCaller = d.fromCaller) (hto : t.toCaller = d.toCaller) : t.Orderly where
  outgoing := by
    rw [hpassed, hfrom]
    exact h.outgoing
  incoming := by
    rw [hpassed, hto]
    exact h.incoming
  roomDown := hfrom ▸ h.roomDown
  roomUp := hto ▸ h.roomUp

theorem settle (h : d.Orderly) (result : Except Error Unit) (session : Session p) :
    (d.settle result session).Orderly := by
  unfold Driver.settle
  split
  case h_1 => exact h.of_eq rfl rfl rfl
  case h_2 => split <;> exact h.of_eq rfl rfl rfl

/-- What comes out of the tunnel is handed up, unless the caller is behind or has gone. -/
theorem handUp (h : d.Orderly) (payload : Bytes) :
    ({ d with passed := { d.passed with
        opened := d.passed.opened ++ [payload] } }.handUp payload).Orderly := by
  have hmore := List.sublist_append_left d.passed.opened [payload]
  unfold Driver.handUp
  split_ifs with hgone hroom
  · exact ⟨h.outgoing, h.incoming.trans hmore, h.roomDown, h.roomUp⟩
  · refine ⟨h.outgoing, ?_, h.roomDown, ?_⟩
    · show (d.passed.taken ++ (d.toCaller ++ [payload])).Sublist (d.passed.opened ++ [payload])
      rw [← List.append_assoc]
      exact h.incoming.append (List.Sublist.refl _)
    · show (d.toCaller ++ [payload]).length ≤ channelBound
      rw [List.length_append, List.length_singleton]
      exact hroom
  · exact ⟨h.outgoing, h.incoming.trans hmore, h.roomDown, h.roomUp⟩

theorem arrive (h : d.Orderly) (datagram : Bytes) (fresh : Fresh p) :
    (d.arrive datagram fresh).Orderly := by
  have hheard : { d with lastHeard := d.clock }.Orderly := h.of_eq rfl rfl rfl
  unfold Driver.arrive
  dsimp only
  split
  case isTrue =>
    split
    case h_1 => exact hheard.settle _ _
    case h_2 payload session _ =>
      have hcalled : { d with session := session, lastHeard := d.clock }.Orderly :=
        h.of_eq rfl rfl rfl
      exact hcalled.handUp payload
    case h_3 => exact hheard.settle _ _
  case isFalse => exact hheard.settle _ _

theorem outbound (h : d.Orderly) (iv : {iv : Bytes // iv.length = 16}) :
    (d.outbound iv).Orderly := by
  unfold Driver.outbound
  split
  case h_1 payload rest heq =>
    have hsent := h.outgoing
    have hroom := h.roomDown
    rw [heq] at hsent hroom
    have hwrapped : { d with
        fromCaller := rest
        passed := { d.passed with wrapped := d.passed.wrapped ++ [payload] } }.Orderly := by
      refine ⟨?_, h.incoming, Nat.le_of_succ_le hroom, h.roomUp⟩
      rw [hsent, List.append_assoc, List.singleton_append]
    exact hwrapped.settle _ _
  case h_2 => split <;> exact h.of_eq rfl rfl rfl

theorem send (h : d.Orderly) (payload : Bytes) : (d.send payload).Orderly := by
  unfold Driver.send
  split
  case isTrue hroom =>
    rw [Bool.and_eq_true, decide_eq_true_eq] at hroom
    refine ⟨?_, h.incoming, ?_, h.roomUp⟩
    · show d.passed.sent ++ [payload] = d.passed.wrapped ++ (d.fromCaller ++ [payload])
      rw [h.outgoing, List.append_assoc]
    · show (d.fromCaller ++ [payload]).length ≤ channelBound
      rw [List.length_append, List.length_singleton]
      exact hroom.2
  case isFalse => exact h

theorem recv (h : d.Orderly) : d.recv.Orderly := by
  unfold Driver.recv
  split
  case h_1 payload rest heq =>
    have hincoming := h.incoming
    have hroom := h.roomUp
    rw [heq] at hincoming hroom
    split
    case isTrue =>
      refine ⟨h.outgoing, ?_, h.roomDown, Nat.le_of_succ_le hroom⟩
      show ((d.passed.taken ++ [payload]) ++ rest).Sublist d.passed.opened
      rwa [List.append_assoc, List.singleton_append]
    case isFalse => exact h
  case h_2 => exact h

theorem after (h : d.Orderly) (event : DriverEvent p) : (d.after event).Orderly := by
  have hwoken {next : Driver p} (hnext : next.Orderly) : (d.woken next).Orderly := by
    unfold Driver.woken
    split
    case h_1 => exact hnext
    case h_2 => exact h
  have hannounce : d.announce.Orderly := by
    unfold Driver.announce
    split <;> exact h.of_eq rfl rfl rfl
  cases event with
  | transmit netTime iv =>
      rw [Driver.after]
      split
      case isTrue =>
        unfold Driver.transmit
        split <;> exact h.of_eq rfl rfl rfl
      case isFalse => exact h
  | decide =>
      rw [Driver.after]
      split
      case isTrue =>
        unfold Driver.decide
        split
        case h_1 => exact h.of_eq rfl rfl rfl
        case h_2 =>
          split
          case h_1 => split <;> exact hannounce.of_eq rfl rfl rfl
          case h_2 => exact hannounce.of_eq rfl rfl rfl
      case isFalse => exact h
  | arrive datagram fresh => exact hwoken (h.arrive datagram fresh)
  | socketFails error =>
      refine hwoken ?_
      unfold Driver.socketFails
      split <;> exact h.of_eq rfl rfl rfl
  | outbound iv => exact hwoken (h.outbound iv)
  | timer =>
      rw [Driver.after]
      split
      case h_1 => split <;> exact h.of_eq rfl rfl rfl
      case h_2 => exact h
  | send payload => exact h.send payload
  | recv => exact h.recv
  | drop => exact h.of_eq rfl rfl rfl
  | abort =>
      rw [Driver.after]
      split <;> exact h.of_eq rfl rfl rfl
  | passes time => exact h.of_eq rfl rfl rfl

end Orderly

theorem passed_settle (result : Except Error Unit) (session : Session p) :
    (d.settle result session).passed = d.passed := by
  unfold settle
  split
  case h_1 => rfl
  case h_2 => split <;> rfl

theorem passed_announce : d.announce.passed = d.passed := by
  unfold announce
  split <;> rfl

theorem passed_decide : d.decide.passed = d.passed := by
  unfold decide
  split
  case h_1 => rfl
  case h_2 =>
    split
    case h_1 => split <;> exact passed_announce
    case h_2 => exact passed_announce

/-- What becomes of a payload that comes out of the tunnel. -/
def HandedUp (d t : Driver p) (payload : Bytes) : Prop :=
  t.passed.opened = d.passed.opened ++ [payload] ∧
    (t.toCaller = d.toCaller ++ [payload] ∨ d.toCaller.length ≥ channelBound ∨ d.held = false)

theorem opened_arrive (datagram : Bytes) (fresh : Fresh p) :
    (d.arrive datagram fresh).passed = d.passed ∨
      ∃ payload, d.HandedUp (d.arrive datagram fresh) payload := by
  unfold arrive
  dsimp only
  split
  case isTrue =>
    split
    case h_1 => exact .inl (passed_settle _ _)
    case h_2 payload session _ =>
      refine .inr ⟨payload, ?_⟩
      unfold handUp
      split_ifs with hgone hroom
      · exact ⟨rfl, .inr (.inr (by simpa using hgone))⟩
      · exact ⟨rfl, .inl rfl⟩
      · exact ⟨rfl, .inr (.inl (Nat.le_of_not_lt hroom))⟩
    case h_3 => exact .inl (passed_settle _ _)
  case isFalse => exact .inl (passed_settle _ _)

/-- Only a datagram brings a payload. -/
theorem opened_after (event : DriverEvent p) :
    (d.after event).passed.opened = d.passed.opened ∨
      ∃ payload, d.HandedUp (d.after event) payload := by
  have hsame {next : Driver p} (h : next.passed.opened = d.passed.opened) :
      (d.woken next).passed.opened = d.passed.opened := by
    unfold woken
    split
    case h_1 => exact h
    case h_2 => rfl
  cases event with
  | transmit netTime iv =>
      left
      rw [after]
      split
      case isTrue =>
        unfold transmit
        split <;> rfl
      case isFalse => rfl
  | decide =>
      left
      rw [after]
      split
      case isTrue => rw [passed_decide]
      case isFalse => rfl
  | arrive datagram fresh =>
      rw [after, woken]
      split
      case h_1 => exact (opened_arrive datagram fresh).imp (congrArg Passed.opened) id
      case h_2 => exact .inl rfl
  | socketFails error =>
      left
      refine hsame ?_
      unfold socketFails
      split <;> rfl
  | outbound iv =>
      left
      refine hsame ?_
      unfold outbound
      split
      case h_1 =>
        dsimp only
        rw [passed_settle]
      case h_2 => split <;> rfl
  | timer =>
      left
      rw [after]
      split
      case h_1 => split <;> rfl
      case h_2 => rfl
  | send payload =>
      left
      rw [after, send]
      split <;> rfl
  | recv =>
      left
      rw [after, recv]
      split
      case h_1 => split <;> rfl
      case h_2 => rfl
  | drop => exact .inl rfl
  | abort =>
      left
      rw [after]
      split <;> rfl
  | passes time => exact .inl rfl

/-! ### Runs -/

section Runs

variable {auth : TlsAuth} {localSession : SessionId} {tlsTimeout now : ℕ}
  {credentials : Option Credentials} {peerTimeout : Option ℕ} {fresh : Fresh p}

theorem Sound.reaches (h : t.Sound) (hd : Reaches Step unrestricted t d) : d.Sound :=
  hd.invariant h fun hs _ hstep => by
    rw [hstep]
    exact hs.after _

theorem sound_begun (hnew : Session.new auth localSession tlsTimeout credentials peerTimeout fresh =
    .ok session) (now : ℕ) : (begun session now).Sound := by
  refine .begun (.new hnew) ?_ now
  unfold Session.new at hnew
  split at hnew
  case h_1 => cases hnew
  case h_2 =>
    obtain rfl := Except.ok.inj hnew
    rfl

/-- **Whoever waits for the tunnel is answered once, and with the truth.** The address is the one
of the push reply that the tunnel stays under, and an error is the reason that the task ended for,
which is one that a session does not survive. What was said or recorded stays so, and whoever holds
the tunnel of a task that says nothing waits until the time is up. -/
theorem connect_answered (hnew : Session.new auth localSession tlsTimeout credentials peerTimeout
      fresh = .ok session) (hd : Reaches Step unrestricted (begun session now) d) :
    (∀ ifconfig, d.answer = some (.ok ifconfig) →
      d.session.phase = .ready ∧ d.session.ifconfig = ifconfig) ∧
    (∀ e, d.answer = some (.error e) → d.point = .stopped ∧ d.failure = some e) ∧
    (d.point = .stopped ↔ ∃ e, d.failure = some e) ∧
    (d.point = .stopped → d.answer.isSome ∧ d.whyItStopped.isFatal = true) ∧
    (d.answer = none → d.held = true → ∀ late,
      d.connect late = if late then some (.error .handshakeTimeout) else none) ∧
    ∀ t, Reaches Step unrestricted d t →
      (d.answer.isSome → t.answer = d.answer) ∧ (d.failure.isSome → t.failure = d.failure) := by
  have h := (sound_begun hnew now).reaches hd
  refine ⟨h.told, h.refused, ?_, ?_, ?_, ?_⟩
  · constructor
    · intro hstopped
      obtain ⟨-, e, he, -⟩ := h.ended hstopped
      exact ⟨e, he⟩
    · rintro ⟨e, he⟩
      by_contra hrunning
      rw [h.running hrunning] at he
      cases he
  · intro hstopped
    obtain ⟨hanswer, e, he, hfatal⟩ := h.ended hstopped
    rw [whyItStopped, he]
    exact ⟨hanswer, hfatal⟩
  · intro hnone hheld late
    have hrunning : d.point ≠ .stopped := by
      intro hstopped
      have hsome := (h.ended hstopped).1
      rw [hnone] at hsome
      cases hsome
    have hthere : d.point ≠ .aborted := by
      intro haborted
      rw [h.aborted haborted] at hheld
      cases hheld
    rw [connect, hnone]
    simp [hrunning, hthere]
  · intro t ht
    constructor
    · intro hsome
      have htold : d.ready = false := by
        cases hready : d.ready with
        | false => rfl
        | true =>
            rw [h.unanswered.mp hready] at hsome
            cases hsome
      have hsilent : d.Silent t := by
        refine ht.invariant (P := d.Silent) ⟨htold, rfl⟩ ?_
        rintro m event u hm - rfl
        have hnext := m.silent_after hm.ready event
        exact ⟨hnext.ready, hnext.answer.trans hm.answer⟩
      exact hsilent.answer
    · intro hsome
      have hstopped : d.point = .stopped := by
        by_contra hrunning
        rw [h.running hrunning] at hsome
        cases hsome
      have hlasts : t.point = .stopped ∧ t.failure = d.failure := by
        refine ht.invariant (P := fun t => t.point = .stopped ∧ t.failure = d.failure)
          ⟨hstopped, rfl⟩ ?_
        rintro m event u ⟨hm, hsame⟩ - rfl
        have hnext := stopped_after hm event
        exact ⟨hnext.1, hnext.2.trans hsame⟩
      exact hlasts.2

open Session (intervalPrimitives intervalHmac zeroIv answeringRecord serverKeyMaterial)

/-- The inner loop to its end, and the wait. -/
def speaks : List (DriverEvent intervalPrimitives) :=
  List.replicate 3 (.transmit 0x6a87eba5 zeroIv) ++ [.decide]

/-- A packet of the server arrives, and the task answers. -/
def brings (packet : ControlPacket) (id : UInt32) : List (DriverEvent intervalPrimitives) :=
  .arrive (serverSends intervalHmac packet id) (clearFresh ..) :: speaks

/-- A tunnel that comes up, and a server that wants to hear of us every ten seconds. -/
def openedRun : List (DriverEvent intervalPrimitives) :=
  speaks ++ brings serverAnswer 1 ++ brings (answeringRecord 1 [1] 1) 2 ++
    brings (answeringRecord 2 serverKeyMaterial 2) 3 ++
    brings (answeringRecord 3 (ascii "PUSH_REPLY,ping 10" ++ [0]) 3) 4

def opened : Driver intervalPrimitives := openedRun.foldl after (begun Session.opening 0)

theorem reaches_opened : Reaches Step unrestricted (begun Session.opening 0) opened :=
  Reaches.start.events (everyStep_unrestricted after _ openedRun)

theorem opened_waits : opened.point = .waiting (fromSecs 1) ∧
    opened.answer.bind Except.toOption = some none := by
  decide +kernel

theorem eq_ok_of_toOption {answer : Option (Except LinkError (Option Ifconfig))}
    {ifconfig : Option Ifconfig} (h : answer.bind Except.toOption = some ifconfig) :
    answer = some (.ok ifconfig) := by
  obtain ⟨result, rfl, hresult⟩ := Option.bind_eq_some_iff.mp h
  cases result with
  | ok told => exact congrArg (some ∘ Except.ok) (Option.some.inj hresult)
  | error e => cases hresult

theorem connect_answered_opened : opened.session.phase = .ready ∧
    opened.session.ifconfig = none := by
  obtain ⟨htold, -⟩ :=
    connect_answered (p := intervalPrimitives) (new_clearSession ..) reaches_opened
  exact htold none (eq_ok_of_toOption opened_waits.2)

theorem orderly_begun (session : Session p) (now : ℕ) : (begun session now).Orderly :=
  ⟨rfl, List.Sublist.refl _, Nat.zero_le _, Nat.zero_le _⟩

/-- **Payloads keep their order.** What the caller sent was wrapped, each payload once and in the
order it was sent in, up to what still waits. What the caller received and what waits for it is
part of what came out of the tunnel, in the order it came in, and what is missing of it came when
as much waited as the channel holds, or nobody was there any more. -/
theorem payloads_in_order (hd : Reaches Step unrestricted (begun session now) d) :
    d.passed.sent = d.passed.wrapped ++ d.fromCaller ∧
    (d.passed.taken ++ d.toCaller).Sublist d.passed.opened ∧
    d.fromCaller.length ≤ channelBound ∧ d.toCaller.length ≤ channelBound ∧
    ∀ event, (d.after event).passed.opened = d.passed.opened ∨
      ∃ payload, d.HandedUp (d.after event) payload := by
  have h : d.Orderly := by
    refine hd.invariant (orderly_begun session now) ?_
    rintro m event u hm - rfl
    exact hm.after event
  exact ⟨h.outgoing, h.incoming, h.roomDown, h.roomUp, opened_after⟩

/-- Two payloads of the caller's, one of which has gone out. -/
def busy : Driver intervalPrimitives :=
  [.send [7], .send [8], .outbound zeroIv].foldl after opened

theorem payloads_in_order_busy : busy.passed.sent = busy.passed.wrapped ++ busy.fromCaller ∧
    busy.passed.wrapped = [[7]] ∧ busy.fromCaller = [[8]] := by
  have hreach : Reaches Step unrestricted (begun Session.opening 0) busy :=
    reaches_opened.events (everyStep_unrestricted after opened _)
  obtain ⟨hsent, -⟩ := payloads_in_order hreach
  exact ⟨hsent, by decide +kernel⟩

end Runs

end Driver

end SynologyFilestation.Openvpn
