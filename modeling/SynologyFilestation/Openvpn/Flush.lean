import SynologyFilestation.Openvpn.Stack
import Mathlib.Data.UInt

/-!
Flushing and closing a stream through the tunnel (`openvpn/src/stack.rs`).

The stream counts what it was given, and the loop what the peer has acknowledged, from how long
the socket's queue is. A `flush` or a `shutdown` waits for what the loop publishes. That the
goodbye was acknowledged is read off the socket's state, which a reset brings about as well.
-/

namespace SynologyFilestation.Openvpn

open Core Library

/-- The sending half of the socket: the bytes it was given, those that the peer acknowledged, and
whether it acknowledged the FIN. What the socket holds are the bytes in between: its queue
shrinks by acknowledgement only. -/
structure SendingTcp extends Tcp where
  sent : Socket → ℕ
  acked : Socket → ℕ
  finAcked : Socket → Bool
  sent_connecting : sent connecting = 0
  sent_eq : ∀ s, sent s = acked s + sendQueue s
  fin_acked_of_state : ∀ s, state s = .finWait2 ∨ state s = .timeWait → finAcked s
  sent_poll : ∀ s wire, sent (poll s wire) = sent s
  acked_poll : ∀ s wire, acked s ≤ acked (poll s wire)
  fin_acked_poll : ∀ s wire, finAcked s → finAcked (poll s wire)
  sent_sendSlice : ∀ s bytes n socket, sendSlice s bytes = (.ok n, socket) →
    n ≤ bytes.length ∧ sent socket = sent s + n ∧ acked socket = acked s ∧
      finAcked socket = finAcked s
  sent_close : ∀ s, sent (close s) = sent s ∧ acked (close s) = acked s ∧
    finAcked (close s) = finAcked s
  sent_take : ∀ s n, sent (take s n) = sent s ∧ acked (take s n) = acked s ∧
    finAcked (take s n) = finAcked s

/-- `WRITE_CHUNK`. -/
def writeChunk : ℕ := 16 * 1024

/-- What a poll of the stream's writing half returns. -/
inductive Polled
  | pending
  | ok
  | brokenPipe
  deriving DecidableEq

/-- `Wait`: what is waited for, and how that is told. -/
structure Wait where
  target : ℕ
  done : Progress → Bool

/-- `poll_wait` on what the loop has published. A wait for something else is not gone on with. -/
def pollWait (slot : Option Wait) (progress : Progress) (target : ℕ) (done : Progress → Bool) :
    Polled × Option Wait :=
  let wait := (slot.filter (·.target = target)).getD ⟨target, done⟩
  if wait.done progress then (.ok, none)
  else if progress.stopped then (.brokenPipe, none)
  else (.pending, some wait)

/-- The stack and the writing half of the stream. -/
structure WriteStream (tcp : SendingTcp) where
  stack : Stack tcp.toTcp
  /-- `writes`: what is in the channel, and whether the stream's end of it is open. -/
  writes : List Bytes
  isOpen : Bool
  written : ℕ
  flushing : Option Wait
  shuttingDown : Option Wait

inductive WriteEvent (tcp : SendingTcp)
  /-- A step of the loop, or a read. -/
  | drive (event : StackEvent tcp.toTcp)
  /-- The loop turns to the channel. -/
  | recv
  | write (buf : Bytes)
  | flush
  | shutdown

namespace WriteStream

variable {tcp : SendingTcp}

def new (tcp : SendingTcp) : WriteStream tcp where
  stack := .new tcp.toTcp
  writes := []
  isOpen := true
  written := 0
  flushing := none
  shuttingDown := none

variable (s : WriteStream tcp)

/-- `accepting_writes`, where the loop waits. -/
def accepting : Bool :=
  s.stack.point = .waiting && s.stack.queued = [] && !s.stack.closing

/-- `from_caller.recv`. -/
def recv : WriteStream tcp :=
  if s.accepting then
    match s.writes with
    | bytes :: writes =>
        { s with stack := s.stack.after (.wake (.written bytes)), writes := writes }
    | [] => if s.isOpen then s else { s with stack := s.stack.after (.wake .doneWriting) }
  else s

/-- The loop has let go of its end of the channel. -/
def isGone : Bool :=
  match s.stack.point with
  | .over _ => true
  | _ => false

/-- `poll_write`. -/
def pollWrite (buf : Bytes) : Polled × WriteStream tcp :=
  if !s.isOpen || s.isGone then (.brokenPipe, s)
  else if queueDepth ≤ s.writes.length then (.pending, s)
  else
    let chunk := buf.take (min buf.length writeChunk)
    (.ok, { s with writes := s.writes ++ [chunk], written := s.written + chunk.length })

/-- `poll_flush`. -/
def pollFlush : Polled × WriteStream tcp :=
  let written := s.written
  let (polled, flushing) :=
    pollWait s.flushing s.stack.progress written fun progress => written ≤ progress.acknowledged
  (polled, { s with flushing := flushing })

/-- `poll_shutdown`. -/
def pollShutdown : Polled × WriteStream tcp :=
  let (polled, shuttingDown) := pollWait s.shuttingDown s.stack.progress 0 Progress.closed
  (polled, { s with isOpen := false, shuttingDown := shuttingDown })

def after : WriteEvent tcp → WriteStream tcp
  -- What the caller wrote comes through the channel.
  | .drive (.wake (.written _)) | .drive (.wake .doneWriting) => s
  | .drive event => { s with stack := s.stack.after event }
  | .recv => s.recv
  | .write buf => (s.pollWrite buf).2
  | .flush => s.pollFlush.2
  | .shutdown => s.pollShutdown.2

def Step (s : WriteStream tcp) (event : WriteEvent tcp) (t : WriteStream tcp) : Prop :=
  t = s.after event

/-- The peer has all that was written. -/
def Delivered : Prop := s.written ≤ tcp.acked s.stack.socket

/-- And the goodbye. -/
def SaidGoodbye : Prop := s.Delivered ∧ tcp.finAcked s.stack.socket = true

/-- The socket is closed, by a reset and not by the goodbye that the peer acknowledged, and the
loop takes it for that. -/
def ResetUnnoticed (s : Stack tcp.toTcp) : Prop :=
  s.closing = true ∧ s.outstanding = 0 ∧ tcp.state s.socket = .closed ∧
    tcp.finAcked s.socket = false

/-- The loop does not look at such a socket. -/
def Unreset (s : WriteStream tcp) : WriteEvent tcp → Prop
  | .drive .report => s.stack.point = .reporting → ¬ResetUnnoticed s.stack
  | _ => True

/-! ### The loop -/

section Loop

variable {s t : Stack tcp.toTcp}

/-- A step that takes nothing from the caller, and publishes nothing new. -/
structure Quiet (s t : Stack tcp.toTcp) : Prop where
  accepted : t.accepted = s.accepted
  closing : t.closing = s.closing
  sent : tcp.sent t.socket + t.queued.length = tcp.sent s.socket + s.queued.length
  acked : tcp.acked s.socket ≤ tcp.acked t.socket
  finAcked : tcp.finAcked s.socket → tcp.finAcked t.socket
  last : t.last = s.last
  published : t.progress = s.progress ∨ t.progress = { s.last with stopped := true }

theorem Quiet.refl (s : Stack tcp.toTcp) : Quiet s s :=
  ⟨rfl, rfl, rfl, Nat.le_refl _, id, rfl, .inl rfl⟩

theorem Quiet.trans {u : Stack tcp.toTcp} (h : Quiet s t) (h' : Quiet t u) : Quiet s u where
  accepted := h'.accepted.trans h.accepted
  closing := h'.closing.trans h.closing
  sent := h'.sent.trans h.sent
  acked := Nat.le_trans h.acked h'.acked
  finAcked := h'.finAcked ∘ h.finAcked
  last := h'.last.trans h.last
  published := by
    rcases h'.published with hsame | hstopped
    · rw [hsame]
      exact h.published
    · exact .inr (h.last ▸ hstopped)

/-- Another socket that has sent the same, and heard no less. -/
theorem quiet_socket {socket : tcp.Socket} (hsent : tcp.sent socket = tcp.sent s.socket)
    (hacked : tcp.acked s.socket ≤ tcp.acked socket)
    (hfin : tcp.finAcked s.socket → tcp.finAcked socket) :
    Quiet s { s with socket := socket } :=
  ⟨rfl, rfl, congrArg (· + s.queued.length) hsent, hacked, hfin, rfl, .inl rfl⟩

theorem quiet_send (h : s.send = .ok t) : Quiet s t := by
  have hclose (s : Stack tcp.toTcp) : Quiet s
      (if s.closing && s.queued = [] && tcp.maySend s.socket then
        { s with socket := tcp.close s.socket } else s) := by
    split
    case isTrue =>
      obtain ⟨hsent, hacked, hfin⟩ := tcp.sent_close s.socket
      exact quiet_socket hsent hacked.ge (fun h => hfin ▸ h)
    case isFalse => exact .refl s
  unfold Stack.send at h
  dsimp only at h
  split at h
  case isTrue =>
    split at h
    case h_1 sent socket heq =>
      obtain rfl := Except.ok.inj h
      obtain ⟨hle, hsent, hacked, hfin⟩ := tcp.sent_sendSlice s.socket s.queued sent socket heq
      have htaken : Quiet s { s with socket := socket, queued := s.queued.drop sent } := by
        refine ⟨rfl, rfl, ?_, hacked.ge, fun h => hfin ▸ h, rfl, .inl rfl⟩
        dsimp only
        rw [hsent, List.length_drop]
        omega
      exact htaken.trans (hclose _)
    case h_2 => cases h
  case isFalse =>
    obtain rfl := Except.ok.inj h
    exact hclose s

theorem quiet_top (s : Stack tcp.toTcp) (wire : tcp.Wire) (gaveUp late : Bool) :
    Quiet s (s.top wire gaveUp late) := by
  have hpolled : Quiet s { s with socket := tcp.poll s.socket wire } :=
    quiet_socket (tcp.sent_poll s.socket wire) (tcp.acked_poll s.socket wire)
      (tcp.fin_acked_poll s.socket wire)
  unfold Stack.top
  dsimp only
  split
  case isTrue => exact { hpolled with }
  case isFalse =>
    split
    case isTrue => exact { hpolled with }
    case isFalse =>
      have hup : Quiet s (if tcp.maySend (tcp.poll s.socket wire) then
          { s with socket := tcp.poll s.socket wire, established := true, up := false }
          else { s with socket := tcp.poll s.socket wire }) := by
        split <;> exact { hpolled with }
      split
      case h_1 => exact { hup with }
      case h_2 hsend =>
        have hsent := hup.trans (quiet_send hsend)
        exact { hsent with }

theorem quiet_receive (s : Stack tcp.toTcp) : Quiet s s.receive := by
  unfold Stack.receive
  split
  case isTrue =>
    obtain ⟨hsent, hacked, hfin⟩ := tcp.sent_take s.socket (8 * 1024)
    have htaken : Quiet s { s with socket := tcp.take s.socket (8 * 1024) } :=
      quiet_socket hsent hacked.ge (fun h => hfin ▸ h)
    exact { htaken with }
  case isFalse => exact { Quiet.refl s with }

theorem quiet_read (s : Stack tcp.toTcp) (size : ℕ) : Quiet s (s.pollRead size).2 := by
  rw [Stack.pollRead]
  generalize s.chunks = chunks
  induction chunks generalizing s with
  | nil =>
      rw [Stack.pollFrom]
      split
      · exact { Quiet.refl s with }
      · split <;> exact .refl s
  | cons chunk chunks ih =>
      rw [Stack.pollFrom]
      split
      · exact { Quiet.refl s with }
      · have htaken : Quiet s { s with chunk := chunk, taken := 0, chunks := chunks } :=
          { Quiet.refl s with }
        exact htaken.trans (ih _)

/-- What the loop counts. What it has published is what it last reported, save that it may have
stopped. -/
structure Counted (s : Stack tcp.toTcp) : Prop where
  sent : tcp.sent s.socket + s.queued.length = s.accepted
  acknowledged : s.last.acknowledged ≤ tcp.acked s.socket
  published : s.progress = s.last ∨ s.progress = { s.last with stopped := true }

/-- A goodbye that was reported is one that the peer acknowledged, with all before it. -/
def Parted (s : Stack tcp.toTcp) : Prop :=
  s.last.closed = true →
    s.closing = true ∧ s.accepted ≤ tcp.acked s.socket ∧ tcp.finAcked s.socket = true

theorem Counted.quiet (h : Counted s) (hquiet : Quiet s t) : Counted t where
  sent := by rw [hquiet.sent, hquiet.accepted, h.sent]
  acknowledged := hquiet.last ▸ Nat.le_trans h.acknowledged hquiet.acked
  published := by
    rw [hquiet.last]
    rcases hquiet.published with hsame | hstopped
    · exact hsame ▸ h.published
    · exact .inr hstopped

theorem Parted.quiet (h : Parted s) (hquiet : Quiet s t) : Parted t := fun hclosed => by
  obtain ⟨hclosing, hacked, hfin⟩ := h (hquiet.last ▸ hclosed)
  exact ⟨hquiet.closing.trans hclosing,
    hquiet.accepted ▸ Nat.le_trans hacked hquiet.acked, hquiet.finAcked hfin⟩

theorem Counted.report (h : Counted s) : Counted s.report where
  sent := h.sent
  acknowledged := by
    change s.accepted - (s.queued.length + tcp.sendQueue s.socket) ≤ tcp.acked s.socket
    have hsent := tcp.sent_eq s.socket
    have hcounted := h.sent
    omega
  published := .inl rfl

/-- The state tells, unless there was a reset. -/
theorem Parted.report (h : Counted s) (hreset : ¬ResetUnnoticed s) : Parted s.report := by
  intro hclosed
  have hall : s.closing = true ∧ s.outstanding = 0 ∧ (tcp.state s.socket = .finWait2 ∨
      tcp.state s.socket = .timeWait ∨ tcp.state s.socket = .closed) := by
    simpa [Stack.report, or_assoc, and_assoc] using hclosed
  obtain ⟨hclosing, hnone, hstate⟩ := hall
  refine ⟨hclosing, ?_, ?_⟩
  · change s.accepted ≤ tcp.acked s.socket
    have hsent := tcp.sent_eq s.socket
    have hcounted := h.sent
    have hqueues : s.queued.length + tcp.sendQueue s.socket = 0 := hnone
    omega
  · rcases hstate with hstate | hstate | hstate
    · exact tcp.fin_acked_of_state s.socket (.inl hstate)
    · exact tcp.fin_acked_of_state s.socket (.inr hstate)
    · by_contra hfin
      exact hreset ⟨hclosing, hnone, hstate, Bool.eq_false_iff.mpr hfin⟩

/-- The condition is needed: a reset that comes in between is published as a goodbye. -/
theorem report_of_resetUnnoticed (h : ResetUnnoticed s) :
    s.report.progress.closed = true ∧ tcp.finAcked s.report.socket = false := by
  obtain ⟨hclosing, hnone, hstate, hfin⟩ := h
  exact ⟨by simp [Stack.report, hclosing, hnone, hstate], hfin⟩

end Loop

/-! ### The stream -/

structure Sound (s : WriteStream tcp) : Prop where
  counted : Counted s.stack
  written : s.stack.accepted + (s.writes.map List.length).sum = s.written
  closing : s.stack.closing = true → s.writes = [] ∧ s.isOpen = false
  flushing : ∀ w ∈ s.flushing, ∀ p : Progress, w.done p = decide (w.target ≤ p.acknowledged)
  shuttingDown : ∀ w ∈ s.shuttingDown, w.done = Progress.closed

variable {s} {t : WriteStream tcp} {event : WriteEvent tcp} {stack : Stack tcp.toTcp}

theorem sound_new : (new tcp).Sound where
  counted := ⟨tcp.sent_connecting, Nat.zero_le _, .inl rfl⟩
  written := rfl
  closing := nofun
  flushing := nofun
  shuttingDown := nofun

theorem Sound.quiet (h : s.Sound) (hquiet : Quiet s.stack stack) :
    Sound { s with stack := stack } :=
  { h with
    counted := h.counted.quiet hquiet
    written := hquiet.accepted ▸ h.written
    closing := fun hclosing => h.closing (hquiet.closing ▸ hclosing) }

/-- A wait that is over was over for what it was asked. -/
theorem pollWait_eq {slot : Option Wait} {progress : Progress} {target : ℕ}
    {done : Progress → Bool} (hslot : ∀ w ∈ slot, w.target = target → w.done = done) :
    pollWait slot progress target done =
      if done progress then (.ok, none)
      else if progress.stopped then (.brokenPipe, none)
      else (.pending, some ⟨target, done⟩) := by
  have hwait : (slot.filter (·.target = target)).getD ⟨target, done⟩ = ⟨target, done⟩ := by
    cases slot with
    | none => rfl
    | some w =>
        by_cases htarget : w.target = target
        · obtain ⟨wtarget, wdone⟩ := w
          have hdone : wdone = done := hslot _ rfl htarget
          obtain rfl : wtarget = target := htarget
          simp [hdone, Option.filter]
        · simp [Option.filter, htarget]
  unfold pollWait
  dsimp only
  rw [hwait]

theorem Sound.pollFlush_eq (h : s.Sound) : s.pollFlush =
    let done := fun progress : Progress => decide (s.written ≤ progress.acknowledged)
    if s.written ≤ s.stack.progress.acknowledged then (.ok, { s with flushing := none })
    else if s.stack.progress.stopped then (.brokenPipe, { s with flushing := none })
    else (.pending, { s with flushing := some ⟨s.written, done⟩ }) := by
  unfold pollFlush
  dsimp only
  rw [pollWait_eq fun w hw htarget => funext fun p => htarget ▸ h.flushing w hw p]
  by_cases hdone : s.written ≤ s.stack.progress.acknowledged
  · simp [hdone]
  · simp only [hdone, decide_false, if_false, Bool.false_eq_true]
    split <;> rfl

theorem Sound.pollShutdown_eq (h : s.Sound) : s.pollShutdown =
    if s.stack.progress.closed then (.ok, { s with isOpen := false, shuttingDown := none })
    else if s.stack.progress.stopped then
      (.brokenPipe, { s with isOpen := false, shuttingDown := none })
    else (.pending, { s with isOpen := false, shuttingDown := some ⟨0, Progress.closed⟩ }) := by
  unfold pollShutdown
  dsimp only
  rw [pollWait_eq fun w hw _ => h.shuttingDown w hw]
  split
  · rfl
  · split <;> rfl

theorem quiet_drive {event : StackEvent tcp.toTcp} (hreport : event ≠ .report) :
    ∃ stack, s.after (.drive event) = { s with stack := stack } ∧ Quiet s.stack stack := by
  cases event with
  | top wire gaveUp late =>
      refine ⟨_, rfl, ?_⟩
      rw [Stack.after]
      split
      · exact quiet_top ..
      · exact .refl _
  | receive =>
      refine ⟨_, rfl, ?_⟩
      rw [Stack.after]
      split
      · exact quiet_receive _
      · exact .refl _
  | report => exact absurd rfl hreport
  | release | publish | leave =>
      refine ⟨_, rfl, ?_⟩
      rw [Stack.after]
      split
      · exact { Quiet.refl s.stack with published := by first | exact .inl rfl | exact .inr rfl }
      · exact .refl _
  | decide =>
      refine ⟨_, rfl, ?_⟩
      rw [Stack.after]
      split
      · unfold Stack.decide
        dsimp only
        split <;> exact { Quiet.refl s.stack with }
      · exact .refl _
  | wake cause =>
      cases cause with
      | written | doneWriting => exact ⟨s.stack, rfl, .refl _⟩
      | packet | linkGone | timer =>
          refine ⟨_, rfl, ?_⟩
          rw [Stack.after]
          split
          · exact { Quiet.refl s.stack with }
          · exact .refl _
  | read size => exact ⟨_, rfl, quiet_read s.stack size⟩

/-- What the loop may take from the channel, and what becomes of the stream then. -/
inductive Received (s : WriteStream tcp) : WriteStream tcp → Prop
  | nothing : Received s s
  | written {bytes : Bytes} {writes : List Bytes} (hwrites : s.writes = bytes :: writes)
      (hqueued : s.stack.queued = []) (hclosing : s.stack.closing = false) :
      Received s { s with
        stack := { s.stack with
          accepted := s.stack.accepted + bytes.length
          queued := bytes
          point := .top }
        writes := writes }
  | done (hwrites : s.writes = []) (hopen : s.isOpen = false) (hclosing : s.stack.closing = false) :
      Received s { s with stack := { s.stack with closing := true, point := .top } }

theorem received_recv : Received s s.recv := by
  unfold recv
  split
  case isTrue haccepting =>
    obtain ⟨⟨hpoint, hqueued⟩, hclosing⟩ :
        (s.stack.point = .waiting ∧ s.stack.queued = []) ∧ s.stack.closing = false := by
      simpa [accepting] using haccepting
    have hready : (s.stack.queued = [] && !s.stack.closing) = true := by simp [hqueued, hclosing]
    split
    case h_1 bytes writes hwrites =>
      rw [Stack.after, if_pos hpoint, Stack.wake, if_pos hready]
      exact .written hwrites hqueued hclosing
    case h_2 hwrites =>
      split
      case isTrue => exact .nothing
      case isFalse hopen =>
        rw [Stack.after, if_pos hpoint, Stack.wake, if_pos hready]
        exact .done hwrites (Bool.eq_false_iff.mpr hopen) hclosing
  case isFalse => exact .nothing

theorem Sound.recv (h : s.Sound) : s.recv.Sound := by
  have hreceived := received_recv (s := s)
  generalize s.recv = t at hreceived ⊢
  cases hreceived with
  | nothing => exact h
  | @written bytes writes hwrites hqueued hclosing =>
      refine { h with
        counted := ⟨?_, h.counted.acknowledged, h.counted.published⟩, written := ?_, closing := ?_ }
      · have hsent := h.counted.sent
        rw [hqueued] at hsent
        exact congrArg (· + bytes.length) hsent
      · have hwritten := h.written
        rw [hwrites, List.map_cons, List.sum_cons] at hwritten
        dsimp only
        omega
      · exact fun htrue => absurd (hclosing.symm.trans htrue) nofun
  | done hwrites hopen hclosing =>
      exact { h with
        counted := ⟨h.counted.sent, h.counted.acknowledged, h.counted.published⟩
        closing := fun _ => ⟨hwrites, hopen⟩ }

theorem Sound.pollWrite (h : s.Sound) (buf : Bytes) : (s.pollWrite buf).2.Sound := by
  unfold WriteStream.pollWrite
  split
  case isTrue => exact h
  case isFalse hopen =>
    split
    case isTrue => exact h
    case isFalse =>
      refine { h with written := ?_, closing := fun hclosing => ?_ }
      · have hwritten := h.written
        simp only [List.map_append, List.sum_append, List.map_cons, List.map_nil, List.sum_cons,
          List.sum_nil]
        omega
      · rw [(h.closing hclosing).2] at hopen
        exact absurd rfl hopen

theorem Sound.after (h : s.Sound) (event : WriteEvent tcp) : (s.after event).Sound := by
  cases event with
  | drive event =>
      by_cases hreport : event = .report
      · subst hreport
        change Sound { s with stack := s.stack.after .report }
        rw [Stack.after]
        split
        · exact { h with counted := h.counted.report }
        · exact h
      · obtain ⟨stack, hafter, hquiet⟩ := quiet_drive (s := s) hreport
        rw [hafter]
        exact h.quiet hquiet
  | recv => exact h.recv
  | write buf => exact h.pollWrite buf
  | flush =>
      rw [WriteStream.after, h.pollFlush_eq]
      dsimp only
      split
      · exact { h with flushing := by rintro _ ⟨⟩ }
      · split
        · exact { h with flushing := by rintro _ ⟨⟩ }
        · refine { h with flushing := fun w hw => ?_ }
          obtain rfl := Option.some.inj hw
          exact fun _ => rfl
  | shutdown =>
      rw [WriteStream.after, h.pollShutdown_eq]
      split
      · exact { h with
          closing := fun hclosing => ⟨(h.closing hclosing).1, rfl⟩
          shuttingDown := by rintro _ ⟨⟩ }
      · split
        · exact { h with
            closing := fun hclosing => ⟨(h.closing hclosing).1, rfl⟩
            shuttingDown := by rintro _ ⟨⟩ }
        · refine { h with
            closing := fun hclosing => ⟨(h.closing hclosing).1, rfl⟩
            shuttingDown := fun w hw => ?_ }
          obtain rfl := Option.some.inj hw
          rfl

/-- The goodbye that was reported, of a stream. -/
theorem Parted.after (hparted : Parted s.stack) (h : s.Sound) {event : WriteEvent tcp}
    (hmeets : s.Unreset event) : Parted (s.after event).stack := by
  cases event with
  | drive event =>
      by_cases hreport : event = .report
      · subst hreport
        change Parted (s.stack.after .report)
        rw [Stack.after]
        split
        case isTrue hpoint => exact Parted.report h.counted (hmeets hpoint)
        case isFalse => exact hparted
      · obtain ⟨stack, hafter, hquiet⟩ := quiet_drive (s := s) hreport
        rw [hafter]
        exact hparted.quiet hquiet
  | recv =>
      have hreceived := received_recv (s := s)
      change Parted s.recv.stack
      generalize s.recv = t at hreceived ⊢
      cases hreceived with
      | nothing => exact hparted
      | written _ _ hclosing =>
          exact fun hclosed => absurd (hclosing.symm.trans (hparted hclosed).1) Bool.false_ne_true
      | done _ _ hclosing =>
          exact fun hclosed => absurd (hclosing.symm.trans (hparted hclosed).1) Bool.false_ne_true
  | write buf =>
      have hstack : (s.pollWrite buf).2.stack = s.stack := by
        unfold WriteStream.pollWrite
        split
        · rfl
        · split <;> rfl
      exact hstack.symm ▸ hparted
  | flush | shutdown => exact hparted

theorem sound_of_reaches (hs : Reaches Step unrestricted (new tcp) s) : s.Sound :=
  hs.invariant sound_new fun h _ hstep => hstep ▸ h.after _

theorem parted_of_reaches (hs : Reaches Step Unreset (new tcp) s) : s.Sound ∧ Parted s.stack :=
  hs.invariant (P := fun s => s.Sound ∧ Parted s.stack)
    ⟨sound_new, fun hclosed => Bool.noConfusion hclosed⟩
    fun h hmeets hstep => hstep ▸ ⟨h.1.after _, h.2.after h.1 hmeets⟩

/-- What was published of the counters is so, whether or not the stack has stopped since. -/
theorem Sound.acknowledged_le (h : s.Sound) :
    s.stack.progress.acknowledged ≤ tcp.acked s.stack.socket := by
  rcases h.counted.published with hlast | hstopped
  · exact hlast ▸ h.counted.acknowledged
  · rw [hstopped]
    exact h.counted.acknowledged

theorem Sound.sent_le_written (h : s.Sound) : tcp.sent s.stack.socket ≤ s.written := by
  have hsent := h.counted.sent
  have hwritten := h.written
  omega

/-- And what was published of the goodbye. -/
theorem Sound.saidGoodbye (h : s.Sound) (hparted : Parted s.stack)
    (hclosed : s.stack.progress.closed = true) : s.SaidGoodbye := by
  have hlast : s.stack.last.closed = true := by
    rcases h.counted.published with hlast | hstopped
    · exact hlast ▸ hclosed
    · rw [hstopped] at hclosed
      exact hclosed
  obtain ⟨hclosing, hacked, hfin⟩ := hparted hlast
  have hwritten := h.written
  rw [(h.closing hclosing).1] at hwritten
  exact ⟨Nat.le_trans (Nat.le_of_eq hwritten.symm) hacked, hfin⟩

instance (s : Stack tcp.toTcp) : Decidable (ResetUnnoticed s) :=
  inferInstanceAs (Decidable (_ ∧ _ ∧ _ ∧ _))

instance : ∀ event : WriteEvent tcp, Decidable (s.Unreset event)
  | .drive .report => inferInstanceAs (Decidable (_ → _))
  | .drive (.top ..) | .drive .receive | .drive .release | .drive .decide | .drive (.wake _)
  | .drive .publish | .drive .leave | .drive (.read _) | .recv | .write _ | .flush | .shutdown =>
      isTrue trivial

end WriteStream

/-! ### A connection with a peer that acknowledges -/

/-- A socket that sends. -/
structure AckedSocket where
  peer : PeerSocket
  sent : ℕ
  acked : ℕ
  finAcked : Bool
  acked_le : acked ≤ sent
  fin_acked_of_state : peer.state = .finWait2 ∨ peer.state = .timeWait → finAcked = true

/-- What a peer sends, its acknowledgements among it. -/
inductive Heard
  | segment (segment : Segment)
  | ack
  | finAck

namespace TcpState

/-- The states in which the FIN was sent, and not acknowledged. -/
def awaitsFinAck : TcpState → Bool
  | finWait1 | closing | lastAck => true
  | _ => false

def onFinAck : TcpState → TcpState
  | finWait1 => finWait2
  | closing => timeWait
  | _ => closed

theorem afterFin_onFinAck {state : TcpState} (h : state.onFinAck.afterFin = true) :
    state.afterFin = true := by
  revert h
  cases state <;> decide

end TcpState

/-- No segment acknowledges the FIN. -/
theorem PeerSocket.poll_farewell {s : PeerSocket} {segment : Segment}
    (h : (s.poll segment).state = .finWait2 ∨ (s.poll segment).state = .timeWait) :
    s.state = .finWait2 ∨ s.state = .timeWait := by
  cases segment with
  | synAck =>
      rw [PeerSocket.poll] at h
      split at h
      · simp at h
      · exact h
  | data =>
      rw [PeerSocket.poll] at h
      split at h <;> exact h
  | fin =>
      rw [PeerSocket.poll] at h
      split at h
      case isTrue hreceives =>
        dsimp only at h
        revert h hreceives
        cases s.state <;> decide
      case isFalse => exact h
  | rst =>
      rw [PeerSocket.poll] at h
      simp at h

theorem PeerSocket.close_farewell {s : PeerSocket}
    (h : s.close.state = .finWait2 ∨ s.close.state = .timeWait) :
    s.state = .finWait2 ∨ s.state = .timeWait := by
  unfold PeerSocket.close at h
  split at h
  · simp at h
  · split at h
    · simp at h
    · exact h

namespace AckedSocket

def poll (s : AckedSocket) : Heard → AckedSocket
  | .segment got =>
      { s with
        peer := s.peer.poll got
        fin_acked_of_state := fun h => s.fin_acked_of_state (PeerSocket.poll_farewell h) }
  | .ack => { s with acked := s.sent, acked_le := Nat.le_refl _ }
  | .finAck =>
      if s.peer.state.awaitsFinAck then
        { peer := {
            state := s.peer.state.onFinAck
            unread := s.peer.unread
            arrived := s.peer.arrived
            fin := s.peer.fin
            fin_of_state := fun h => s.peer.fin_of_state (TcpState.afterFin_onFinAck h) }
          sent := s.sent
          acked := s.sent
          finAcked := true
          acked_le := Nat.le_refl _
          fin_acked_of_state := fun _ => rfl }
      else s

def close (s : AckedSocket) : AckedSocket :=
  { s with
    peer := s.peer.close
    fin_acked_of_state := fun h => s.fin_acked_of_state (PeerSocket.close_farewell h) }

end AckedSocket

def ackedTcp : SendingTcp where
  Socket := AckedSocket
  Wire := Heard
  state s := s.peer.state
  unread s := s.peer.unread
  arrived s := s.peer.arrived
  finReceived s := s.peer.fin
  sendQueue s := s.sent - s.acked
  canSend s := s.peer.state.sends
  connecting := ⟨peerTcp.connecting, 0, 0, false, Nat.le_refl _, by rintro (h | h) <;> cases h⟩
  poll := AckedSocket.poll
  sendSlice s bytes :=
    (.ok bytes.length,
      { s with sent := s.sent + bytes.length, acked_le := Nat.le_add_right_of_le s.acked_le })
  close := AckedSocket.close
  take s n := { s with peer := peerTcp.take s.peer n }
  unread_connecting := rfl
  arrived_connecting := rfl
  fin_of_state s := s.peer.fin_of_state
  begun_poll s heard hbegun := by
    cases heard with
    | segment got => exact peerTcp.begun_poll s.peer got hbegun
    | ack => exact hbegun
    | finAck =>
        rw [AckedSocket.poll]
        split
        · dsimp only
          cases s.peer.state <;> rfl
        · exact hbegun
  begun_close s := peerTcp.begun_close s.peer
  fin_poll s heard hfin := by
    cases heard with
    | segment got => exact peerTcp.fin_poll s.peer got hfin
    | ack => exact hfin
    | finAck =>
        rw [AckedSocket.poll]
        split <;> exact hfin
  poll_bytes s heard := by
    cases heard with
    | segment got => exact peerTcp.poll_bytes s.peer got
    | ack => exact ⟨[], (List.append_nil _).symm, (List.append_nil _).symm, fun _ => rfl⟩
    | finAck =>
        rw [AckedSocket.poll]
        split <;> exact ⟨[], (List.append_nil _).symm, (List.append_nil _).symm, fun _ => rfl⟩
  same_close s := peerTcp.same_close s.peer
  same_sendSlice _ _ := ⟨rfl, rfl, rfl, rfl⟩
  same_take _ _ := ⟨rfl, rfl, rfl, rfl⟩
  sent := AckedSocket.sent
  acked := AckedSocket.acked
  finAcked := AckedSocket.finAcked
  sent_connecting := rfl
  sent_eq s := (Nat.add_sub_of_le s.acked_le).symm
  fin_acked_of_state := AckedSocket.fin_acked_of_state
  sent_poll s heard := by
    cases heard with
    | segment | ack => rfl
    | finAck =>
        rw [AckedSocket.poll]
        split <;> rfl
  acked_poll s heard := by
    cases heard with
    | segment => exact Nat.le_refl _
    | ack => exact s.acked_le
    | finAck =>
        rw [AckedSocket.poll]
        split
        · exact s.acked_le
        · exact Nat.le_refl _
  fin_acked_poll s heard hfin := by
    cases heard with
    | segment | ack => exact hfin
    | finAck =>
        rw [AckedSocket.poll]
        split
        · rfl
        · exact hfin
  sent_sendSlice s bytes n socket h := by
    obtain ⟨hn, rfl⟩ := Prod.mk.inj h
    obtain rfl := Except.ok.inj hn
    exact ⟨Nat.le_refl _, rfl, rfl, rfl⟩
  sent_close _ := ⟨rfl, rfl, rfl⟩
  sent_take _ _ := ⟨rfl, rfl, rfl⟩

namespace WriteStream

/-- One turn of the loop, in which nothing is read. -/
def turn (heard : Heard) : List (WriteEvent ackedTcp) :=
  [.drive (.top heard false false), .drive .receive, .drive .report, .drive .release,
    .drive .decide]

def timer : List (WriteEvent ackedTcp) := [.drive (.wake .timer)]

/-- Two bytes and the goodbye, and the peer acknowledges both. -/
def farewellRun : List (WriteEvent ackedTcp) :=
  turn (.segment .synAck) ++ [.write [1, 2], .recv] ++ turn .ack ++ timer ++ turn .ack ++
    [.flush, .shutdown, .recv] ++ turn .ack ++ timer ++ turn .finAck

def farewellStream : WriteStream ackedTcp := farewellRun.foldl after (new ackedTcp)

/-- The goodbye is on its way, and the peer resets the connection. -/
def resetRun : List (WriteEvent ackedTcp) :=
  turn (.segment .synAck) ++ [.shutdown, .recv] ++ turn .ack ++ timer ++ turn (.segment .rst)

end WriteStream

end SynologyFilestation.Openvpn
