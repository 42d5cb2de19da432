import SynologyFilestation.Core.Path
import SynologyFilestation.Library.Transition

/-!
The end of a stream through the tunnel (`openvpn/src/stack.rs`).

The loop moves bytes from a TCP socket to a queue, publishes how far it is, and lets
go of the queue when there is nothing more to read. The reader runs beside it: each
thing that the two share is touched in a step of its own.
-/

namespace SynologyFilestation.Openvpn

open Core Library

/-! ### The socket -/

/-- `tcp::State`. -/
inductive TcpState
  | closed
  | listen
  | synSent
  | synReceived
  | established
  | finWait1
  | finWait2
  | closeWait
  | closing
  | lastAck
  | timeWait
  deriving DecidableEq

namespace TcpState

/-- The connection was made at some time, or was given up. -/
def begun : TcpState → Bool
  | listen | synSent | synReceived => false
  | _ => true

/-- The states that a connection comes to by the FIN of the peer. -/
def afterFin : TcpState → Bool
  | closeWait | closing | lastAck | timeWait => true
  | _ => false

/-- The peer may still send. -/
def receives : TcpState → Bool
  | established | finWait1 | finWait2 => true
  | _ => false

def sends : TcpState → Bool
  | established | closeWait => true
  | _ => false

def active : TcpState → Bool
  | closed | timeWait | listen => false
  | _ => true

/-- A connection over which nothing comes any more has the FIN, or is closed. -/
theorem afterFin_of {state : TcpState} (hbegun : state.begun = true)
    (hreceives : state.receives = false) (hclosed : state ≠ closed) : state.afterFin = true := by
  revert hbegun hreceives hclosed
  cases state <;> decide

theorem begun_of_sends {state : TcpState} (h : state.sends = true) : state.begun = true := by
  revert h
  cases state <;> decide

end TcpState

/-- `tcp::Socket` and the interface that is polled, which are not part of the repository.
What a socket has of the peer is what is in order: the bytes that arrived, those of them
that are unread, and whether the FIN behind them all was received. -/
structure Tcp where
  Socket : Type
  /-- What comes through the tunnel, and the time, between two polls. -/
  Wire : Type
  state : Socket → TcpState
  unread : Socket → Bytes
  arrived : Socket → Bytes
  finReceived : Socket → Bool
  sendQueue : Socket → ℕ
  canSend : Socket → Bool
  /-- A socket that was told to connect. -/
  connecting : Socket
  poll : Socket → Wire → Socket
  sendSlice : Socket → Bytes → Except String ℕ × Socket
  close : Socket → Socket
  /-- So many bytes are read. -/
  take : Socket → ℕ → Socket
  unread_connecting : unread connecting = []
  arrived_connecting : arrived connecting = []
  fin_of_state : ∀ s, (state s).afterFin → finReceived s
  begun_poll : ∀ s wire, (state s).begun → (state (poll s wire)).begun
  begun_close : ∀ s, (state s).begun → (state (close s)).begun
  fin_poll : ∀ s wire, finReceived s → finReceived (poll s wire)
  /-- Bytes arrive behind the others, and none behind the FIN. -/
  poll_bytes : ∀ s wire, ∃ bytes, unread (poll s wire) = unread s ++ bytes ∧
    arrived (poll s wire) = arrived s ++ bytes ∧ (finReceived s → bytes = [])
  same_close : ∀ s, unread (close s) = unread s ∧ arrived (close s) = arrived s ∧
    finReceived (close s) = finReceived s
  same_sendSlice : ∀ s bytes, state (sendSlice s bytes).2 = state s ∧
    unread (sendSlice s bytes).2 = unread s ∧ arrived (sendSlice s bytes).2 = arrived s ∧
      finReceived (sendSlice s bytes).2 = finReceived s
  same_take : ∀ s n, state (take s n) = state s ∧ unread (take s n) = (unread s).drop n ∧
    arrived (take s n) = arrived s ∧ finReceived (take s n) = finReceived s

namespace Tcp

variable (tcp : Tcp) (s : tcp.Socket)

/-- `may_recv`. -/
def mayRecv : Bool := (tcp.state s).receives || tcp.unread s ≠ []

/-- `can_recv`. -/
def canRecv : Bool := tcp.mayRecv s && tcp.unread s ≠ []

/-- `may_send`. -/
def maySend : Bool := (tcp.state s).sends

/-- `is_active`. -/
def isActive : Bool := (tcp.state s).active

/-- `recv_slice`, of a socket that can be read. -/
def recvSlice (size : ℕ) : Bytes × tcp.Socket := ((tcp.unread s).take size, tcp.take s size)

end Tcp

/-! ### The loop and the reader -/

/-- `Progress`. -/
structure Progress where
  acknowledged : ℕ
  closed : Bool
  stopped : Bool
  endedCleanly : Bool
  deriving DecidableEq

/-- `Stopped`. -/
inductive Stopped
  | callerGaveUp
  | neverConnected
  | cannotSend
  | tunnelGone
  | finished
  deriving DecidableEq

/-- Where the loop is. -/
inductive Point
  | top
  | receiving
  | reporting
  | releasing (finishedReading : Bool)
  | deciding
  | waiting
  | stopping (why : Stopped)
  | leaving (why : Stopped)
  | over (why : Stopped)
  deriving DecidableEq

/-- `QUEUE_DEPTH`. -/
def queueDepth : ℕ := 8

/-- What `drive` has, what it shares with the stream, and what the stream has. All that the
reader was given is not in the source. -/
structure Stack (tcp : Tcp) where
  point : Point
  socket : tcp.Socket
  /-- Whoever called `connect` is still to be told. -/
  up : Bool
  established : Bool
  queued : Bytes
  accepted : ℕ
  last : Progress
  linkGone : Bool
  closing : Bool
  /-- The watch, and the queue with the loop's end of it. -/
  progress : Progress
  chunks : List Bytes
  toCaller : Bool
  /-- `partial` and `taken`. -/
  chunk : Bytes
  taken : ℕ
  handed : Bytes

/-- What `poll_read` returns. -/
inductive Read
  | pending
  | bytes (bytes : Bytes)
  | ended
  | reset
  deriving DecidableEq

/-- What the loop is woken by. -/
inductive Wake
  | packet
  | linkGone
  | written (bytes : Bytes)
  | doneWriting
  | timer

/-- The steps of the loop, and a read. -/
inductive StackEvent (tcp : Tcp)
  | top (wire : tcp.Wire) (gaveUp late : Bool)
  | receive
  | report
  | release
  | decide
  | wake (cause : Wake)
  | publish
  | leave
  | read (size : ℕ)

namespace Stack

variable {tcp : Tcp}

/-- What `connect` spawns. -/
def new (tcp : Tcp) : Stack tcp where
  point := .top
  socket := tcp.connecting
  up := true
  established := false
  queued := []
  accepted := 0
  last := ⟨0, false, false, false⟩
  linkGone := false
  closing := false
  progress := ⟨0, false, false, false⟩
  chunks := []
  toCaller := true
  chunk := []
  taken := 0
  handed := []

variable (s : Stack tcp)

/-- What the caller wrote goes to the window, and behind the last of it the FIN. -/
def send : Except Unit (Stack tcp) :=
  let close (s : Stack tcp) : Stack tcp :=
    if s.closing && s.queued = [] && tcp.maySend s.socket then
      { s with socket := tcp.close s.socket }
    else s
  if s.queued ≠ [] && tcp.canSend s.socket then
    match tcp.sendSlice s.socket s.queued with
    | (.ok sent, socket) => .ok (close { s with socket := socket, queued := s.queued.drop sent })
    | (.error _, _) => .error ()
  else .ok (close s)

/-- From the poll to where bytes come in. -/
def top (wire : tcp.Wire) (gaveUp late : Bool) : Stack tcp :=
  let s := { s with socket := tcp.poll s.socket wire }
  if s.up && gaveUp then { s with point := .stopping .callerGaveUp }
  else if !s.established && late then { s with point := .stopping .neverConnected }
  else
    let s := if tcp.maySend s.socket then { s with established := true, up := false } else s
    match s.send with
    | .error () => { s with point := .stopping .cannotSend }
    | .ok s => { s with point := .receiving }

/-- One more piece for the reader, or the loop over them ends. -/
def receive : Stack tcp :=
  if tcp.canRecv s.socket && s.toCaller && s.chunks.length < queueDepth then
    let (bytes, socket) := tcp.recvSlice s.socket (8 * 1024)
    { s with socket := socket, chunks := s.chunks ++ [bytes] }
  else { s with point := .reporting }

/-- `finished_reading`. -/
def finishedReading : Bool :=
  s.established && !tcp.mayRecv s.socket && !tcp.canRecv s.socket

def outstanding : ℕ := s.queued.length + tcp.sendQueue s.socket

def report : Stack tcp :=
  let last : Progress := {
    acknowledged := s.accepted - s.outstanding
    closed := s.closing && s.outstanding = 0 &&
      (tcp.state s.socket = .finWait2 || tcp.state s.socket = .timeWait ||
        tcp.state s.socket = .closed)
    stopped := false
    endedCleanly := s.last.endedCleanly || s.finishedReading }
  { s with last := last, progress := last, point := .releasing s.finishedReading }

/-- The end of the loop's body. -/
def decide : Stack tcp :=
  let unread := tcp.canRecv s.socket && s.toCaller
  if (!tcp.isActive s.socket || s.linkGone) && !unread then
    { s with point := .stopping (if s.linkGone then .tunnelGone else .finished) }
  else { s with point := .waiting }

/-- Writes are taken when the last one has gone. -/
def wake : Wake → Stack tcp
  | .linkGone => { s with linkGone := true, point := .top }
  | .written bytes =>
      if s.queued = [] && !s.closing then
        { s with accepted := s.accepted + bytes.length, queued := bytes, point := .top }
      else s
  | .doneWriting =>
      if s.queued = [] && !s.closing then { s with closing := true, point := .top } else s
  | .packet | .timer => { s with point := .top }

/-- Bytes of the piece that was taken. -/
def handOver (size : ℕ) : Read × Stack tcp :=
  let bytes := (s.chunk.drop s.taken).take size
  (.bytes bytes, { s with taken := s.taken + bytes.length, handed := s.handed ++ bytes })

/-- `poll_read`, with these pieces in the queue. -/
def pollFrom (size : ℕ) : List Bytes → Stack tcp → Read × Stack tcp
  | [], s =>
      if s.taken ≠ s.chunk.length then s.handOver size
      else if s.toCaller then (.pending, s)
      else (if s.progress.endedCleanly then .ended else .reset, s)
  | chunk :: chunks, s =>
      if s.taken ≠ s.chunk.length then s.handOver size
      else pollFrom size chunks { s with chunk := chunk, taken := 0, chunks := chunks }

/-- `poll_read`, into a buffer of this size. -/
def pollRead (size : ℕ) : Read × Stack tcp := pollFrom size s.chunks s

/-- A step of the loop is taken where the loop is. -/
def after : StackEvent tcp → Stack tcp
  | .top wire gaveUp late => if s.point = .top then s.top wire gaveUp late else s
  | .receive => if s.point = .receiving then s.receive else s
  | .report => if s.point = .reporting then s.report else s
  | .release =>
      match s.point with
      | .releasing finished => { s with toCaller := s.toCaller && !finished, point := .deciding }
      | _ => s
  | .decide => if s.point = .deciding then s.decide else s
  | .wake cause => if s.point = .waiting then s.wake cause else s
  | .publish =>
      match s.point with
      | .stopping why =>
          { s with progress := { s.last with stopped := true }, point := .leaving why }
      | _ => s
  | .leave =>
      match s.point with
      | .leaving why => { s with toCaller := false, point := .over why }
      | _ => s
  | .read size => (s.pollRead size).2

def Step (s : Stack tcp) (event : StackEvent tcp) (t : Stack tcp) : Prop := t = s.after event

/-! ### What a reader is told -/

/-- What arrived is handed over, on its way, or in the socket; and what is said about the end
is true. -/
structure Whole (s : Stack tcp) : Prop where
  bytes : s.handed ++ s.chunk.drop s.taken ++ s.chunks.flatten ++ tcp.unread s.socket =
    tcp.arrived s.socket
  begun : s.established → (tcp.state s.socket).begun
  last : s.last.endedCleanly → tcp.finReceived s.socket ∧ tcp.unread s.socket = []
  progress : s.progress.endedCleanly → tcp.finReceived s.socket ∧ tcp.unread s.socket = []

variable {s t : Stack tcp}

theorem whole_new : (new tcp).Whole where
  bytes := tcp.unread_connecting.trans tcp.arrived_connecting.symm
  begun := nofun
  last := nofun
  progress := nofun

/-- Another socket that has the same of the peer. -/
theorem Whole.socket (h : s.Whole) {socket : tcp.Socket}
    (hunread : tcp.unread socket = tcp.unread s.socket)
    (harrived : tcp.arrived socket = tcp.arrived s.socket)
    (hfin : tcp.finReceived socket = tcp.finReceived s.socket)
    (hbegun : (tcp.state s.socket).begun → (tcp.state socket).begun) :
    Whole { s with socket := socket } where
  bytes := by
    rw [hunread, harrived]
    exact h.bytes
  begun hup := hbegun (h.begun hup)
  last hlast := by
    rw [hunread, hfin]
    exact h.last hlast
  progress hprogress := by
    rw [hunread, hfin]
    exact h.progress hprogress

theorem Whole.poll (h : s.Whole) (wire : tcp.Wire) :
    Whole { s with socket := tcp.poll s.socket wire } := by
  obtain ⟨bytes, hunread, harrived, hnone⟩ := tcp.poll_bytes s.socket wire
  have hend (hended : tcp.finReceived s.socket ∧ tcp.unread s.socket = []) :
      tcp.finReceived (tcp.poll s.socket wire) ∧ tcp.unread (tcp.poll s.socket wire) = [] := by
    refine ⟨tcp.fin_poll _ wire hended.1, ?_⟩
    rw [hunread, hended.2, hnone hended.1]
    rfl
  refine ⟨?_, fun hup => tcp.begun_poll _ wire (h.begun hup), fun hlast => hend (h.last hlast),
    fun hprogress => hend (h.progress hprogress)⟩
  rw [hunread, harrived, ← List.append_assoc, h.bytes]

theorem Whole.send (h : s.Whole) (hsend : s.send = .ok t) : t.Whole := by
  -- Closing our half leaves what came in.
  have hclose {s : Stack tcp} (h : s.Whole) : Whole
      (if s.closing && s.queued = [] && tcp.maySend s.socket then
        { s with socket := tcp.close s.socket } else s) := by
    split
    case isTrue =>
      obtain ⟨hunread, harrived, hfin⟩ := tcp.same_close s.socket
      exact h.socket hunread harrived hfin (tcp.begun_close s.socket)
    case isFalse => exact h
  unfold Stack.send at hsend
  dsimp only at hsend
  split at hsend
  case isTrue =>
    have hsame := tcp.same_sendSlice s.socket s.queued
    split at hsend
    case h_1 sent socket heq =>
      obtain rfl := Except.ok.inj hsend
      rw [heq] at hsame
      obtain ⟨hstate, hunread, harrived, hfin⟩ := hsame
      have hsent := h.socket hunread harrived hfin (fun hup => hstate ▸ hup)
      exact hclose (s := { s with socket := socket, queued := s.queued.drop sent }) { hsent with }
    case h_2 => cases hsend
  case isFalse =>
    obtain rfl := Except.ok.inj hsend
    exact hclose h

theorem Whole.top (h : s.Whole) (wire : tcp.Wire) (gaveUp late : Bool) :
    (s.top wire gaveUp late).Whole := by
  have hpolled := h.poll wire
  unfold Stack.top
  dsimp only
  split
  case isTrue => exact { hpolled with }
  case isFalse =>
    split
    case isTrue => exact { hpolled with }
    case isFalse =>
      have hup : Whole (if tcp.maySend (tcp.poll s.socket wire) then
          { s with socket := tcp.poll s.socket wire, established := true, up := false }
          else { s with socket := tcp.poll s.socket wire }) := by
        split
        case isTrue hsends =>
          refine { hpolled with begun := fun _ => ?_ }
          exact TcpState.begun_of_sends hsends
        case isFalse => exact hpolled
      split
      case h_1 => exact { hup with }
      case h_2 hsend => exact { hup.send hsend with }

theorem Whole.receive (h : s.Whole) : s.receive.Whole := by
  unfold Stack.receive
  split
  case isTrue =>
    obtain ⟨hstate, hunread, harrived, hfin⟩ := tcp.same_take s.socket (8 * 1024)
    have hend (hended : tcp.finReceived s.socket ∧ tcp.unread s.socket = []) :
        tcp.finReceived (tcp.take s.socket (8 * 1024)) ∧
          tcp.unread (tcp.take s.socket (8 * 1024)) = [] := by
      rw [hfin, hunread, hended.2, List.drop_nil]
      exact ⟨hended.1, rfl⟩
    refine ⟨?_, fun hup => ?_, fun hlast => hend (h.last hlast),
      fun hprogress => hend (h.progress hprogress)⟩
    · dsimp only [Tcp.recvSlice]
      rw [hunread, harrived, List.flatten_append, List.flatten_singleton, ← h.bytes]
      simp only [List.append_assoc, List.take_append_drop]
    · dsimp only [Tcp.recvSlice]
      rw [hstate]
      exact h.begun hup
  case isFalse => exact { h with }

/-- The connection was made, and it is closed and has nothing to read, although no FIN came. -/
def cutOff (s : Stack tcp) : Bool :=
  s.established && tcp.state s.socket = .closed && tcp.unread s.socket = [] &&
    !tcp.finReceived s.socket

/-- **What it means that there is nothing more to read**: a FIN, or that the stream is cut off. -/
theorem Whole.finishedReading (h : s.Whole) (hfinished : s.finishedReading = true)
    (hcut : s.cutOff = false) : tcp.finReceived s.socket ∧ tcp.unread s.socket = [] := by
  simp only [Stack.finishedReading, Tcp.mayRecv, Bool.and_eq_true, Bool.not_eq_true',
    Bool.or_eq_false_iff, decide_eq_false_iff_not, not_not] at hfinished
  obtain ⟨⟨hup, hreceives, hempty⟩, -⟩ := hfinished
  refine ⟨?_, hempty⟩
  simp only [cutOff, hup, hempty, Bool.true_and, decide_true, Bool.and_true, Bool.and_eq_false_iff,
    decide_eq_false_iff_not, Bool.not_eq_false'] at hcut
  rcases hcut with hclosed | hfin
  · exact tcp.fin_of_state _ (TcpState.afterFin_of (h.begun hup) hreceives hclosed)
  · exact hfin

theorem Whole.report (h : s.Whole) (hcut : s.cutOff = false) : s.report.Whole := by
  have hend (hended : (s.last.endedCleanly || s.finishedReading) = true) :
      tcp.finReceived s.socket ∧ tcp.unread s.socket = [] := by
    rcases Bool.or_eq_true_iff.mp hended with hlast | hfinished
    · exact h.last hlast
    · exact h.finishedReading hfinished hcut
  exact ⟨h.bytes, h.begun, hend, hend⟩

theorem Whole.handOver (h : s.Whole) (size : ℕ) : (s.handOver size).2.Whole := by
  refine { h with bytes := ?_ }
  have hsplit : (s.chunk.drop s.taken).take size ++
      s.chunk.drop (s.taken + ((s.chunk.drop s.taken).take size).length) =
        s.chunk.drop s.taken := by
    rw [← List.drop_drop]
    generalize s.chunk.drop s.taken = rest
    rcases Nat.le_total size rest.length with hle | hle
    · rw [List.length_take_of_le hle, List.take_append_drop]
    · rw [List.take_of_length_le hle, List.drop_length, List.append_nil]
  have hbytes := h.bytes
  rw [← hsplit] at hbytes
  simpa only [Stack.handOver, List.append_assoc] using hbytes

/-- A read takes the pieces in their order. -/
theorem Whole.pollFrom (h : s.Whole) (size : ℕ) : (Stack.pollFrom size s.chunks s).2.Whole := by
  generalize hchunks : s.chunks = chunks
  induction chunks generalizing s with
  | nil =>
      rw [Stack.pollFrom]
      split
      case isTrue => exact h.handOver size
      case isFalse => split <;> exact h
  | cons chunk chunks ih =>
      rw [Stack.pollFrom]
      split
      case isTrue => exact h.handOver size
      case isFalse hread =>
        refine ih (s := { s with chunk := chunk, taken := 0, chunks := chunks }) ?_ rfl
        refine { h with bytes := ?_ }
        have hbytes := h.bytes
        have hconsumed : s.chunk.drop s.taken = [] := by
          rw [not_not.mp hread, List.drop_length]
        rw [hconsumed, hchunks, List.flatten_cons, List.append_nil] at hbytes
        rw [List.drop_zero, ← hbytes]
        simp only [List.append_assoc]

/-- What a read that hands nothing over has seen. -/
theorem pollFrom_ended {size : ℕ} (h : (Stack.pollFrom size s.chunks s).1 = .ended) :
    s.progress.endedCleanly = true ∧ s.chunk.drop s.taken = [] ∧ s.chunks.flatten = [] := by
  generalize hchunks : s.chunks = chunks at h
  induction chunks generalizing s with
  | nil =>
      rw [Stack.pollFrom] at h
      split at h
      case isTrue => cases h
      case isFalse hread =>
        split at h
        case isTrue => cases h
        case isFalse =>
          refine ⟨?_, by rw [not_not.mp hread, List.drop_length], rfl⟩
          by_contra hended
          rw [if_neg hended] at h
          cases h
  | cons chunk chunks ih =>
      rw [Stack.pollFrom] at h
      split at h
      case isTrue => cases h
      case isFalse hread =>
        obtain ⟨hended, hchunk, hrest⟩ :=
          ih (s := { s with chunk := chunk, taken := 0, chunks := chunks }) rfl h
        refine ⟨hended, by rw [not_not.mp hread, List.drop_length], ?_⟩
        rw [List.flatten_cons, hrest, List.append_nil]
        exact hchunk

/-- The loop does not look at a stream that is cut off. -/
def Uncut (s : Stack tcp) : StackEvent tcp → Prop
  | .report => (s.point = .reporting && s.cutOff) = false
  | _ => True

instance decidableUncut (s : Stack tcp) : ∀ event, Decidable (s.Uncut event)
  | .report => inferInstanceAs (Decidable ((s.point = .reporting && s.cutOff) = false))
  | .top .. | .receive | .release | .decide | .wake _ | .publish | .leave | .read _ =>
      .isTrue trivial

theorem Whole.step (h : s.Whole) {event : StackEvent tcp} (huncut : s.Uncut event)
    (hstep : s.Step event t) : t.Whole := by
  subst hstep
  cases event with
  | top wire gaveUp late =>
      rw [after]
      split
      · exact h.top wire gaveUp late
      · exact h
  | receive =>
      rw [after]
      split
      · exact h.receive
      · exact h
  | report =>
      rw [after]
      split
      case isTrue hpoint =>
        have hcut : (s.point = .reporting && s.cutOff) = false := huncut
        rw [decide_eq_true hpoint, Bool.true_and] at hcut
        exact h.report hcut
      case isFalse => exact h
  | release =>
      rw [after]
      split
      · exact { h with }
      · exact h
  | decide =>
      rw [after]
      split
      · unfold decide
        dsimp only
        split <;> exact { h with }
      · exact h
  | wake cause =>
      rw [after]
      split
      · unfold wake
        split
        · exact { h with }
        · split
          · exact { h with }
          · exact h
        · split
          · exact { h with }
          · exact h
        · exact { h with }
        · exact { h with }
      · exact h
  | publish =>
      rw [after]
      split
      · exact { h with progress := h.last }
      · exact h
  | leave =>
      rw [after]
      split
      · exact { h with }
      · exact h
  | read size => exact h.pollFrom size

theorem whole_of_reaches (h : Reaches Step Uncut (new tcp) s) : s.Whole :=
  h.invariant whole_new fun hs huncut hstep => hs.step huncut hstep

/-- The condition is needed: a stream that is cut off is said to have ended. -/
theorem report_of_cutOff (h : s.cutOff = true) :
    s.report.progress.endedCleanly = true ∧ tcp.finReceived s.report.socket = false := by
  simp only [cutOff, Bool.and_eq_true, decide_eq_true_eq, Bool.not_eq_true'] at h
  obtain ⟨⟨⟨hup, hclosed⟩, hempty⟩, hfin⟩ := h
  refine ⟨?_, hfin⟩
  simp [report, finishedReading, Tcp.mayRecv, Tcp.canRecv, hup, hclosed, hempty, TcpState.receives]

end Stack

/-! ### A connection with a peer that hangs up -/

/-- A socket without a send side. -/
structure PeerSocket where
  state : TcpState
  unread : Bytes
  arrived : Bytes
  fin : Bool
  fin_of_state : state.afterFin = true → fin = true

/-- What a peer sends. -/
inductive Segment
  | synAck
  | data (bytes : Bytes)
  | fin
  | rst

def TcpState.onFin : TcpState → TcpState
  | established => closeWait
  | finWait1 => closing
  | _ => timeWait

namespace PeerSocket

def poll (s : PeerSocket) : Segment → PeerSocket
  | .synAck =>
      if s.state = .synSent then ⟨.established, s.unread, s.arrived, s.fin, nofun⟩ else s
  | .data bytes =>
      if s.state.receives && !s.fin then
        { s with unread := s.unread ++ bytes, arrived := s.arrived ++ bytes }
      else s
  | .fin =>
      if s.state.receives then ⟨s.state.onFin, s.unread, s.arrived, true, fun _ => rfl⟩ else s
  | .rst => ⟨.closed, s.unread, s.arrived, s.fin, nofun⟩

def close (s : PeerSocket) : PeerSocket :=
  if s.state = .established then ⟨.finWait1, s.unread, s.arrived, s.fin, nofun⟩
  else if h : s.state = .closeWait then
    ⟨.lastAck, s.unread, s.arrived, s.fin, fun _ => s.fin_of_state (h ▸ rfl)⟩
  else s

end PeerSocket

def peerTcp : Tcp where
  Socket := PeerSocket
  Wire := Segment
  state := PeerSocket.state
  unread := PeerSocket.unread
  arrived := PeerSocket.arrived
  finReceived := PeerSocket.fin
  sendQueue _ := 0
  canSend s := s.state.sends
  connecting := ⟨.synSent, [], [], false, nofun⟩
  poll := PeerSocket.poll
  sendSlice s bytes := (.ok bytes.length, s)
  close := PeerSocket.close
  take s n := { s with unread := s.unread.drop n }
  unread_connecting := rfl
  arrived_connecting := rfl
  fin_of_state := PeerSocket.fin_of_state
  begun_poll s segment hbegun := by
    cases segment with
    | synAck =>
        rw [PeerSocket.poll]
        split
        · rfl
        · exact hbegun
    | data =>
        rw [PeerSocket.poll]
        split <;> exact hbegun
    | fin =>
        rw [PeerSocket.poll]
        split
        · dsimp only
          cases s.state <;> rfl
        · exact hbegun
    | rst => rfl
  begun_close s hbegun := by
    unfold PeerSocket.close
    split
    · rfl
    · split
      · rfl
      · exact hbegun
  fin_poll s segment hfin := by
    cases segment with
    | synAck => rw [PeerSocket.poll]; split <;> exact hfin
    | data => rw [PeerSocket.poll]; split <;> exact hfin
    | fin =>
        rw [PeerSocket.poll]
        split
        · rfl
        · exact hfin
    | rst => exact hfin
  poll_bytes s segment := by
    cases segment with
    | synAck =>
        rw [PeerSocket.poll]
        split <;> exact ⟨[], (List.append_nil _).symm, (List.append_nil _).symm, fun _ => rfl⟩
    | data bytes =>
        rw [PeerSocket.poll]
        split
        case isTrue hreceives =>
          refine ⟨bytes, rfl, rfl, fun hfin => ?_⟩
          rw [hfin, Bool.not_true, Bool.and_false] at hreceives
          cases hreceives
        case isFalse =>
          exact ⟨[], (List.append_nil _).symm, (List.append_nil _).symm, fun _ => rfl⟩
    | fin =>
        rw [PeerSocket.poll]
        split <;> exact ⟨[], (List.append_nil _).symm, (List.append_nil _).symm, fun _ => rfl⟩
    | rst => exact ⟨[], (List.append_nil _).symm, (List.append_nil _).symm, fun _ => rfl⟩
  same_close s := by
    unfold PeerSocket.close
    split
    · exact ⟨rfl, rfl, rfl⟩
    · split <;> exact ⟨rfl, rfl, rfl⟩
  same_sendSlice _ _ := ⟨rfl, rfl, rfl, rfl⟩
  same_take _ _ := ⟨rfl, rfl, rfl, rfl⟩

namespace Stack

/-- One turn of the loop, in which so many pieces go to the reader. -/
def turn (segment : Segment) (pieces : ℕ) : List (StackEvent peerTcp) :=
  .top segment false false :: List.replicate (pieces + 1) .receive ++
    [.report, .release, .decide, .wake .timer]

/-- The peer answers, sends two bytes and its FIN, and the reader takes them. -/
def finishedRun : List (StackEvent peerTcp) :=
  turn .synAck 0 ++ turn (.data [1, 2]) 1 ++ turn .fin 0 ++ [.read 10]

def finishedStream : Stack peerTcp := finishedRun.foldl after (new peerTcp)

/-- The peer answers, and resets the connection. -/
def resetRun : List (StackEvent peerTcp) :=
  turn .synAck 0 ++ [.top .rst false false, .receive, .report, .release]

end Stack

end SynologyFilestation.Openvpn
