import SynologyFilestation.Openvpn.Deadlines
import SynologyFilestation.Openvpn.Ifconfig

/-!
The task that drives a session (`openvpn/src/driver.rs`).

It sends what the session has to say, looks whether the tunnel goes on, and then waits for the
first of three: a datagram, a payload of the caller, or the time to wake. Between two waits no time
passes for it. What the caller does goes on beside it.
-/

namespace SynologyFilestation.Openvpn

open Core Library

/-! ### Errors -/

/-- `Error::is_fatal`. -/
def Error.isFatal : Error → Bool
  | truncated _ | unknownOpcode _ | badHmac | wrongSession | ackForAnotherSession
  | unexpectedFirstPacket | replayed | otherKeyId .. | tooManyAcks _ | unexpectedDataOpcode _
  | badPadding | unexpectedControlMessage _ | notReady => false
  | unsupportedKeyMethod _ | fieldTooLong _ | tls _ | authFailed _ | peerClosed
  | packetIdExhausted | badPushDirective _ | unsupportedCipher _ | unsupportedCompression _
  | noPushReply => true

/-- `Error`, with what only the driver reports. -/
inductive LinkError
  | session (e : Error)
  | handshakeTimeout
  | peerGone (limit : ℕ)
  | io (text : String)
  deriving DecidableEq

/-- `Error::is_fatal`. -/
def LinkError.isFatal : LinkError → Bool
  | session e => e.isFatal
  | handshakeTimeout | peerGone _ | io _ => true

/-- `ErrorKind`, as far as kinds are told apart. -/
inductive ErrorKind
  | connectionRefused
  | connectionReset
  | hostUnreachable
  | networkUnreachable
  | timedOut
  | other
  deriving DecidableEq

/-- What the socket reports. -/
structure SocketError where
  kind : ErrorKind
  text : String

/-- `is_transient`. -/
def SocketError.isTransient (error : SocketError) : Bool :=
  match error.kind with
  | .connectionRefused | .connectionReset | .hostUnreachable | .networkUnreachable
  | .timedOut => true
  | .other => false

/-! ### What is asked of the session -/

variable {p : Primitives}

namespace Session

/-- `Session::is_ready`. -/
def isReady (s : Session p) : Bool := s.data.isSome

/-- `Session::peer_timeout`; `peerTimeout` is what was configured. -/
def silenceLimit (s : Session p) : Option ℕ :=
  match s.push with
  | none => s.peerTimeout
  | some push =>
      if push.pingRestartDisabled then none
      else
        match push.pingRestart with
        | some limit => some limit
        | none => s.peerTimeout

/-- `Session::is_data`. -/
def isData (datagram : Bytes) : Bool :=
  match datagram.head? with
  | some first => first >>> 3 = Opcode.dataV1.toU8 || first >>> 3 = Opcode.dataV2.toU8
  | none => false

/-- Where the push reply puts us. -/
def ifconfig (s : Session p) : Option Ifconfig :=
  s.push.bind fun reply => reply.ifconfig.map fun (address, second) => .fromPush address second

end Session

/-! ### The task -/

/-- `CONNECT_TIMEOUT`. -/
def connectTimeout : ℕ := fromSecs 30

/-- `IDLE_POLL`. -/
def idlePoll : ℕ := 100 * 10 ^ 6

/-- The length of `buffer`. -/
def bufferSize : ℕ := 4096

/-- The bound of each channel between the task and the caller. -/
def channelBound : ℕ := 64

/-- Where the task is. -/
inductive TaskPoint
  | sending
  | deciding
  | waiting (deadline : ℕ)
  | stopped
  | aborted
  deriving DecidableEq

/-- What has passed each end of the tunnel; nothing reads it. -/
structure Passed where
  /-- What the caller has sent. -/
  sent : List Bytes
  /-- What the session was given to wrap. -/
  wrapped : List Bytes
  /-- What the session found in datagrams. -/
  opened : List Bytes
  /-- What the caller has received. -/
  taken : List Bytes

/-- The task of `run` and the `Tunnel` that is its caller's. -/
structure Driver (p : Primitives) where
  session : Session p
  /-- Whether `ready` is still to be sent on. -/
  ready : Bool
  /-- What was sent on it. -/
  answer : Option (Except LinkError (Option Ifconfig))
  lastHeard : ℕ
  fromCaller : List Bytes
  toCaller : List Bytes
  /-- Whether the caller has its ends of the channels. -/
  held : Bool
  /-- `LinkFailure`. -/
  failure : Option LinkError
  point : TaskPoint
  clock : ℕ
  passed : Passed

namespace Driver

/-- `run`, where it begins. -/
def begun (session : Session p) (now : ℕ) : Driver p where
  session := session
  ready := true
  answer := none
  lastHeard := now
  fromCaller := []
  toCaller := []
  held := true
  failure := none
  point := .sending
  clock := now
  passed := ⟨[], [], [], []⟩

variable (d : Driver p)

/-- `break_with` and `finish`: the caller that waits is told, and the first reason stands. -/
def stop (e : LinkError) : Driver p :=
  { d with
    ready := false
    answer := if d.ready then some (.error e) else d.answer
    failure := some (d.failure.getD e)
    point := .stopped }

/-- One turn of the inner loop. Whether the datagram goes out makes no difference. -/
def transmit (netTime : UInt32) (iv : {iv : Bytes // iv.length = 16}) : Driver p :=
  match d.session.pollTransmit d.clock netTime iv with
  | (some _, session) => { d with session := session }
  | (none, session) => { d with session := session, point := .deciding }

/-- The caller that waits on `connect` is told that the tunnel carries. -/
def announce : Driver p :=
  if d.session.isReady && d.ready then
    { d with ready := false, answer := some (.ok d.session.ifconfig) }
  else d

/-- The time to sleep. -/
def wakeup : ℕ :=
  min (((d.session.nextWakeup d.clock).map (· - d.clock)).getD idlePoll)
    (max idlePoll (fromSecs 1))

/-- The wait begins. -/
def wait : Driver p := { d with point := .waiting (d.clock + d.wakeup) }

/-- From the end of the inner loop to the wait. -/
def decide : Driver p :=
  match d.session.failure with
  | some e => d.stop (.session e)
  | none =>
      match d.session.silenceLimit with
      | some limit =>
          if limit ≤ d.clock - d.lastHeard then d.announce.stop (.peerGone limit)
          else d.announce.wait
      | none => d.announce.wait

/-- The session has handled something, and goes on unless that failed for good. -/
def settle (result : Except Error Unit) (session : Session p) : Driver p :=
  match result with
  | .ok () => { d with session := session, point := .sending }
  | .error e =>
      if e.isFatal then { d with session := session }.stop (.session e)
      else { d with session := session, point := .sending }

/-- `try_send`, of what came out of the tunnel. -/
def handUp (payload : Bytes) : Driver p :=
  if !d.held then d.stop (.io "nobody is reading the tunnel")
  else if d.toCaller.length < channelBound then
    { d with toCaller := d.toCaller ++ [payload], point := .sending }
  else { d with point := .sending }

/-- A datagram arrives, as much of it as the buffer takes. -/
def arrive (datagram : Bytes) (fresh : Fresh p) : Driver p :=
  let datagram := datagram.take bufferSize
  let d := { d with lastHeard := d.clock }
  if Session.isData datagram then
    match d.session.receivePayload datagram with
    | (.ok none, session) => d.settle (.ok ()) session
    | (.ok (some payload), session) =>
        { d with
          session := session
          passed := { d.passed with opened := d.passed.opened ++ [payload] } }.handUp payload
    | (.error e, session) => d.settle (.error e) session
  else
    let (result, session) := d.session.handle datagram d.clock fresh
    d.settle result session

/-- The socket reports something. -/
def socketFails (error : SocketError) : Driver p :=
  if error.isTransient then { d with point := .sending } else d.stop (.io error.text)

/-- The caller's next payload goes out, if it has one or has gone. -/
def outbound (iv : {iv : Bytes // iv.length = 16}) : Driver p :=
  match d.fromCaller with
  | payload :: rest =>
      let (result, session) := d.session.sendPayload d.clock payload iv
      { d with
        fromCaller := rest
        passed := { d.passed with wrapped := d.passed.wrapped ++ [payload] } }.settle
          (result.map fun _ => ()) session
  | [] => if d.held then d else d.stop (.io "the tunnel was dropped")

/-- `Tunnel::send`, when there is room. -/
def send (payload : Bytes) : Driver p :=
  if d.held && (d.point ≠ .stopped && d.point ≠ .aborted) &&
      (d.fromCaller.length < channelBound : Bool) then
    { d with
      fromCaller := d.fromCaller ++ [payload]
      passed := { d.passed with sent := d.passed.sent ++ [payload] } }
  else d

/-- `Tunnel::recv`, when there is something. -/
def recv : Driver p :=
  match d.toCaller with
  | payload :: rest =>
      if d.held then
        { d with
          toCaller := rest
          passed := { d.passed with taken := d.passed.taken ++ [payload] } }
      else d
  | [] => d

/-- `Tunnel::connect`, as far as it is, once its patience is over or not. -/
def connect (late : Bool) : Option (Except LinkError (Option Ifconfig)) :=
  match d.answer with
  | some answer => some answer
  | none =>
      if d.point = .stopped ∨ d.point = .aborted then some (.error (.io "the tunnel task stopped"))
      else if late then some (.error .handshakeTimeout)
      else none

/-- `why_it_stopped`. -/
def whyItStopped : LinkError := d.failure.getD (.io "the tunnel has stopped")

end Driver

/-- What happens to the task, what its caller does, and the time. -/
inductive DriverEvent (p : Primitives)
  | transmit (netTime : UInt32) (iv : {iv : Bytes // iv.length = 16})
  | decide
  | arrive (datagram : Bytes) (fresh : Fresh p)
  | socketFails (error : SocketError)
  | outbound (iv : {iv : Bytes // iv.length = 16})
  | timer
  | send (payload : Bytes)
  | recv
  | drop
  | abort
  | passes (time : ℕ)

namespace Driver

variable (d : Driver p)

/-- The wait ends with this, if the task waits. -/
def woken (next : Driver p) : Driver p :=
  match d.point with
  | .waiting _ => next
  | _ => d

/-- What cannot happen changes nothing: the task is elsewhere, or its deadline has not come, or the
caller has not let go. -/
def after : DriverEvent p → Driver p
  | .transmit netTime iv => if d.point = .sending then d.transmit netTime iv else d
  | .decide => if d.point = .deciding then d.decide else d
  | .arrive datagram fresh => d.woken (d.arrive datagram fresh)
  | .socketFails error => d.woken (d.socketFails error)
  | .outbound iv => d.woken (d.outbound iv)
  | .timer =>
      match d.point with
      | .waiting deadline => if deadline ≤ d.clock then { d with point := .sending } else d
      | _ => d
  | .send payload => d.send payload
  | .recv => d.recv
  | .drop => { d with held := false }
  | .abort => if d.held || d.point = .stopped then d else { d with point := .aborted }
  | .passes time => { d with clock := d.clock + time }

def Step (d : Driver p) (event : DriverEvent p) (t : Driver p) : Prop := t = d.after event

end Driver

end SynologyFilestation.Openvpn
