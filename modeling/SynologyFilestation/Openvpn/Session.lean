import SynologyFilestation.Library.Fallible
import SynologyFilestation.Openvpn.Outbox
import SynologyFilestation.Openvpn.Push
import SynologyFilestation.Openvpn.Tls

/-!
The session on the control channel (`openvpn/src/session.rs`).

A call of `handle` takes a datagram, feeds the records that came out of the channel
to the connection of their generation, reads what was decrypted, and carries a
renegotiation forward. Each of these may fail, and then the call ends there.
-/

namespace SynologyFilestation.Openvpn

open Core Library

/-- What the session uses and the repository does not contain. -/
structure Primitives where
  hmac : Hmac
  cipher : Cipher
  prf : PrfHmacs
  tls : Tls

/-- What one call may draw at random. -/
structure Fresh (p : Primitives) where
  seed : p.tls.Seed
  preMaster : Bytes
  clientRandom1 : Bytes
  clientRandom2 : Bytes

/-- A connection. The number of the generation that it was made for is not in the source and
nothing reads it. -/
structure Connection (tls : Tls) where
  state : tls.State
  generation : ℕ

/-- `Credentials`. -/
structure Credentials where
  username : Bytes
  password : Bytes
  deriving DecidableEq

/-- `Phase`. -/
inductive Phase
  | tls
  | awaitingKeys
  | established
  | awaitingPush
  | ready
  deriving DecidableEq

/-- `Renegotiation`. -/
structure Renegotiation (p : Primitives) where
  keyId : KeyId
  tls : Connection p.tls
  outbox : Outbox
  source : KeySource2
  inbound : Bytes
  sentKeyMaterial : Bool

/-- `Session`; the configuration and the server name are those of `Tls`. -/
structure Session (p : Primitives) where
  channel : ControlChannel
  tls : Connection p.tls
  outbox : Outbox
  renegotiation : Option (Renegotiation p)
  phase : Phase
  source : KeySource2
  credentials : Option Credentials
  inbound : Bytes
  keys : Option Bytes
  push : Option PushReply
  peerTimeout : Option ℕ
  pushRequestedAt : Option ℕ
  pushFirstRequestedAt : Option ℕ
  data : Option DataChannel
  previousData : Option DataChannel
  lastSent : Option ℕ
  failure : Option Error

/-- `OPTIONS`. -/
def options : Bytes := ascii
  "V4,dev-type tun,link-mtu 1602,tun-mtu 1500,proto UDPv4,cipher AES-256-CBC,auth SHA512,keysize 256,key-method 2,tls-client"

/-- `PEER_INFO`. -/
def peerInfo : Bytes :=
  ascii "IV_VER=2.5.11\nIV_PLAT=rust\nIV_PROTO=2\nIV_CIPHERS=AES-256-CBC\n"

/-- `PUSH_REQUEST_INTERVAL`. -/
def pushRequestInterval : ℕ := fromSecs 5

/-- `PUSH_REQUEST_TIMEOUT`. -/
def pushRequestTimeout : ℕ := fromSecs 60

/-- `PING`. -/
def pingPayload : Bytes :=
  [0x2a, 0x18, 0x7b, 0xf3, 0x64, 0x1e, 0xb4, 0xcb, 0x07, 0xed, 0x2d, 0x0a, 0x98, 0x1f, 0xc7, 0x48]

/-- The key material that goes out, of either connection. -/
def ourKeyMaterial (source : KeySource2) (credentials : Option Credentials) : Except Error Bytes :=
  let (username, password) := match credentials with
    | some credentials => (credentials.username, credentials.password)
    | none => ([], [])
  encodeClientKeyMethod2 source options username password peerInfo

/-- A message that is neither key material nor expected: `AUTH_FAILED`, or anything else. -/
def refusal (text : Bytes) : Error :=
  match authFailedDetail text with
  | some detail => .authFailed detail
  | none => .unexpectedControlMessage text

/-- The server's halves of the key source. -/
def KeySource2.answeredBy (source : KeySource2) (reply : ServerKeyMethod2) : KeySource2 :=
  { source with serverRandom1 := reply.random1, serverRandom2 := reply.random2 }

variable {p : Primitives}

/-! ### The connection of a new generation -/

namespace Renegotiation

variable (r : Renegotiation p)

/-- The key material goes out once, when the handshake is over. -/
def sendKeyMaterial (credentials : Option Credentials) : Except Error Unit × Renegotiation p :=
  if p.tls.isHandshaking r.tls.state || r.sentKeyMaterial then (.ok (), r)
  else
    match ourKeyMaterial r.source credentials with
    | .error e => (.error e, r)
    | .ok message =>
        match p.tls.write r.tls.state message with
        | (.error e, state) => (.error (.tls e), { r with tls := { r.tls with state := state } })
        | (.ok (), state) =>
            (.ok (), { r with tls := { r.tls with state := state }, sentKeyMaterial := true })

def drainPlaintext : Except Error Unit × Renegotiation p :=
  let (result, state, inbound) := p.tls.drain r.tls.state r.inbound
  (result, { r with tls := { r.tls with state := state }, inbound := inbound })

end Renegotiation

namespace Session

variable (s : Session p)

/-- `Session::new`. -/
def new (auth : TlsAuth) (localSession : SessionId) (tlsTimeout : ℕ)
    (credentials : Option Credentials) (peerTimeout : Option ℕ) (fresh : Fresh p) :
    Except Error (Session p) :=
  match p.tls.connect fresh.seed with
  | .error e => .error (.tls e)
  | .ok state => .ok {
      channel := (ControlChannel.new auth localSession tlsTimeout).opening
      tls := ⟨state, 0⟩
      outbox := ⟨[]⟩
      renegotiation := none
      phase := .tls
      source := .newClient fresh.preMaster fresh.clientRandom1 fresh.clientRandom2
      credentials := credentials
      inbound := []
      keys := none
      push := none
      peerTimeout := peerTimeout
      pushRequestedAt := none
      pushFirstRequestedAt := none
      data := none
      previousData := none
      lastSent := none
      failure := none }

/-! ### The tunnel -/

/-- `send_payload`. -/
def sendPayload (now : ℕ) (payload : Bytes) (iv : {iv : Bytes // iv.length = 16}) :
    Except Error Bytes × Session p :=
  match s.data with
  | none => (.error .notReady, s)
  | some data =>
      match data.encryptWithIv p.cipher p.hmac payload iv with
      | (.error e, data) => (.error e, { s with data := some data })
      | (.ok datagram, data) => (.ok datagram, { s with data := some data, lastSent := some now })

/-- What is left of a payload that is for the caller. -/
def withoutPing (payload : Bytes) : Option Bytes :=
  if payload = pingPayload then none else some payload

/-- `receive_payload`. -/
def receivePayload (datagram : Bytes) : Except Error (Option Bytes) × Session p :=
  match s.data with
  | none => (.error .notReady, s)
  | some data =>
      match data.decrypt p.cipher p.hmac datagram with
      | (.ok payload, data) =>
          (.ok (withoutPing payload), { s with data := some data, previousData := none })
      | (.error (.otherKeyId theirs ours), data) =>
          match s.previousData with
          | none => (.error (.otherKeyId theirs ours), { s with data := some data })
          | some previous =>
              let (result, previous) := previous.decrypt p.cipher p.hmac datagram
              (result.map withoutPing,
                { s with data := some data, previousData := some previous })
      | (.error e, data) => (.error e, { s with data := some data })

/-- `open_tunnel`. -/
def openTunnel : Except Error Unit × Session p :=
  match s.keys with
  | none => (.error .notReady, s)
  | some keys =>
      match DataKeys.forClient keys with
      | .error e => (.error e, s)
      | .ok keys => (.ok (), { s with
          data := some
            (.new keys (s.push.bind fun reply => reply.peerId) s.channel.primary.keyId) })

/-! ### Handling a datagram -/

/-- The connection that a record under this key id is fed to is the renegotiation's if that
has the key id, and otherwise the one that carries traffic. -/
def feedRecord (keyId : KeyId) (record : Bytes) : Except Error Unit × Session p :=
  match s.renegotiation with
  | some pending =>
      if pending.keyId = keyId then
        let (result, state) := p.tls.feed pending.tls.state record
        (result, { s with
          renegotiation := some { pending with tls := { pending.tls with state := state } } })
      else
        let (result, state) := p.tls.feed s.tls.state record
        (result, { s with tls := { s.tls with state := state } })
  | none =>
      let (result, state) := p.tls.feed s.tls.state record
      (result, { s with tls := { s.tls with state := state } })

/-- The loop over what the channel has. -/
def feedRecords : ℕ → Session p → Except Error Unit × Session p
  | 0, s => (.ok (), s)
  | n + 1, s =>
      match s.channel.pollControl with
      | (none, channel) => (.ok (), { s with channel := channel })
      | (some (keyId, record), channel) =>
          andThen ({ s with channel := channel }.feedRecord keyId record) (feedRecords n)

/-- One more than the messages that the generations keep: every record was one. -/
def recordsBound (channel : ControlChannel) : ℕ :=
  channel.primary.recv.buffered.entries.length +
    (channel.pending.map fun state => state.recv.buffered.entries.length).getD 0 + 1

/-- `handle` up to the end of its loop. -/
def receive (datagram : Bytes) (now : ℕ) : Except Error Unit × Session p :=
  match s.failure with
  | some e => (.error e, { s with failure := none })
  | none =>
      match s.channel.handle p.hmac datagram now with
      | (.error e, channel) => (.error e, { s with channel := channel })
      | (.ok (), channel) => feedRecords (recordsBound channel) { s with channel := channel }

/-- `send_our_key_material`. -/
def sendOurKeyMaterial : Except Error Unit × Session p :=
  if s.phase ≠ .tls || p.tls.isHandshaking s.tls.state then (.ok (), s)
  else
    match ourKeyMaterial s.source s.credentials with
    | .error e => (.error e, s)
    | .ok message =>
        match p.tls.write s.tls.state message with
        | (.error e, state) => (.error (.tls e), { s with tls := { s.tls with state := state } })
        | (.ok (), state) =>
            (.ok (), { s with tls := { s.tls with state := state }, phase := .awaitingKeys })

/-- `drain_plaintext`. -/
def drainPlaintext : Except Error Unit × Session p :=
  let (result, state, inbound) := p.tls.drain s.tls.state s.inbound
  (result, { s with tls := { s.tls with state := state }, inbound := inbound })

/-- What `receive_push_reply` makes of a control message. -/
def takePushReply (text : Bytes) : Except Error Unit × Session p :=
  match authFailedDetail text with
  | some detail => (.error (.authFailed detail), s)
  | none =>
      match PushReply.parse text with
      | .error e => (.error e, s)
      | .ok reply =>
          if !reply.compressionIsSupported then
            (.error (.unsupportedCompression (reply.compression.getD [])), s)
          else if !reply.cipherIsSupported then
            (.error (.unsupportedCipher (reply.cipher.getD [])), s)
          else { s with push := some reply, phase := .ready }.openTunnel

/-- `receive_push_reply`. -/
def receivePushReply : Except Error Unit × Session p :=
  if s.phase ≠ .awaitingPush || s.inbound = [] then (.ok (), s)
  else
    match ServerMessage.decode s.inbound with
    | .error (.truncated _) => (.ok (), s)
    | .error e => (.error e, s)
    | .ok (.keyMethod2 _, used) =>
        (.error (.unexpectedControlMessage (ascii "key material after the exchange")),
          { s with inbound := s.inbound.drop used })
    | .ok (.control text, used) => { s with inbound := s.inbound.drop used }.takePushReply text

/-- `receive_their_key_material`. -/
def receiveTheirKeyMaterial : Except Error Unit × Session p :=
  if s.phase ≠ .awaitingKeys then (.ok (), s)
  else
    match ServerMessage.decode s.inbound with
    | .error (.truncated _) => (.ok (), s)
    | .error e => (.error e, s)
    | .ok (.control text, used) =>
        (.error (refusal text), { s with inbound := s.inbound.drop used })
    | .ok (.keyMethod2 reply, used) =>
        let source := s.source.answeredBy reply
        match s.channel.remoteSession with
        | none => (.error (.tls "key material before a session id"), { s with source := source })
        | some server => receivePushReply { s with
            source := source
            keys := some (keyExpansion p.prf source s.channel.localSession server)
            inbound := s.inbound.drop used
            phase := .awaitingPush }

/-- `begin_renegotiation`. -/
def beginRenegotiation (fresh : Fresh p) : Except Error Unit × Session p :=
  match s.channel.pending with
  | none => (.ok (), s)
  | some state =>
      if s.renegotiation.map (·.keyId) = some state.keyId then (.ok (), s)
      else
        match p.tls.connect fresh.seed with
        | .error e => (.error (.tls e), s)
        | .ok connection => (.ok (), { s with renegotiation := some {
            keyId := state.keyId
            tls := ⟨connection, state.generation⟩
            outbox := ⟨[]⟩
            source := .newClient fresh.preMaster fresh.clientRandom1 fresh.clientRandom2
            inbound := []
            sentKeyMaterial := false } })

/-- Everything swaps at once, when the new generation has its keys. -/
def takeOver (pending : Renegotiation p) (reply : ServerKeyMethod2) (used : ℕ) :
    Except Error Unit × Session p :=
  let source := pending.source.answeredBy reply
  match s.channel.remoteSession with
  | none => (.error (.tls "key material before a session id"),
      { s with renegotiation := some { pending with source := source } })
  | some server =>
      let next : Session p := { s with
        renegotiation := none
        channel := s.channel.promote
        tls := pending.tls
        outbox := pending.outbox
        source := source
        inbound := pending.inbound.drop used
        keys := some (keyExpansion p.prf source s.channel.localSession server)
        previousData := s.data
        data := none }
      if s.data.isSome then next.openTunnel else (.ok (), next)

/-- `advance_renegotiation`. -/
def advanceRenegotiation : Except Error Unit × Session p :=
  match s.renegotiation with
  | none => (.ok (), s)
  | some pending =>
      match andThen (pending.sendKeyMaterial s.credentials) Renegotiation.drainPlaintext with
      | (.error e, pending) => (.error e, { s with renegotiation := some pending })
      | (.ok (), pending) =>
          match ServerMessage.decode pending.inbound with
          | .error (.truncated _) => (.ok (), { s with renegotiation := some pending })
          | .error e => (.error e, { s with renegotiation := some pending })
          | .ok (.control text, used) => (.error (refusal text), { s with
              renegotiation := some { pending with inbound := pending.inbound.drop used } })
          | .ok (.keyMethod2 reply, used) => s.takeOver pending reply used

/-- What `handle` does when the records are fed. -/
def process (fresh : Fresh p) : Except Error Unit × Session p :=
  andThen (andThen (andThen (andThen (andThen s.sendOurKeyMaterial drainPlaintext)
    receiveTheirKeyMaterial) receivePushReply) (beginRenegotiation · fresh)) advanceRenegotiation

/-- `Session::handle`. -/
def handle (datagram : Bytes) (now : ℕ) (fresh : Fresh p) : Except Error Unit × Session p :=
  andThen (s.receive datagram now) (process · fresh)

/-! ### Sending -/

/-- `send_push_request`. -/
def sendPushRequest (now : ℕ) : Except Error Unit × Session p :=
  match p.tls.write s.tls.state (pushRequest ++ [0]) with
  | (.error e, state) => (.error (.tls e), { s with tls := { s.tls with state := state } })
  | (.ok (), state) => (.ok (), { s with
      tls := { s.tls with state := state }
      pushRequestedAt := some now
      pushFirstRequestedAt := some (s.pushFirstRequestedAt.getD now) })

/-- A moment is at least so long ago; `duration_since` does not go below zero. -/
def isSince (since : Option ℕ) (interval now : ℕ) : Bool :=
  match since with
  | some since => interval ≤ now - since
  | none => false

/-- `resend_push_request`. -/
def resendPushRequest (now : ℕ) : Except Error Unit × Session p :=
  if s.phase ≠ .awaitingPush then (.ok (), s)
  else if isSince s.pushFirstRequestedAt pushRequestTimeout now then (.error .noPushReply, s)
  else if s.pushRequestedAt.isSome && !isSince s.pushRequestedAt pushRequestInterval now then
    (.ok (), s)
  else s.sendPushRequest now

/-- `poll_keepalive`. -/
def pollKeepalive (now : ℕ) (iv : {iv : Bytes // iv.length = 16}) : Option Bytes × Session p :=
  match s.push.bind fun reply => reply.ping with
  | none => (none, s)
  | some interval =>
      if s.lastSent.isSome && !isSince s.lastSent interval now then (none, s)
      else
        match s.data with
        | none => (none, s)
        | some data =>
            match data.encryptWithIv p.cipher p.hmac pingPayload iv with
            | (.error _, data) => (none, { s with data := some data })
            | (.ok datagram, data) =>
                (some datagram, { s with data := some data, lastSent := some now })

/-- What TLS has written goes to the outbox, and from there to the channel. -/
def flush (connection : Connection p.tls) (outbox : Outbox) (channel : ControlChannel)
    (keyId : KeyId) : Connection p.tls × Outbox × ControlChannel :=
  let (state, bytes) := p.tls.pump connection.state
  let (outbox, channel) := (outbox.push bytes).drainInto channel keyId
  ({ connection with state := state }, outbox, channel)

def flushPrimary : Session p :=
  let (tls, outbox, channel) := flush s.tls s.outbox s.channel s.channel.primary.keyId
  { s with tls := tls, outbox := outbox, channel := channel }

def flushRenegotiation : Session p :=
  match s.renegotiation with
  | none => s
  | some pending =>
      let (tls, outbox, channel) := flush pending.tls pending.outbox s.channel pending.keyId
      { s with
        renegotiation := some { pending with tls := tls, outbox := outbox }, channel := channel }

/-- `Session::poll_transmit`. -/
def pollTransmit (now : ℕ) (netTime : UInt32) (iv : {iv : Bytes // iv.length = 16}) :
    Option Bytes × Session p :=
  if s.failure.isSome then (none, s)
  else
    match s.resendPushRequest now with
    | (.error e, s) => (none, { s with failure := some e })
    | (.ok (), s) =>
        let s := s.flushPrimary.flushRenegotiation
        match s.channel.pollTransmit p.hmac now netTime with
        | (some datagram, channel) =>
            (some datagram, { s with channel := channel, lastSent := some now })
        | (none, channel) => { s with channel := channel }.pollKeepalive now iv

/-! ### The loop over the records ends -/

theorem recordsBound_withState {c : ControlChannel} {keyId : KeyId} {state : KeyState}
    (h : c.stateOf keyId = some state) (recv : RecvWindow) :
    recordsBound (c.withState keyId { state with recv := recv }) +
        state.recv.buffered.entries.length =
      recordsBound c + recv.buffered.entries.length := by
  unfold ControlChannel.stateOf at h
  unfold ControlChannel.withState recordsBound
  split at h
  case isTrue hprimary =>
    obtain rfl := Option.some.inj h
    rw [if_pos hprimary]
    dsimp only
    omega
  case isFalse hprimary =>
    rw [if_neg hprimary]
    split at h
    case h_1 pending hpending =>
      split at h
      case isTrue =>
        obtain rfl := Option.some.inj h
        rw [hpending]
        dsimp only [Option.map_some, Option.getD_some]
        omega
      case isFalse => cases h
    case h_2 => cases h

/-- A record that is taken is one message less. -/
theorem recordsBound_pollKeys {keyIds : List KeyId} {c c' : ControlChannel}
    {polled : KeyId × Bytes} (h : ControlChannel.pollKeys keyIds c = (some polled, c')) :
    recordsBound c' < recordsBound c := by
  induction keyIds generalizing c with
  | nil => cases h
  | cons keyId keyIds ih =>
      rw [ControlChannel.pollKeys] at h
      split at h
      case h_1 => cases h
      case h_2 state hstate =>
        have hbound := recordsBound_withState hstate
        split at h
        case h_1 recv hrecord =>
          obtain ⟨-, rfl⟩ := Prod.mk.inj h
          have hless := RecvWindow.length_nextRecord hrecord
          have hrecv := hbound recv
          omega
        case h_2 recv hnone =>
          have hle := (RecvWindow.nextInOrder_of_nextRecord le_rfl hnone).2
          have hrecv := hbound recv
          have hrest := ih h
          omega

/-- More steps feed no other record. -/
theorem feedRecords_succ {n : ℕ} (hn : recordsBound s.channel ≤ n) :
    feedRecords (n + 1) s = feedRecords n s := by
  induction n generalizing s with
  | zero => exact absurd hn (Nat.not_succ_le_zero _)
  | succ n ih =>
      rw [feedRecords, feedRecords]
      rcases hpoll : s.channel.pollControl with ⟨_ | ⟨keyId, record⟩, channel⟩
      · rfl
      · have hless : recordsBound channel < recordsBound s.channel := recordsBound_pollKeys hpoll
        dsimp only
        have hchannel : ({ s with channel := channel }.feedRecord keyId record).2.channel =
            channel := by
          unfold feedRecord
          split
          · split <;> rfl
          · rfl
        generalize Session.feedRecord { s with channel := channel } keyId record = fed at hchannel ⊢
        rcases fed with ⟨_ | ⟨⟨⟩⟩, t⟩
        · rfl
        · obtain rfl : t.channel = channel := hchannel
          rw [andThen_ok, andThen_ok]
          exact ih t (by omega)

end Session

/-! ### A session in clear text -/

section Clear

variable (hmac : Hmac) (cipher : Cipher) (prf : PrfHmacs)

/-- The function with these values, by the packet id of the envelope that is signed. -/
def envelopeHmac (macs : List {mac : Bytes // mac.length = 64}) : Hmac where
  sign _ message := (macs.getD ((fromBeBytes (message.take 4)).toNat - 1)
    ⟨List.replicate 64 0, List.length_replicate⟩).val
  length_sign _ message := (macs.getD ((fromBeBytes (message.take 4)).toNat - 1)
    ⟨List.replicate 64 0, List.length_replicate⟩).property

/-- The HMAC of the server's answer, in its first packet. -/
def serverAnswerMac : {mac : Bytes // mac.length = 64} :=
  ⟨[230, 237, 31, 220, 211, 156, 232, 118, 168, 228, 225, 25, 37, 49, 196, 111, 132, 212, 35,
    101, 4, 29, 139, 38, 223, 124, 226, 119, 46, 26, 50, 193, 240, 46, 75, 251, 136, 255, 165,
    26, 199, 224, 195, 225, 28, 172, 206, 103, 147, 217, 247, 93, 57, 183, 26, 4, 14, 4, 29, 89,
    195, 149, 38, 17], rfl⟩

/-- The HMAC of the server's first record, in its second packet. -/
def firstRecordMac : {mac : Bytes // mac.length = 64} :=
  ⟨[76, 152, 42, 225, 135, 15, 252, 112, 225, 15, 105, 167, 72, 1, 83, 76, 181, 0, 110, 245,
    101, 203, 53, 164, 100, 190, 248, 114, 243, 192, 118, 19, 8, 19, 123, 95, 220, 77, 64, 189,
    183, 110, 213, 12, 86, 119, 126, 68, 78, 17, 242, 36, 121, 43, 159, 4, 40, 64, 120, 47, 159,
    222, 129, 221], rfl⟩

def clearPrimitives : Primitives := ⟨hmac, cipher, prf, .plain⟩

def clearFresh : Fresh (clearPrimitives hmac cipher prf) :=
  ⟨(), List.replicate 48 0, List.replicate 32 0, List.replicate 32 0⟩

/-- A session that has begun. -/
def clearSession : Session (clearPrimitives hmac cipher prf) where
  channel := .opened
  tls := ⟨⟨true, [], [1]⟩, 0⟩
  outbox := ⟨[]⟩
  renegotiation := none
  phase := .tls
  source := .newClient (List.replicate 48 0) (List.replicate 32 0) (List.replicate 32 0)
  credentials := none
  inbound := []
  keys := none
  push := none
  peerTimeout := none
  pushRequestedAt := none
  pushFirstRequestedAt := none
  data := none
  previousData := none
  lastSent := none
  failure := none

theorem new_clearSession : Session.new (.new plainKey .inverse) ourId 2 none none
    (clearFresh hmac cipher prf) = .ok (clearSession hmac cipher prf) := rfl

/-- The server's packet, under a message id of the envelope. -/
def serverSends (packet : ControlPacket) (id : UInt32) : Bytes :=
  (TlsAuth.new plainKey .normal).wrap hmac packet id 0x6a87eba5

/-- The server's answer to the reset that opens the session. -/
def serverAnswer : ControlPacket where
  opcode := .controlHardResetServerV2
  keyId := .FIRST
  sessionId := theirId
  acks := some ⟨[0], ourId, by decide⟩
  packetId := some 0
  payload := []

/-- The server starts a generation. -/
def softReset (keyId : KeyId) : ControlPacket where
  opcode := .controlSoftResetV1
  keyId := keyId
  sessionId := theirId
  acks := none
  packetId := some 0
  payload := []

/-- A record of the server. -/
def serverRecord (keyId : KeyId) (id : UInt32) (payload : Bytes) : ControlPacket where
  opcode := .controlV1
  keyId := keyId
  sessionId := theirId
  acks := none
  packetId := some id
  payload := payload

end Clear

end SynologyFilestation.Openvpn
