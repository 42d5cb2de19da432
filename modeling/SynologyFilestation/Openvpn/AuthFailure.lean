import SynologyFilestation.Openvpn.Routing

/-!
The refusal of the credentials (`openvpn/src/session.rs`).

`AUTH_FAILED` is a message inside TLS like any other. A call reads at most the next
message, or two, of the connection that carries traffic, and that only while it waits
for keys or for a push reply; and it reads one message of a renegotiation. What is
behind these stays unread.
-/

namespace SynologyFilestation.Openvpn

open Core Library

def Error.isAuthFailed : Error → Bool
  | authFailed _ => true
  | _ => false

/-- Not a refusal of the credentials. -/
def Quiet {α : Type} (x : Except Error α) : Prop := Avoids (fun e => e.isAuthFailed = true) x

/-! ### What does not refuse the credentials -/

section Quiet

variable {α γ : Type} {x : Except Error α} {f : α → Except Error γ}

theorem quiet_ok {a : α} : Quiet (.ok a) := avoids_ok

theorem quiet_error {e : Error} (h : e.isAuthFailed = false) : Quiet (.error e : Except Error α) :=
  avoids_error.mpr (Bool.eq_false_iff.mp h)

theorem Quiet.bind (hx : Quiet x) (hf : ∀ a, Quiet (f a)) : Quiet (x >>= f) := Avoids.bind hx hf

theorem Quiet.map {g : α → γ} (hx : Quiet x) : Quiet (x.map g) := Avoids.map hx

/-- An error that is passed on. -/
theorem Quiet.error (hx : Quiet x) {e : Error} (h : x = .error e) :
    Quiet (.error e : Except Error γ) :=
  avoids_error.mpr (hx e h)

theorem quiet_takeFront {n : ℕ} {context : String} {bytes : Bytes} :
    Quiet (takeFront n (Error.truncated context) bytes) := avoids_takeFront (by nofun) n bytes

namespace ControlPacket

theorem quiet_readU8 {context : String} {bytes : Bytes} : Quiet (readU8 context bytes) := by
  cases bytes with
  | nil => exact quiet_error rfl
  | cons => exact quiet_ok

theorem quiet_readU32 {context : String} {bytes : Bytes} : Quiet (readU32 context bytes) :=
  quiet_takeFront.map

theorem quiet_readAcks {tail : Bytes} : Quiet (readAcks tail) := by
  refine quiet_readU8.bind fun (count, rest) => ?_
  dsimp only
  split
  case isTrue =>
    refine Quiet.bind (Avoids.readTimes (fun _ => quiet_readU32) _ _) fun _ => ?_
    refine quiet_takeFront.bind fun _ => Quiet.bind ?_ fun _ => quiet_ok
    unfold Acks.new
    split
    · exact quiet_ok
    · exact quiet_error rfl
  case isFalse => exact quiet_ok

theorem quiet_readPacketId {opcode : Opcode} {bytes : Bytes} :
    Quiet (readPacketId opcode bytes) := by
  unfold readPacketId
  split
  · exact quiet_readU32.map
  · exact quiet_ok

theorem quiet_fromU8 {value : UInt8} : Quiet (Opcode.fromU8 value) := by
  unfold Opcode.fromU8
  split_ifs <;> first | exact quiet_ok | exact quiet_error rfl

theorem quiet_decode {front tail : Bytes} : Quiet (decode front tail) := by
  refine quiet_readU8.bind fun _ => quiet_fromU8.bind fun _ => ?_
  refine quiet_takeFront.bind fun _ => quiet_readAcks.bind fun _ => ?_
  exact quiet_readPacketId.bind fun _ => quiet_ok

end ControlPacket

theorem TlsAuth.quiet_unwrap {auth : TlsAuth} {hmac : Hmac} {datagram : Bytes} :
    Quiet (auth.unwrap hmac datagram) := by
  refine quiet_takeFront.bind fun _ => quiet_takeFront.bind fun _ => ?_
  refine quiet_takeFront.bind fun _ => ?_
  dsimp only
  split
  · exact ControlPacket.quiet_decode.bind fun _ => quiet_ok
  · exact quiet_error rfl

theorem ControlChannel.quiet_handle {c : ControlChannel} {hmac : Hmac} {datagram : Bytes}
    {now : ℕ} : Quiet (c.handle hmac datagram now).1 := by
  unfold handle
  split
  case h_1 heq => exact TlsAuth.quiet_unwrap.error heq
  case h_2 =>
    dsimp only
    split
    · exact quiet_error rfl
    · unfold interpret
      split
      case h_1 heq =>
        refine Quiet.error ?_ heq
        unfold checkSender
        split
        · split
          · exact quiet_error rfl
          · exact quiet_ok
        · split
          · exact quiet_error rfl
          · exact quiet_ok
      case h_2 =>
        split
        case h_1 heq =>
          refine Quiet.error ?_ heq
          unfold checkAcks
          split
          · split
            · exact quiet_error rfl
            · exact quiet_ok
          · exact quiet_ok
        case h_2 =>
          unfold deliver
          split
          · exact quiet_ok
          · exact quiet_error rfl

theorem quiet_writeString {value : Bytes} {context : String} :
    Quiet (writeString value context) := by
  unfold writeString
  split_ifs <;> first | exact quiet_ok | exact quiet_error rfl

theorem quiet_ourKeyMaterial {source : KeySource2} {credentials : Option Credentials} :
    Quiet (ourKeyMaterial source credentials) :=
  quiet_writeString.bind fun _ => quiet_writeString.bind fun _ => quiet_writeString.bind fun _ =>
    quiet_writeString.bind fun _ => quiet_ok

theorem quiet_readString {context : String} {bytes : Bytes} : Quiet (readString context bytes) := by
  refine quiet_takeFront.bind fun _ => ?_
  dsimp only
  split
  · exact quiet_ok
  · exact quiet_takeFront.bind fun _ => quiet_ok

theorem ServerMessage.quiet_decode {bytes : Bytes} : Quiet (decode bytes) := by
  have hkeys : Quiet (ServerKeyMethod2.decode bytes) := by
    refine quiet_takeFront.bind fun _ => ControlPacket.quiet_readU8.bind fun _ => ?_
    dsimp only
    split
    · exact quiet_error rfl
    · refine quiet_takeFront.bind fun _ => quiet_takeFront.bind fun _ => ?_
      refine quiet_readString.bind fun _ => quiet_readString.bind fun _ => ?_
      exact quiet_readString.bind fun _ => quiet_readString.bind fun _ => quiet_ok
  unfold decode
  split
  · exact quiet_error rfl
  · split
    · split
      · exact quiet_error rfl
      · exact quiet_ok
    · split
      case h_1 heq => exact hkeys.error heq
      case h_2 => exact quiet_ok

namespace PushReply

theorem quiet_secondsFrom {value directive : Bytes} : Quiet (secondsFrom value directive) := by
  unfold secondsFrom
  split
  · exact quiet_ok
  · exact quiet_error rfl

theorem quiet_peerIdFrom {id directive : Bytes} : Quiet (peerIdFrom id directive) := by
  unfold peerIdFrom
  split
  · exact quiet_error rfl
  · split
    · exact quiet_ok
    · exact quiet_error rfl

theorem quiet_take {parsed : PushReply} {directive name : Bytes} {rest : List Bytes} :
    Quiet (parsed.take directive name rest) := by
  unfold take
  split_ifs
  · split
    · exact quiet_peerIdFrom.map
    · exact quiet_ok
  · split <;> exact quiet_ok
  · split
    · split
      · exact quiet_ok
      · exact quiet_error rfl
    · exact quiet_ok
  · exact quiet_ok
  · exact quiet_ok
  · split
    · exact quiet_secondsFrom.map
    · exact quiet_ok
  · split
    · exact quiet_secondsFrom.map
    · exact quiet_ok
  · exact quiet_ok

theorem quiet_takeDirectives {directives : List Bytes} {parsed : PushReply} :
    Quiet (directives.foldlM takeDirective parsed) := by
  induction directives generalizing parsed with
  | nil => exact quiet_ok
  | cons directive directives ih =>
      rw [List.foldlM_cons]
      refine Quiet.bind ?_ fun _ => ih
      unfold takeDirective
      dsimp only
      split
      · exact quiet_ok
      · exact quiet_take

theorem quiet_parse {reply : Bytes} : Quiet (parse reply) := by
  unfold parse
  split
  · exact quiet_takeDirectives
  · exact quiet_error rfl

end PushReply

end Quiet

/-! ### What a call reads -/

/-- What becomes of a call: the credentials are refused, it goes on, or it ends otherwise. -/
inductive Reading
  | refused
  | passes
  | stops
  deriving DecidableEq

def Reading.of : Except Error Unit → Reading
  | .ok () => passes
  | .error e => if e.isAuthFailed then refused else stops

def isRefusal (text : Bytes) : Bool := (authFailedDetail text).isSome

/-- The next message is a refusal. -/
def refusedNext (stream : Bytes) : Bool :=
  match ServerMessage.decode stream with
  | .ok (.control text, _) => isRefusal text
  | _ => false

/-- A push reply that this client can work with. -/
def acceptable (text : Bytes) : Bool :=
  match PushReply.parse text with
  | .ok reply => reply.compressionIsSupported && reply.cipherIsSupported
  | .error _ => false

/-- The message that is read while a push reply is waited for. -/
def readPush (opens : Bool) (stream : Bytes) : Reading :=
  match ServerMessage.decode stream with
  | .error (.truncated _) => .passes
  | .ok (.control text, _) =>
      if isRefusal text then .refused
      else if acceptable text && opens then .passes else .stops
  | _ => .stops

/-- The messages that are read while keys are waited for: what is behind the keys is read at
once. -/
def readKeys (known : Bool) (stream : Bytes) : Reading :=
  match ServerMessage.decode stream with
  | .error (.truncated _) => .passes
  | .ok (.control text, _) => if isRefusal text then .refused else .stops
  | .ok (.keyMethod2 _, used) => if known then readPush true (stream.drop used) else .stops
  | _ => .stops

variable {p : Primitives}

/-- All that was decrypted and not read. -/
def Renegotiation.stream (r : Renegotiation p) : Bytes := r.inbound ++ p.tls.unread r.tls.state

/-- The renegotiation gets to its next message, and that is a refusal. -/
def Renegotiation.refused (r : Renegotiation p) (credentials : Option Credentials) : Bool :=
  match (r.sendKeyMaterial credentials).1 with
  | .ok () => p.tls.atEnd r.tls.state = .more && refusedNext r.stream
  | .error _ => false

namespace Session

def stream (s : Session p) : Bytes := s.inbound ++ p.tls.unread s.tls.state

/-- There are keys for a tunnel. -/
def opens (s : Session p) : Bool := s.keys.any fun keys => 256 ≤ keys.length

/-- What is read of the connection that carries traffic. -/
def reading (s : Session p) : Reading :=
  if p.tls.atEnd s.tls.state ≠ .more then .stops
  else
    match s.phase with
    | .awaitingKeys => readKeys s.channel.remoteSession.isSome s.stream
    | .awaitingPush => readPush s.opens s.stream
    | _ => .passes

/-- A refusal is the next message that is read, of the one connection or of the other. -/
def refused (s : Session p) : Bool :=
  s.reading = .refused || s.reading = .passes &&
    s.renegotiation.any fun r =>
      s.channel.pendingKeyId.all (· = r.keyId) && r.refused s.credentials

variable {s t : Session p}

theorem of_openTunnel : Reading.of s.openTunnel.1 = if s.opens then .passes else .stops := by
  unfold openTunnel opens
  cases s.keys with
  | none => rfl
  | some keys =>
      by_cases hlong : 256 ≤ keys.length
      · have hclient : ¬keys.length < 256 := Nat.not_lt.mpr hlong
        simp [DataKeys.forClient, DataKeys.split, hclient, hlong, Reading.of]
      · have hclient : keys.length < 256 := Nat.lt_of_not_le hlong
        simp [DataKeys.forClient, DataKeys.split, hclient, hlong, Reading.of, Error.isAuthFailed]

theorem of_takePushReply (text : Bytes) : Reading.of (s.takePushReply text).1 =
    if isRefusal text then .refused
    else if acceptable text && s.opens then .passes else .stops := by
  unfold takePushReply isRefusal acceptable
  cases authFailedDetail text with
  | some detail => rfl
  | none =>
      cases hparse : PushReply.parse text with
      | error e =>
          have hquiet : e.isAuthFailed = false :=
            Bool.eq_false_iff.mpr (PushReply.quiet_parse e hparse)
          simp [Reading.of, hquiet]
      | ok reply =>
          cases hcompression : reply.compressionIsSupported with
          | false => simp [hcompression, Reading.of, Error.isAuthFailed]
          | true =>
              cases hcipher : reply.cipherIsSupported with
              | false => simp [hcompression, hcipher, Reading.of, Error.isAuthFailed]
              | true =>
                  simp only [hcompression, hcipher, Bool.not_true, Bool.false_eq_true, if_false,
                    Option.isSome_none, Bool.and_self, Bool.true_and]
                  exact of_openTunnel

theorem phase_takePushReply {text : Bytes} (h : s.takePushReply text = (.ok (), t)) :
    t.phase = .ready := by
  unfold takePushReply at h
  split at h
  case h_1 => cases h
  case h_2 =>
    split at h
    case h_1 => cases h
    case h_2 =>
      split at h
      case isTrue => cases h
      case isFalse =>
        split at h
        case isTrue => cases h
        case isFalse =>
          unfold openTunnel at h
          split at h
          case h_1 => cases h
          case h_2 =>
            split at h
            case h_1 => cases h
            case h_2 =>
              obtain ⟨-, rfl⟩ := Prod.mk.inj h
              rfl

theorem of_quiet {e : Error} (h : e.isAuthFailed = false) : Reading.of (.error e) = .stops := by
  rw [Reading.of, h]
  rfl

/-- A message that cannot be read is not a refusal. -/
theorem of_decode_error {bytes : Bytes} {e : Error} (h : ServerMessage.decode bytes = .error e) :
    Reading.of (.error e) = .stops :=
  of_quiet (Bool.eq_false_iff.mpr (ServerMessage.quiet_decode e h))

theorem of_receivePushReply (hphase : s.phase = .awaitingPush) :
    Reading.of s.receivePushReply.1 = readPush s.opens s.inbound := by
  unfold receivePushReply readPush
  by_cases hempty : s.inbound = []
  · rw [hempty]
    simp [hphase, Reading.of, ServerMessage.decode]
  · rw [if_neg (by simp [hphase, hempty])]
    cases hdecode : ServerMessage.decode s.inbound with
    | error e =>
        have hstops := of_decode_error hdecode
        cases e <;> first | rfl | exact hstops
    | ok found =>
        obtain ⟨message, used⟩ := found
        cases message with
        | keyMethod2 reply => rfl
        | control text => exact of_takePushReply text

theorem receivePushReply_idle (hphase : s.phase ≠ .awaitingPush) :
    s.receivePushReply = (.ok (), s) := by
  unfold receivePushReply
  rw [if_pos (by simp [hphase])]

/-- What was read once is not read again. -/
theorem receivePushReply_again (h : s.receivePushReply = (.ok (), t)) :
    Reading.of t.receivePushReply.1 = .passes := by
  have hsame (heq : t = s) : Reading.of t.receivePushReply.1 = .passes := by
    rw [heq, h]
    rfl
  have hfirst := h
  unfold receivePushReply at hfirst
  split at hfirst
  case isTrue => exact hsame (Prod.mk.inj hfirst).2.symm
  case isFalse =>
    split at hfirst
    case h_1 => exact hsame (Prod.mk.inj hfirst).2.symm
    case h_2 => cases hfirst
    case h_3 => cases hfirst
    case h_4 text used _ =>
      have hready := phase_takePushReply hfirst
      rw [receivePushReply_idle (by rw [hready]; nofun)]
      rfl

theorem of_receivePushReply_twice :
    Reading.of (andThen s.receivePushReply receivePushReply).1 =
      Reading.of s.receivePushReply.1 := by
  rcases h : s.receivePushReply with ⟨_ | ⟨⟩, t⟩
  · rfl
  · exact receivePushReply_again h

theorem receiveTheirKeyMaterial_idle (hphase : s.phase ≠ .awaitingKeys) :
    s.receiveTheirKeyMaterial = (.ok (), s) := by
  unfold receiveTheirKeyMaterial
  rw [if_pos hphase]

/-- The keys, and what is behind them. -/
theorem of_receive (s : Session p) :
    Reading.of (andThen s.receiveTheirKeyMaterial receivePushReply).1 =
      match s.phase with
      | .awaitingKeys => readKeys s.channel.remoteSession.isSome s.inbound
      | .awaitingPush => readPush s.opens s.inbound
      | _ => .passes := by
  by_cases hkeys : s.phase = .awaitingKeys
  · rw [hkeys]
    dsimp only
    have hidle : s.receivePushReply = (.ok (), s) := receivePushReply_idle (by rw [hkeys]; nofun)
    unfold receiveTheirKeyMaterial readKeys
    rw [if_neg (not_not.mpr hkeys)]
    cases hdecode : ServerMessage.decode s.inbound with
    | error e =>
        have hstops := of_decode_error hdecode
        cases e
        case truncated =>
          rw [andThen_ok, hidle]
          rfl
        all_goals exact hstops
    | ok found =>
        obtain ⟨message, used⟩ := found
        cases message with
        | control text =>
            dsimp only [andThen_error]
            unfold refusal isRefusal
            cases authFailedDetail text <;> rfl
        | keyMethod2 reply =>
            dsimp only
            cases hserver : s.channel.remoteSession with
            | none => rfl
            | some server =>
                refine of_receivePushReply_twice.trans ((of_receivePushReply rfl).trans ?_)
                have hopens : opens { s with
                    source := s.source.answeredBy reply
                    keys := some
                      (keyExpansion p.prf (s.source.answeredBy reply) s.channel.localSession server)
                    inbound := s.inbound.drop used
                    phase := .awaitingPush } = true := by
                  simp [opens]
                rw [hopens]
                rfl
  · rw [receiveTheirKeyMaterial_idle hkeys, andThen_ok]
    by_cases hpush : s.phase = .awaitingPush
    · rw [of_receivePushReply hpush, hpush]
    · rw [receivePushReply_idle hpush]
      cases hphase : s.phase <;> first | rfl | exact absurd hphase hkeys | exact absurd hphase hpush

/-- What is decrypted is read in one go, however it was cut. -/
theorem drainPlaintext_eq (s : Session p) : ∃ state, s.drainPlaintext =
    (Tls.endResult (p.tls.atEnd s.tls.state),
      { s with tls := { s.tls with state := state }, inbound := s.stream }) := by
  obtain ⟨state, -, -, heq⟩ := p.tls.drain_eq s.tls.state s.inbound
  exact ⟨state, by rw [drainPlaintext, heq]; rfl⟩

theorem of_exchange (s : Session p) :
    Reading.of (andThen (andThen s.drainPlaintext receiveTheirKeyMaterial) receivePushReply).1 =
      s.reading := by
  obtain ⟨state, hdrain⟩ := s.drainPlaintext_eq
  rw [hdrain, reading]
  cases p.tls.atEnd s.tls.state with
  | more =>
      rw [if_neg (not_not.mpr rfl)]
      exact of_receive _
  | closed => rfl
  | failed => rfl

/-! ### The renegotiation has its turn -/

/-- What belongs to the renegotiation is not touched by the connection that carries traffic. -/
structure Beside (s t : Session p) : Prop where
  channel : t.channel = s.channel
  renegotiation : t.renegotiation = s.renegotiation
  credentials : t.credentials = s.credentials

theorem beside_openTunnel : s.Beside s.openTunnel.2 := by
  unfold openTunnel
  split
  · exact ⟨rfl, rfl, rfl⟩
  · split <;> exact ⟨rfl, rfl, rfl⟩

theorem beside_takePushReply {text : Bytes} : s.Beside (s.takePushReply text).2 := by
  unfold takePushReply
  split
  · exact ⟨rfl, rfl, rfl⟩
  · split
    · exact ⟨rfl, rfl, rfl⟩
    · split_ifs
      · exact ⟨rfl, rfl, rfl⟩
      · exact ⟨rfl, rfl, rfl⟩
      · exact { beside_openTunnel with }

theorem beside_receivePushReply : s.Beside s.receivePushReply.2 := by
  unfold receivePushReply
  split
  · exact ⟨rfl, rfl, rfl⟩
  · split
    case h_4 => exact { beside_takePushReply with }
    all_goals exact ⟨rfl, rfl, rfl⟩

theorem beside_receiveTheirKeyMaterial : s.Beside s.receiveTheirKeyMaterial.2 := by
  unfold receiveTheirKeyMaterial
  split
  · exact ⟨rfl, rfl, rfl⟩
  · split
    case h_4 =>
      dsimp only
      split
      · exact ⟨rfl, rfl, rfl⟩
      · exact { beside_receivePushReply with }
    all_goals exact ⟨rfl, rfl, rfl⟩

theorem Beside.trans {u : Session p} (h : s.Beside t) (h' : t.Beside u) : s.Beside u :=
  ⟨h'.channel.trans h.channel, h'.renegotiation.trans h.renegotiation,
    h'.credentials.trans h.credentials⟩

theorem Beside.andThen {done : Except Error Unit × Session p}
    {next : Session p → Except Error Unit × Session p} (hdone : s.Beside done.2)
    (hnext : ∀ m, Beside m (next m).2) : s.Beside (andThen done next).2 :=
  andThen_invariant (P := s.Beside) hdone fun m hm => by
    rw [hm] at hdone
    exact hdone.trans (hnext m)

theorem beside_exchange (s : Session p) :
    s.Beside (andThen (andThen s.drainPlaintext receiveTheirKeyMaterial) receivePushReply).2 :=
  have hdrain : s.Beside s.drainPlaintext.2 := ⟨rfl, rfl, rfl⟩
  (hdrain.andThen fun _ => beside_receiveTheirKeyMaterial).andThen fun _ => beside_receivePushReply

theorem takeOver_not_refused {r : Renegotiation p} {reply : ServerKeyMethod2} {used : ℕ} :
    Reading.of (s.takeOver r reply used).1 ≠ .refused := by
  unfold takeOver
  dsimp only
  split
  case h_1 => nofun
  case h_2 =>
    split
    case isTrue =>
      rw [of_openTunnel]
      split <;> nofun
    case isFalse => nofun

end Session

theorem Renegotiation.quiet_sendKeyMaterial {r : Renegotiation p}
    {credentials : Option Credentials} : Quiet (r.sendKeyMaterial credentials).1 := by
  unfold sendKeyMaterial
  split
  · exact quiet_ok
  · split
    case h_1 heq => exact quiet_ourKeyMaterial.error heq
    case h_2 =>
      split
      · exact quiet_error rfl
      · exact quiet_ok

/-- Writing the key material leaves what is to be read. -/
theorem Renegotiation.stream_sendKeyMaterial {r r' : Renegotiation p}
    {credentials : Option Credentials} (h : r.sendKeyMaterial credentials = (.ok (), r')) :
    r'.stream = r.stream ∧ p.tls.atEnd r'.tls.state = p.tls.atEnd r.tls.state := by
  unfold sendKeyMaterial at h
  split at h
  case isTrue =>
    obtain ⟨-, rfl⟩ := Prod.mk.inj h
    exact ⟨rfl, rfl⟩
  case isFalse =>
    split at h
    case h_1 => cases h
    case h_2 message _ =>
      have hunread := p.tls.unread_write r.tls.state message
      have hend := p.tls.atEnd_write r.tls.state message
      split at h
      case h_1 => cases h
      case h_2 heq =>
        obtain ⟨-, rfl⟩ := Prod.mk.inj h
        rw [heq] at hunread hend
        exact ⟨congrArg (r.inbound ++ ·) hunread, hend⟩

namespace Session

variable {s t : Session p}

theorem of_ne_refused {e : Error} (h : e.isAuthFailed = false) :
    Reading.of (.error e) ≠ .refused := by
  rw [of_quiet h]
  nofun

theorem of_error_of_quiet {α : Type} {x : Except Error α} (hx : Quiet x) {e : Error}
    (h : x = .error e) : Reading.of (.error e) ≠ .refused :=
  of_ne_refused (Bool.eq_false_iff.mpr (hx e h))

theorem refused_advance {r : Renegotiation p} (hr : s.renegotiation = some r) :
    Reading.of s.advanceRenegotiation.1 = .refused ↔ r.refused s.credentials = true := by
  unfold advanceRenegotiation Renegotiation.refused
  rw [hr]
  dsimp only
  rcases hsend : r.sendKeyMaterial s.credentials with ⟨e | ⟨⟨⟩⟩, r'⟩
  · have hquiet : Reading.of (.error e) ≠ .refused :=
      of_error_of_quiet r.quiet_sendKeyMaterial (congrArg Prod.fst hsend)
    exact iff_of_false hquiet Bool.false_ne_true
  · obtain ⟨hstream, hend⟩ := Renegotiation.stream_sendKeyMaterial hsend
    obtain ⟨state, -, -, hdrain⟩ := p.tls.drain_eq r'.tls.state r'.inbound
    have hread : r'.drainPlaintext = (Tls.endResult (p.tls.atEnd r.tls.state),
        { r' with tls := { r'.tls with state := state }, inbound := r.stream }) := by
      rw [Renegotiation.drainPlaintext, hdrain, hend, ← hstream]
      rfl
    rw [andThen_ok, hread]
    cases p.tls.atEnd r.tls.state with
    | closed => exact iff_of_false nofun nofun
    | failed => exact iff_of_false nofun nofun
    | more =>
        dsimp only [Tls.endResult]
        unfold refusedNext
        cases hdecode : ServerMessage.decode r.stream with
        | error e =>
            have hquiet := of_error_of_quiet ServerMessage.quiet_decode hdecode
            cases e
            case truncated => exact iff_of_false nofun nofun
            all_goals exact iff_of_false hquiet nofun
        | ok found =>
            obtain ⟨message, used⟩ := found
            cases message with
            | keyMethod2 reply => exact iff_of_false takeOver_not_refused nofun
            | control text =>
                dsimp only
                unfold refusal isRefusal
                cases authFailedDetail text with
                | none => exact iff_of_false nofun nofun
                | some => exact iff_of_true rfl rfl

/-- A connection that was just made has nothing to say. -/
theorem not_refused_of_connect {r : Renegotiation p} {seed : p.tls.Seed}
    {credentials : Option Credentials} (hinbound : r.inbound = [])
    (hconnect : p.tls.connect seed = .ok r.tls.state) : r.refused credentials = false := by
  have hstream : r.stream = [] := by
    rw [Renegotiation.stream, hinbound, p.tls.unread_connect seed _ hconnect]
    rfl
  unfold Renegotiation.refused
  rw [hstream]
  split
  · rw [show refusedNext [] = false from rfl, Bool.and_false]
  · rfl

theorem refused_negotiate (s : Session p) (fresh : Fresh p) :
    Reading.of (andThen (s.beginRenegotiation fresh) advanceRenegotiation).1 = .refused ↔
      (s.renegotiation.any fun r =>
        s.channel.pendingKeyId.all (· = r.keyId) && r.refused s.credentials) = true := by
  have hkeep (hall : ∀ r, s.renegotiation = some r →
      s.channel.pendingKeyId.all (· = r.keyId) = true) :
      Reading.of s.advanceRenegotiation.1 = .refused ↔ (s.renegotiation.any fun r =>
        s.channel.pendingKeyId.all (· = r.keyId) && r.refused s.credentials) = true := by
    rcases hr : s.renegotiation with _ | r
    · unfold advanceRenegotiation
      rw [hr]
      exact iff_of_false (by rintro ⟨⟩) Bool.false_ne_true
    · rw [refused_advance hr, Option.any_some, hall r hr, Bool.true_and]
  unfold beginRenegotiation
  cases hpending : s.channel.pending with
  | none =>
      refine hkeep fun r _ => ?_
      rw [ControlChannel.pendingKeyId, hpending]
      rfl
  | some state =>
      have hkeyId : s.channel.pendingKeyId = some state.keyId :=
        congrArg (Option.map KeyState.keyId) hpending
      dsimp only
      by_cases hsame : s.renegotiation.map (·.keyId) = some state.keyId
      · rw [if_pos hsame, andThen_ok]
        refine hkeep fun r hr => ?_
        rw [hr] at hsame
        have hkey : r.keyId = state.keyId := Option.some.inj hsame
        rw [hkeyId, Option.all_some, hkey]
        exact decide_eq_true rfl
      · have hother : (s.renegotiation.any fun r =>
            s.channel.pendingKeyId.all (· = r.keyId) && r.refused s.credentials) = false := by
          rcases hr : s.renegotiation with _ | r
          · rfl
          · have hne : state.keyId ≠ r.keyId := fun heq => hsame (by rw [hr, heq]; rfl)
            rw [Option.any_some, hkeyId, Option.all_some, decide_eq_false hne, Bool.false_and]
        rw [if_neg hsame, hother]
        refine iff_of_false ?_ Bool.false_ne_true
        rcases hconnect : p.tls.connect fresh.seed with _ | connection
        · rintro ⟨⟩
        · dsimp only [andThen_ok]
          refine mt (refused_advance rfl).mp ?_
          rw [not_refused_of_connect rfl hconnect]
          exact Bool.false_ne_true

/-! ### Runs -/

/-- The records of the datagram are fed, and the key material goes out if it may. -/
def fed (s : Session p) (datagram : Bytes) (now : ℕ) : Except Error Unit × Session p :=
  andThen (s.receive datagram now) sendOurKeyMaterial

/-- `handle` returns `AuthFailed`. -/
def reports (s : Session p) : SessionEvent p → Bool
  | .handle datagram now fresh => Reading.of (s.handle datagram now fresh).1 = .refused
  | _ => false

/-- A refusal is what a call reads next, or what the session has failed with. -/
def reads (s : Session p) : SessionEvent p → Bool
  | .handle datagram now _ =>
      match s.failure with
      | some e => e.isAuthFailed
      | none =>
          match s.fed datagram now with
          | (.ok (), s) => s.refused
          | (.error _, _) => false
  | _ => false

theorem quiet_feed {state : p.tls.State} {record : Bytes} : Quiet (p.tls.feed state record).1 := by
  have hloop : ∀ n state (record : Bytes), Quiet (p.tls.feedUpTo n state record).1 := by
    intro n
    induction n with
    | zero => exact fun _ _ => quiet_ok
    | succ n ih =>
        intro state record
        rw [Tls.feedUpTo]
        split
        · exact quiet_ok
        · split
          · exact quiet_error rfl
          · split
            · exact quiet_error rfl
            · exact ih _ _
  exact hloop _ _ _

theorem quiet_feedRecords {n : ℕ} : Quiet (feedRecords n s).1 := by
  induction n generalizing s with
  | zero => exact quiet_ok
  | succ n ih =>
      rw [feedRecords]
      split
      case h_1 => exact quiet_ok
      case h_2 keyId record channel _ =>
        have hfirst : Quiet (feedRecord { s with channel := channel } keyId record).1 :=
          feedRecord_connectionOf.1 ▸ quiet_feed
        generalize feedRecord { s with channel := channel } keyId record = done at hfirst ⊢
        rcases done with ⟨_ | ⟨⟨⟩⟩, t⟩
        · exact hfirst
        · exact ih

theorem quiet_receive (hfailure : s.failure = none) (datagram : Bytes) (now : ℕ) :
    Quiet (s.receive datagram now).1 := by
  unfold receive
  rw [hfailure]
  dsimp only
  split
  case h_1 heq => exact ControlChannel.quiet_handle.error (congrArg Prod.fst heq)
  case h_2 => exact quiet_feedRecords

theorem quiet_sendOurKeyMaterial : Quiet s.sendOurKeyMaterial.1 := by
  unfold sendOurKeyMaterial
  split
  · exact quiet_ok
  · split
    case h_1 heq => exact quiet_ourKeyMaterial.error heq
    case h_2 =>
      split
      · exact quiet_error rfl
      · exact quiet_ok

/-- What follows when the records are fed. -/
theorem refused_of_fed (s : Session p) (fresh : Fresh p) :
    Reading.of (andThen (andThen (andThen (andThen s.drainPlaintext receiveTheirKeyMaterial)
        receivePushReply) (beginRenegotiation · fresh)) advanceRenegotiation).1 = .refused ↔
      s.refused = true := by
  have hreading := s.of_exchange
  have hbeside := s.beside_exchange
  rw [refused]
  generalize andThen (andThen s.drainPlaintext receiveTheirKeyMaterial) receivePushReply = done
    at hreading hbeside ⊢
  rcases done with ⟨e | ⟨⟨⟩⟩, t⟩
  · rw [andThen_error, andThen_error, hreading]
    have hstops : s.reading ≠ .passes := by
      rw [← hreading, Reading.of]
      split <;> nofun
    simp [hstops]
  · have hpasses : s.reading = .passes := hreading.symm
    rw [andThen_ok, refused_negotiate, hbeside.channel, hbeside.renegotiation, hbeside.credentials,
      hpasses]
    simp

theorem of_error_iff {e : Error} : Reading.of (.error e) = .refused ↔ e.isAuthFailed = true := by
  cases h : e.isAuthFailed with
  | true => exact iff_of_true (if_pos h) rfl
  | false => exact iff_of_false (of_ne_refused h) Bool.false_ne_true

/-- **When a call reports the refusal.** -/
theorem reports_iff (s : Session p) (event : SessionEvent p) :
    s.reports event = true ↔ s.reads event = true := by
  cases event with
  | handle datagram now fresh =>
      rw [reports, decide_eq_true_eq, handle, reads, fed]
      cases hfailure : s.failure with
      | some e =>
          have hreceive : s.receive datagram now = (.error e, { s with failure := none }) := by
            rw [receive, hfailure]
          rw [hreceive]
          exact of_error_iff
      | none =>
          have hreceive := quiet_receive hfailure datagram now
          generalize s.receive datagram now = received at hreceive ⊢
          rcases received with ⟨e | ⟨⟨⟩⟩, m⟩
          · exact iff_of_false (of_error_of_quiet hreceive rfl) Bool.false_ne_true
          · have hsend := m.quiet_sendOurKeyMaterial
            rw [andThen_ok, andThen_ok, process]
            generalize m.sendOurKeyMaterial = sent at hsend ⊢
            rcases sent with ⟨e | ⟨⟨⟩⟩, t⟩
            · exact iff_of_false (of_error_of_quiet hsend rfl) Bool.false_ne_true
            · exact t.refused_of_fed fresh
  | pollTransmit => exact Iff.rfl
  | sendPayload => exact Iff.rfl
  | receivePayload => exact Iff.rfl

/-- A complete refusal is among the messages, read or not. -/
inductive Refusal : Bytes → Prop
  | here {stream text : Bytes} {used : ℕ}
      (h : ServerMessage.decode stream = .ok (.control text, used))
      (hrefusal : isRefusal text = true) : Refusal stream
  | behind {stream : Bytes} {message : ServerMessage} {used : ℕ}
      (h : ServerMessage.decode stream = .ok (message, used)) (hrest : Refusal (stream.drop used)) :
      Refusal stream

/-- The client's keys were sent, and a complete refusal has come, on either connection. -/
def Refusing (s : Session p) : SessionEvent p → Prop
  | .handle datagram now _ =>
      (s.fed datagram now).2.phase ≠ .tls ∧ (Refusal (s.fed datagram now).2.stream ∨
        ∃ r, (s.fed datagram now).2.renegotiation = some r ∧ Refusal r.stream)
  | _ => False

/-- The next call of a run says this, if there is one. -/
def NextCall (notices : Session p → SessionEvent p → Bool) :
    Session p → List (SessionEvent p) → Prop
  | _, [] => True
  | s, .handle datagram now fresh :: _ => notices s (.handle datagram now fresh) = true
  | s, event :: events => NextCall notices (s.after event) events

/-- In every call of a run where a refusal has come, this call or the next one notices so. -/
def Noticed (notices : Session p → SessionEvent p → Bool) : Session p → List (SessionEvent p) → Prop
  | _, [] => True
  | s, event :: events =>
      (s.Refusing event → notices s event = true ∨ NextCall notices (s.after event) events) ∧
        Noticed notices (s.after event) events

theorem nextCall_iff {notices notices' : Session p → SessionEvent p → Bool}
    (hsame : ∀ s event, notices s event = true ↔ notices' s event = true) (s : Session p)
    (events : List (SessionEvent p)) : NextCall notices s events ↔ NextCall notices' s events := by
  induction events generalizing s with
  | nil => exact Iff.rfl
  | cons event events ih =>
      cases event with
      | handle => exact hsame _ _
      | pollTransmit => exact ih _
      | sendPayload => exact ih _
      | receivePayload => exact ih _

/-- **A refusal is noticed** in a run exactly if it is what the call or the next one reads: in
every state, whatever the datagrams and however the plaintext is cut. -/
theorem auth_failure_noticed_iff (s : Session p) (events : List (SessionEvent p)) :
    Noticed reports s events ↔ Noticed reads s events := by
  induction events generalizing s with
  | nil => exact Iff.rfl
  | cons event events ih =>
      refine and_congr (imp_congr_right fun _ => ?_) (ih _)
      exact or_congr (s.reports_iff event) (nextCall_iff reports_iff _ _)

/-- The HMACs of six packets of the server. -/
def sixHmac : Hmac := envelopeHmac [
    serverAnswerMac,
    firstRecordMac,
    ⟨[132, 199, 44, 167, 148, 255, 39, 250, 139, 123, 128, 239, 14, 99, 57, 247, 90, 26,
      215, 171, 244, 139, 208, 196, 69, 165, 148, 175, 193, 213, 125, 117, 165, 57, 252,
      190, 107, 0, 49, 55, 182, 45, 101, 106, 145, 142, 78, 1, 174, 106, 93, 16, 183,
      40, 173, 249, 192, 169, 145, 155, 164, 229, 72, 81], rfl⟩,
    ⟨[170, 100, 72, 240, 254, 228, 17, 95, 235, 92, 73, 238, 195, 2, 138, 252, 253, 133,
      88, 152, 79, 249, 160, 40, 174, 93, 215, 193, 99, 0, 65, 29, 87, 53, 43, 137, 106,
      240, 225, 179, 106, 99, 55, 13, 156, 4, 166, 199, 82, 77, 38, 98, 110, 57, 35, 39,
      83, 146, 60, 200, 243, 120, 178, 31], rfl⟩,
    ⟨[42, 140, 7, 233, 202, 176, 202, 151, 164, 169, 146, 9, 19, 235, 201, 46, 233, 168,
      162, 106, 46, 8, 99, 89, 41, 32, 193, 82, 223, 236, 29, 66, 141, 171, 161, 39, 84,
      99, 211, 37, 45, 15, 3, 172, 147, 131, 54, 235, 30, 178, 153, 30, 33, 146, 197,
      54, 46, 80, 133, 174, 229, 135, 150, 88], rfl⟩,
    ⟨[11, 56, 125, 251, 34, 2, 106, 71, 210, 178, 115, 114, 27, 163, 176, 163, 24, 170,
      17, 188, 230, 197, 49, 96, 116, 140, 110, 91, 114, 72, 56, 18, 220, 112, 189, 57,
      221, 244, 62, 166, 174, 143, 2, 188, 237, 149, 71, 193, 176, 112, 216, 164, 21,
      238, 198, 161, 164, 33, 247, 178, 115, 152, 190, 207], rfl⟩]

/-- Key material of the server. -/
def serverKeyMaterial : Bytes :=
  [0, 0, 0, 0, 2] ++ List.replicate 32 5 ++ List.replicate 32 6 ++ [0, 0, 0, 0, 0, 0, 0, 0]

/-- The server acknowledges the opening reset again, and says nothing else. -/
def serverAck : ControlPacket where
  opcode := .ackV1
  keyId := .FIRST
  sessionId := theirId
  acks := serverAnswer.acks
  packetId := none
  payload := []

def arrival (packet : ControlPacket) (id : UInt32) :
    SessionEvent (clearPrimitives sixHmac vectorCipher zeroPrf) :=
  .handle (serverSends sixHmac packet id) 0 (clearFresh ..)

/-- Up to a tunnel that is open. -/
def readyRun : List (SessionEvent (clearPrimitives sixHmac vectorCipher zeroPrf)) := [
  arrival serverAnswer 1,
  arrival (serverRecord .FIRST 1 [1]) 2,
  arrival (serverRecord .FIRST 2 serverKeyMaterial) 3,
  arrival (serverRecord .FIRST 3 (ascii "PUSH_REPLY" ++ [0])) 4]

def readySession : Session (clearPrimitives sixHmac vectorCipher zeroPrf) :=
  readyRun.foldl after (clearSession sixHmac vectorCipher zeroPrf)

/-- A refusal that comes when the tunnel is open. -/
def lateRefusal : SessionEvent (clearPrimitives sixHmac vectorCipher zeroPrf) :=
  arrival (serverRecord .FIRST 4 (ascii "AUTH_FAILED" ++ [0])) 5

theorem readySession_lateRefusal :
    (readySession.fed (serverSends sixHmac
        (serverRecord .FIRST 4 (ascii "AUTH_FAILED" ++ [0])) 5) 0).2.phase ≠ .tls ∧
      (readySession.fed (serverSends sixHmac
        (serverRecord .FIRST 4 (ascii "AUTH_FAILED" ++ [0])) 5) 0).2.stream =
          ascii "AUTH_FAILED" ++ [0] ∧
        readySession.reports lateRefusal = false ∧
          (readySession.after lateRefusal).reports (arrival serverAck 6) = false := by
  decide +kernel

/-- A refusal that comes when the tunnel is open is not read. -/
theorem refusal_when_ready_unread :
    ¬∀ events, Noticed reports (clearSession sixHmac vectorCipher zeroPrf) events := by
  intro h
  obtain ⟨-, -, -, -, ⟨hnoticed, -⟩⟩ := h (readyRun ++ [lateRefusal, arrival serverAck 6])
  obtain ⟨hphase, hstream, hthis, hnext⟩ := readySession_lateRefusal
  have hrefusing : readySession.Refusing lateRefusal := by
    refine ⟨hphase, .inl ?_⟩
    rw [hstream]
    exact .here rfl rfl
  rcases hnoticed hrefusing with hreported | hreported
  · exact Bool.false_ne_true (hthis.symm.trans hreported)
  · exact Bool.false_ne_true (hnext.symm.trans hreported)

end Session

end SynologyFilestation.Openvpn
