import SynologyFilestation.Openvpn.Reliable
import SynologyFilestation.Openvpn.Replay
import SynologyFilestation.Openvpn.TlsAuth

/-!
The control channel (`openvpn/src/channel.rs`).

A datagram is authenticated, tested for a replay, and judged; then it may start a
new generation of keys, and only then it is looked up which generation it is for.
-/

namespace SynologyFilestation.Openvpn

open Core Library

/-- `KeyState`. The number of the generation is not in the source and nothing reads it: it
tells generations apart that have one key id at different times. -/
structure KeyState where
  keyId : KeyId
  send : SendWindow
  recv : RecvWindow
  opened : Bool
  generation : ℕ

/-- `KeyState::new`. -/
def KeyState.new (keyId : KeyId) (tlsTimeout generation : ℕ) : KeyState :=
  ⟨keyId, .new tlsTimeout, .new, false, generation⟩

/-- What a generation does with a packet of its own. -/
def KeyState.take (state : KeyState) (packet : ControlPacket) : KeyState :=
  { state with
    send := match packet.acks with
      | some acks => state.send.acknowledge acks.ids
      | none => state.send
    recv := match packet.packetId with
      | some packetId => (state.recv.accept packetId packet.opcode packet.payload).2
      | none => state.recv }

/-- `ControlChannel`, and how many generations the peer has started. -/
structure ControlChannel where
  auth : TlsAuth
  localSession : SessionId
  remoteSession : Option SessionId
  nextReplayId : UInt32
  replay : ReplayWindow
  tlsTimeout : ℕ
  primary : KeyState
  superseded : List KeyId
  pending : Option KeyState
  generations : ℕ

namespace ControlChannel

/-- `OPENING_MESSAGE_ID`. -/
def openingMessageId : UInt32 := 0

/-- `ControlChannel::new`. -/
def new (auth : TlsAuth) (localSession : SessionId) (tlsTimeout : ℕ) : ControlChannel where
  auth := auth
  localSession := localSession
  remoteSession := none
  nextReplayId := 1
  replay := .new
  tlsTimeout := tlsTimeout
  primary := .new .FIRST tlsTimeout 0
  superseded := []
  pending := none
  generations := 0

variable (c : ControlChannel) (keyId : KeyId) (packet : ControlPacket)

/-- `ControlChannel::open`. -/
def opening : ControlChannel := { c with primary := { c.primary with
  opened := true
  send := (c.primary.send.queue .controlHardResetClientV2 []).2 } }

/-- `ControlChannel::pending_key_id`. -/
def pendingKeyId : Option KeyId := c.pending.map (·.keyId)

/-- The generation with this key id: `state_mut`, read. -/
def stateOf : Option KeyState :=
  if c.primary.keyId = keyId then some c.primary
  else
    match c.pending with
    | some pending => if pending.keyId = keyId then some pending else none
    | none => none

/-- The generation with this key id: `state_mut`, written. -/
def withState (state : KeyState) : ControlChannel :=
  if c.primary.keyId = keyId then { c with primary := state }
  else { c with pending := some state }

/-- `ControlChannel::send_control`. -/
def sendControl (payload : Bytes) : Bool × ControlChannel :=
  match c.stateOf keyId with
  | some state =>
      let (id, send) := state.send.queue .controlV1 payload
      (id.isSome, c.withState keyId { state with send := send })
  | none => (false, c)

/-- `ControlChannel::promote`. -/
def promote : ControlChannel :=
  match c.pending with
  | some pending => { c with primary := pending, superseded := [], pending := none }
  | none => c

/-- `ControlChannel::key_ids`: the generation that is negotiated comes first. -/
def keyIds : List KeyId :=
  match c.pending with
  | some pending => [pending.keyId, c.primary.keyId]
  | none => [c.primary.keyId]

/-! ### What comes out -/

/-- `poll_control` for these generations. -/
def pollKeys : List KeyId → ControlChannel → Option (KeyId × Bytes) × ControlChannel
  | [], c => (none, c)
  | keyId :: keyIds, c =>
      match c.stateOf keyId with
      | none => (none, c)
      | some state =>
          match state.recv.nextRecord state.recv.buffered.entries.length with
          | (some record, recv) =>
              (some (keyId, record), c.withState keyId { state with recv := recv })
          | (none, recv) => pollKeys keyIds (c.withState keyId { state with recv := recv })

/-- `ControlChannel::poll_control`. -/
def pollControl : Option (KeyId × Bytes) × ControlChannel := pollKeys c.keyIds c

/-- The acknowledgements that ride on a packet, once it is known whose messages they name. -/
def takeAcks (recv : RecvWindow) : Option SessionId → Option Acks × RecvWindow
  | some sessionId =>
      let (ids, recv) := recv.takeAcks Acks.max
      (if ids = [] then none else (Acks.new ids sessionId).toOption, recv)
  | none => (none, recv)

/-- `ControlChannel::next_packet`. -/
def nextPacket (keyId : KeyId) (now : ℕ) : Option ControlPacket × ControlChannel :=
  match c.stateOf keyId with
  | none => (none, c)
  | some state =>
      let (due, send) := state.send.nextDue now
      if due.isNone && !state.recv.owesAcks then (none, c)
      else
        let (acks, recv) := takeAcks state.recv c.remoteSession
        let packet : ControlPacket := match due with
          | some outgoing =>
              ⟨outgoing.opcode, keyId, c.localSession, acks, some outgoing.packetId,
                outgoing.payload⟩
          | none => ⟨.ackV1, keyId, c.localSession, acks, none, []⟩
        (some packet, c.withState keyId { state with send := send, recv := recv })

/-- `poll_transmit` for these generations. -/
def transmitFrom (hmac : Hmac) (now : ℕ) (netTime : UInt32) :
    List KeyId → ControlChannel → Option Bytes × ControlChannel
  | [], c => (none, c)
  | keyId :: keyIds, c =>
      match c.nextPacket keyId now with
      | (some packet, c) =>
          (some (c.auth.wrap hmac packet c.nextReplayId netTime),
            { c with nextReplayId := c.nextReplayId + 1 })
      | (none, c) => transmitFrom hmac now netTime keyIds c

/-- `ControlChannel::poll_transmit`. -/
def pollTransmit (hmac : Hmac) (now : ℕ) (netTime : UInt32) : Option Bytes × ControlChannel :=
  transmitFrom hmac now netTime c.keyIds c

/-! ### Handling a datagram -/

/-- The reset that acknowledges our own. -/
def answersOurOpen : Bool :=
  packet.opcode = .controlHardResetServerV2 && packet.packetId = some openingMessageId &&
    match packet.acks with
    | some acks => acks.ids.contains openingMessageId
    | none => false

/-- Who may have sent a packet. -/
def checkSender : Except Error Unit :=
  match c.remoteSession with
  | some known => if known ≠ packet.sessionId then .error .wrongSession else .ok ()
  | none =>
      if c.primary.opened && !answersOurOpen packet then .error .unexpectedFirstPacket else .ok ()

/-- Whose messages a packet may acknowledge. -/
def checkAcks : Except Error Unit :=
  match packet.acks with
  | some acks => if acks.sessionId ≠ c.localSession then .error .ackForAnotherSession else .ok ()
  | none => .ok ()

/-- A soft reset under a key id that is new starts a generation. -/
def starts : Bool :=
  packet.opcode = .controlSoftResetV1 && packet.keyId ≠ c.primary.keyId &&
    c.pendingKeyId ≠ some packet.keyId && !c.superseded.contains packet.keyId

/-- The new generation replaces the one that was being negotiated. -/
def adopt : ControlChannel :=
  if c.starts packet then { c with
    pending := some (.new packet.keyId c.tlsTimeout (c.generations + 1))
    superseded := c.superseded ++ c.pendingKeyId.toList
    generations := c.generations + 1 }
  else c

/-- `remote_session.get_or_insert`. -/
def identify : ControlChannel :=
  { c with remoteSession := some (c.remoteSession.getD packet.sessionId) }

/-- The generation that a packet is for takes it, if there is one. -/
def deliver : Except Error Unit × ControlChannel :=
  match c.stateOf packet.keyId with
  | some state => (.ok (), c.withState packet.keyId (state.take packet))
  | none => (.error (.otherKeyId packet.keyId c.primary.keyId), c)

/-- A packet that is authentic and fresh. -/
def interpret : Except Error Unit × ControlChannel :=
  match c.checkSender packet with
  | .error e => (.error e, c)
  | .ok () =>
      match c.checkAcks packet with
      | .error e => (.error e, c)
      | .ok () => ((c.adopt packet).identify packet).deliver packet

/-- `ControlChannel::handle`. -/
def handle (hmac : Hmac) (datagram : Bytes) (_now : ℕ) : Except Error Unit × ControlChannel :=
  match c.auth.unwrap hmac datagram with
  | .error e => (.error e, c)
  | .ok (packet, header) =>
      let (fresh, replay) := c.replay.accept header.packetId header.netTime
      if !fresh then (.error .replayed, { c with replay := replay })
      else { c with replay := replay }.interpret packet

variable {c packet} {hmac : Hmac} {datagram : Bytes} {now : ℕ} {e : Error} {state : KeyState}

/-- What the other end sends is interpreted, if it is fresh. -/
theorem handle_wrap {peer : TlsAuth} {id netTime : UInt32} (hkey : c.auth.inKey = peer.outKey)
    (hpacket : packet.Canonical) (hfresh : (c.replay.accept id netTime).1 = true) :
    c.handle hmac (peer.wrap hmac packet id netTime) now =
      interpret { c with replay := (c.replay.accept id netTime).2 } packet := by
  have hunwrap : c.auth.unwrap hmac (peer.wrap hmac packet id netTime) =
      .ok (packet, ⟨id, netTime⟩) := (TlsAuth.unwrap_eq_ok hkey).mpr ⟨hpacket, rfl⟩
  rw [handle, hunwrap]
  dsimp only
  rw [hfresh]
  rfl

/-! ### What is rejected -/

@[simp] theorem stateOf_identify (keyId : KeyId) :
    (c.identify packet).stateOf keyId = c.stateOf keyId := rfl

theorem stateOf_eq_none {keyId : KeyId} :
    c.stateOf keyId = none ↔ c.primary.keyId ≠ keyId ∧ c.pendingKeyId ≠ some keyId := by
  unfold stateOf pendingKeyId
  split
  case isTrue hprimary => simp [hprimary]
  case isFalse hprimary =>
    cases c.pending with
    | none => simp [hprimary]
    | some pending => simp [hprimary]

theorem keyId_of_stateOf {keyId : KeyId} (h : c.stateOf keyId = some state) :
    state.keyId = keyId := by
  unfold stateOf at h
  split at h
  case isTrue hprimary =>
    cases h
    exact hprimary
  case isFalse =>
    split at h
    · split at h
      case isTrue hpending =>
        cases h
        exact hpending
      case isFalse => cases h
    · cases h

/-- The generation that is written is the one that is read. -/
theorem stateOf_withState {keyId : KeyId} (h : state.keyId = keyId) :
    (c.withState keyId state).stateOf keyId = some state := by
  unfold withState
  split
  case isTrue => exact if_pos h
  case isFalse hprimary =>
    rw [stateOf, if_neg hprimary]
    exact if_pos h

/-- A generation that was started is there. -/
theorem stateOf_adopt (h : (c.adopt packet).stateOf packet.keyId = none) :
    c.starts packet = false ∧ c.stateOf packet.keyId = none := by
  unfold adopt at h
  split at h
  case isTrue => exact absurd rfl (stateOf_eq_none.mp h).2
  case isFalse hstarts => exact ⟨Bool.eq_false_iff.mpr hstarts, h⟩

/-- **The packet that decides who the peer is and is rejected.** Nothing is known about the
peer yet, the packet may speak first, and no generation has its key id. -/
structure Latches (c : ControlChannel) (packet : ControlPacket) : Prop where
  unknown : c.remoteSession = none
  sender : c.checkSender packet = .ok ()
  acks : c.checkAcks packet = .ok ()
  starts : c.starts packet = false
  stranger : c.stateOf packet.keyId = none

theorem deliver_error (h : (c.deliver packet).1 = .error e) :
    c.stateOf packet.keyId = none ∧ (c.deliver packet).2 = c := by
  unfold deliver at h ⊢
  cases hstate : c.stateOf packet.keyId with
  | none => exact ⟨rfl, rfl⟩
  | some state =>
      rw [hstate] at h
      cases h

/-- A rejected packet changes nothing but, perhaps, who the peer is. -/
theorem interpret_error (h : (c.interpret packet).1 = .error e) :
    (c.interpret packet).2 = c ∨
      c.checkSender packet = .ok () ∧ c.checkAcks packet = .ok () ∧ c.starts packet = false ∧
        c.stateOf packet.keyId = none ∧ (c.interpret packet).2 = c.identify packet := by
  unfold interpret at h ⊢
  cases hsender : c.checkSender packet with
  | error => exact .inl rfl
  | ok =>
      cases hacks : c.checkAcks packet with
      | error => exact .inl rfl
      | ok =>
          rw [hsender, hacks] at h
          obtain ⟨hnone, hsame⟩ := deliver_error h
          obtain ⟨hstarts, hstranger⟩ := stateOf_adopt hnone
          refine .inr ⟨rfl, rfl, hstarts, hstranger, hsame.trans ?_⟩
          rw [adopt, hstarts]
          rfl

theorem interpret_latches (h : c.Latches packet) :
    c.interpret packet =
      (.error (.otherKeyId packet.keyId c.primary.keyId), c.identify packet) := by
  rw [interpret, h.sender, h.acks, adopt, h.starts]
  dsimp only
  rw [if_neg Bool.false_ne_true, deliver, stateOf_identify, h.stranger]
  rfl

theorem identify_eq_self (h : c.remoteSession ≠ none) : c.identify packet = c := by
  obtain ⟨known, hknown⟩ := Option.ne_none_iff_exists'.mp h
  rw [identify, hknown, Option.getD_some, ← hknown]

/-- Everything but the replay window is as before. -/
def SameButReplay (c c' : ControlChannel) : Prop := { c' with replay := c.replay } = c

/-- Which rejected packets change something, whatever the replay window has become. -/
theorem interpret_unchanged_iff (replay : ReplayWindow) :
    (∀ e, (interpret { c with replay := replay } packet).1 = .error e →
        c.SameButReplay (interpret { c with replay := replay } packet).2) ↔
      ¬c.Latches packet := by
  constructor
  · intro h hlatches
    have hlatches' : Latches { c with replay := replay } packet :=
      ⟨hlatches.unknown, hlatches.sender, hlatches.acks, hlatches.starts, hlatches.stranger⟩
    have heq := interpret_latches hlatches'
    have hsame := congrArg remoteSession (h _ (congrArg Prod.fst heq))
    rw [heq, hlatches.unknown] at hsame
    cases hsame
  · intro h e herror
    rcases interpret_error herror with heq | ⟨hsender, hacks, hstarts, hstranger, heq⟩
    · rw [heq]
      rfl
    · have hknown : c.remoteSession ≠ none := fun hunknown =>
        h ⟨hunknown, hsender, hacks, hstarts, hstranger⟩
      rw [heq, identify_eq_self (c := { c with replay := replay }) hknown]
      rfl

/-- **A rejected datagram changes nothing** unless it is authentic, fresh, and the one that
settles who the peer is although no generation has its key id. -/
theorem rejected_unchanged_iff (c : ControlChannel) (hmac : Hmac) (datagram : Bytes) (now : ℕ) :
    (∀ e, (c.handle hmac datagram now).1 = .error e →
        c.SameButReplay (c.handle hmac datagram now).2) ↔
      ¬∃ packet header, c.auth.unwrap hmac datagram = .ok (packet, header) ∧
        (c.replay.accept header.packetId header.netTime).1 = true ∧ c.Latches packet := by
  unfold handle
  cases hunwrap : c.auth.unwrap hmac datagram with
  | error e =>
      refine iff_of_true (fun _ _ => rfl) ?_
      rintro ⟨packet, header, hok, -⟩
      cases hok
  | ok found =>
      obtain ⟨packet, header⟩ := found
      dsimp only
      cases hfresh : (c.replay.accept header.packetId header.netTime).1 with
      | false =>
          refine iff_of_true (fun _ _ => rfl) ?_
          rintro ⟨_, _, ⟨⟩, hfresh', -⟩
          exact Bool.false_ne_true (hfresh.symm.trans hfresh')
      | true =>
          refine (interpret_unchanged_iff _).trans (not_congr ?_)
          constructor
          · exact fun hlatches => ⟨packet, header, rfl, hfresh, hlatches⟩
          · rintro ⟨_, _, ⟨⟩, -, hlatches⟩
            exact hlatches

/-- A client that has opened a session. -/
def opened : ControlChannel := (new (.new plainKey .inverse) ourId 2).opening

/-- The server's answer under a key id that a session does not begin with. -/
def strangeAnswer : ControlPacket where
  opcode := .controlHardResetServerV2
  keyId := ⟨1, by decide⟩
  sessionId := theirId
  acks := some ⟨[openingMessageId], ourId, by decide⟩
  packetId := some openingMessageId
  payload := []

/-- The HMAC of the strange answer. -/
def strangeHmac : Hmac := hmacOf [
    121, 67, 56, 134, 163, 3, 26, 109, 101, 67, 51, 61, 148, 43, 51, 220, 36, 85, 188, 107,
    246, 130, 244, 228, 119, 99, 57, 209, 150, 82, 5, 199, 60, 96, 188, 240, 176, 111, 160,
    157, 104, 66, 213, 48, 226, 182, 16, 178, 210, 20, 14, 114, 98, 3, 252, 70, 65, 128, 91,
    118, 209, 217, 92, 166] rfl

/-- It is refused, and from then on it is the peer. -/
theorem strange_answer_is_remembered :
    ¬∀ e, (opened.handle strangeHmac
        ((TlsAuth.new plainKey .normal).wrap strangeHmac strangeAnswer 1 0x6a87eba5) 0).1 =
          .error e →
      opened.SameButReplay (opened.handle strangeHmac
        ((TlsAuth.new plainKey .normal).wrap strangeHmac strangeAnswer 1 0x6a87eba5) 0).2 := by
  have hcanonical : strangeAnswer.Canonical := by
    refine ⟨rfl, ?_⟩
    rintro _ ⟨⟩
    nofun
  have hhandle : opened.handle strangeHmac
      ((TlsAuth.new plainKey .normal).wrap strangeHmac strangeAnswer 1 0x6a87eba5) 0 =
        (.error (.otherKeyId ⟨1, by decide⟩ .FIRST),
          { opened with replay := ⟨0x6a87eba5, 1, 1#64⟩, remoteSession := some theirId }) :=
    handle_wrap rfl hcanonical rfl
  intro h
  have hsame := congrArg remoteSession (h _ (congrArg Prod.fst hhandle))
  rw [hhandle] at hsame
  cases hsame

end ControlChannel

end SynologyFilestation.Openvpn
