import SynologyFilestation.Openvpn.Packet

/-!
The `tls-auth` envelope (`openvpn/src/tls_auth.rs`, `static_key.rs`).

HMAC-SHA-512 is not part of the repository: it is a function of the key and the
message with 64 bytes of result, and nothing else is asked of it.
-/

namespace SynologyFilestation.Openvpn

open Core Library

/-- HMAC-SHA-512. -/
structure Hmac where
  sign : Bytes → Bytes → Bytes
  length_sign : ∀ key message, (sign key message).length = 64

/-- `StaticKey`. -/
abbrev StaticKey := {bytes : Bytes // bytes.length = 256}

/-- `KeyDirection`. -/
inductive KeyDirection
  | normal
  | inverse
  | bidirectional
  deriving DecidableEq

namespace KeyDirection

def outSlot : KeyDirection → ℕ
  | normal | bidirectional => 0
  | inverse => 1

def inSlot : KeyDirection → ℕ
  | normal => 1
  | inverse | bidirectional => 0

/-- What the other end is configured with. -/
def peer : KeyDirection → KeyDirection
  | normal => inverse
  | inverse => normal
  | bidirectional => bidirectional

@[simp] theorem inSlot_peer (direction : KeyDirection) :
    direction.peer.inSlot = direction.outSlot := by
  cases direction <;> rfl

end KeyDirection

/-- `hmac_slot`: a slot is a cipher key and an HMAC key, 64 bytes each. -/
def hmacSlot (key : StaticKey) (slot : ℕ) : Bytes := (key.val.drop (slot * 128 + 64)).take 64

/-- `TlsAuthHeader`. -/
structure TlsAuthHeader where
  packetId : UInt32
  netTime : UInt32
  deriving DecidableEq

/-- `TlsAuth`. -/
structure TlsAuth where
  outKey : Bytes
  inKey : Bytes

namespace TlsAuth

/-- `TlsAuth::new`. -/
def new (key : StaticKey) (direction : KeyDirection) : TlsAuth where
  outKey := hmacSlot key direction.outSlot
  inKey := hmacSlot key direction.inSlot

variable (hmac : Hmac) (auth : TlsAuth)

/-- `TlsAuth::wrap`. -/
def wrap (packet : ControlPacket) (packetId netTime : UInt32) : Bytes :=
  let mac := hmac.sign auth.outKey
    (toBeBytes packetId ++ toBeBytes netTime ++ packet.encodePrefix ++ packet.encodeTail)
  packet.encodePrefix ++ (mac ++ (toBeBytes packetId ++ toBeBytes netTime ++ packet.encodeTail))

/-- `TlsAuth::unwrap`. -/
def unwrap (datagram : Bytes) : Except Error (ControlPacket × TlsAuthHeader) := do
  let (front, rest) ← takeFront 9 (.truncated "an opcode and session id") datagram
  let (mac, rest) ← takeFront 64 (.truncated "a tls-auth HMAC") rest
  let (replay, tail) ← takeFront 8 (.truncated "a tls-auth packet id") rest
  if mac.val = hmac.sign auth.inKey (replay.val ++ front.val ++ tail) then
    let packet ← ControlPacket.decode front.val tail
    .ok (packet, ⟨fromBeBytes (replay.val.take 4), fromBeBytes (replay.val.drop 4)⟩)
  else .error .badHmac

variable {hmac auth} {peer : TlsAuth} {datagram : Bytes} {packet : ControlPacket}
  {header : TlsAuthHeader}

/-- The replay header is two numbers. -/
theorem replayHeader_eq {replay : Bytes} (h : replay.length = 8) :
    toBeBytes (fromBeBytes (replay.take 4)) ++ toBeBytes (fromBeBytes (replay.drop 4)) =
      replay := by
  rw [toBeBytes_fromBeBytes (List.length_take_of_le (by omega)),
    toBeBytes_fromBeBytes (by rw [List.length_drop, h]), List.take_append_drop]

/-- **What one end takes is what the other end sends**, of the packets that the wire
has room for. -/
theorem unwrap_eq_ok (hkey : auth.inKey = peer.outKey) :
    auth.unwrap hmac datagram = .ok (packet, header) ↔
      packet.Canonical ∧ datagram = peer.wrap hmac packet header.packetId header.netTime := by
  simp only [unwrap, bind_eq_ok, Prod.exists, lossless_takeFront _ _ _ _ _]
  constructor
  · rintro ⟨front, rest, ⟨-, rfl⟩, mac, rest', ⟨-, rfl⟩, replay, tail, ⟨-, rfl⟩, h⟩
    split at h
    case isFalse => cases h
    case isTrue hmac' =>
      simp only [bind_eq_ok, ControlPacket.decode_eq_ok front.property] at h
      obtain ⟨found, ⟨hcanonical, hfront, htail⟩, h⟩ := h
      obtain ⟨rfl, rfl⟩ := Prod.mk.inj (Except.ok.inj h)
      refine ⟨hcanonical, ?_⟩
      rw [wrap, replayHeader_eq replay.property, ← hfront, ← htail, ← hkey, ← hmac']
  · rintro ⟨hcanonical, rfl⟩
    refine ⟨⟨packet.encodePrefix, ControlPacket.length_encodePrefix⟩, _, ⟨trivial, rfl⟩,
      ⟨_, hmac.length_sign ..⟩, _, ⟨trivial, rfl⟩,
      ⟨toBeBytes header.packetId ++ toBeBytes header.netTime, rfl⟩, _, ⟨trivial, rfl⟩, ?_⟩
    have hdecoded : ControlPacket.decode packet.encodePrefix packet.encodeTail = .ok packet :=
      (ControlPacket.decode_eq_ok ControlPacket.length_encodePrefix).mpr ⟨hcanonical, rfl, rfl⟩
    have hpacketId : (toBeBytes header.packetId ++ toBeBytes header.netTime).take 4 =
        toBeBytes header.packetId := rfl
    have hnetTime : (toBeBytes header.packetId ++ toBeBytes header.netTime).drop 4 =
        toBeBytes header.netTime := rfl
    rw [if_pos (by rw [hkey]), hdecoded, hpacketId, hnetTime, fromBeBytes_toBeBytes,
      fromBeBytes_toBeBytes]
    rfl

end TlsAuth

section Envelope

variable (hmac : Hmac) (key : StaticKey) (direction : KeyDirection)

/-- **Wrapping and unwrapping are inverse**: a packet comes back unless it has a
list of acknowledgements with nothing in it, and whatever is accepted is what
wrapping it again makes. -/
theorem wrap_unwrap_iff :
    (∀ packet : ControlPacket, packet.packetId.isSome = packet.opcode.carriesPacketId →
      ∀ packetId netTime,
        ((TlsAuth.new key direction.peer).unwrap hmac
            ((TlsAuth.new key direction).wrap hmac packet packetId netTime) =
              .ok (packet, ⟨packetId, netTime⟩) ↔
          ∀ acks, packet.acks = some acks → acks.ids ≠ [])) ∧
      ∀ datagram packet header,
        (TlsAuth.new key direction.peer).unwrap hmac datagram = .ok (packet, header) →
          (TlsAuth.new key direction).wrap hmac packet header.packetId header.netTime =
            datagram := by
  have hkey : (TlsAuth.new key direction.peer).inKey = (TlsAuth.new key direction).outKey := by
    rw [TlsAuth.new, TlsAuth.new, KeyDirection.inSlot_peer]
  constructor
  · intro packet hpacketId packetId netTime
    rw [TlsAuth.unwrap_eq_ok hkey]
    constructor
    · rintro ⟨⟨-, hacks⟩, -⟩
      exact hacks
    · intro hacks
      exact ⟨⟨hpacketId, hacks⟩, rfl⟩
  · intro datagram packet header h
    exact ((TlsAuth.unwrap_eq_ok hkey).mp h).2.symm

end Envelope

/-! ### Acknowledgements with and without ids -/

/-- A key of the same byte throughout. -/
def plainKey : StaticKey := ⟨List.replicate 256 7, List.length_replicate⟩

def ourId : SessionId := ⟨[1, 2, 3, 4, 5, 6, 7, 8], rfl⟩

def theirId : SessionId := ⟨[9, 10, 11, 12, 13, 14, 15, 16], rfl⟩

/-- A bare acknowledgement. -/
def bareAck (ids : List UInt32) (h : ids.length ≤ 8) : ControlPacket where
  opcode := .ackV1
  keyId := .FIRST
  sessionId := ourId
  acks := some ⟨ids, theirId, h⟩
  packetId := none
  payload := []

/-- The function that has one value, which is HMAC-SHA-512's for the message signed. -/
def hmacOf (mac : Bytes) (h : mac.length = 64) : Hmac := ⟨fun _ _ => mac, fun _ _ => h⟩

/-- The HMAC of the acknowledgement of messages 0 and 1. -/
def twoAcksHmac : Hmac := hmacOf [
    26, 237, 199, 60, 99, 142, 59, 204, 109, 21, 55, 115, 214, 138, 114, 191, 76, 162, 74, 151,
    201, 166, 99, 157, 247, 172, 101, 220, 231, 70, 86, 147, 235, 173, 121, 57, 241, 94, 49, 53,
    80, 143, 3, 183, 231, 197, 53, 135, 100, 211, 132, 99, 111, 243, 182, 136, 7, 123, 240, 69,
    205, 9, 33, 152] rfl

/-- The HMAC of the acknowledgement of nothing. -/
def noAcksHmac : Hmac := hmacOf [
    252, 31, 165, 134, 217, 125, 102, 31, 179, 18, 220, 161, 165, 135, 33, 103, 88, 59, 79, 40,
    69, 10, 147, 42, 46, 200, 33, 243, 133, 68, 233, 169, 179, 140, 51, 45, 67, 222, 217, 159,
    241, 124, 235, 190, 91, 183, 33, 231, 120, 55, 186, 177, 233, 163, 204, 95, 251, 234, 11, 133,
    176, 212, 100, 212] rfl

theorem two_acks_survive :
    (TlsAuth.new plainKey .normal).unwrap twoAcksHmac
        ((TlsAuth.new plainKey .inverse).wrap twoAcksHmac (bareAck [0, 1] (by decide)) 4
          0x6a87eba5) = .ok (bareAck [0, 1] (by decide), ⟨4, 0x6a87eba5⟩) := by
  refine ((wrap_unwrap_iff twoAcksHmac plainKey .inverse).1 _ rfl _ _).mpr ?_
  rintro _ ⟨⟩
  nofun

/-- The session id is written behind a count of zero, and read as the payload. -/
theorem no_acks_misread :
    ¬∀ (hmac : Hmac) (key : StaticKey) (direction : KeyDirection) (packet : ControlPacket),
      packet.packetId.isSome = packet.opcode.carriesPacketId → ∀ packetId netTime,
        (TlsAuth.new key direction.peer).unwrap hmac
          ((TlsAuth.new key direction).wrap hmac packet packetId netTime) =
            .ok (packet, ⟨packetId, netTime⟩) := by
  intro h
  have hread := h noAcksHmac plainKey .inverse (bareAck [] (by decide)) rfl 4 0x6a87eba5
  have hmisread : (TlsAuth.new plainKey .normal).unwrap noAcksHmac
      ((TlsAuth.new plainKey .inverse).wrap noAcksHmac (bareAck [] (by decide)) 4 0x6a87eba5) =
        .ok ({ bareAck [] (by decide) with acks := none, payload := theirId.val },
          ⟨4, 0x6a87eba5⟩) := by
    decide +kernel
  have hacks := congrArg ControlPacket.acks
    (Prod.mk.inj (Except.ok.inj (hread.symm.trans hmisread))).1
  cases hacks

end SynologyFilestation.Openvpn
