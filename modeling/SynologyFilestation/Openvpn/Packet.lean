import SynologyFilestation.Core.Path
import SynologyFilestation.Library.Wire
import Mathlib.Data.UInt

/-!
Control packets and their framing (`openvpn/src/packet.rs`).

The list of acknowledgements and the session id behind it are one field, which
is on the wire only if something is acknowledged; a packet with an empty list of
them can be built all the same.
-/

namespace SynologyFilestation.Openvpn

open Core Library

/-! ### Numbers on the wire -/

/-- `u32::to_be_bytes`. -/
def toBeBytes (x : UInt32) : Bytes :=
  [.ofNat (x.toNat / 2 ^ 24), .ofNat (x.toNat / 2 ^ 16), .ofNat (x.toNat / 2 ^ 8), .ofNat x.toNat]

/-- `u32::from_be_bytes`. -/
def fromBeBytes (bytes : Bytes) : UInt32 :=
  .ofNat (bytes.foldl (fun n byte => n * 2 ^ 8 + byte.toNat) 0)

@[simp] theorem length_toBeBytes (x : UInt32) : (toBeBytes x).length = 4 := rfl

@[simp] theorem fromBeBytes_toBeBytes (x : UInt32) : fromBeBytes (toBeBytes x) = x := by
  apply UInt32.toNat_inj.mp
  have hx := x.toNat_lt
  simp only [fromBeBytes, toBeBytes, List.foldl_cons, List.foldl_nil, UInt8.toNat_ofNat',
    UInt32.toNat_ofNat']
  omega

theorem toBeBytes_fromBeBytes {bytes : Bytes} (h : bytes.length = 4) :
    toBeBytes (fromBeBytes bytes) = bytes := by
  obtain ⟨a, b, c, d, rfl⟩ : ∃ a b c d, bytes = [a, b, c, d] := by
    match bytes, h with
    | [a, b, c, d], _ => exact ⟨a, b, c, d, rfl⟩
  have ha := a.toNat_lt
  have hb := b.toNat_lt
  have hc := c.toNat_lt
  have hd := d.toNat_lt
  simp only [toBeBytes, fromBeBytes, List.foldl_cons, List.foldl_nil, UInt32.toNat_ofNat',
    List.cons.injEq, and_true, ← UInt8.toNat_inj, UInt8.toNat_ofNat']
  omega

/-! ### What a packet says -/

/-- `SessionId`. -/
abbrev SessionId := {bytes : Bytes // bytes.length = 8}

/-- `Opcode`. -/
inductive Opcode
  | controlSoftResetV1
  | controlV1
  | ackV1
  | dataV1
  | controlHardResetClientV2
  | controlHardResetServerV2
  | dataV2
  deriving DecidableEq, Repr

/-- `Opcode as u8`. -/
def Opcode.toU8 : Opcode → UInt8
  | controlSoftResetV1 => 3
  | controlV1 => 4
  | ackV1 => 5
  | dataV1 => 6
  | controlHardResetClientV2 => 7
  | controlHardResetServerV2 => 8
  | dataV2 => 9

def Opcode.carriesPacketId (opcode : Opcode) : Bool := opcode ≠ ackV1

/-- `KeyId`. -/
structure KeyId where
  value : UInt8
  le : value ≤ 7
  deriving DecidableEq

def KeyId.FIRST : KeyId := ⟨0, by decide⟩

/-- The key id that a second generation has is one. -/
theorem KeyId.one_le : (1 : UInt8) ≤ 7 := by decide

/-- The masked bits of a byte. -/
def KeyId.ofMasked (byte : UInt8) : KeyId := ⟨byte &&& 7, by
  rw [UInt8.le_iff_toNat_le, UInt8.toNat_and]
  exact Nat.and_le_right⟩

/-- `Error`, as far as what is modelled reports it. -/
inductive Error
  | truncated (context : String)
  | unknownOpcode (value : UInt8)
  | tooManyAcks (count : ℕ)
  | badHmac
  | wrongSession
  | otherKeyId (theirs ours : KeyId)
  | ackForAnotherSession
  | replayed
  | unexpectedFirstPacket
  | unsupportedKeyMethod (method : UInt8)
  | authFailed (detail : Bytes)
  | unexpectedControlMessage (text : Bytes)
  | peerClosed
  | unexpectedDataOpcode (opcode : Opcode)
  | badPadding
  | packetIdExhausted
  | badPushDirective (directive : Bytes)
  | unsupportedCipher (cipher : Bytes)
  | unsupportedCompression (directive : Bytes)
  | notReady
  | noPushReply
  | fieldTooLong (context : String)
  | tls (text : String)
  deriving DecidableEq

/-- `Opcode::from_u8`. -/
def Opcode.fromU8 (value : UInt8) : Except Error Opcode :=
  if value = 3 then .ok controlSoftResetV1
  else if value = 4 then .ok controlV1
  else if value = 5 then .ok ackV1
  else if value = 6 then .ok dataV1
  else if value = 7 then .ok controlHardResetClientV2
  else if value = 8 then .ok controlHardResetServerV2
  else if value = 9 then .ok dataV2
  else .error (.unknownOpcode value)

theorem Opcode.fromU8_eq_ok {value : UInt8} {opcode : Opcode} :
    fromU8 value = .ok opcode ↔ value = opcode.toU8 := by
  constructor
  · intro h
    unfold fromU8 at h
    repeat' split at h
    all_goals first | cases h; assumption | cases h
  · rintro rfl
    cases opcode <;> rfl

/-- `Acks`. -/
structure Acks where
  ids : List UInt32
  sessionId : SessionId
  bounded : ids.length ≤ 8
  deriving DecidableEq

/-- `Acks::MAX`. -/
def Acks.max : ℕ := 8

/-- `Acks::new`. -/
def Acks.new (ids : List UInt32) (sessionId : SessionId) : Except Error Acks :=
  if h : ids.length ≤ 8 then .ok ⟨ids, sessionId, h⟩ else .error (.tooManyAcks ids.length)

theorem Acks.new_eq_ok {ids : List UInt32} {sessionId : SessionId} {acks : Acks} :
    new ids sessionId = .ok acks ↔ acks.ids = ids ∧ acks.sessionId = sessionId := by
  rw [new]
  constructor
  · intro h
    split at h <;> cases h
    exact ⟨rfl, rfl⟩
  · rintro ⟨rfl, rfl⟩
    rw [dif_pos acks.bounded]

/-- `ControlPacket`. -/
structure ControlPacket where
  opcode : Opcode
  keyId : KeyId
  sessionId : SessionId
  acks : Option Acks
  packetId : Option UInt32
  payload : Bytes
  deriving DecidableEq

namespace ControlPacket

/-! ### Framing -/

/-- The opcode and the key id share a byte. -/
def headerByte (opcode : Opcode) (keyId : KeyId) : UInt8 := (opcode.toU8 <<< 3) ||| keyId.value

theorem headerByte_shiftRight (opcode : Opcode) (keyId : KeyId) :
    headerByte opcode keyId >>> 3 = opcode.toU8 := by
  obtain ⟨⟨value⟩, h⟩ := keyId
  cases opcode <;> revert value <;> decide +kernel

theorem ofMasked_headerByte (opcode : Opcode) (keyId : KeyId) :
    KeyId.ofMasked (headerByte opcode keyId) = keyId := by
  obtain ⟨⟨value⟩, h⟩ := keyId
  cases opcode <;> revert value <;> decide +kernel

theorem headerByte_ofMasked (byte : UInt8) :
    ((byte >>> 3) <<< 3) ||| (byte &&& 7) = byte := by
  obtain ⟨value⟩ := byte
  revert value
  decide +kernel

/-- The acknowledgements in front of the message id. -/
def encodeAcks : Option Acks → Bytes
  | some acks => .ofNat acks.ids.length :: acks.ids.flatMap toBeBytes ++ acks.sessionId.val
  | none => [0]

def encodePacketId : Option UInt32 → Bytes
  | some id => toBeBytes id
  | none => []

variable (p : ControlPacket)

/-- `encode_prefix`. -/
def encodePrefix : Bytes := headerByte p.opcode p.keyId :: p.sessionId.val

/-- `encode_tail`. -/
def encodeTail : Bytes := encodeAcks p.acks ++ (encodePacketId p.packetId ++ p.payload)

/-- `Cursor::u8`. -/
def readU8 (context : String) : Bytes → Except Error (UInt8 × Bytes)
  | [] => .error (.truncated context)
  | byte :: rest => .ok (byte, rest)

/-- `Cursor::u32`. -/
def readU32 (context : String) : Bytes → Except Error (UInt32 × Bytes) :=
  readAs (fun bytes => fromBeBytes bytes.val) (takeFront 4 (.truncated context))

/-- `Cursor::session_id`. -/
def readSessionId (context : String) : Bytes → Except Error (SessionId × Bytes) :=
  takeFront 8 (.truncated context)

def readAcks (tail : Bytes) : Except Error (Option Acks × Bytes) := do
  let (count, rest) ← readU8 "an ack count" tail
  if 0 < count.toNat then
    let (ids, rest) ← readTimes (readU32 "an acknowledged packet id") count.toNat rest
    let (sessionId, rest) ← readSessionId "an acked session id" rest
    let acks ← Acks.new ids sessionId
    .ok (some acks, rest)
  else .ok (none, rest)

def readPacketId (opcode : Opcode) (bytes : Bytes) : Except Error (Option UInt32 × Bytes) :=
  if opcode.carriesPacketId then readAs some (readU32 "a packet id") bytes else .ok (none, bytes)

/-- `ControlPacket::decode`. -/
def decode (front tail : Bytes) : Except Error ControlPacket := do
  let (header, rest) ← readU8 "an opcode" front
  let opcode ← Opcode.fromU8 (header >>> 3)
  let (sessionId, _) ← readSessionId "a session id" rest
  let (acks, rest) ← readAcks tail
  let (packetId, payload) ← readPacketId opcode rest
  .ok ⟨opcode, .ofMasked header, sessionId, acks, packetId, payload⟩

/-- Nothing that the wire has no room for, and nothing left out. -/
structure Canonical : Prop where
  packetId : p.packetId.isSome = p.opcode.carriesPacketId
  acks : ∀ acks, p.acks = some acks → acks.ids ≠ []

theorem lossless_readU8 (context : String) :
    Lossless (fun _ => True) (fun byte => [byte]) (readU8 context) := by
  intro bytes byte rest
  cases bytes with
  | nil => exact ⟨nofun, fun ⟨_, h⟩ => nomatch h⟩
  | cons first bytes =>
      rw [readU8, List.singleton_append, List.cons.injEq]
      constructor
      · rintro ⟨⟩
        exact ⟨trivial, rfl, rfl⟩
      · rintro ⟨-, rfl, rfl⟩
        rfl

theorem lossless_readU32 (context : String) :
    Lossless (fun _ => True) toBeBytes (readU32 context) := by
  have hread : Lossless (fun _ => True) (fun id : UInt32 => toBeBytes id) (readU32 context) :=
    (lossless_takeFront 4 _).readAs (g := fun id => ⟨toBeBytes id, rfl⟩)
      (fun bytes => Subtype.ext (toBeBytes_fromBeBytes bytes.property)) fromBeBytes_toBeBytes
  exact hread

theorem lossless_readAcks :
    Lossless (fun o : Option Acks => ∀ acks, o = some acks → acks.ids ≠ []) encodeAcks
      readAcks := by
  intro tail o rest
  simp only [readAcks, bind_eq_ok, Prod.exists, lossless_readU8 _ _ _ _]
  constructor
  · rintro ⟨count, rest', ⟨-, rfl⟩, h⟩
    split at h
    case isTrue hcount =>
      simp only [bind_eq_ok, Prod.exists, (lossless_readU32 _).readTimes _ _ _ _, readSessionId,
        lossless_takeFront _ _ _ _ _, Acks.new_eq_ok] at h
      obtain ⟨ids, rest', ⟨⟨hlength, -⟩, rfl⟩, sessionId, rest'', ⟨-, rfl⟩, acks, ⟨rfl, rfl⟩,
        h⟩ := h
      obtain ⟨rfl, rfl⟩ := Prod.mk.inj (Except.ok.inj h)
      refine ⟨?_, ?_⟩
      · rintro _ ⟨⟩ hnil
        rw [hnil] at hlength
        exact absurd hlength (Nat.ne_of_lt hcount)
      · rw [encodeAcks, hlength]
        simp
    case isFalse hcount =>
      obtain ⟨rfl, rfl⟩ := Prod.mk.inj (Except.ok.inj h)
      refine ⟨nofun, ?_⟩
      obtain rfl : count = 0 := by
        apply UInt8.toNat_inj.mp
        simpa using hcount
      rfl
  · rintro ⟨hids, rfl⟩
    cases o with
    | none => exact ⟨0, rest, ⟨trivial, rfl⟩, rfl⟩
    | some acks =>
        have hcount : (UInt8.ofNat acks.ids.length).toNat = acks.ids.length := by
          rw [UInt8.toNat_ofNat', Nat.mod_eq_of_lt (Nat.lt_of_le_of_lt acks.bounded (by decide))]
        refine ⟨.ofNat acks.ids.length, acks.ids.flatMap toBeBytes ++ (acks.sessionId.val ++ rest),
          ⟨trivial, by simp [encodeAcks]⟩, ?_⟩
        rw [hcount, if_pos (List.length_pos_iff.mpr (hids acks rfl))]
        simp only [bind_eq_ok, Prod.exists, (lossless_readU32 _).readTimes _ _ _ _, readSessionId,
          lossless_takeFront _ _ _ _ _, Acks.new_eq_ok]
        exact ⟨acks.ids, _, ⟨⟨rfl, fun _ _ => trivial⟩, rfl⟩, acks.sessionId, rest, ⟨trivial, rfl⟩,
          acks, ⟨rfl, rfl⟩, rfl⟩

theorem lossless_readPacketId (opcode : Opcode) :
    Lossless (fun o : Option UInt32 => o.isSome = opcode.carriesPacketId) encodePacketId
      (readPacketId opcode) := by
  intro bytes o rest
  rw [readPacketId]
  split
  case isTrue hcarries =>
    rw [hcarries]
    constructor
    · intro h
      cases hid : readU32 "a packet id" bytes with
      | error e =>
          rw [readAs, hid] at h
          cases h
      | ok found =>
          rw [readAs, hid] at h
          obtain ⟨rfl, rfl⟩ := Prod.mk.inj (Except.ok.inj h)
          exact ⟨rfl, ((lossless_readU32 _ _ _ _).mp hid).2⟩
    · rintro ⟨hsome, rfl⟩
      obtain ⟨id, rfl⟩ := Option.isSome_iff_exists.mp hsome
      rw [readAs, encodePacketId, (lossless_readU32 _ _ _ _).mpr ⟨trivial, rfl⟩]
      rfl
  case isFalse hcarries =>
    rw [Bool.eq_false_iff.mpr hcarries]
    constructor
    · intro h
      obtain ⟨rfl, rfl⟩ := Prod.mk.inj (Except.ok.inj h)
      exact ⟨rfl, rfl⟩
    · rintro ⟨hnone, rfl⟩
      obtain rfl := Option.isNone_iff_eq_none.mp (Option.isSome_eq_false_iff.mp hnone)
      rfl

variable {p} {front tail : Bytes}

@[simp] theorem length_encodePrefix : p.encodePrefix.length = 9 :=
  congrArg (· + 1) p.sessionId.property

/-- **What `decode` takes is what was encoded**, and every canonical packet. -/
theorem decode_eq_ok (hfront : front.length = 9) :
    decode front tail = .ok p ↔ p.Canonical ∧ front = p.encodePrefix ∧ tail = p.encodeTail := by
  simp only [decode, bind_eq_ok, Prod.exists, lossless_readU8 _ _ _ _, Opcode.fromU8_eq_ok,
    readSessionId, lossless_takeFront _ _ _ _ _, lossless_readAcks _ _ _,
    lossless_readPacketId _ _ _ _]
  constructor
  · rintro ⟨header, rest, ⟨-, rfl⟩, opcode, hopcode, sessionId, rest', ⟨-, rfl⟩, acks, rest'',
      ⟨hacks, rfl⟩, packetId, payload, ⟨hpacketId, rfl⟩, h⟩
    obtain rfl := Except.ok.inj h
    obtain rfl : rest' = [] := by
      have hlength := sessionId.property
      simp only [List.singleton_append, List.length_cons, List.length_append] at hfront
      exact List.length_eq_zero_iff.mp (by omega)
    refine ⟨⟨hpacketId, hacks⟩, ?_, rfl⟩
    simp only [encodePrefix, headerByte, ← hopcode, KeyId.ofMasked, headerByte_ofMasked,
      List.append_nil, List.singleton_append]
  · rintro ⟨⟨hpacketId, hacks⟩, rfl, rfl⟩
    refine ⟨headerByte p.opcode p.keyId, p.sessionId.val, ⟨trivial, rfl⟩, p.opcode,
      headerByte_shiftRight .., p.sessionId, [], ⟨trivial, (List.append_nil _).symm⟩, p.acks, _,
      ⟨hacks, rfl⟩, p.packetId, p.payload, ⟨hpacketId, rfl⟩, ?_⟩
    rw [ofMasked_headerByte]

end ControlPacket

end SynologyFilestation.Openvpn
