import SynologyFilestation.Openvpn.Replay
import SynologyFilestation.Openvpn.TlsAuth

/-!
The data channel (`openvpn/src/data.rs`).

AES-256-CBC with its padding is not part of the repository, nor is HMAC-SHA-512.
The padding adds a byte at least, and what was encrypted comes back from
decrypting it under the same key and initialization vector.
-/

namespace SynologyFilestation.Openvpn

open Core Library

/-- AES-256-CBC with PKCS#7 padding. -/
structure Cipher where
  encrypt : (key iv plaintext : Bytes) → Bytes
  decrypt : (key iv ciphertext : Bytes) → Option Bytes
  decrypt_encrypt : ∀ key iv plaintext,
    decrypt key iv (encrypt key iv plaintext) = some plaintext
  encrypt_ne_nil : ∀ key iv plaintext, encrypt key iv plaintext ≠ []

/-- `DataKeys`. -/
structure DataKeys where
  encryptCipher : Bytes
  encryptHmac : Bytes
  decryptCipher : Bytes
  decryptHmac : Bytes
  deriving DecidableEq

namespace DataKeys

/-- `DataKeys::split`: a slot is a cipher key, of which 32 bytes are used, and an
HMAC key. -/
def split (expansion : Bytes) (outSlot inSlot : ℕ) : Except Error DataKeys :=
  if expansion.length < 256 then .error (.truncated "a key expansion")
  else .ok {
    encryptCipher := (expansion.drop (outSlot * 128)).take 32
    encryptHmac := (expansion.drop (outSlot * 128 + 64)).take 64
    decryptCipher := (expansion.drop (inSlot * 128)).take 32
    decryptHmac := (expansion.drop (inSlot * 128 + 64)).take 64 }

/-- `DataKeys::for_client`. -/
def forClient (expansion : Bytes) : Except Error DataKeys := split expansion 0 1

/-- `DataKeys::for_server`. -/
def forServer (expansion : Bytes) : Except Error DataKeys := split expansion 1 0

/-- What one end decrypts with is what the other end encrypts with. -/
structure Paired (ours theirs : DataKeys) : Prop where
  cipher : theirs.decryptCipher = ours.encryptCipher
  hmac : theirs.decryptHmac = ours.encryptHmac

/-- An expansion that is long enough has the keys. -/
theorem exists_forClient {expansion : Bytes} (h : expansion.length = 256) :
    ∃ keys, forClient expansion = .ok keys := by
  refine ⟨_, if_neg ?_⟩
  rw [h]
  exact Nat.lt_irrefl _

theorem paired_split {expansion : Bytes} {a b : ℕ} {ours theirs : DataKeys}
    (hours : split expansion a b = .ok ours) (htheirs : split expansion b a = .ok theirs) :
    Paired ours theirs := by
  unfold split at hours htheirs
  split at hours
  case isTrue => cases hours
  case isFalse hlong =>
    rw [if_neg hlong] at htheirs
    cases hours
    cases htheirs
    exact ⟨rfl, rfl⟩

end DataKeys

/-- `PeerId`. -/
abbrev PeerId := {id : UInt32 // id ≤ 0x00ffffff}

/-- `DataChannel`. -/
structure DataChannel where
  keys : DataKeys
  peerId : Option PeerId
  keyId : KeyId
  nextPacketId : UInt32
  replay : ReplayWindow

namespace DataChannel

/-- `DataChannel::new`. -/
def new (keys : DataKeys) (peerId : Option PeerId) (keyId : KeyId) : DataChannel where
  keys := keys
  peerId := peerId
  keyId := keyId
  nextPacketId := 1
  replay := .new

/-- The opcode and key id, and the peer id if there is one. -/
def header (c : DataChannel) : Bytes :=
  match c.peerId with
  | some peerId => ControlPacket.headerByte .dataV2 c.keyId :: (toBeBytes peerId.val).drop 1
  | none => [ControlPacket.headerByte .dataV1 c.keyId]

variable (cipher : Cipher) (hmac : Hmac) (c : DataChannel)

/-- `encrypt_with_iv`. -/
def encryptWithIv (payload : Bytes) (iv : {iv : Bytes // iv.length = 16}) :
    Except Error Bytes × DataChannel :=
  -- `checked_add`: the last id of all is never used.
  if c.nextPacketId = 0xffffffff then (.error .packetIdExhausted, c)
  else
    let plaintext := toBeBytes c.nextPacketId ++ payload
    let ciphertext := cipher.encrypt c.keys.encryptCipher iv.val plaintext
    let tag := hmac.sign c.keys.encryptHmac (iv.val ++ ciphertext)
    (.ok (c.header ++ (tag ++ (iv.val ++ ciphertext))),
      { c with nextPacketId := c.nextPacketId + 1 })

/-- Where the packet starts depends on which of the two forms it has. -/
def headerEnd : Opcode → Except Error ℕ
  | .dataV2 => .ok 4
  | .dataV1 => .ok 1
  | other => .error (.unexpectedDataOpcode other)

/-- `decrypt` up to the replay window: the packet id and the payload. -/
def authenticate (datagram : Bytes) : Except Error (UInt32 × Bytes) := do
  let (first, _) ← ControlPacket.readU8 "a data packet" datagram
  let opcode ← Opcode.fromU8 (first >>> 3)
  let headerEnd ← headerEnd opcode
  let tagEnd := headerEnd + 64
  let ivEnd := tagEnd + 16
  if datagram.length ≤ ivEnd then .error (.truncated "a data packet")
  else if KeyId.ofMasked first ≠ c.keyId then
    .error (.otherKeyId (KeyId.ofMasked first) c.keyId)
  else if hmac.sign c.keys.decryptHmac (datagram.drop tagEnd) ≠ (datagram.drop headerEnd).take 64
  then .error .badHmac
  else
    match cipher.decrypt c.keys.decryptCipher ((datagram.drop tagEnd).take 16)
      (datagram.drop ivEnd) with
    | none => .error .badPadding
    | some plaintext =>
        if plaintext.length < 4 then .error (.truncated "a packet id")
        else .ok (fromBeBytes (plaintext.take 4), plaintext.drop 4)

/-- `decrypt`. -/
def decrypt (datagram : Bytes) : Except Error Bytes × DataChannel :=
  match c.authenticate cipher hmac datagram with
  | .error e => (.error e, c)
  | .ok (packetId, payload) =>
      let (fresh, replay) := c.replay.accept packetId 0
      (if fresh then .ok payload else .error .replayed, { c with replay := replay })

variable {cipher hmac c}

/-- A datagram that is refused changes nothing. -/
theorem decrypt_refused {datagram : Bytes} {e : Error}
    (h : (c.decrypt cipher hmac datagram).1 = .error e) :
    (c.decrypt cipher hmac datagram).2 = c := by
  unfold decrypt at h ⊢
  split at h
  case h_1 => rfl
  case h_2 packetId payload hopen =>
    have hrefused : (c.replay.accept packetId 0).1 = false := by
      by_contra haccepted
      rw [Bool.not_eq_false] at haccepted
      simp only [haccepted, if_true] at h
      cases h
    simp only [ReplayWindow.accept_refused hrefused]

theorem encryptWithIv_eq_ok {payload datagram : Bytes} {iv : {iv : Bytes // iv.length = 16}}
    {c' : DataChannel} (h : c.encryptWithIv cipher hmac payload iv = (.ok datagram, c')) :
    c.nextPacketId ≠ 0xffffffff ∧ c' = { c with nextPacketId := c.nextPacketId + 1 } ∧
      ∃ ciphertext, ciphertext = cipher.encrypt c.keys.encryptCipher iv.val
          (toBeBytes c.nextPacketId ++ payload) ∧
        datagram = c.header ++
          (hmac.sign c.keys.encryptHmac (iv.val ++ ciphertext) ++ (iv.val ++ ciphertext)) := by
  rw [encryptWithIv] at h
  split at h
  case isTrue => cases h
  case isFalse hlast =>
    cases h
    exact ⟨hlast, rfl, _, rfl, rfl⟩

/-- An end that has sent its last id refuses, and stays as it is. -/
theorem encryptWithIv_exhausted {payload : Bytes} {iv : {iv : Bytes // iv.length = 16}} {e : Error}
    {c' : DataChannel} (h : c.encryptWithIv cipher hmac payload iv = (.error e, c')) :
    c.nextPacketId = 0xffffffff ∧ e = .packetIdExhausted ∧ c' = c := by
  rw [encryptWithIv] at h
  split at h
  case isTrue hlast =>
    cases h
    exact ⟨hlast, rfl, rfl⟩
  case isFalse => cases h

theorem exists_header (c : DataChannel) : ∃ opcode rest,
    c.header = ControlPacket.headerByte opcode c.keyId :: rest ∧
      headerEnd opcode = .ok c.header.length := by
  rw [header]
  cases c.peerId with
  | some peerId => exact ⟨.dataV2, _, rfl, rfl⟩
  | none => exact ⟨.dataV1, _, rfl, rfl⟩

/-- **What one end encrypts the other end reads**: the id and the payload. -/
theorem authenticate_encrypt {peer : DataChannel} {payload datagram : Bytes}
    {iv : {iv : Bytes // iv.length = 16}} {c' : DataChannel} (hkeys : c.keys.Paired peer.keys)
    (hkeyId : peer.keyId = c.keyId)
    (h : c.encryptWithIv cipher hmac payload iv = (.ok datagram, c')) :
    peer.authenticate cipher hmac datagram = .ok (c.nextPacketId, payload) := by
  obtain ⟨-, -, ciphertext, hciphertext, hdatagram⟩ := encryptWithIv_eq_ok h
  obtain ⟨opcode, rest, hheader, hend⟩ := c.exists_header
  have htag := hmac.length_sign c.keys.encryptHmac (iv.val ++ ciphertext)
  have hiv := iv.property
  have hne : ciphertext ≠ [] := hciphertext ▸ cipher.encrypt_ne_nil _ _ _
  have hlong : ¬datagram.length ≤ c.header.length + 64 + 16 := by
    have hpos := List.length_pos_iff.mpr hne
    simp only [hdatagram, List.length_append]
    omega
  have hbody : datagram.drop (c.header.length + 64) = iv.val ++ ciphertext := by
    rw [hdatagram, ← List.drop_drop, List.drop_left, List.drop_left' htag]
  have hsigned : (datagram.drop c.header.length).take 64 =
      hmac.sign c.keys.encryptHmac (iv.val ++ ciphertext) := by
    rw [hdatagram, List.drop_left, List.take_left' htag]
  have hdropped : datagram.drop (c.header.length + 64 + 16) = ciphertext := by
    rw [← List.drop_drop, hbody, List.drop_left' hiv]
  have htaken : (iv.val ++ ciphertext).take 16 = iv.val := List.take_left' hiv
  have hfirst : ControlPacket.readU8 "a data packet" datagram =
      .ok (ControlPacket.headerByte opcode c.keyId, datagram.drop 1) := by
    rw [hdatagram, hheader]
    rfl
  have hopcode : Opcode.fromU8 (ControlPacket.headerByte opcode c.keyId >>> 3) = .ok opcode :=
    Opcode.fromU8_eq_ok.mpr (ControlPacket.headerByte_shiftRight ..)
  simp only [authenticate, hfirst, hopcode, hend, bind, Except.bind]
  rw [if_neg hlong, if_neg (not_not.mpr ((ControlPacket.ofMasked_headerByte ..).trans hkeyId.symm)),
    hbody, hsigned, hkeys.hmac, if_neg (not_not.mpr rfl), htaken, hdropped, hkeys.cipher,
    hciphertext, cipher.decrypt_encrypt]
  have hshort : ¬(toBeBytes c.nextPacketId ++ payload).length < 4 := by
    rw [List.length_append, length_toBeBytes]
    omega
  have hid : (toBeBytes c.nextPacketId ++ payload).take 4 = toBeBytes c.nextPacketId := rfl
  have hpayload : (toBeBytes c.nextPacketId ++ payload).drop 4 = payload := rfl
  simp only [if_neg hshort, hid, hpayload, fromBeBytes_toBeBytes]

/-- What an end makes of a packet it can read is up to its replay window. -/
theorem decrypt_of_authenticate {datagram payload : Bytes} {id : UInt32}
    (h : c.authenticate cipher hmac datagram = .ok (id, payload)) :
    c.decrypt cipher hmac datagram =
      (if (c.replay.accept id 0).1 then .ok payload else .error .replayed,
        { c with replay := (c.replay.accept id 0).2 }) := by
  simp only [decrypt, h]

end DataChannel

end SynologyFilestation.Openvpn
