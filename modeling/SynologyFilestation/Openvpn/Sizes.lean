import SynologyFilestation.Openvpn.DataLink
import SynologyFilestation.Openvpn.Outbox

/-!
What fits in a datagram (`openvpn/src/session.rs`, `stack.rs`).

The bounds are constants, worked out by hand; the sizes are those of what the encoders write. Both
have to agree for every packet that the bounds allow.
-/

namespace SynologyFilestation.Openvpn

open Core Library

/-! ### Sizes on the link -/

/-- `LINK`. -/
def link : ℕ := 1450

/-- `OUTER`. -/
def outer : ℕ := 40 + 8

/-- `WRAP`. -/
def wrapping : ℕ := 4 + 64 + 16 + 4 + 16

/-- `MTU`. -/
def mtu : ℕ := link - outer - wrapping

/-- `MIN_MTU`. -/
def minMtu : ℕ := 576

/-- `MSS_OVERHEAD`. -/
def mssOverhead : ℕ := 20 + 20

/-- `Mtu`. -/
abbrev Mtu := {bytes : ℕ // minMtu ≤ bytes ∧ bytes ≤ mtu}

namespace Mtu

/-- `Mtu::new`. -/
def new (bytes : ℕ) : Except String Mtu :=
  if h : minMtu ≤ bytes ∧ bytes ≤ mtu then .ok ⟨bytes, h⟩
  else .error (s!"a tunnel MTU of {bytes} is outside {minMtu}..={mtu}: smaller than " ++
    s!"{minMtu} is not carried by every path, and larger than {mtu} does not fit the " ++
      s!"{link} bytes the server allows a datagram")

/-- `Mtu::mss`. -/
def mss (m : Mtu) : ℕ := m.val - mssOverhead

/-- `Mtu::default`. -/
def standard : Mtu := ⟨mtu, by decide⟩

/-- What is refused is exactly what the type has no room for. -/
theorem new_eq_ok {bytes : ℕ} {m : Mtu} : new bytes = .ok m ↔ m.val = bytes := by
  rw [new]
  constructor
  · intro h
    split at h <;> cases h
    rfl
  · rintro rfl
    rw [dif_pos m.property]

end Mtu

/-! ### Control datagrams -/

/-- The pieces that `drain_into` hands to `send_control`. -/
def Outbox.cut (outbox : Outbox) (channel : ControlChannel) (keyId : KeyId) : List Bytes :=
  pieces maxTlsFragment (fun c piece => c.sendControl keyId piece) outbox.pending channel

theorem length_encodeAcks (acks : Option Acks) :
    (ControlPacket.encodeAcks acks).length ≤ 1 + 4 * Acks.max + 8 := by
  rcases acks with _ | ⟨ids, sessionId, hids⟩
  · decide
  · have hbytes : (ids.flatMap toBeBytes).length = 4 * ids.length := by
      rw [List.length_flatMap]
      simp [toBeBytes, Nat.mul_comm]
    simp only [ControlPacket.encodeAcks, List.length_append, List.length_cons, hbytes,
      sessionId.property, Acks.max]
    omega

theorem length_encodePacketId (packetId : Option UInt32) :
    (ControlPacket.encodePacketId packetId).length ≤ 4 := by
  rcases packetId with _ | id
  · decide
  · rfl

/-- A control datagram spends no more than `CONTROL_OVERHEAD` on what is not payload. -/
theorem TlsAuth.length_wrap (hmac : Hmac) (auth : TlsAuth) (packet : ControlPacket)
    (packetId netTime : UInt32) :
    (auth.wrap hmac packet packetId netTime).length ≤ controlOverhead + packet.payload.length := by
  have hacks := length_encodeAcks packet.acks
  have hid := length_encodePacketId packet.packetId
  simp only [wrap, ControlPacket.encodePrefix, ControlPacket.encodeTail, List.length_append,
    List.length_cons, hmac.length_sign, packet.sessionId.property, controlOverhead, Acks.max,
    toBeBytes, List.length_nil] at hacks ⊢
  omega

/-! ### Data datagrams -/

/-- PKCS#7: a byte at least, and the last block is full. -/
def Cipher.PadsToBlock (cipher : Cipher) : Prop :=
  ∀ key iv plaintext, (cipher.encrypt key iv plaintext).length = (plaintext.length / 16 + 1) * 16

theorem DataChannel.length_header (c : DataChannel) : c.header.length ≤ 4 := by
  rw [header]
  split
  · rfl
  · exact Nat.le_of_ble_eq_true rfl

theorem DataChannel.length_encrypt {cipher : Cipher} (hpads : cipher.PadsToBlock) {hmac : Hmac}
    {c c' : DataChannel} {payload datagram : Bytes} {iv : {iv : Bytes // iv.length = 16}}
    (h : c.encryptWithIv cipher hmac payload iv = (.ok datagram, c')) :
    datagram.length ≤ payload.length + wrapping := by
  have hheader := c.length_header
  rw [encryptWithIv] at h
  split at h
  · cases h
  · obtain ⟨hdatagram, -⟩ := Prod.mk.inj h
    obtain rfl := Except.ok.inj hdatagram
    simp only [List.length_append, hmac.length_sign, iv.property, hpads _ _ _, toBeBytes,
      List.length_cons, List.length_nil, wrapping]
    omega

/-- Whatever MTU the tunnel was given, its packets fit. -/
theorem Mtu.length_encrypt (m : Mtu) {cipher : Cipher} (hpads : cipher.PadsToBlock) {hmac : Hmac}
    {c c' : DataChannel} {packet datagram : Bytes} {iv : {iv : Bytes // iv.length = 16}}
    (hpacket : packet.length ≤ m.val)
    (h : c.encryptWithIv cipher hmac packet iv = (.ok datagram, c')) :
    datagram.length ≤ link - outer := by
  have hlength := DataChannel.length_encrypt hpads h
  have hmtu : packet.length ≤ mtu := hpacket.trans m.property.2
  simp only [mtu, link, outer, wrapping] at hmtu hlength ⊢
  omega

/-- **Everything fits its link.** A control datagram with any piece that the outbox cuts is
no larger than `CONTROL_MTU`, whatever it acknowledges and whatever its opcode; and an IP
packet of `MTU` bytes or less, encrypted, leaves room for the outer headers. -/
theorem everything_fits (hmac : Hmac) (auth : TlsAuth) {cipher : Cipher}
    (hpads : cipher.PadsToBlock) :
    (∀ (outbox : Outbox) channel keyId, ∀ fragment ∈ outbox.cut channel keyId,
      ∀ packet : ControlPacket, packet.payload = fragment → ∀ packetId netTime,
        (auth.wrap hmac packet packetId netTime).length ≤ controlMtu) ∧
      ∀ (c c' : DataChannel) (packet datagram : Bytes) iv, packet.length ≤ mtu →
        c.encryptWithIv cipher hmac packet iv = (.ok datagram, c') →
          datagram.length ≤ link - outer := by
  constructor
  · rintro outbox channel keyId fragment hfragment packet rfl packetId netTime
    have hpiece := length_pieces hfragment
    have hwrap := auth.length_wrap hmac packet packetId netTime
    simp only [maxTlsFragment, controlMtu, controlOverhead] at hpiece hwrap ⊢
    omega
  · exact fun c c' packet datagram iv => Mtu.standard.length_encrypt hpads

/-! ### A cipher that pads -/

def pad (bytes : Bytes) : Bytes :=
  bytes ++ List.replicate (16 - bytes.length % 16) (.ofNat (16 - bytes.length % 16))

def unpad (bytes : Bytes) : Option Bytes :=
  bytes.getLast?.map fun last => bytes.take (bytes.length - last.toNat)

theorem length_pad (bytes : Bytes) : (pad bytes).length = (bytes.length / 16 + 1) * 16 := by
  rw [pad, List.length_append, List.length_replicate]
  omega

theorem getLast_pad (bytes : Bytes) :
    (pad bytes).getLast? = some (.ofNat (16 - bytes.length % 16)) := by
  obtain ⟨n, hn⟩ : ∃ n, 16 - bytes.length % 16 = n + 1 := ⟨15 - bytes.length % 16, by omega⟩
  rw [pad, hn, List.replicate_succ', ← List.append_assoc, List.getLast?_concat]

theorem toNat_padding (bytes : Bytes) :
    (UInt8.ofNat (16 - bytes.length % 16)).toNat = 16 - bytes.length % 16 := by
  rw [UInt8.toNat_ofNat']
  omega

theorem unpad_pad (bytes : Bytes) : unpad (pad bytes) = some bytes := by
  rw [unpad, getLast_pad, Option.map_some, toNat_padding, pad, List.length_append,
    List.length_replicate, Nat.add_sub_cancel, List.take_left]

/-- AES-256-CBC on one plaintext, and the padding of all. -/
def blockCipher : Cipher where
  encrypt _ _ plaintext := if plaintext = [0, 0, 0, 1, 1] then firstCiphertext else pad plaintext
  decrypt _ _ ciphertext :=
    if ciphertext = firstCiphertext then some [0, 0, 0, 1, 1] else unpad ciphertext
  decrypt_encrypt _ _ plaintext := by
    have hother : pad plaintext ≠ firstCiphertext := by
      intro hsame
      have hlast := getLast_pad plaintext
      rw [hsame] at hlast
      have hvalue : (229 : UInt8).toNat = 16 - plaintext.length % 16 :=
        (congrArg UInt8.toNat (Option.some.inj hlast)).trans (toNat_padding plaintext)
      have hlarge : (229 : UInt8).toNat = 229 := rfl
      omega
    by_cases h : plaintext = [0, 0, 0, 1, 1]
    · simp [h]
    · simp [h, hother, unpad_pad]
  encrypt_ne_nil _ _ plaintext := by
    split_ifs
    · exact List.cons_ne_nil _ _
    · intro hnil
      have hlength := length_pad plaintext
      rw [hnil, List.length_nil] at hlength
      exact absurd hlength.symm (Nat.mul_ne_zero (Nat.succ_ne_zero _) (by decide))

theorem blockCipher_padsToBlock : blockCipher.PadsToBlock := by
  intro key iv plaintext
  dsimp only [blockCipher]
  split
  case isTrue h => exact h ▸ rfl
  case isFalse => exact length_pad plaintext

/-- One byte in the first packet. -/
theorem one_byte_fits :
    ∃ datagram c, (DataChannel.new (plainKeys 0 1) none .FIRST).encryptWithIv blockCipher
      vectorHmac [1] (plainIv 0) = (.ok datagram, c) ∧ datagram.length ≤ link - outer := by
  have hfits := (everything_fits vectorHmac (TlsAuth.new plainKey .inverse)
    blockCipher_padsToBlock).2 (.new (plainKeys 0 1) none .FIRST)
  exact ⟨_, _, rfl, hfits _ [1] _ (plainIv 0) (by decide) rfl⟩

end SynologyFilestation.Openvpn
