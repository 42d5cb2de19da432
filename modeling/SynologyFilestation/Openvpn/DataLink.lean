import SynologyFilestation.Library.Log
import SynologyFilestation.Library.Transition
import SynologyFilestation.Openvpn.Data
import Mathlib.Logic.Function.Basic

/-!
Two ends of a tunnel and whatever the network does with their packets.

Each end sends and receives. A packet that was sent is on the network for good:
it may arrive any number of times, in any order, or never. What was sent and what
came out at the other end is written down beside the channels.
-/

namespace SynologyFilestation.Openvpn

open Core Library Function

inductive End
  | client
  | server
  deriving DecidableEq

def End.other : End → End
  | client => server
  | server => client

/-- A packet as its sender made it. -/
structure SentPacket where
  packetId : UInt32
  payload : Bytes
  datagram : Bytes

/-- Both channels, the packets each end has sent, and which of them the other end
has returned, with what it returned. -/
structure DataLink where
  channel : End → DataChannel
  sent : End → List SentPacket
  returned : End → List (ℕ × Bytes)

def DataLink.new (client server : DataChannel) : DataLink where
  channel
    | .client => client
    | .server => server
  sent _ := []
  returned _ := []

inductive DataEvent
  | send (e : End) (payload : Bytes)
  | deliver (e : End) (i : ℕ)
  | refuse (e : End)

/-- One call of `encrypt` or `decrypt` at either end. A datagram that is refused may
be any, also one that nobody sent. -/
inductive DataStep (cipher : Cipher) (hmac : Hmac) : DataLink → DataEvent → DataLink → Prop
  | send {s : DataLink} {e : End} {payload datagram : Bytes}
      {iv : {iv : Bytes // iv.length = 16}} {c : DataChannel}
      (h : (s.channel e).encryptWithIv cipher hmac payload iv = (.ok datagram, c)) :
      DataStep cipher hmac s (.send e payload) { s with
        channel := update s.channel e c
        sent := update s.sent e
          (s.sent e ++ [⟨(s.channel e).nextPacketId, payload, datagram⟩]) }
  | exhausted {s : DataLink} {e : End} {payload : Bytes} {iv : {iv : Bytes // iv.length = 16}}
      {error : Error} {c : DataChannel}
      (h : (s.channel e).encryptWithIv cipher hmac payload iv = (.error error, c)) :
      DataStep cipher hmac s (.refuse e) { s with channel := update s.channel e c }
  | deliver {s : DataLink} {e : End} {i : ℕ} {packet : SentPacket} {payload : Bytes}
      {c : DataChannel} (hi : (s.sent e)[i]? = some packet)
      (h : (s.channel e.other).decrypt cipher hmac packet.datagram = (.ok payload, c)) :
      DataStep cipher hmac s (.deliver e i) { s with
        channel := update s.channel e.other c
        returned := update s.returned e (s.returned e ++ [(i, payload)]) }
  | refuse {s : DataLink} {e : End} {datagram : Bytes} {error : Error} {c : DataChannel}
      (h : (s.channel e).decrypt cipher hmac datagram = (.error error, c)) :
      DataStep cipher hmac s (.refuse e) { s with channel := update s.channel e c }

/-! ### One direction -/

/-- The ids that came out: packet `i` has id `i + 1`. -/
def idsOf (returned : List (ℕ × Bytes)) : Set ℕ := {id | ∃ i ∈ returned.map Prod.fst, i + 1 = id}

/-- What the packets of one end have to do with the channel at the other. -/
structure Flow (cipher : Cipher) (hmac : Hmac) (sender receiver : DataChannel)
    (packets : List SentPacket) (returned : List (ℕ × Bytes)) : Prop where
  keys : sender.keys.Paired receiver.keys
  keyId : receiver.keyId = sender.keyId
  next : sender.nextPacketId.toNat = packets.length + 1
  numbered : ∀ (i : ℕ) (packet : SentPacket), packets[i]? = some packet →
    packet.packetId.toNat = i + 1
  readable : ∀ (i : ℕ) (packet : SentPacket), packets[i]? = some packet →
    receiver.authenticate cipher hmac packet.datagram = .ok (packet.packetId, packet.payload)
  clock : receiver.replay.time = 0
  took : receiver.replay.Took (idsOf returned)
  once : (returned.map Prod.fst).Nodup
  unchanged : ∀ i payload, (i, payload) ∈ returned →
    ∃ packet, packets[i]? = some packet ∧ packet.payload = payload

section Delivery

variable {cipher : Cipher} {hmac : Hmac} {sender receiver c : DataChannel}
  {packets : List SentPacket} {returned : List (ℕ × Bytes)} {payload datagram : Bytes}
  {iv : {iv : Bytes // iv.length = 16}}

theorem idsOf_concat (i : ℕ) (payload : Bytes) :
    idsOf (returned ++ [(i, payload)]) = insert (i + 1) (idsOf returned) := by
  ext id
  simp only [idsOf, List.map_append, List.map_cons, List.map_nil, List.mem_append,
    List.mem_singleton, Set.mem_ofPred_eq, Set.mem_insert_iff]
  constructor
  · rintro ⟨j, hj | rfl, rfl⟩
    · exact .inr ⟨j, hj, rfl⟩
    · exact .inl rfl
  · rintro (rfl | ⟨j, hj, rfl⟩)
    · exact ⟨i, .inr rfl, rfl⟩
    · exact ⟨j, .inl hj, rfl⟩

theorem flow_new {keys keys' : DataKeys} {peerId peerId' : Option PeerId} {keyId : KeyId}
    (h : keys.Paired keys') :
    Flow cipher hmac (.new keys peerId keyId) (.new keys' peerId' keyId) [] [] where
  keys := h
  keyId := rfl
  next := rfl
  numbered _ _ := nofun
  readable _ _ := nofun
  clock := rfl
  took := by
    have hids : idsOf [] = ∅ := Set.eq_empty_of_forall_notMem fun _ ⟨_, h, _⟩ => nomatch h
    exact hids ▸ ReplayWindow.took_new
  once := .nil
  unchanged _ _ := nofun

/-- A sender that keeps its keys and its count. -/
theorem Flow.of_sender (h : Flow cipher hmac sender receiver packets returned)
    (hkeys : c.keys = sender.keys) (hkeyId : c.keyId = sender.keyId)
    (hnext : c.nextPacketId = sender.nextPacketId) :
    Flow cipher hmac c receiver packets returned :=
  { h with
    keys := hkeys ▸ h.keys
    keyId := hkeyId ▸ h.keyId
    next := hnext ▸ h.next }

/-- A receiver that keeps its keys and its window. -/
theorem Flow.of_receiver (h : Flow cipher hmac sender receiver packets returned)
    (hsame : c = { receiver with nextPacketId := c.nextPacketId }) :
    Flow cipher hmac sender c packets returned := by
  rw [hsame]
  exact { h with }

theorem Flow.send (h : Flow cipher hmac sender receiver packets returned)
    (hsend : sender.encryptWithIv cipher hmac payload iv = (.ok datagram, c)) :
    Flow cipher hmac c receiver (packets ++ [⟨sender.nextPacketId, payload, datagram⟩])
      returned := by
  obtain ⟨hlast, rfl, -⟩ := DataChannel.encryptWithIv_eq_ok hsend
  have hnext : (sender.nextPacketId + 1).toNat = sender.nextPacketId.toNat + 1 := by
    have hlt := sender.nextPacketId.toNat_lt
    have hne : sender.nextPacketId.toNat ≠ 0xffffffff := fun heq =>
      hlast (UInt32.toNat_inj.mp heq)
    rw [UInt32.toNat_add, UInt32.toNat_one]
    exact Nat.mod_eq_of_lt (by omega)
  refine ⟨h.keys, h.keyId, ?_, ?_, ?_, h.clock, h.took, h.once, ?_⟩
  · rw [hnext, h.next, List.length_append, List.length_singleton]
  · intro i packet hi
    rcases getElem?_concat_eq_some hi with hold | ⟨rfl, rfl⟩
    · exact h.numbered i packet hold
    · exact h.next
  · intro i packet hi
    rcases getElem?_concat_eq_some hi with hold | ⟨rfl, rfl⟩
    · exact h.readable i packet hold
    · exact DataChannel.authenticate_encrypt h.keys h.keyId hsend
  · intro i payload hi
    obtain ⟨packet, hpacket, hpayload⟩ := h.unchanged i payload hi
    exact ⟨packet, getElem?_concat_of_some hpacket, hpayload⟩

/-- **When a packet comes out**: it has not come out before, and fewer than 64 ids
have been seen above its own. -/
theorem Flow.decrypt_iff (h : Flow cipher hmac sender receiver packets returned) {i : ℕ}
    {packet : SentPacket} (hi : packets[i]? = some packet) :
    (receiver.decrypt cipher hmac packet.datagram).1 = .ok packet.payload ↔
      i ∉ returned.map Prod.fst ∧
        receiver.replay.highest.toNat < packet.packetId.toNat + replayWindow := by
  have hid := h.numbered i packet hi
  have hne : packet.packetId ≠ 0 := by
    rintro hzero
    rw [hzero] at hid
    cases hid
  have hmem : packet.packetId.toNat ∈ idsOf returned ↔ i ∈ returned.map Prod.fst := by
    rw [hid]
    exact ⟨fun ⟨j, hj, heq⟩ => Nat.succ.inj heq ▸ hj, fun hj => ⟨i, hj, rfl⟩⟩
  have haccept := @ReplayWindow.Took.accept_iff receiver.replay packet.packetId _ h.took
  rw [h.clock, hmem] at haccept
  rw [DataChannel.decrypt_of_authenticate (h.readable i packet hi)]
  cases haccepted : (receiver.replay.accept packet.packetId 0).1 with
  | true => exact iff_of_true rfl (haccept.mp haccepted).2
  | false =>
      refine iff_of_false nofun fun hfits => ?_
      rw [haccept.mpr ⟨hne, hfits⟩] at haccepted
      cases haccepted

theorem Flow.deliver (h : Flow cipher hmac sender receiver packets returned) {i : ℕ}
    {packet : SentPacket} (hi : packets[i]? = some packet)
    (hdecrypt : receiver.decrypt cipher hmac packet.datagram = (.ok payload, c)) :
    Flow cipher hmac sender c packets (returned ++ [(i, payload)]) := by
  have hread := DataChannel.decrypt_of_authenticate (h.readable i packet hi)
  rw [hdecrypt] at hread
  obtain ⟨hpayload, rfl⟩ := Prod.mk.inj hread
  cases haccepted : (receiver.replay.accept packet.packetId 0).1 with
  | false =>
      rw [haccepted] at hpayload
      cases hpayload
  | true =>
      rw [haccepted] at hpayload
      obtain rfl := Except.ok.inj hpayload
      have hout := (h.decrypt_iff hi).mp (congrArg Prod.fst hdecrypt)
      rw [← h.clock] at haccepted
      obtain ⟨htook, htime⟩ := h.took.accept haccepted
      rw [h.clock, h.numbered i packet hi, ← idsOf_concat] at htook
      refine ⟨h.keys, h.keyId, h.next, h.numbered, h.readable, ?_, htook, ?_, ?_⟩
      · rw [h.clock] at htime
        exact htime
      · rw [List.map_append, List.map_singleton]
        refine h.once.append (List.nodup_singleton _) ?_
        rw [List.disjoint_singleton]
        exact hout.1
      · intro j payload hj
        rcases List.mem_append.mp hj with hold | hnew
        · exact h.unchanged j payload hold
        · obtain ⟨rfl, rfl⟩ := Prod.mk.inj (List.mem_singleton.mp hnew)
          exact ⟨packet, hi, rfl⟩

end Delivery

/-! ### Both directions -/

theorem End.eq_or_other (e d : End) : d = e ∨ d = e.other := by
  cases e <;> cases d <;> decide

@[simp] theorem End.other_other (e : End) : e.other.other = e := by cases e <;> rfl

theorem End.other_ne (e : End) : e.other ≠ e := by cases e <;> decide

section Link

variable {cipher : Cipher} {hmac : Hmac} {s s' : DataLink} {event : DataEvent} {e : End}
  {c : DataChannel}

def DataLink.Flows (cipher : Cipher) (hmac : Hmac) (s : DataLink) : Prop :=
  ∀ e, Flow cipher hmac (s.channel e) (s.channel e.other) (s.sent e) (s.returned e)

/-- One end changes: as a sender and as a receiver. -/
theorem DataLink.Flows.change {sent : End → List SentPacket} {returned : End → List (ℕ × Bytes)}
    (hours : Flow cipher hmac c (s.channel e.other) (sent e) (returned e))
    (htheirs : Flow cipher hmac (s.channel e.other) c (sent e.other) (returned e.other)) :
    DataLink.Flows cipher hmac ⟨update s.channel e c, sent, returned⟩ := by
  intro d
  rcases e.eq_or_other d with rfl | rfl
  · dsimp only
    rw [update_self, update_of_ne d.other_ne]
    exact hours
  · dsimp only
    rw [update_of_ne e.other_ne, End.other_other, update_self]
    exact htheirs

theorem DataLink.Flows.step (h : s.Flows cipher hmac) (hstep : DataStep cipher hmac s event s') :
    s'.Flows cipher hmac := by
  have hback : ∀ e : End, Flow cipher hmac (s.channel e.other) (s.channel e) (s.sent e.other)
      (s.returned e.other) := fun e => by simpa only [End.other_other] using h e.other
  cases hstep with
  | @send e payload datagram iv c hsend =>
      obtain ⟨-, hc, -⟩ := DataChannel.encryptWithIv_eq_ok hsend
      refine .change ?_ ?_
      · rw [update_self]
        exact (h e).send hsend
      · rw [update_of_ne e.other_ne]
        exact (hback e).of_receiver (by rw [hc])
  | @exhausted e payload iv error c hsend =>
      obtain ⟨-, -, rfl⟩ := DataChannel.encryptWithIv_exhausted hsend
      exact .change (h e) (hback e)
  | @deliver e i packet payload c hi hdecrypt =>
      have hsame : c = { s.channel e.other with replay := c.replay } := by
        have hread := DataChannel.decrypt_of_authenticate ((h e).readable i packet hi)
        rw [hdecrypt] at hread
        obtain ⟨-, rfl⟩ := Prod.mk.inj hread
        rfl
      refine .change ?_ ?_
      · rw [End.other_other, update_of_ne e.other_ne]
        exact (hback e).of_sender (by rw [hsame]) (by rw [hsame]) (by rw [hsame])
      · rw [End.other_other, update_self]
        exact (h e).deliver hi hdecrypt
  | @refuse e datagram error c hdecrypt =>
      have hsame := DataChannel.decrypt_refused (congrArg Prod.fst hdecrypt)
      rw [hdecrypt] at hsame
      obtain rfl := hsame
      exact .change (h e) (hback e)

/-- What comes out of one end's packets. -/
structure DataLink.EndToEnd (cipher : Cipher) (hmac : Hmac) (s : DataLink) (e : End) : Prop where
  once : ((s.returned e).map Prod.fst).Nodup
  unchanged : ∀ i payload, (i, payload) ∈ s.returned e →
    ∃ packet, (s.sent e)[i]? = some packet ∧ packet.payload = payload
  arrives : ∀ (i : ℕ) (packet : SentPacket), (s.sent e)[i]? = some packet →
    ((((s.channel e.other).decrypt cipher hmac packet.datagram).1 = .ok packet.payload) ↔
      i ∉ (s.returned e).map Prod.fst ∧
        ∀ (j : ℕ) (other : SentPacket), j ∈ (s.returned e).map Prod.fst →
          (s.sent e)[j]? = some other → other.packetId.toNat < packet.packetId.toNat + 64)
  refused : ∀ datagram error, ((s.channel e).decrypt cipher hmac datagram).1 = .error error →
    ((s.channel e).decrypt cipher hmac datagram).2 = s.channel e
  ids : ((s.sent e).map (·.packetId)).Nodup
  exhausted : ∀ payload iv, (s.channel e).nextPacketId = 0xffffffff →
    (s.channel e).encryptWithIv cipher hmac payload iv = (.error .packetIdExhausted, s.channel e)

/-- The highest id that came out is the one the window knows. -/
theorem Flow.highest_lt_iff {sender receiver : DataChannel} {packets : List SentPacket}
    {returned : List (ℕ × Bytes)} (h : Flow cipher hmac sender receiver packets returned) {n : ℕ}
    (hn : 0 < n) :
    receiver.replay.highest.toNat < n ↔ ∀ (j : ℕ) (other : SentPacket),
      j ∈ returned.map Prod.fst → packets[j]? = some other → other.packetId.toNat < n := by
  constructor
  · intro hlt j other hj hother
    rw [h.numbered j other hother]
    exact Nat.lt_of_le_of_lt (h.took.records.le _ ⟨j, hj, rfl⟩) hlt
  · intro hall
    rcases h.took.reached with hzero | ⟨j, hj, hid⟩
    · rw [hzero]
      exact hn
    · obtain ⟨⟨j, payload⟩, hmem, rfl⟩ := List.mem_map.mp hj
      obtain ⟨other, hother, -⟩ := h.unchanged j payload hmem
      rw [← hid, ← h.numbered j other hother]
      exact hall j other hj hother

variable (cipher hmac s)

/-- **The data channel, end to end**, both ways and whatever the network does. -/
theorem data_end_to_end {keys keys' : DataKeys} {expansion : Bytes} {peerId peerId' : Option PeerId}
    {keyId : KeyId} (hclient : DataKeys.forClient expansion = .ok keys)
    (hserver : DataKeys.forServer expansion = .ok keys')
    (h : Reaches (DataStep cipher hmac) unrestricted
      (.new (.new keys peerId keyId) (.new keys' peerId' keyId)) s) (e : End) :
    s.EndToEnd cipher hmac e := by
  have hflows : s.Flows cipher hmac := by
    refine h.invariant ?_ fun hs _ hstep => hs.step hstep
    intro e
    cases e with
    | client => exact flow_new (DataKeys.paired_split hclient hserver)
    | server => exact flow_new (DataKeys.paired_split hserver hclient)
  have hflow := hflows e
  refine ⟨hflow.once, hflow.unchanged, ?_, fun _ _ => DataChannel.decrypt_refused, ?_, ?_⟩
  · intro i packet hi
    rw [hflow.decrypt_iff hi, hflow.highest_lt_iff (by simp [replayWindow])]
    rfl
  · refine List.nodup_iff_injective_getElem.mpr fun i j hij => ?_
    simp only [List.getElem_map] at hij
    have hnumber := hflow.numbered i _ (List.getElem?_eq_getElem (by simpa using i.isLt))
    rw [hij, hflow.numbered j _ (List.getElem?_eq_getElem (by simpa using j.isLt))] at hnumber
    exact Fin.ext (Nat.succ.inj hnumber).symm
  · intro payload iv hlast
    rw [DataChannel.encryptWithIv, if_pos hlast]

end Link

/-! ### Runs of either kind -/

/-- A key of the same byte throughout, and the initialization vectors. -/
def plainExpansion : Bytes := List.replicate 256 7

def plainIv (byte : UInt8) : {iv : Bytes // iv.length = 16} :=
  ⟨List.replicate 16 byte, List.length_replicate⟩

/-- Payload `[1]` in the first packet, encrypted with vector 0. -/
def firstCiphertext : Bytes :=
  [248, 49, 19, 187, 61, 45, 180, 120, 90, 71, 30, 249, 61, 85, 87, 229]

/-- Payload `[2]` in the second packet, encrypted with vector 1. -/
def secondCiphertext : Bytes :=
  [33, 95, 142, 67, 69, 248, 164, 41, 131, 237, 165, 64, 230, 102, 142, 136]

/-- AES-256-CBC on the two plaintexts. -/
def vectorCipher : Cipher where
  encrypt _ _ plaintext :=
    if plaintext = [0, 0, 0, 1, 1] then firstCiphertext
    else if plaintext = [0, 0, 0, 2, 2] then secondCiphertext
    else plaintext ++ [0]
  decrypt _ _ ciphertext :=
    if ciphertext = firstCiphertext then some [0, 0, 0, 1, 1]
    else if ciphertext = secondCiphertext then some [0, 0, 0, 2, 2]
    else if ciphertext.getLast? = some 0 then some ciphertext.dropLast
    else none
  decrypt_encrypt _ _ plaintext := by
    have hother : ∀ c : Bytes, c.getLast? ≠ some 0 → plaintext ++ [0] ≠ c := by
      rintro _ hlast rfl
      exact hlast List.getLast?_concat
    have hne : secondCiphertext ≠ firstCiphertext := by decide
    by_cases h₁ : plaintext = [0, 0, 0, 1, 1]
    · simp [h₁]
    by_cases h₂ : plaintext = [0, 0, 0, 2, 2]
    · simp [h₂, hne]
    · simp [h₁, h₂, hother firstCiphertext (by decide), hother secondCiphertext (by decide)]
  encrypt_ne_nil _ _ plaintext := by
    split_ifs
    · exact List.cons_ne_nil _ _
    · exact List.cons_ne_nil _ _
    · exact List.concat_ne_nil _ _

/-- HMAC-SHA-512 on the two ciphertexts behind their vectors. -/
def vectorHmac : Hmac where
  sign _ message :=
    if message = (plainIv 0).val ++ firstCiphertext then
      [1, 102, 1, 25, 16, 8, 227, 161, 199, 201, 193, 249, 116, 98, 44, 148, 246, 96, 115, 58,
       250, 201, 228, 95, 186, 247, 17, 129, 171, 60, 12, 39, 113, 109, 196, 233, 144, 62, 122,
       61, 201, 17, 170, 156, 37, 251, 220, 238, 200, 108, 245, 66, 4, 14, 4, 144, 139, 122, 1,
       128, 163, 183, 110, 219]
    else if message = (plainIv 1).val ++ secondCiphertext then
      [44, 136, 146, 85, 41, 125, 31, 173, 133, 192, 22, 196, 60, 250, 152, 139, 66, 177, 185, 14,
       186, 46, 123, 53, 116, 157, 25, 235, 161, 37, 219, 236, 216, 161, 116, 104, 144, 214, 40,
       156, 211, 225, 48, 4, 237, 216, 212, 129, 191, 139, 64, 247, 29, 242, 122, 193, 19, 58,
       135, 244, 156, 132, 237, 162]
    else List.replicate 64 0
  length_sign _ _ := by
    split_ifs
    · rfl
    · rfl
    · exact List.length_replicate

/-- What either end splits `plainExpansion` into. -/
def plainKeys (outSlot inSlot : ℕ) : DataKeys where
  encryptCipher := (plainExpansion.drop (outSlot * 128)).take 32
  encryptHmac := (plainExpansion.drop (outSlot * 128 + 64)).take 64
  decryptCipher := (plainExpansion.drop (inSlot * 128)).take 32
  decryptHmac := (plainExpansion.drop (inSlot * 128 + 64)).take 64

theorem plainForClient : DataKeys.forClient plainExpansion = .ok (plainKeys 0 1) := by
  decide +kernel

theorem plainForServer : DataKeys.forServer plainExpansion = .ok (plainKeys 1 0) := by
  decide +kernel

def plainLink : DataLink :=
  .new (.new (plainKeys 0 1) none .FIRST) (.new (plainKeys 1 0) none .FIRST)

/-- The client sends. -/
def DataLink.sendNext (payload : Bytes) (iv : UInt8) (s : DataLink) : DataLink :=
  match (s.channel .client).encryptWithIv vectorCipher vectorHmac payload (plainIv iv) with
  | (.ok datagram, c) => { s with
      channel := update s.channel .client c
      sent := update s.sent .client
        (s.sent .client ++ [⟨(s.channel .client).nextPacketId, payload, datagram⟩]) }
  | (.error _, c) => { s with channel := update s.channel .client c }

/-- Packet `i` of the client arrives. -/
def DataLink.arrive (i : ℕ) (s : DataLink) : DataLink :=
  match (s.sent .client)[i]? with
  | none => s
  | some packet =>
      match (s.channel .server).decrypt vectorCipher vectorHmac packet.datagram with
      | (.ok payload, c) => { s with
          channel := update s.channel .server c
          returned := update s.returned .client (s.returned .client ++ [(i, payload)]) }
      | (.error _, c) => { s with channel := update s.channel .server c }

/-- What is reached from `plainLink`. -/
def DataLink.Runs (s : DataLink) : Prop :=
  Reaches (DataStep vectorCipher vectorHmac) unrestricted plainLink s

theorem DataLink.Runs.sendNext {s : DataLink} (h : s.Runs) (payload : Bytes) (iv : UInt8) :
    (s.sendNext payload iv).Runs := by
  rw [DataLink.sendNext]
  split
  case h_1 hsend => exact h.next trivial (.send hsend)
  case h_2 hsend => exact h.next trivial (.exhausted hsend)

theorem DataLink.Runs.arrive {s : DataLink} (h : s.Runs) (i : ℕ) : (s.arrive i).Runs := by
  rw [DataLink.arrive]
  split
  case h_1 => exact h
  case h_2 hi =>
    split
    case h_1 hdecrypt => exact h.next trivial (.deliver hi hdecrypt)
    case h_2 hdecrypt => exact h.next trivial (.refuse hdecrypt)

/-- The two packets arrive the other way round, and the first one once more. -/
theorem overtaken_packet_arrives :
    ∃ s : DataLink, s.EndToEnd vectorCipher vectorHmac .client ∧
      s.returned .client = [(1, [2]), (0, [1])] := by
  have h : plainLink.Runs := .start
  have h := ((h.sendNext [1] 0).sendNext [2] 1).arrive 1 |>.arrive 0 |>.arrive 0
  exact ⟨_, data_end_to_end _ _ _ plainForClient plainForServer h .client, by decide +kernel⟩

/-- Packet 0 comes when packet 64 has: the 64th behind the highest is one too many. -/
theorem sixty_four_behind_refused :
    ∃ s : DataLink, Reaches (DataStep vectorCipher vectorHmac) unrestricted plainLink s ∧
      s.returned .client = [(64, [])] ∧ (s.sent .client)[64]?.map (·.packetId) = some 65 ∧
      (s.sent .client)[0]?.map (fun packet => (packet.packetId,
        ((s.channel .server).decrypt vectorCipher vectorHmac packet.datagram).1)) =
          some (1, .error .replayed) := by
  have hruns : ∀ n, (DataLink.sendNext [] 2)^[n] plainLink |>.Runs := by
    intro n
    induction n with
    | zero => exact .start
    | succ n ih =>
        rw [iterate_succ_apply']
        exact ih.sendNext [] 2
  refine ⟨_, (hruns 65).arrive 64, ?_, ?_, ?_⟩ <;> decide +kernel

end SynologyFilestation.Openvpn
