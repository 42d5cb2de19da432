import SynologyFilestation.Library.Text
import SynologyFilestation.Openvpn.TlsAuth

/-!
What travels inside the TLS session (`openvpn/src/key_method.rs`, `prf.rs`).

The stream has no frames: a message ends where its last field ends, and what is
too short to be one is not a message yet. The keys are derived from what both ends
contributed. HMAC-MD5 and HMAC-SHA-1 are not part of the repository.
-/

namespace SynologyFilestation.Openvpn

open Core Library

/-! ### Key material -/

/-- `KeySource2`. -/
structure KeySource2 where
  preMaster : Bytes
  clientRandom1 : Bytes
  clientRandom2 : Bytes
  serverRandom1 : Bytes
  serverRandom2 : Bytes
  deriving DecidableEq

/-- `KeySource2::new_client`, with what was drawn. -/
def KeySource2.newClient (preMaster clientRandom1 clientRandom2 : Bytes) : KeySource2 where
  preMaster := preMaster
  clientRandom1 := clientRandom1
  clientRandom2 := clientRandom2
  serverRandom1 := List.replicate 32 0
  serverRandom2 := List.replicate 32 0

/-- An HMAC with a result of a fixed length. -/
structure ShortHmac (length : ℕ) where
  sign : Bytes → Bytes → Bytes
  length_sign : ∀ key message, (sign key message).length = length

/-- HMAC-MD5 and HMAC-SHA-1. -/
structure PrfHmacs where
  md5 : ShortHmac 16
  sha1 : ShortHmac 20

/-- The loop of `p_hash`; every block is at least a byte. -/
def pHashFrom {length : ℕ} (mac : ShortHmac length) (secret seed : Bytes) :
    ℕ → Bytes → ℕ → Bytes
  | 0, _, _ => []
  | fuel + 1, a, left =>
      if left = 0 then []
      else
        let block := (mac.sign secret (a ++ seed)).take left
        block ++ pHashFrom mac secret seed fuel (mac.sign secret a) (left - block.length)

/-- `p_hash`. -/
def pHash {length : ℕ} (mac : ShortHmac length) (secret seed : Bytes) (out : ℕ) : Bytes :=
  pHashFrom mac secret seed out (mac.sign secret seed) out

/-- `tls1_prf`. -/
def tls1Prf (hmacs : PrfHmacs) (secret seed : Bytes) (out : ℕ) : Bytes :=
  let half := (secret.length + 1) / 2
  List.zipWith (· ^^^ ·) (pHash hmacs.md5 (secret.take half) seed out)
    (pHash hmacs.sha1 (secret.drop (secret.length - half)) seed out)

/-- `key_expansion`. -/
def keyExpansion (hmacs : PrfHmacs) (source : KeySource2)
    (clientSession serverSession : SessionId) : Bytes :=
  let master := tls1Prf hmacs source.preMaster
    (ascii "OpenVPN master secret" ++ source.clientRandom1 ++ source.serverRandom1) 48
  tls1Prf hmacs master (ascii "OpenVPN key expansion" ++ source.clientRandom2 ++
    source.serverRandom2 ++ clientSession.val ++ serverSession.val) 256

theorem length_pHashFrom {length : ℕ} (hlength : 0 < length) (mac : ShortHmac length)
    (secret seed : Bytes) {fuel left : ℕ} (hfuel : left ≤ fuel) (a : Bytes) :
    (pHashFrom mac secret seed fuel a left).length = left := by
  induction fuel generalizing left a with
  | zero => exact (Nat.le_zero.mp hfuel).symm
  | succ fuel ih =>
      rw [pHashFrom]
      split
      case isTrue hzero => exact hzero.symm
      case isFalse hne =>
        have hblock : ((mac.sign secret (a ++ seed)).take left).length = min left length := by
          rw [List.length_take, mac.length_sign]
        dsimp only
        rw [List.length_append, ih (by omega), hblock]
        omega

theorem length_tls1Prf (hmacs : PrfHmacs) (secret seed : Bytes) (out : ℕ) :
    (tls1Prf hmacs secret seed out).length = out := by
  rw [tls1Prf, List.length_zipWith, pHash, pHash, length_pHashFrom (by decide) _ _ _ le_rfl,
    length_pHashFrom (by decide) _ _ _ le_rfl, Nat.min_self]

/-- There is always enough for both directions. -/
@[simp] theorem length_keyExpansion (hmacs : PrfHmacs) (source : KeySource2)
    (clientSession serverSession : SessionId) :
    (keyExpansion hmacs source clientSession serverSession).length = 256 :=
  length_tls1Prf ..

/-! ### Messages -/

/-- `write_string`: a length that counts the NUL, or zero. -/
def writeString (value : Bytes) (context : String) : Except Error Bytes :=
  if value = [] then .ok [0, 0]
  else if 2 ^ 16 ≤ value.length + 1 then .error (.fieldTooLong context)
  else .ok (.ofNat ((value.length + 1) / 2 ^ 8) :: .ofNat (value.length + 1) :: value ++ [0])

/-- `ClientKeyMethod2::encode`. -/
def encodeClientKeyMethod2 (source : KeySource2) (options username password peerInfo : Bytes) :
    Except Error Bytes := do
  let options ← writeString options "the options string"
  let username ← writeString username "the username"
  let password ← writeString password "the password"
  let peerInfo ← writeString peerInfo "the peer info"
  .ok ([0, 0, 0, 0] ++ [2] ++ source.preMaster ++ source.clientRandom1 ++ source.clientRandom2 ++
    options ++ username ++ password ++ peerInfo)

/-- `ServerKeyMethod2`. -/
structure ServerKeyMethod2 where
  random1 : Bytes
  random2 : Bytes
  options : Bytes
  deriving DecidableEq

/-- `ServerMessage`. -/
inductive ServerMessage
  | keyMethod2 (reply : ServerKeyMethod2)
  | control (text : Bytes)
  deriving DecidableEq

/-- `Reader::string`. -/
def readString (context : String) (bytes : Bytes) : Except Error (Bytes × Bytes) := do
  let (length, rest) ← takeFront 2 (.truncated context) bytes
  let length := length.val.foldl (fun n byte => n * 2 ^ 8 + byte.toNat) 0
  if length = 0 then .ok ([], rest)
  else
    let (text, rest) ← takeFront length (.truncated context) rest
    let text := if text.val.getLast? = some 0 then text.val.dropLast else text.val
    .ok (fromUtf8Lossy text, rest)

/-- `ServerKeyMethod2::decode`. The three strings behind the options belong to the
message. -/
def ServerKeyMethod2.decode (bytes : Bytes) : Except Error (ServerKeyMethod2 × ℕ) := do
  let (_, rest) ← takeFront 4 (Error.truncated "the leading zero") bytes
  let (method, rest) ← ControlPacket.readU8 "a key method" rest
  if method ≠ 2 then .error (.unsupportedKeyMethod method)
  else
    let (random1, rest) ← takeFront 32 (Error.truncated "the server's first random") rest
    let (random2, rest) ← takeFront 32 (Error.truncated "the server's second random") rest
    let (options, rest) ← readString "the options string" rest
    let (_, rest) ← readString "a username" rest
    let (_, rest) ← readString "a password" rest
    let (_, rest) ← readString "peer info" rest
    .ok (⟨random1.val, random2.val, options⟩, bytes.length - rest.length)

/-- `ServerMessage::decode`: a message, and how many bytes it has. -/
def ServerMessage.decode (bytes : Bytes) : Except Error (ServerMessage × ℕ) :=
  if bytes.length < 4 then .error (.truncated "a message header")
  else if bytes.take 4 ≠ [0, 0, 0, 0] then
    match bytes.findIdx? (· = 0) with
    | none => .error (.truncated "a control message")
    | some stop => .ok (.control (fromUtf8Lossy (bytes.take stop)), stop + 1)
  else
    match ServerKeyMethod2.decode bytes with
    | .error e => .error e
    | .ok (reply, used) => .ok (.keyMethod2 reply, used)

/-- The message that refuses the credentials. -/
def authFailedText : Bytes := ascii "AUTH_FAILED"

/-- `strip_prefix("AUTH_FAILED")`. -/
def authFailedDetail (text : Bytes) : Option Bytes :=
  if authFailedText.isPrefixOf text then some (text.drop authFailedText.length) else none

end SynologyFilestation.Openvpn
