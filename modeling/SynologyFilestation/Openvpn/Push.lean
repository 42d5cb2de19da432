import SynologyFilestation.Library.Text
import SynologyFilestation.Openvpn.Data

/-!
What the server pushes (`openvpn/src/push.rs`): directives behind `PUSH_REPLY`,
separated by commas.
-/

namespace SynologyFilestation.Openvpn

open Core Library

/-- `Duration::from_secs`, in nanoseconds. -/
def fromSecs (seconds : ℕ) : ℕ := seconds * 10 ^ 9

/-- `PUSH_REQUEST`, without its NUL. -/
def pushRequest : Bytes := ascii "PUSH_REQUEST"

/-- `SUPPORTED_CIPHER`. -/
def supportedCipher : Bytes := ascii "AES-256-CBC"

/-- `PushReply`. -/
structure PushReply where
  peerId : Option PeerId
  cipher : Option Bytes
  ifconfig : Option (Bytes × Bytes)
  ping : Option ℕ
  pingRestart : Option ℕ
  pingRestartDisabled : Bool
  compression : Option Bytes
  directives : List Bytes
  deriving DecidableEq

namespace PushReply

/-- `PushReply::default`. -/
def default : PushReply := ⟨none, none, none, none, none, false, none, []⟩

/-- `seconds_from`. -/
def secondsFrom (value directive : Bytes) : Except Error ℕ :=
  match parseUnsigned (2 ^ 64) value with
  | some seconds => .ok (fromSecs seconds)
  | none => .error (.badPushDirective directive)

/-- `PeerId::new` of a parsed number. -/
def peerIdFrom (id directive : Bytes) : Except Error PeerId :=
  match parseUnsigned (2 ^ 32) id with
  | none => .error (.badPushDirective directive)
  | some value =>
      if h : UInt32.ofNat value ≤ 0x00ffffff then .ok ⟨.ofNat value, h⟩
      else .error (.badPushDirective directive)

/-- One directive, whose name and words these are. -/
def take (parsed : PushReply) (directive name : Bytes) (rest : List Bytes) :
    Except Error PushReply :=
  if name = ascii "peer-id" then
    match rest with
    | [id] => (peerIdFrom id directive).map fun peerId => { parsed with peerId := some peerId }
    | _ => .ok parsed
  else if name = ascii "cipher" then
    match rest with
    | [cipher] => .ok { parsed with cipher := some cipher }
    | _ => .ok parsed
  else if name = ascii "ifconfig" then
    match rest with
    | [address, mask] =>
        match parseIpv4 address, parseIpv4 mask with
        | some address, some mask => .ok { parsed with ifconfig := some (address, mask) }
        | _, _ => .error (.badPushDirective directive)
    | _ => .ok parsed
  else if name = ascii "comp-lzo" ∧ rest = [ascii "no"] then .ok parsed
  else if name = ascii "comp-lzo" ∨ name = ascii "compress" then
    .ok { parsed with compression := some directive }
  else if name = ascii "ping" then
    match rest with
    | [seconds] => (secondsFrom seconds directive).map fun interval =>
        { parsed with ping := if interval = 0 then none else some interval }
    | _ => .ok parsed
  else if name = ascii "ping-restart" then
    match rest with
    | [seconds] => (secondsFrom seconds directive).map fun limit =>
        if limit = 0 then { parsed with pingRestartDisabled := true }
        else { parsed with pingRestart := some limit }
    | _ => .ok parsed
  else .ok parsed

/-- A directive joins the others and is taken for what its words say. -/
def takeDirective (parsed : PushReply) (directive : Bytes) : Except Error PushReply :=
  let parsed := { parsed with directives := parsed.directives ++ [directive] }
  match words directive with
  | [] => .ok parsed
  | name :: rest => parsed.take directive name rest

/-- `PushReply::parse`. -/
def parse (reply : Bytes) : Except Error PushReply :=
  if (ascii "PUSH_REPLY").isPrefixOf reply then
    let body := reply.drop (ascii "PUSH_REPLY").length
    let body := if body.head? = some 0x2c then body.drop 1 else []
    (((body.splitOn 0x2c).map trim).filter (· ≠ [])).foldlM takeDirective default
  else .error (.unexpectedControlMessage reply)

/-- `compression_is_supported`. -/
def compressionIsSupported (reply : PushReply) : Bool := reply.compression.isNone

/-- A letter in lower case. -/
def toAsciiLowercase (byte : UInt8) : UInt8 :=
  if 0x41 ≤ byte ∧ byte ≤ 0x5a then byte + 0x20 else byte

/-- `cipher_is_supported`: `eq_ignore_ascii_case`. -/
def cipherIsSupported (reply : PushReply) : Bool :=
  match reply.cipher with
  | none => true
  | some cipher => cipher.map toAsciiLowercase = supportedCipher.map toAsciiLowercase

example : ((parse (ascii "PUSH_REPLY,peer-id 3, cipher aes-256-cbc,ping 10")).toOption.map
    fun reply => (reply.cipherIsSupported, reply.ping)) = some (true, some 10000000000) := by
  decide

end PushReply

end SynologyFilestation.Openvpn
