import SynologyFilestation.Openvpn.KeyMethod

/-!
A TLS client connection, as the session uses it.

The TLS library is not part of the repository. A connection is a state with the
operations the session calls; what is asked of them is that a new connection has
decrypted nothing, that a reader gives out what was decrypted in order and then says
how the stream stands, that writing does not touch what was decrypted, and that
reading and writing records get on.
-/

namespace SynologyFilestation.Openvpn

open Core Library

/-- How a stream stands when everything was read. -/
inductive TlsEnd
  | more
  | closed
  | failed (error : String)
  deriving DecidableEq

/-- `ClientConnection`, with the configuration and the server name it is made for. -/
structure Tls where
  State : Type
  Seed : Type
  /-- `ClientConnection::new`. -/
  connect : Seed → Except String State
  isHandshaking : State → Bool
  wantsWrite : State → Bool
  /-- `write_tls`: nothing for an error and for no bytes. -/
  writeTls : State → Option Bytes × State
  /-- `read_tls`: how many of the bytes it has taken. -/
  readTls : State → Bytes → Except String ℕ × State
  processNewPackets : State → Except String Unit × State
  /-- `writer().write_all`. -/
  write : State → Bytes → Except String Unit × State
  /-- What was decrypted and not read yet. -/
  unread : State → Bytes
  atEnd : State → TlsEnd
  /-- So many bytes are read. -/
  take : State → ℕ → State
  /-- How often there may still be something to write. -/
  toWrite : State → ℕ
  unread_connect : ∀ seed s, connect seed = .ok s → unread s = []
  unread_take : ∀ s n, unread (take s n) = (unread s).drop n
  atEnd_take : ∀ s n, atEnd (take s n) = atEnd s
  unread_write : ∀ s bytes, unread (write s bytes).2 = unread s
  atEnd_write : ∀ s bytes, atEnd (write s bytes).2 = atEnd s
  readTls_pos : ∀ s bytes n, bytes ≠ [] → (readTls s bytes).1 = .ok n → 0 < n
  toWrite_writeTls : ∀ s bytes, (writeTls s).1 = some bytes → toWrite (writeTls s).2 < toWrite s

/-- What one read gives. -/
inductive TlsRead
  | data (bytes : Bytes)
  | closed
  | wouldBlock
  | failed (error : String)

namespace Tls

variable (tls : Tls)

/-- `reader().read`, into a buffer of this size. -/
def read (s : tls.State) (size : ℕ) : TlsRead × tls.State :=
  if tls.unread s = [] then
    match tls.atEnd s with
    | .more => (.wouldBlock, s)
    | .closed => (.closed, s)
    | .failed e => (.failed e, s)
  else (.data ((tls.unread s).take size), tls.take s size)

/-- The loop that reads what there is, 2048 bytes at a time, behind what was read before. -/
def drainUpTo : ℕ → tls.State → Bytes → Except Error Unit × tls.State × Bytes
  | 0, s, inbound => (.ok (), s, inbound)
  | n + 1, s, inbound =>
      match tls.read s 2048 with
      | (.data bytes, s) => drainUpTo n s (inbound ++ bytes)
      | (.closed, s) => (.error .peerClosed, s, inbound)
      | (.wouldBlock, s) => (.ok (), s, inbound)
      | (.failed e, s) => (.error (.tls e), s, inbound)

def drain (s : tls.State) (inbound : Bytes) : Except Error Unit × tls.State × Bytes :=
  drainUpTo tls ((tls.unread s).length + 1) s inbound

/-- What draining says about the end of the stream. -/
def endResult : TlsEnd → Except Error Unit
  | .more => .ok ()
  | .closed => .error .peerClosed
  | .failed e => .error (.tls e)

/-- The loop that feeds a record. -/
def feedUpTo : ℕ → tls.State → Bytes → Except Error Unit × tls.State
  | 0, s, _ => (.ok (), s)
  | n + 1, s, remaining =>
      if remaining = [] then (.ok (), s)
      else
        match tls.readTls s remaining with
        | (.error e, s) => (.error (.tls e), s)
        | (.ok taken, s) =>
            match tls.processNewPackets s with
            | (.error e, s) => (.error (.tls e), s)
            | (.ok (), s) => feedUpTo n s (remaining.drop taken)

def feed (s : tls.State) (record : Bytes) : Except Error Unit × tls.State :=
  feedUpTo tls record.length s record

/-- The loop that takes what is to be sent. -/
def pumpUpTo : ℕ → tls.State → Bytes → tls.State × Bytes
  | 0, s, out => (s, out)
  | n + 1, s, out =>
      if tls.wantsWrite s then
        match tls.writeTls s with
        | (some bytes, s) => pumpUpTo n s (out ++ bytes)
        | (none, s) => (s, out)
      else (s, out)

/-- Every piece is one less to be written. -/
def pump (s : tls.State) : tls.State × Bytes := pumpUpTo tls (tls.toWrite s + 1) s []

variable {tls}

/-- More steps feed nothing else: every one takes a byte. -/
theorem feedUpTo_succ {n : ℕ} {s : tls.State} {remaining : Bytes} (hn : remaining.length ≤ n) :
    tls.feedUpTo (n + 1) s remaining = tls.feedUpTo n s remaining := by
  induction n generalizing s remaining with
  | zero =>
      obtain rfl := List.length_eq_zero_iff.mp (Nat.le_zero.mp hn)
      rfl
  | succ n ih =>
      rw [feedUpTo, feedUpTo]
      split
      case isTrue => rfl
      case isFalse hne =>
        rcases hread : tls.readTls s remaining with ⟨_ | taken, t⟩
        · rfl
        · have hpos := tls.readTls_pos s remaining taken hne (congrArg Prod.fst hread)
          rcases hprocess : tls.processNewPackets t with ⟨_ | _, t'⟩
          · simp only [hprocess]
          · simp only [hprocess]
            exact ih (by rw [List.length_drop]; omega)

/-- More steps write nothing else. -/
theorem pumpUpTo_succ {n : ℕ} {s : tls.State} {out : Bytes} (hn : tls.toWrite s < n) :
    tls.pumpUpTo (n + 1) s out = tls.pumpUpTo n s out := by
  induction n generalizing s out with
  | zero => exact absurd hn (Nat.not_lt_zero _)
  | succ n ih =>
      rw [pumpUpTo, pumpUpTo]
      split
      case isTrue =>
        rcases hwrite : tls.writeTls s with ⟨_ | bytes, t⟩
        · rfl
        · have hless := tls.toWrite_writeTls s bytes (congrArg Prod.fst hwrite)
          rw [hwrite] at hless
          exact ih (Nat.lt_of_lt_of_le hless (Nat.le_of_lt_succ hn))
      case isFalse => rfl

/-- **Draining reads everything**, and then says how the stream stands. -/
theorem drain_eq (s : tls.State) (inbound : Bytes) : ∃ t, tls.unread t = [] ∧
    tls.atEnd t = tls.atEnd s ∧
      tls.drain s inbound = (endResult (tls.atEnd s), t, inbound ++ tls.unread s) := by
  have hrun : ∀ n s inbound, (tls.unread s).length < n → ∃ t, tls.unread t = [] ∧
      tls.atEnd t = tls.atEnd s ∧
        tls.drainUpTo n s inbound = (endResult (tls.atEnd s), t, inbound ++ tls.unread s) := by
    intro n
    induction n with
    | zero => exact fun _ _ h => absurd h (Nat.not_lt_zero _)
    | succ n ih =>
        intro s inbound hn
        by_cases hunread : tls.unread s = []
        · refine ⟨s, hunread, rfl, ?_⟩
          rw [drainUpTo, read, if_pos hunread, hunread, List.append_nil]
          cases tls.atEnd s <;> rfl
        · have hpos := List.length_pos_iff.mpr hunread
          obtain ⟨t, htail, hend, heq⟩ := ih (tls.take s 2048)
            (inbound ++ (tls.unread s).take 2048) (by
              rw [tls.unread_take, List.length_drop]
              omega)
          refine ⟨t, htail, hend.trans (tls.atEnd_take s 2048), ?_⟩
          rw [tls.atEnd_take, tls.unread_take, List.append_assoc, List.take_append_drop] at heq
          rw [drainUpTo, read, if_neg hunread]
          exact heq
  exact hrun _ _ _ (Nat.lt_succ_self _)

/-- What a connection in clear text has: whether it is still shaking hands, what came in, and
what is to go out. -/
structure Plain where
  handshaking : Bool
  unread : Bytes
  toSend : Bytes
  deriving DecidableEq

/-- A connection in clear text: the first record ends the handshake, and every other is what
it carries. -/
def plain : Tls where
  State := Plain
  Seed := Unit
  connect _ := .ok ⟨true, [], [1]⟩
  isHandshaking := Plain.handshaking
  wantsWrite s := s.toSend ≠ []
  writeTls s := if s.toSend = [] then (none, s) else (some s.toSend, { s with toSend := [] })
  readTls s bytes :=
    (.ok bytes.length,
      { s with handshaking := false, unread := if s.handshaking then [] else s.unread ++ bytes })
  processNewPackets s := (.ok (), s)
  write s bytes := (.ok (), { s with toSend := s.toSend ++ bytes })
  unread := Plain.unread
  atEnd _ := .more
  take s n := { s with unread := s.unread.drop n }
  toWrite s := s.toSend.length
  unread_connect := by
    rintro seed _ ⟨⟩
    rfl
  unread_take _ _ := rfl
  atEnd_take _ _ := rfl
  unread_write _ _ := rfl
  atEnd_write _ _ := rfl
  readTls_pos := by
    rintro s bytes n hne ⟨⟩
    exact List.length_pos_iff.mpr hne
  toWrite_writeTls := by
    intro s bytes h
    split at h
    case isTrue => cases h
    case isFalse hne =>
      rw [if_neg hne]
      exact List.length_pos_iff.mpr hne

end Tls

end SynologyFilestation.Openvpn
