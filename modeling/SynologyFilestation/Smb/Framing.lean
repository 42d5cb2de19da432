import SynologyFilestation.Core.Path
import SynologyFilestation.Library.Framing
import SynologyFilestation.Library.ReadExact
import SynologyFilestation.Library.Transition

/-!
Messages over a stream (`StreamTransport` in `smb/src/framing.rs`).

A message goes out behind four bytes, a zero and its length. Whoever sends holds the lock of the
writing half for as long as it writes. What arrives does so in pieces that know nothing of messages,
until the stream ends or fails.
-/

namespace SynologyFilestation.Smb

open Core Library

/-! ### One message -/

/-- `smb2::Error`, as far as the framing makes it. -/
inductive TransportError
  | invalidData (text : String)
  | disconnected
  | io (text : String)
  deriving DecidableEq

/-- `MAX_FRAME_SIZE`. -/
def maxFrameSize : ℕ := 0xffffff

/-- The four bytes in front of a message. -/
def header (len : ℕ) : Bytes :=
  [0x00, UInt8.ofNat (len >>> 16), UInt8.ofNat (len >>> 8), UInt8.ofNat len]

/-- The length that they say. -/
def lengthOf (high middle low : UInt8) : ℕ :=
  high.toNat <<< 16 ||| middle.toNat <<< 8 ||| low.toNat

def frameOf (message : Bytes) : Bytes := header message.length ++ message

/-- What `send` puts on the wire. -/
def toSend (data : Bytes) : Except TransportError Bytes :=
  if maxFrameSize < data.length then
    .error (.invalidData
      s!"message size {data.length} exceeds maximum frame size {maxFrameSize}")
  else .ok (frameOf data)

/-- `{:02X}`. -/
def upperHex (byte : UInt8) : String :=
  String.ofList
    [(Nat.digitChar (byte.toNat / 16)).toUpper, (Nat.digitChar (byte.toNat % 16)).toUpper]

/-- How a stream ends. -/
inductive Ending
  | eof
  | fails (text : String)
  deriving DecidableEq

/-- What is still to come of a stream, piece by piece. -/
structure Stream where
  pieces : List (Arrival UInt8)
  ending : Ending

def Stream.bytes (s : Stream) : Bytes := symbolsOf s.pieces

/-- `ended`. -/
def ended : Ending → TransportError
  | .eof => .disconnected
  | .fails text => .io text

def notAFrame (kind : UInt8) : TransportError :=
  .invalidData ("invalid transport frame: first byte must be 0x00, got 0x" ++ upperHex kind)

/-- `StreamTransport::receive`. -/
def receive (s : Stream) : Except TransportError (Bytes × Stream) :=
  match readExact 4 s.pieces with
  | some ([kind, high, middle, low], pieces) =>
      if kind ≠ 0x00 then .error (notAFrame kind)
      else
        match readExact (lengthOf high middle low) pieces with
        | some (message, pieces) => .ok (message, { s with pieces := pieces })
        | none => .error (ended s.ending)
  | _ => .error (ended s.ending)

/-- One message after the other, until there is an error. -/
def receiveUpTo : ℕ → Stream → List Bytes × Option TransportError
  | 0, _ => ([], none)
  | fuel + 1, s =>
      match receive s with
      | .error e => ([], some e)
      | .ok (message, s) =>
          let (messages, e) := receiveUpTo fuel s
          (message :: messages, e)

/-- Every message takes four bytes at least. -/
def receiveAll (s : Stream) : List Bytes × Option TransportError :=
  receiveUpTo (s.bytes.length + 1) s

/-! ### What bytes say -/

/-- Why there is no message in front. -/
inductive NoFrame
  | short
  | kind (byte : UInt8)
  deriving DecidableEq

/-- What the bytes that have come say, whatever the pieces are. -/
def decodeFrame : Bytes → Except NoFrame (Bytes × ℕ)
  | kind :: high :: middle :: low :: rest =>
      if kind ≠ 0x00 then .error (.kind kind)
      else if lengthOf high middle low ≤ rest.length then
        .ok (rest.take (lengthOf high middle low), 4 + lengthOf high middle low)
      else .error .short
  | _ => .error .short

/-- What is made of bytes that are no message. -/
def failureOf (ending : Ending) : NoFrame → TransportError
  | .short => ended ending
  | .kind byte => notAFrame byte

variable {s : Stream} {message : Bytes}

theorem lengthOf_eq (high middle low : UInt8) :
    lengthOf high middle low = high.toNat * 65536 + middle.toNat * 256 + low.toNat := by
  have hmiddle := middle.toNat_lt
  have hlow := low.toNat_lt
  have hrest : middle.toNat <<< 8 + low.toNat < 2 ^ 16 := by
    rw [Nat.shiftLeft_eq]
    omega
  rw [lengthOf, Nat.or_assoc, ← Nat.shiftLeft_add_eq_or_of_lt hlow,
    ← Nat.shiftLeft_add_eq_or_of_lt hrest, Nat.shiftLeft_eq, Nat.shiftLeft_eq]
  omega

/-- A length that three bytes can say is said by them. -/
theorem lengthOf_header {len : ℕ} (h : len ≤ maxFrameSize) :
    lengthOf (UInt8.ofNat (len >>> 16)) (UInt8.ofNat (len >>> 8)) (UInt8.ofNat len) = len := by
  have hmax : len ≤ 16777215 := h
  rw [lengthOf_eq, UInt8.toNat_ofNat', UInt8.toNat_ofNat', UInt8.toNat_ofNat',
    Nat.shiftRight_eq_div_pow, Nat.shiftRight_eq_div_pow]
  omega

theorem lengthOf_le (high middle low : UInt8) : lengthOf high middle low ≤ maxFrameSize := by
  have hhigh := high.toNat_lt
  have hmiddle := middle.toNat_lt
  have hlow := low.toNat_lt
  rw [lengthOf_eq, maxFrameSize]
  omega

theorem length_frame (message : Bytes) : (frameOf message).length = 4 + message.length := by
  rw [frameOf, List.length_append]
  rfl

theorem header_lengthOf (high middle low : UInt8) :
    header (lengthOf high middle low) = [0x00, high, middle, low] := by
  have hhigh := high.toNat_lt
  have hmiddle := middle.toNat_lt
  have hlow := low.toNat_lt
  have hbyte {n : ℕ} (byte : UInt8) (h : n % 256 = byte.toNat) : UInt8.ofNat n = byte := by
    rw [← UInt8.toNat_inj, UInt8.toNat_ofNat', h]
  rw [header, lengthOf_eq, Nat.shiftRight_eq_div_pow, Nat.shiftRight_eq_div_pow,
    hbyte high (by omega), hbyte middle (by omega), hbyte low (by omega)]

/-- **What is a message is a frame**, of no more bytes than three can say. -/
theorem decodeFrame_eq_ok_iff {bytes : Bytes} {used : ℕ} :
    decodeFrame bytes = .ok (message, used) ↔ message.length ≤ maxFrameSize ∧
      used = (frameOf message).length ∧ ∃ rest, bytes = frameOf message ++ rest := by
  rw [length_frame]
  constructor
  · intro h
    rcases bytes with _ | ⟨kind, _ | ⟨high, _ | ⟨middle, _ | ⟨low, rest⟩⟩⟩⟩
    · cases h
    · cases h
    · cases h
    · cases h
    · rw [decodeFrame] at h
      split at h
      case isTrue => cases h
      case isFalse hkind =>
        split at h
        case isTrue hle =>
          obtain ⟨rfl, rfl⟩ := Prod.mk.inj (Except.ok.inj h)
          obtain rfl := not_not.mp hkind
          have hlength := List.length_take_of_le hle
          have hmax := lengthOf_le high middle low
          refine ⟨by omega, by rw [hlength], rest.drop (lengthOf high middle low), ?_⟩
          rw [frameOf, hlength, header_lengthOf, List.append_assoc, List.take_append_drop]
          rfl
        case isFalse => cases h
  · rintro ⟨hmax, rfl, rest, rfl⟩
    have hlength := lengthOf_header hmax
    rw [frameOf, List.append_assoc, header]
    simp only [List.cons_append, List.nil_append, decodeFrame]
    rw [if_neg (by simp), hlength, if_pos (by simp), List.take_left]

/-- What is refused for its first byte does not begin as a frame does. -/
theorem eq_short_of_prefix {bytes : Bytes} {e : NoFrame} (h : decodeFrame bytes = .error e)
    (hstarts : bytes <+: frameOf message) : e = .short := by
  unfold decodeFrame at h
  split at h
  case h_1 kind high middle low rest =>
    obtain ⟨hzero, -⟩ := List.cons_prefix_cons.mp hstarts
    rw [if_neg (not_not.mpr hzero)] at h
    split at h
    case isTrue => cases h
    case isFalse => exact (Except.error.inj h).symm
  case h_2 => exact (Except.error.inj h).symm

theorem frames_decodeFrame :
    Frames decodeFrame frameOf fun message => message.length ≤ maxFrameSize where
  used h := by
    obtain ⟨-, rfl, rest, rfl⟩ := decodeFrame_eq_ok_iff.mp h
    rw [length_frame, List.length_append, length_frame]
    omega
  ok h more := by
    obtain ⟨hmax, hused, rest, rfl⟩ := decodeFrame_eq_ok_iff.mp h
    exact decodeFrame_eq_ok_iff.mpr ⟨hmax, hused, rest ++ more, List.append_assoc ..⟩
  whole hmax rest := decodeFrame_eq_ok_iff.mpr ⟨hmax, rfl, rest, rfl⟩

/-! ### One message is received -/

/-- **What is received is what the bytes say, whatever the pieces are.** -/
theorem receive_cases (s : Stream) :
    (∃ message rest, receive s = .ok (message, rest) ∧ rest.ending = s.ending ∧
      message.length ≤ maxFrameSize ∧ s.bytes = frameOf message ++ rest.bytes) ∨
    ∃ e, receive s = .error (failureOf s.ending e) ∧ decodeFrame s.bytes = .error e := by
  unfold receive
  split
  case h_1 kind high middle low pieces hread =>
    obtain ⟨-, hbytes⟩ := readExact_eq_some hread
    have hbytes : s.bytes = kind :: high :: middle :: low :: symbolsOf pieces := hbytes
    split
    case isTrue hkind =>
      refine .inr ⟨.kind kind, rfl, ?_⟩
      rw [hbytes, decodeFrame, if_pos hkind]
    case isFalse hkind =>
      split
      case h_1 message rest hmessage =>
        obtain ⟨hlength, hsymbols⟩ := readExact_eq_some hmessage
        refine .inl ⟨message, _, rfl, rfl, hlength ▸ lengthOf_le .., ?_⟩
        obtain rfl := not_not.mp hkind
        rw [hbytes, hsymbols, frameOf, hlength, header_lengthOf]
        rfl
      case h_2 hshort =>
        have hless := readExact_eq_none_iff.mp hshort
        refine .inr ⟨.short, rfl, ?_⟩
        rw [hbytes, decodeFrame, if_neg hkind, if_neg (by omega)]
  case h_2 hother =>
    refine .inr ⟨.short, rfl, ?_⟩
    -- There are no four bytes.
    rcases hbytes : s.bytes with _ | ⟨kind, _ | ⟨high, _ | ⟨middle, _ | ⟨low, rest⟩⟩⟩⟩
    · rfl
    · rfl
    · rfl
    · rfl
    · have hfour : 4 ≤ (symbolsOf s.pieces).length := by
        have hsymbols : symbolsOf s.pieces = kind :: high :: middle :: low :: rest := hbytes
        rw [hsymbols]
        simp
      obtain ⟨pieces, hread, -⟩ := readExact_of_le hfour
      have htake : (symbolsOf s.pieces).take 4 = [kind, high, middle, low] := by
        have hsymbols : symbolsOf s.pieces = kind :: high :: middle :: low :: rest := hbytes
        rw [hsymbols]
        rfl
      exact absurd (htake ▸ hread) (hother kind high middle low pieces)

theorem receiveUpTo_eq {fuel : ℕ} (hfuel : s.bytes.length < fuel) :
    ∃ e, decodeFrame (decodeAll decodeFrame s.bytes).2 = .error e ∧
      receiveUpTo fuel s =
        ((decodeAll decodeFrame s.bytes).1, some (failureOf s.ending e)) := by
  induction fuel generalizing s with
  | zero => omega
  | succ fuel ih =>
      rw [receiveUpTo]
      rcases receive_cases s with ⟨message, rest, hreceive, hending, hmax, hbytes⟩ |
        ⟨e, hreceive, hdecode⟩
      · have hless : rest.bytes.length < fuel := by
          rw [hbytes, List.length_append, length_frame] at hfuel
          omega
        obtain ⟨e, he, hrest⟩ := ih hless
        have hall := frames_decodeFrame.toFramed.decodeAll_ok
          (frames_decodeFrame.whole hmax rest.bytes)
        rw [List.drop_left, ← hbytes] at hall
        refine ⟨e, by rw [hall, he], ?_⟩
        rw [hreceive, hall]
        dsimp only
        rw [hrest, hending]
      · rw [hreceive, Framed.decodeAll_error hdecode]
        exact ⟨e, hdecode, rfl⟩

/-- **Pieces make no difference.** The messages are those that the bytes hold, and the error tells
bytes that are no message from a stream that has ended. -/
theorem receiveAll_eq (s : Stream) :
    ∃ e, decodeFrame (decodeAll decodeFrame s.bytes).2 = .error e ∧
      receiveAll s = ((decodeAll decodeFrame s.bytes).1, some (failureOf s.ending e)) :=
  receiveUpTo_eq (Nat.lt_succ_self _)

/-! ### Those who send -/

/-- The writing half, with what is done to it. -/
structure Writer where
  /-- The calls of `send` that wait for the lock. -/
  waiting : List Bytes
  /-- The message of whoever holds the lock, and what is left to write of its frame. -/
  writing : Option (Bytes × Bytes)
  /-- What the stream has taken. -/
  wire : Bytes
  /-- Why it takes nothing more. -/
  broken : Option String
  /-- The messages in the order they took the lock in; nothing reads it. -/
  begun : List Bytes
  /-- Those whose `send` returned without an error. -/
  sent : List Bytes

inductive WriterEvent
  | send (data : Bytes)
  | lock (i : ℕ)
  | write (n : ℕ)
  | flush
  | fails (text : String)
  | giveUp (i : ℕ)
  | abandon

namespace Writer

def new : Writer := ⟨[], none, [], none, [], []⟩

variable (w : Writer)

/-- What is left to write. -/
def left : Bytes := (w.writing.map Prod.snd).getD []

/-- The message that is being written. -/
def current : List Bytes := (w.writing.map Prod.fst).toList

/-- A stream that has failed takes nothing more. A call is given up while it waits for the lock, or
it is abandoned while it writes. -/
def after : WriterEvent → Writer
  | .send data =>
      match toSend data with
      | .ok _ => { w with waiting := w.waiting ++ [data] }
      | .error _ => w
  | .lock i =>
      match w.writing, w.waiting[i]? with
      | none, some data =>
          { w with
            waiting := w.waiting.eraseIdx i
            writing := some (data, frameOf data)
            begun := w.begun ++ [data] }
      | _, _ => w
  | .write n =>
      match w.writing, w.broken with
      | some (data, rest), none =>
          { w with writing := some (data, rest.drop n), wire := w.wire ++ rest.take n }
      | _, _ => w
  | .flush =>
      match w.writing, w.broken with
      | some (data, []), none => { w with writing := none, sent := w.sent ++ [data] }
      | _, _ => w
  | .fails text =>
      match w.writing with
      | some _ => { w with writing := none, broken := some (w.broken.getD text) }
      | none => w
  | .giveUp i => { w with waiting := w.waiting.eraseIdx i }
  | .abandon => { w with writing := none }

def Step (w : Writer) (event : WriterEvent) (t : Writer) : Prop := t = w.after event

/-- No call is abandoned while it writes. -/
def Finished (w : Writer) (event : WriterEvent) : Prop :=
  event = .abandon → w.writing = none

instance decidableFinished (w : Writer) : ∀ event, Decidable (Finished w event)
  | .abandon => decidable_of_iff (w.writing.isNone = true) (by simp [Finished])
  | .send _ | .lock _ | .write _ | .flush | .fails _ | .giveUp _ => .isTrue fun h => (by cases h)

/-- What is on the wire are the messages that were begun, one behind the other. -/
structure Sound (w : Writer) : Prop where
  framed : ∃ lost, w.wire ++ lost = w.begun.flatMap frameOf ∧ (w.broken = none → lost = w.left)
  begun : w.broken = none → w.begun = w.sent ++ w.current
  kept : w.sent <+: w.begun
  arrived : w.sent.flatMap frameOf <+: w.wire
  fits : ∀ message ∈ w.waiting ++ w.begun, message.length ≤ maxFrameSize

theorem sound_new : new.Sound where
  framed := ⟨[], rfl, fun _ => rfl⟩
  begun _ := rfl
  kept := List.prefix_refl _
  arrived := List.prefix_refl _
  fits _ h := by cases h

namespace Sound

variable {w : Writer}

/-- Of what waits for the lock only the lengths matter. -/
theorem waits (h : w.Sound) {waiting : List Bytes}
    (hfits : ∀ message ∈ waiting, message.length ≤ maxFrameSize) :
    { w with waiting := waiting }.Sound where
  framed := h.framed
  begun := h.begun
  kept := h.kept
  arrived := h.arrived
  fits message hmem := by
    rcases List.mem_append.mp hmem with hwaits | hbegun
    · exact hfits message hwaits
    · exact h.fits message (List.mem_append_right _ hbegun)

theorem locked (h : w.Sound) (hfree : w.writing = none) {i : ℕ} {data : Bytes}
    (hdata : w.waiting[i]? = some data) :
    { w with
      waiting := w.waiting.eraseIdx i
      writing := some (data, frameOf data)
      begun := w.begun ++ [data] }.Sound where
  framed := by
    obtain ⟨lost, hlost, hleft⟩ := h.framed
    refine ⟨lost ++ frameOf data, ?_, fun hopen => ?_⟩
    · rw [← List.append_assoc, hlost, List.flatMap_append, List.flatMap_singleton]
    · rw [hleft hopen, left, hfree]
      rfl
  begun hopen := by
    have hbegun := h.begun hopen
    rw [current, hfree] at hbegun
    rw [hbegun, List.append_assoc]
    rfl
  kept := h.kept.trans (List.prefix_append _ _)
  arrived := h.arrived
  fits message hmem := by
    have hwaits : data ∈ w.waiting := List.mem_of_getElem? hdata
    simp only [List.mem_append, List.mem_singleton] at hmem
    rcases hmem with hleft | hbegun | rfl
    · exact h.fits message (List.mem_append_left _ (List.mem_of_mem_eraseIdx hleft))
    · exact h.fits message (List.mem_append_right _ hbegun)
    · exact h.fits _ (List.mem_append_left _ hwaits)

theorem after (h : w.Sound) {event : WriterEvent} (hfinished : Finished w event) :
    (w.after event).Sound := by
  cases event with
  | send data =>
      rw [Writer.after]
      split
      case h_1 hsend =>
        refine h.waits fun message hmem => ?_
        rcases List.mem_append.mp hmem with hwaits | hnew
        · exact h.fits message (List.mem_append_left _ hwaits)
        · obtain rfl := List.mem_singleton.mp hnew
          unfold toSend at hsend
          split at hsend
          case isTrue => cases hsend
          case isFalse hfits => exact Nat.le_of_not_lt hfits
      case h_2 => exact h
  | lock i =>
      rw [Writer.after]
      split
      case h_1 data hfree hdata => exact h.locked hfree hdata
      case h_2 => exact h
  | write n =>
      rw [Writer.after]
      split
      case h_1 data rest hwriting hopen =>
        have hleft : w.left = rest := by rw [left, hwriting]; rfl
        have hcurrent : w.current = [data] := by rw [current, hwriting]; rfl
        refine ⟨?_, fun hopen => ?_, h.kept, h.arrived.trans (List.prefix_append _ _), h.fits⟩
        · obtain ⟨lost, hlost, heq⟩ := h.framed
          refine ⟨rest.drop n, ?_, fun _ => rfl⟩
          show w.wire ++ rest.take n ++ rest.drop n = w.begun.flatMap frameOf
          rw [List.append_assoc, List.take_append_drop, ← hlost, heq hopen, hleft]
        · exact (h.begun hopen).trans (by rw [hcurrent]; rfl)
      case h_2 => exact h
  | flush =>
      rw [Writer.after]
      split
      case h_1 data hwriting hopen =>
        have hleft : w.left = [] := by rw [left, hwriting]; rfl
        have hcurrent : w.current = [data] := by rw [current, hwriting]; rfl
        have hbegun : w.begun = w.sent ++ [data] := hcurrent ▸ h.begun hopen
        obtain ⟨lost, hlost, heq⟩ := h.framed
        have hwire : w.wire = w.begun.flatMap frameOf := by
          rw [← hlost, heq hopen, hleft, List.append_nil]
        refine ⟨⟨[], ?_, fun _ => rfl⟩, fun _ => ?_, ?_, ?_, h.fits⟩
        · exact (List.append_nil _).trans hwire
        · exact hbegun.trans (List.append_nil _).symm
        · exact hbegun ▸ List.prefix_refl _
        · show (w.sent ++ [data]).flatMap frameOf <+: w.wire
          rw [hwire, hbegun]
      case h_2 => exact h
  | fails text =>
      rw [Writer.after]
      split
      case h_1 =>
        obtain ⟨lost, hlost, -⟩ := h.framed
        exact ⟨⟨lost, hlost, fun hopen => (by cases hopen)⟩, fun hopen => (by cases hopen), h.kept,
          h.arrived, h.fits⟩
      case h_2 => exact h
  | giveUp i =>
      exact h.waits fun message hmem =>
        h.fits message (List.mem_append_left _ (List.mem_of_mem_eraseIdx hmem))
  | abandon =>
      have hfree : w.writing = none := hfinished rfl
      rw [Writer.after, ← hfree]
      exact h

end Sound

/-- **Messages arrive as they were sent.** Whoever else sends at the time, and in whatever pieces it
arrives, what is received are the messages in the order they took the lock in, and after them only
that the stream ended. A message whose `send` returned is among them when all that the stream took
has come, and none is longer than three bytes can say. -/
theorem messages_arrive {w : Writer} {s : Stream} (hw : Reaches Step Finished new w)
    (harrived : s.bytes <+: w.wire) :
    (receiveAll s).1 <+: w.begun ∧ (receiveAll s).2 = some (ended s.ending) ∧
      (s.bytes = w.wire → w.sent <+: (receiveAll s).1) ∧
      ∀ message ∈ w.begun, message.length ≤ maxFrameSize := by
  have h : w.Sound := hw.invariant sound_new fun hs hfinished hstep => by
    rw [hstep]
    exact hs.after hfinished
  have hfits : ∀ message ∈ w.begun, message.length ≤ maxFrameSize :=
    fun message hmem => h.fits message (List.mem_append_right _ hmem)
  obtain ⟨lost, hlost, -⟩ := h.framed
  have hstarts : s.bytes <+: w.begun.flatMap frameOf :=
    hlost ▸ harrived.trans (List.prefix_append _ _)
  obtain ⟨hmessages, hrest⟩ := frames_decodeFrame.decodeAll_prefix hfits hstarts
  obtain ⟨e, he, hreceived⟩ := receiveAll_eq s
  rw [hreceived]
  refine ⟨hmessages, ?_, fun hall => ?_, hfits⟩
  · have hshort : e = .short := by
      rcases hrest with hnil | ⟨message, -, hpart, -⟩
      · rw [hnil] at he
        exact (Except.error.inj he).symm
      · exact eq_short_of_prefix he hpart
    rw [hshort]
    rfl
  · obtain ⟨more, hmore⟩ := h.arrived
    have hsent : ∀ message ∈ w.sent, message.length ≤ maxFrameSize :=
      fun message hmem => hfits message (h.kept.subset hmem)
    rw [hall, ← hmore, frames_decodeFrame.decodeAll_whole hsent]
    exact List.prefix_append _ _

/-- Two calls, the second of which takes the lock first, and the first of which is cut off. -/
def twoSent : Writer :=
  [.send [1, 2], .send [3], .lock 1, .write 3, .write 2, .flush, .lock 0, .write 5,
    .fails "broken pipe"].foldl after new

def twoArriving : Stream where
  pieces := [⟨[0, 0], by decide⟩, ⟨[0, 1, 3, 0, 0], by decide⟩, ⟨[0, 2, 1], by decide⟩]
  ending := .eof

theorem messages_arrive_twoSent : (receiveAll twoArriving).1 <+: [[3], [1, 2]] ∧
    (receiveAll twoArriving).2 = some .disconnected ∧ [[3]] <+: (receiveAll twoArriving).1 := by
  have hreach : Reaches Step Finished new twoSent := Reaches.start.events (by decide)
  obtain ⟨hfront, hended, hall, -⟩ :=
    messages_arrive (s := twoArriving) hreach (by decide)
  exact ⟨hfront, hended, hall (by decide)⟩

end Writer

end SynologyFilestation.Smb
