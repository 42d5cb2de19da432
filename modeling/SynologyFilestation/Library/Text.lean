import Mathlib.Data.List.Basic
import Mathlib.Data.List.TakeWhile
import Mathlib.Data.UInt

/-!
Text as the bytes of its UTF-8 encoding.

Bytes that are no UTF-8 are replaced as they are decoded, one replacement
character for the longest beginning of a character that is there. White space is
the Unicode property. A function that steps over the rest of a character counts
how many bytes are still to be skipped, so that it recurses on the bytes.
-/

namespace SynologyFilestation.Library

/-- A literal without anything but ASCII. -/
def ascii (text : String) : List UInt8 := text.toList.map fun c => .ofNat c.toNat

/-! ### Decoding -/

/-- How many bytes a character has that begins with this one. -/
def charWidth (lead : UInt8) : Option ℕ :=
  if lead < 0x80 then some 1
  else if 0xc2 ≤ lead ∧ lead ≤ 0xdf then some 2
  else if 0xe0 ≤ lead ∧ lead ≤ 0xef then some 3
  else if 0xf0 ≤ lead ∧ lead ≤ 0xf4 then some 4
  else none

/-- The second byte of a character: no overlong form, no surrogate, nothing too large. -/
def isSecond (lead byte : UInt8) : Bool :=
  if lead = 0xe0 then 0xa0 ≤ byte && byte ≤ 0xbf
  else if lead = 0xed then 0x80 ≤ byte && byte ≤ 0x9f
  else if lead = 0xf0 then 0x90 ≤ byte && byte ≤ 0xbf
  else if lead = 0xf4 then 0x80 ≤ byte && byte ≤ 0x8f
  else 0x80 ≤ byte && byte ≤ 0xbf

/-- The bytes behind a lead byte that go on with its character, which has `more` of them. -/
def follow (lead : UInt8) (more : ℕ) : List UInt8 → List UInt8
  | [] => []
  | byte :: rest =>
      if more = 0 ∨ !isSecond lead byte then []
      else byte :: (rest.take (more - 1)).takeWhile fun byte => 0x80 ≤ byte && byte ≤ 0xbf

/-- The character at the front, or its replacement, and how many bytes follow its first. -/
def decodeChar (lead : UInt8) (rest : List UInt8) : List UInt8 × ℕ :=
  let replacement := [0xef, 0xbf, 0xbd]
  match charWidth lead with
  | none => (replacement, 0)
  | some width =>
      let more := follow lead (width - 1) rest
      if more.length = width - 1 then (lead :: more, more.length) else (replacement, more.length)

def decodeFrom : ℕ → List UInt8 → List UInt8
  | _, [] => []
  | skip + 1, _ :: rest => decodeFrom skip rest
  | 0, lead :: rest => (decodeChar lead rest).1 ++ decodeFrom (decodeChar lead rest).2 rest

/-- `String::from_utf8_lossy`. -/
def fromUtf8Lossy (bytes : List UInt8) : List UInt8 := decodeFrom 0 bytes

@[simp] theorem fromUtf8Lossy_cons {byte : UInt8} (h : byte < 0x80) (rest : List UInt8) :
    fromUtf8Lossy (byte :: rest) = byte :: fromUtf8Lossy rest := by
  have hchar : decodeChar byte rest = ([byte], 0) := by
    rw [decodeChar, charWidth, if_pos h]
    cases rest <;> rfl
  rw [fromUtf8Lossy, decodeFrom, hchar]
  rfl

/-- ASCII is what it says. -/
theorem fromUtf8Lossy_append {front : List UInt8} (h : ∀ byte ∈ front, byte < 0x80)
    (rest : List UInt8) : fromUtf8Lossy (front ++ rest) = front ++ fromUtf8Lossy rest := by
  induction front with
  | nil => rfl
  | cons byte front ih =>
      rw [List.cons_append, fromUtf8Lossy_cons (h byte List.mem_cons_self),
        ih fun b hb => h b (List.mem_cons_of_mem _ hb), List.cons_append]

/-! ### Encoding -/

theorem byte_le_ofNat {a : UInt8} {n : ℕ} (hn : n < 256) : a ≤ UInt8.ofNat n ↔ a.toNat ≤ n := by
  rw [UInt8.le_iff_toNat_le, UInt8.toNat_ofNat_of_lt' hn]

theorem ofNat_le_byte {a : UInt8} {n : ℕ} (hn : n < 256) : UInt8.ofNat n ≤ a ↔ n ≤ a.toNat := by
  rw [UInt8.le_iff_toNat_le, UInt8.toNat_ofNat_of_lt' hn]

theorem ofNat_lt_byte {a : UInt8} {n : ℕ} (hn : n < 256) : UInt8.ofNat n < a ↔ n < a.toNat := by
  rw [UInt8.lt_iff_toNat_lt, UInt8.toNat_ofNat_of_lt' hn]

theorem ofNat_eq_byte {a : UInt8} {n : ℕ} (hn : n < 256) : UInt8.ofNat n = a ↔ n = a.toNat := by
  rw [← UInt8.toNat_inj, UInt8.toNat_ofNat_of_lt' hn]

/-- The bytes behind the second are any that continue. -/
def continues (byte : UInt8) : Prop := 0x80 ≤ byte ∧ byte ≤ 0xbf

theorem continues_ofNat (n : ℕ) : continues (UInt8.ofNat (n % 64 + 128)) := by
  have hn : n % 64 + 128 < 256 := by omega
  exact ⟨(byte_le_ofNat hn).mpr (by simp), (ofNat_le_byte hn).mpr (by simp; omega)⟩

theorem decodeChar_of {lead second : UInt8} (more rest : List UInt8)
    (hwidth : charWidth lead = some (more.length + 2)) (hsecond : isSecond lead second = true)
    (hmore : ∀ byte ∈ more, continues byte) :
    decodeChar lead (second :: (more ++ rest)) = (lead :: second :: more, more.length + 1) := by
  have hfollow : follow lead (more.length + 1) (second :: (more ++ rest)) = second :: more := by
    rw [follow, if_neg (by simp [hsecond]), Nat.add_sub_cancel, List.take_left]
    congr 1
    have hall : ∀ byte ∈ more, (0x80 ≤ byte && byte ≤ 0xbf : Bool) = true := by
      simpa [continues] using hmore
    exact List.takeWhile_eq_self_iff.mpr hall
  rw [decodeChar, hwidth]
  simp [hfollow]

theorem charWidth_ofNat {n : ℕ} (hn : n < 256) : charWidth (UInt8.ofNat n) =
    if n < 0x80 then some 1
    else if 0xc2 ≤ n ∧ n ≤ 0xdf then some 2
    else if 0xe0 ≤ n ∧ n ≤ 0xef then some 3
    else if 0xf0 ≤ n ∧ n ≤ 0xf4 then some 4
    else none := by
  simp only [charWidth, ofNat_lt_byte hn, byte_le_ofNat hn, ofNat_le_byte hn]
  rfl

theorem isSecond_ofNat {l s : ℕ} (hl : l < 256) (hs : s < 256) (hcontinues : 0x80 ≤ s ∧ s ≤ 0xbf)
    (hlow : l = 0xe0 → 0xa0 ≤ s) (hsurrogate : l = 0xed → s ≤ 0x9f) (hlong : l = 0xf0 → 0x90 ≤ s)
    (hlarge : l = 0xf4 → s ≤ 0x8f) : isSecond (UInt8.ofNat l) (UInt8.ofNat s) = true := by
  have hlead : ∀ a : UInt8, UInt8.ofNat l = a → l = a.toNat := fun a => (ofNat_eq_byte hl).mp
  unfold isSecond
  split_ifs with h1 h2 h3 h4
  all_goals simp only [byte_le_ofNat hs, ofNat_le_byte hs, Bool.and_eq_true, decide_eq_true_eq]
  · exact ⟨hlow (hlead _ h1), hcontinues.2⟩
  · exact ⟨hcontinues.1, hsurrogate (hlead _ h2)⟩
  · exact ⟨hlong (hlead _ h3), hcontinues.2⟩
  · exact ⟨hcontinues.1, hlarge (hlead _ h4)⟩
  · exact hcontinues

theorem decodeChar_utf8 {c : Char} {lead : UInt8} {more : List UInt8}
    (h : String.utf8EncodeChar c = lead :: more) (rest : List UInt8) :
    decodeChar lead (more ++ rest) = (lead :: more, more.length) := by
  have hvalid : c.val.toNat < 0xd800 ∨ 0xdfff < c.val.toNat ∧ c.val.toNat < 0x110000 := c.valid
  rw [String.utf8EncodeChar] at h
  generalize c.val.toNat = v at h hvalid
  split_ifs at h with hone htwo hthree
  all_goals obtain ⟨rfl, rfl⟩ := List.cons.inj h
  · have hwidth : charWidth (UInt8.ofNat v) = some 1 := by
      rw [charWidth_ofNat (by omega), if_pos (by omega)]
    rw [decodeChar, hwidth]
    cases rest <;> simp [follow]
  · refine decodeChar_of [] rest ?_ (isSecond_ofNat ?_ ?_ ?_ ?_ ?_ ?_ ?_) nofun
    · rw [charWidth_ofNat (by omega), if_neg (by omega), if_pos (by omega)]
      rfl
    all_goals omega
  · refine decodeChar_of [_] rest ?_ (isSecond_ofNat ?_ ?_ ?_ ?_ ?_ ?_ ?_) ?_
    · rw [charWidth_ofNat (by omega), if_neg (by omega), if_neg (by omega), if_pos (by omega)]
      rfl
    case refine_9 => exact List.forall_mem_singleton.mpr (continues_ofNat _)
    all_goals omega
  · refine decodeChar_of [_, _] rest ?_ (isSecond_ofNat ?_ ?_ ?_ ?_ ?_ ?_ ?_) ?_
    · rw [charWidth_ofNat (by omega), if_neg (by omega), if_neg (by omega), if_neg (by omega),
        if_pos (by omega)]
      rfl
    case refine_9 => exact List.forall_mem_cons.mpr ⟨continues_ofNat _,
      List.forall_mem_singleton.mpr (continues_ofNat _)⟩
    all_goals omega

/-- The bytes of a text. -/
def utf8 (text : List Char) : List UInt8 := text.flatMap String.utf8EncodeChar

theorem decodeFrom_append (skipped rest : List UInt8) :
    decodeFrom skipped.length (skipped ++ rest) = decodeFrom 0 rest := by
  induction skipped with
  | nil => rfl
  | cons byte skipped ih =>
      rw [List.length_cons, List.cons_append, decodeFrom, ih]

/-- Text comes back from its bytes. -/
theorem fromUtf8Lossy_utf8 (text : List Char) : fromUtf8Lossy (utf8 text) = utf8 text := by
  induction text with
  | nil => rfl
  | cons c text ih =>
      obtain ⟨lead, more, hc⟩ := List.exists_cons_of_ne_nil (String.utf8EncodeChar_ne_nil (c := c))
      have hbytes : utf8 (c :: text) = lead :: (more ++ utf8 text) := by
        rw [utf8, List.flatMap_cons, hc]
        rfl
      rw [hbytes, fromUtf8Lossy, decodeFrom, decodeChar_utf8 hc]
      simp only [decodeFrom_append]
      rw [fromUtf8Lossy] at ih
      rw [ih, List.cons_append]

/-- Only NUL has a zero among its bytes. -/
theorem zero_notMem_utf8 {text : List Char} (h : '\x00' ∉ text) : 0 ∉ utf8 text := by
  rw [utf8, List.mem_flatMap]
  rintro ⟨c, hc, hzero⟩
  have hne : c.val.toNat ≠ 0 := by
    intro hval
    exact h ((Char.ext (UInt32.toNat_inj.mp hval) : c = '\x00') ▸ hc)
  have hvalid : c.val.toNat < 0xd800 ∨ 0xdfff < c.val.toNat ∧ c.val.toNat < 0x110000 := c.valid
  have hbyte : ∀ n < 256, (0 : UInt8) = UInt8.ofNat n → n = 0 := fun n hn h =>
    (ofNat_eq_byte hn).mp h.symm
  rw [String.utf8EncodeChar] at hzero
  generalize c.val.toNat = v at hne hvalid hzero
  split_ifs at hzero
  all_goals simp only [List.mem_cons, List.not_mem_nil, or_false] at hzero
  · exact hne (hbyte _ (by omega) hzero)
  · rcases hzero with h | h <;> exact absurd (hbyte _ (by omega) h) (by omega)
  · rcases hzero with h | h | h <;> exact absurd (hbyte _ (by omega) h) (by omega)
  · rcases hzero with h | h | h | h <;> exact absurd (hbyte _ (by omega) h) (by omega)

/-! ### White space -/

/-- The characters with the property `White_Space`. -/
def whiteSpace : List (List UInt8) :=
  [[9], [10], [11], [12], [13], [32], [0xc2, 0x85], [0xc2, 0xa0], [0xe1, 0x9a, 0x80],
    [0xe2, 0x80, 0x80], [0xe2, 0x80, 0x81], [0xe2, 0x80, 0x82], [0xe2, 0x80, 0x83],
    [0xe2, 0x80, 0x84], [0xe2, 0x80, 0x85], [0xe2, 0x80, 0x86], [0xe2, 0x80, 0x87],
    [0xe2, 0x80, 0x88], [0xe2, 0x80, 0x89], [0xe2, 0x80, 0x8a], [0xe2, 0x80, 0xa8],
    [0xe2, 0x80, 0xa9], [0xe2, 0x80, 0xaf], [0xe2, 0x81, 0x9f], [0xe3, 0x80, 0x80]]

/-- The length of what the bytes start with, if it is one of these. -/
def startsWithAny (chars : List (List UInt8)) (bytes : List UInt8) : Option ℕ :=
  (chars.find? fun char => char.isPrefixOf bytes).map List.length

def dropAny (chars : List (List UInt8)) : ℕ → List UInt8 → List UInt8
  | _, [] => []
  | skip + 1, _ :: rest => dropAny chars skip rest
  | 0, byte :: rest =>
      match startsWithAny chars (byte :: rest) with
      | some length => dropAny chars (length - 1) rest
      | none => byte :: rest

/-- `str::trim`. -/
def trim (text : List UInt8) : List UInt8 :=
  (dropAny (whiteSpace.map List.reverse) 0 (dropAny whiteSpace 0 text).reverse).reverse

def wordsFrom : ℕ → List UInt8 → List UInt8 → List (List UInt8)
  | _, word, [] => if word = [] then [] else [word]
  | skip + 1, word, _ :: rest => wordsFrom skip word rest
  | 0, word, byte :: rest =>
      match startsWithAny whiteSpace (byte :: rest) with
      | some length =>
          if word = [] then wordsFrom (length - 1) [] rest
          else word :: wordsFrom (length - 1) [] rest
      | none => wordsFrom 0 (word ++ [byte]) rest

/-- `str::split_whitespace`. -/
def words (text : List UInt8) : List (List UInt8) := wordsFrom 0 [] text

/-! ### Numbers -/

def isDigit (byte : UInt8) : Bool := 0x30 ≤ byte && byte ≤ 0x39

/-- The number that digits stand for. -/
def ofDigits (digits : List UInt8) : ℕ :=
  digits.foldl (fun n digit => n * 10 + (digit - 0x30).toNat) 0

/-- `str::parse` for an unsigned integer below `limit`, which may have a plus sign. -/
def parseUnsigned (limit : ℕ) (text : List UInt8) : Option ℕ :=
  let digits := match text with
    | 0x2b :: digits => digits
    | _ => text
  if digits ≠ [] ∧ digits.all isDigit ∧ ofDigits digits < limit then some (ofDigits digits)
  else none

/-- One number of an address: three digits at most, and no zero in front of others. -/
def parseOctet (text : List UInt8) : Option UInt8 :=
  if text ≠ [] ∧ text.all isDigit ∧ text.length ≤ 3 ∧ (text.head? = some 0x30 → text.length = 1) ∧
    ofDigits text < 256 then some (.ofNat (ofDigits text)) else none

/-- `Ipv4Addr::from_str`. -/
def parseIpv4 (text : List UInt8) : Option (List UInt8) :=
  match (text.splitOn 0x2e).map parseOctet with
  | [some a, some b, some c, some d] => some [a, b, c, d]
  | _ => none

example : fromUtf8Lossy [0x41, 0xe2, 0x82, 0x42, 0xff] =
    [0x41, 0xef, 0xbf, 0xbd, 0x42, 0xef, 0xbf, 0xbd] := by
  decide

example : trim [0xc2, 0xa0, 0x61, 0x20, 0x62, 0xe3, 0x80, 0x80] = [0x61, 0x20, 0x62] := by
  decide

example : words (ascii " ping  10 ") = [ascii "ping", ascii "10"] := by
  decide

example : parseIpv4 (ascii "10.90.24.6") = some [10, 90, 24, 6] := by
  decide

end SynologyFilestation.Library
