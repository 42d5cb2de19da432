import SynologyFilestation.Openvpn.Profile

/-!
The file that the static key is in (`openvpn/src/static_key.rs`).

A key is written as digits, two for a byte, between two marks. How many of them stand on a line,
in which case they are and what else is in the file does not matter.
-/

namespace SynologyFilestation.Openvpn

open Core Library

/-! ### Digits -/

/-- What a digit of base sixteen stands for. -/
def hexValue (digit : UInt8) : Option ℕ :=
  (ascii "0123456789abcdef").idxOf? (PushReply.toAsciiLowercase digit)

/-- What the digits of the bytes stand for. -/
def nibbles (bytes : Bytes) : List ℕ := bytes.flatMap fun byte => [byte.toNat / 16, byte.toNat % 16]

theorem length_nibbles (bytes : Bytes) : (nibbles bytes).length = 2 * bytes.length := by
  induction bytes with
  | nil => rfl
  | cons byte bytes ih =>
      rw [nibbles, List.flatMap_cons, List.length_append, ← nibbles, ih, List.length_cons]
      simp
      omega

theorem toNat_hexDigit (digit : UInt8) :
    (hexDigit digit).toOption.map UInt8.toNat = hexValue digit := by
  have hall : ∀ n : Fin 256, (hexDigit (.ofNat n)).toOption.map UInt8.toNat =
      hexValue (.ofNat n) := by
    decide +kernel
  have hdigit := hall ⟨digit.toNat, digit.toNat_lt⟩
  rwa [UInt8.ofNat_toNat] at hdigit

theorem hexDigit_eq_ok_iff {digit value : UInt8} :
    hexDigit digit = .ok value ↔ hexValue digit = some value.toNat := by
  rw [← toNat_hexDigit]
  cases hexDigit digit with
  | error e => simp [Except.toOption]
  | ok other => simp [Except.toOption, UInt8.toNat_inj]

theorem hexDigit_eq_error_iff {digit : UInt8} {e : ProfileError} :
    hexDigit digit = .error e ↔ hexValue digit = none ∧ e = .keyNotHex := by
  have hvalue := toNat_hexDigit digit
  constructor
  · intro h
    rw [h] at hvalue
    refine ⟨hvalue.symm, ?_⟩
    unfold hexDigit at h
    split_ifs at h
    exact (Except.error.inj h).symm
  · rintro ⟨hnone, rfl⟩
    rw [hnone] at hvalue
    cases hdigit : hexDigit digit with
    | ok value =>
        rw [hdigit] at hvalue
        cases hvalue
    | error e =>
        unfold hexDigit at hdigit
        split_ifs at hdigit
        rw [hdigit]

theorem join_nibbles (high low : Fin 16) :
    (UInt8.ofNat high <<< 4 ||| UInt8.ofNat low).toNat / 16 = high ∧
      (UInt8.ofNat high <<< 4 ||| UInt8.ofNat low).toNat % 16 = low := by
  revert high low
  decide +kernel

theorem hexValue_lt {digit : UInt8} {n : ℕ} (h : hexValue digit = some n) : n < 16 := by
  obtain ⟨hless, -⟩ := List.idxOf?_eq_some_iff.mp h
  exact hless

/-- A byte is the one with these digits. -/
theorem join_eq_iff {high low byte : UInt8} (hhigh : high.toNat < 16) (hlow : low.toNat < 16) :
    high <<< 4 ||| low = byte ↔ high.toNat = byte.toNat / 16 ∧ low.toNat = byte.toNat % 16 := by
  obtain ⟨hdiv, hmod⟩ := join_nibbles ⟨high.toNat, hhigh⟩ ⟨low.toNat, hlow⟩
  simp only [UInt8.ofNat_toNat] at hdiv hmod
  rw [← UInt8.toNat_inj]
  omega

theorem hexBytes_eq_ok_iff {digits bytes : Bytes} (heven : digits.length % 2 = 0) :
    hexBytes digits = .ok bytes ↔ digits.map hexValue = (nibbles bytes).map some := by
  induction digits using hexBytes.induct generalizing bytes with
  | case1 high low digits ih =>
      have hrest : digits.length % 2 = 0 := by
        simp only [List.length_cons] at heven
        omega
      rw [hexBytes]
      constructor
      · intro h
        obtain ⟨h', hhigh, h⟩ := bind_eq_ok.mp h
        obtain ⟨l', hlow, h⟩ := bind_eq_ok.mp h
        obtain ⟨rest, hbytes, heq⟩ := bind_eq_ok.mp h
        cases heq
        rw [hexDigit_eq_ok_iff] at hhigh hlow
        obtain ⟨hdiv, hmod⟩ := (join_eq_iff (hexValue_lt hhigh) (hexValue_lt hlow)).mp rfl
        rw [List.map_cons, List.map_cons, hhigh, hlow, (ih hrest).mp hbytes, hdiv, hmod]
        rfl
      · intro h
        cases bytes with
        | nil => cases h
        | cons byte bytes =>
            obtain ⟨hhigh, h⟩ := List.cons.inj h
            obtain ⟨hlow, h⟩ := List.cons.inj h
            have hless := byte.toNat_lt
            have hdiv : (UInt8.ofNat (byte.toNat / 16)).toNat = byte.toNat / 16 :=
              UInt8.toNat_ofNat_of_lt' (show _ < 256 by omega)
            have hmod : (UInt8.ofNat (byte.toNat % 16)).toNat = byte.toNat % 16 :=
              UInt8.toNat_ofNat_of_lt' (show _ < 256 by omega)
            rw [← hdiv, ← hexDigit_eq_ok_iff] at hhigh
            rw [← hmod, ← hexDigit_eq_ok_iff] at hlow
            have hjoin := (join_eq_iff (by omega) (by omega)).mpr ⟨hdiv, hmod⟩
            refine bind_eq_ok.mpr ⟨_, hhigh, bind_eq_ok.mpr ⟨_, hlow, ?_⟩⟩
            exact bind_eq_ok.mpr ⟨_, (ih hrest).mpr h, by rw [hjoin]⟩
  | case2 digits hshort =>
      rcases digits with _ | ⟨high, _ | ⟨low, digits⟩⟩
      · have hnone : hexBytes [] = .ok [] := rfl
        rw [hnone]
        cases bytes with
        | nil => simp [nibbles]
        | cons byte bytes => simp [nibbles]
      · simp at heven
      · exact absurd rfl (hshort high low digits)

theorem hexBytes_eq_error_iff {digits : Bytes} {e : ProfileError} (heven : digits.length % 2 = 0) :
    hexBytes digits = .error e ↔
      (∃ digit ∈ digits, hexValue digit = none) ∧ e = .keyNotHex := by
  induction digits using hexBytes.induct with
  | case1 high low digits ih =>
      have hrest : digits.length % 2 = 0 := by
        simp only [List.length_cons] at heven
        omega
      have ih := ih hrest
      rw [hexBytes]
      simp only [List.mem_cons, exists_eq_or_imp]
      cases hhigh : hexDigit high with
      | error e' =>
          obtain ⟨hnone, rfl⟩ := hexDigit_eq_error_iff.mp hhigh
          simp [bind, Except.bind, hnone, eq_comm]
      | ok value =>
          rw [hexDigit_eq_ok_iff] at hhigh
          cases hlow : hexDigit low with
          | error e' =>
              obtain ⟨hnone, rfl⟩ := hexDigit_eq_error_iff.mp hlow
              simp [bind, Except.bind, hnone, eq_comm]
          | ok value' =>
              rw [hexDigit_eq_ok_iff] at hlow
              simp only [hhigh, hlow, reduceCtorEq, false_or]
              rw [← ih]
              cases hexBytes digits <;> simp [bind, Except.bind]
  | case2 digits hshort =>
      rcases digits with _ | ⟨high, _ | ⟨low, digits⟩⟩
      · have hnone : hexBytes [] = .ok [] := rfl
        simp [hnone]
      · simp at heven
      · exact absurd rfl (hshort high low digits)

namespace StaticKey

/-! ### What is read -/

/-- The digits of a text. -/
def digitsOf (hex : Bytes) : Bytes := hex.filter (!isAsciiWhitespace ·)

/-- The lines of the body that are not left out. -/
def rowsOf (body : Bytes) : List Bytes :=
  ((lines body).map trim).filter fun line => line ≠ [] && line.head? ≠ some 0x23

section Reading

variable {hex : Bytes} {key : StaticKey} {e : ProfileError}

theorem fromHex_eq_ok_iff :
    fromHex hex = .ok key ↔ (digitsOf hex).map hexValue = (nibbles key.val).map some := by
  have hnibbles := length_nibbles key.val
  rw [key.property] at hnibbles
  constructor
  · intro h
    unfold fromHex at h
    dsimp only at h
    split_ifs at h with hodd hlength
    split at h
    case h_1 => cases h
    case h_2 bytes hbytes =>
      obtain rfl := Except.ok.inj h
      have hdigits := (hexBytes_eq_ok_iff (by omega)).mp hbytes
      exact hdigits
  · intro h
    have hlength : (hex.filter (!isAsciiWhitespace ·)).length = 512 := by
      have hsame := congrArg List.length h
      rw [List.length_map, List.length_map, hnibbles] at hsame
      exact hsame
    have hbytes : hexBytes (hex.filter (!isAsciiWhitespace ·)) = .ok key.val :=
      (hexBytes_eq_ok_iff (by omega)).mpr h
    unfold fromHex
    dsimp only
    split_ifs with hodd hshort
    · omega
    · omega
    · split
      case h_1 herror => rw [hbytes] at herror; cases herror
      case h_2 bytes hok =>
        rw [hbytes] at hok
        obtain rfl := Except.ok.inj hok
        rfl

/-- Which error a text that is no key gives: first that the digits make no whole bytes, then how
many bytes they make, and last that one of them is none. -/
theorem fromHex_eq_error_iff : fromHex hex = .error e ↔
    ((digitsOf hex).length % 2 = 1 ∧ e = .keyNotHex) ∨
    ((digitsOf hex).length % 2 = 0 ∧ (digitsOf hex).length / 2 ≠ 256 ∧
      e = .keyLength ((digitsOf hex).length / 2)) ∨
    ((digitsOf hex).length = 512 ∧ (∃ digit ∈ digitsOf hex, hexValue digit = none) ∧
      e = .keyNotHex) := by
  have herror := @hexBytes_eq_error_iff (digitsOf hex) e
  unfold fromHex
  dsimp only
  split_ifs with hodd hlength
  · replace hodd : (digitsOf hex).length % 2 ≠ 0 := hodd
    have hone : (digitsOf hex).length % 2 = 1 := by omega
    have hlong : (digitsOf hex).length ≠ 512 := by omega
    simp [hone, hlong, eq_comm]
  · replace hodd : ¬(digitsOf hex).length % 2 ≠ 0 := hodd
    replace hlength : (digitsOf hex).length / 2 ≠ 256 := hlength
    have hzero : (digitsOf hex).length % 2 = 0 := by omega
    have hlong : (digitsOf hex).length ≠ 512 := by omega
    simp only [← digitsOf.eq_def, Except.error.injEq, hzero, hlength, hlong, ne_eq,
      not_false_eq_true, Nat.zero_ne_one, false_and, true_and, false_or, or_false, eq_comm]
  · replace hodd : ¬(digitsOf hex).length % 2 ≠ 0 := hodd
    replace hlength : ¬(digitsOf hex).length / 2 ≠ 256 := hlength
    have hlong : (digitsOf hex).length = 512 := by omega
    simp only [hlong, Nat.reduceMod, Nat.reduceDiv, Nat.zero_ne_one, false_and, ne_eq,
      not_true_eq_false, and_false, false_or, true_and]
    rw [← herror (by omega), digitsOf]
    split
    case h_1 e' he' => simp [he']
    case h_2 bytes hok => simp [hok]

end Reading

/-- **What is read is what the digits between the marks say**, and a text without a key in it is
told by the first of what is wrong with it. -/
theorem parse_iff (text : Bytes) : (∀ key : StaticKey, parse text = .ok key ↔
      ∃ body, between begins ends text = some body ∧
        (digitsOf (rowsOf body).flatten).map hexValue = (nibbles key.val).map some) ∧
    ∀ e, parse text = .error e ↔ (between begins ends text = none ∧ e = .keyMissing) ∨
      ∃ body, between begins ends text = some body ∧
        (((digitsOf (rowsOf body).flatten).length % 2 = 1 ∧ e = .keyNotHex) ∨
          ((digitsOf (rowsOf body).flatten).length % 2 = 0 ∧
            (digitsOf (rowsOf body).flatten).length / 2 ≠ 256 ∧
            e = .keyLength ((digitsOf (rowsOf body).flatten).length / 2)) ∨
          ((digitsOf (rowsOf body).flatten).length = 512 ∧
            (∃ digit ∈ digitsOf (rowsOf body).flatten, hexValue digit = none) ∧
            e = .keyNotHex)) := by
  unfold parse
  constructor
  · intro key
    split
    case h_1 hnone => simp [hnone]
    case h_2 body hbody =>
      dsimp only
      rw [← rowsOf, fromHex_eq_ok_iff]
      simp [hbody]
  · intro e
    split
    case h_1 hnone => simp [hnone, eq_comm]
    case h_2 body hbody =>
      dsimp only
      rw [← rowsOf, fromHex_eq_error_iff]
      simp [hbody]

/-! ### Files that are written -/

/-- A line with digits of the key, which may stand apart. -/
def IsDigits (row : Bytes) : Prop :=
  ∀ byte ∈ row, (isAsciiWhitespace byte = true ∧ byte ≠ 0x0a) ∨ (hexValue byte).isSome = true

/-- A line that is a comment. -/
structure IsRemark (row : Bytes) : Prop where
  oneLine : 0x0a ∉ row
  begins : (trim row).head? = some 0x23
  apart : ¬ends <:+: row

instance decidableIsDigits (row : Bytes) : Decidable (IsDigits row) := List.decidableBAll _ row

theorem notMem_of_isDigits {row : Bytes} (h : IsDigits row) {byte : UInt8}
    (hspace : isAsciiWhitespace byte = false ∨ byte = 0x0a) (hvalue : hexValue byte = none) :
    byte ∉ row := by
  intro hmem
  rcases h byte hmem with ⟨hwhite, hbreak⟩ | hdigit
  · rcases hspace with hspace | hspace
    · rw [hspace] at hwhite
      exact Bool.false_ne_true hwhite
    · exact hbreak hspace
  · rw [hvalue] at hdigit
    exact Bool.false_ne_true hdigit

theorem startsWithAny_digit {chars : List (List UInt8)} {byte : UInt8} {rest : List UInt8}
    (hchars : ∀ char ∈ chars, ∃ first, char.head? = some first ∧ hexValue first = none)
    (h : (hexValue byte).isSome = true) : startsWithAny chars (byte :: rest) = none := by
  rw [startsWithAny, Option.map_eq_none_iff, List.find?_eq_none]
  intro char hmem hbegins
  obtain ⟨first, hfirst, hnone⟩ := hchars char hmem
  obtain ⟨more, rfl⟩ := List.head?_eq_some_iff.mp hfirst
  rw [List.isPrefixOf_iff_prefix] at hbegins
  obtain rfl : first = byte := (List.cons_prefix_cons.mp hbegins).1
  rw [hnone] at h
  exact Bool.false_ne_true h

/-- White space that stands on a line of digits is dropped as it is of bytes. -/
theorem dropAny_isDigits {chars : List (List UInt8)} {row : Bytes} (h : IsDigits row)
    (hspace : ∀ byte rest, isAsciiWhitespace byte = true →
      startsWithAny chars (byte :: rest) = some 1)
    (hchars : ∀ char ∈ chars, ∃ first, char.head? = some first ∧ hexValue first = none) :
    dropAny chars 0 row = row.dropWhile isAsciiWhitespace := by
  induction row with
  | nil => rfl
  | cons byte row ih =>
      have hrest := ih fun other hmem => h other (List.mem_cons_of_mem _ hmem)
      rw [dropAny, List.dropWhile_cons]
      cases hwhite : isAsciiWhitespace byte with
      | true =>
          rw [hspace byte row hwhite]
          exact hrest
      | false =>
          rcases h byte List.mem_cons_self with ⟨hspace, -⟩ | hdigit
          · rw [hwhite] at hspace
            cases hspace
          · rw [startsWithAny_digit hchars hdigit]
            rfl

theorem filter_dropWhile_not {α : Type} (p : α → Bool) (l : List α) :
    (l.dropWhile p).filter (!p ·) = l.filter (!p ·) := by
  induction l with
  | nil => rfl
  | cons x l ih =>
      rw [List.dropWhile_cons]
      split
      case isTrue h => simp [ih, h]
      case isFalse => rfl

theorem eq_of_isAsciiWhitespace {byte : UInt8} (h : isAsciiWhitespace byte = true) :
    byte = 0x20 ∨ byte = 0x09 ∨ byte = 0x0a ∨ byte = 0x0c ∨ byte = 0x0d := by
  simpa [isAsciiWhitespace, or_assoc] using h

/-- A line of digits that is trimmed has the same digits, and nothing else that it had not. -/
theorem trim_isDigits {row : Bytes} (h : IsDigits row) :
    digitsOf (trim row) = digitsOf row ∧ trim row ⊆ row := by
  have hfront : dropAny whiteSpace 0 row = row.dropWhile isAsciiWhitespace := by
    refine dropAny_isDigits h ?_ (by decide)
    intro byte rest hwhite
    rcases eq_of_isAsciiWhitespace hwhite with rfl | rfl | rfl | rfl | rfl <;> rfl
  have hsub : row.dropWhile isAsciiWhitespace ⊆ row := (List.dropWhile_suffix _).subset
  have hback : dropAny (whiteSpace.map List.reverse) 0
      (row.dropWhile isAsciiWhitespace).reverse =
        (row.dropWhile isAsciiWhitespace).reverse.dropWhile isAsciiWhitespace := by
    refine dropAny_isDigits ?_ ?_ (by decide)
    · intro byte hmem
      exact h byte (hsub (List.mem_reverse.mp hmem))
    · intro byte rest hwhite
      rcases eq_of_isAsciiWhitespace hwhite with rfl | rfl | rfl | rfl | rfl <;> rfl
  rw [trim, hfront, hback]
  constructor
  · rw [digitsOf, List.filter_reverse, filter_dropWhile_not, List.filter_reverse,
      List.reverse_reverse, filter_dropWhile_not, digitsOf]
  · intro byte hmem
    have hmem := (List.dropWhile_suffix _).subset (List.mem_reverse.mp hmem)
    exact hsub (List.mem_reverse.mp hmem)

/-- What a row says of the key. -/
theorem rowsOf_isDigits {row : Bytes} (h : IsDigits row) :
    digitsOf (([trim row].filter fun line => line ≠ [] && line.head? ≠ some 0x23).flatten) =
      digitsOf row := by
  obtain ⟨hdigits, hsub⟩ := trim_isDigits h
  rw [← hdigits]
  cases hrow : trim row with
  | nil => rfl
  | cons byte rest =>
      have hne : byte ≠ 0x23 := by
        rintro rfl
        rw [hrow] at hsub
        exact notMem_of_isDigits h (.inl rfl) (by decide) (hsub List.mem_cons_self)
      simp [hne]

/-- A line of a key file. -/
inductive Row
  | digits (text : Bytes)
  | remark (text : Bytes)

namespace Row

def line : Row → Bytes
  | digits text | remark text => text

/-- What is on it of the key. -/
def said : Row → Bytes
  | digits text => text
  | remark _ => []

def Fits : Row → Prop
  | digits text => IsDigits text
  | remark text => IsRemark text

variable {row : Row}

theorem Fits.oneLine (h : row.Fits) : 0x0a ∉ row.line := by
  cases row with
  | digits text => exact notMem_of_isDigits h (.inr rfl) (by decide)
  | remark text => exact h.oneLine

theorem Fits.splitOnce_ends (h : row.Fits) : splitOnce ends row.line = none := by
  rw [splitOnce_eq_none]
  cases row with
  | digits text =>
      intro hfound
      have hdash : (0x2d : UInt8) ∈ ends := by decide
      have hmem := hfound.subset hdash
      exact notMem_of_isDigits h (.inl (by decide)) (by decide) hmem
  | remark text => exact h.apart

/-- What is read of it. -/
theorem Fits.digitsOf (h : row.Fits) :
    digitsOf (([trim row.line].filter fun line => line ≠ [] && line.head? ≠ some 0x23).flatten) =
      digitsOf row.said := by
  cases row with
  | digits text => exact rowsOf_isDigits h
  | remark text =>
      have hbegins := h.begins
      simp [Row.line, Row.said, hbegins]

end Row

/-- The lines of a file between its marks. -/
def written (rows : List Row) : Bytes := 0x0a :: rows.flatMap fun row => row.line ++ [0x0a]

section Written

variable {rows : List Row}

theorem lines_concat_break {row : Bytes} (h : 0x0a ∉ row) :
    lines (row ++ [0x0a]) = [stripReturn row] := by
  have hfrom (line : Bytes) : linesFrom line (row ++ [0x0a]) = [stripReturn (line ++ row)] := by
    induction row generalizing line with
    | nil => simp [linesFrom]
    | cons byte row ih =>
        have hne : byte ≠ 0x0a := fun heq => h (heq ▸ List.mem_cons_self)
        have hrest := ih (fun hmem => h (List.mem_cons_of_mem _ hmem)) (line ++ [byte])
        rw [List.cons_append, linesFrom, if_neg hne, hrest, List.append_assoc,
          List.singleton_append]
  exact hfrom []

theorem trim_lines_written (h : ∀ row ∈ rows, row.Fits) :
    (lines (written rows)).map trim = [] :: rows.map fun row => trim row.line := by
  have hrows : (lines (rows.flatMap fun row => row.line ++ [0x0a])).map trim =
      rows.map fun row => trim row.line := by
    induction rows with
    | nil => rfl
    | cons row rows ih =>
        have hlast : (row.line ++ [0x0a]).getLast? = some 0x0a := List.getLast?_concat
        rw [List.flatMap_cons, lines_append (.inr hlast),
          lines_concat_break (h row List.mem_cons_self).oneLine, List.map_append,
          ih fun other hmem => h other (List.mem_cons_of_mem _ hmem)]
        simp [trim_stripReturn]
  have hfirst : written rows = [0x0a] ++ rows.flatMap fun row => row.line ++ [0x0a] := rfl
  rw [hfirst, lines_append (.inr rfl), List.map_append, hrows]
  rfl

/-- The digits that are read are those that were written. -/
theorem digitsOf_written (h : ∀ row ∈ rows, row.Fits) :
    digitsOf (rowsOf (written rows)).flatten = digitsOf (rows.flatMap Row.said) := by
  rw [rowsOf, trim_lines_written h]
  have hrows : digitsOf ((rows.map fun row => trim row.line).filter
      fun line => line ≠ [] && line.head? ≠ some 0x23).flatten =
        digitsOf (rows.flatMap Row.said) := by
    induction rows with
    | nil => rfl
    | cons row rows ih =>
        have hrow := (h row List.mem_cons_self).digitsOf
        have hrest := ih fun other hmem => h other (List.mem_cons_of_mem _ hmem)
        rw [List.map_cons, ← List.singleton_append, List.filter_append, List.flatten_append,
          digitsOf, List.filter_append, ← digitsOf, ← digitsOf, hrow, hrest, List.flatMap_cons]
        simp [digitsOf]
  exact hrows

theorem splitOnce_written (h : ∀ row ∈ rows, row.Fits) : splitOnce ends (written rows) = none := by
  have hbreak : (0x0a : UInt8) ∉ ends := by decide
  have hrows : splitOnce ends (rows.flatMap fun row => row.line ++ [0x0a]) = none := by
    induction rows with
    | nil => rfl
    | cons row rows ih =>
        have hrow : splitOnce ends (row.line ++ [0x0a]) = none := by
          rw [splitOnce_append_of_none hbreak (h row List.mem_cons_self).splitOnce_ends
            (.inr (.inr (.inr rfl)))]
          rfl
        rw [List.flatMap_cons, splitOnce_append_of_none hbreak hrow
          (.inr (.inl List.getLast?_concat)),
          ih fun other hmem => h other (List.mem_cons_of_mem _ hmem)]
        rfl
  have hfirst : written rows = [0x0a] ++ rows.flatMap fun row => row.line ++ [0x0a] := rfl
  rw [hfirst, splitOnce_append_of_none hbreak rfl (.inr (.inl rfl)), hrows]
  rfl

theorem splitOnce_self (mark rest : Bytes) : splitOnce mark (mark ++ rest) = some ([], rest) := by
  cases mark with
  | nil => cases rest <;> rfl
  | cons byte mark =>
      have hbegins : (byte :: mark).isPrefixOf (byte :: mark ++ rest) = true :=
        List.isPrefixOf_iff_prefix.mpr (List.prefix_append _ _)
      rw [List.cons_append, splitOnce, ← List.cons_append, if_pos hbegins, List.drop_left]

theorem between_written (h : ∀ row ∈ rows, row.Fits) {before : Bytes}
    (hbefore : before = [] ∨ before.getLast? = some 0x0a) (hfirst : ¬begins <:+: before)
    (after : Bytes) :
    between begins ends (before ++ (begins ++ (written rows ++ (ends ++ after)))) =
      some (written rows) := by
  have hbegins : (0x0a : UInt8) ∉ begins := by decide
  have hends : (0x0a : UInt8) ∉ ends := by decide
  have hopened : Parted 0x0a before (begins ++ (written rows ++ (ends ++ after))) :=
    hbefore.elim .inl fun hlast => .inr (.inl hlast)
  have hclosed : Parted 0x0a (written rows) (ends ++ after) := by
    refine .inr (.inl ?_)
    rcases rows.eq_nil_or_concat with rfl | ⟨front, row, rfl⟩
    · rfl
    · have hlast : written (front ++ [row]) = (written front ++ row.line) ++ [0x0a] := by
        simp [written]
      rw [List.concat_eq_append, hlast]
      exact List.getLast?_concat
  rw [between_append_of_none hbegins (splitOnce_eq_none.mpr hfirst) hopened, between,
    splitOnce_self]
  dsimp only [Option.bind_eq_bind, Option.bind_some]
  rw [splitOnce_append_of_none hends (splitOnce_written h) hclosed, splitOnce_self]
  simp

/-- **A key that is written is read**, whatever the lines are that it is on, in which case its
digits are, what comments are among them and what else is in the file: the marks are where lines
begin, and no mark stands in front of them. -/
theorem parse_written (h : ∀ row ∈ rows, row.Fits) {before : Bytes}
    (hbefore : before = [] ∨ before.getLast? = some 0x0a) (hfirst : ¬begins <:+: before)
    (after : Bytes) (key : StaticKey) :
    parse (before ++ (begins ++ (written rows ++ (ends ++ after)))) = .ok key ↔
      (digitsOf (rows.flatMap Row.said)).map hexValue = (nibbles key.val).map some := by
  rw [(parse_iff _).1 key, between_written h hbefore hfirst after, ← digitsOf_written h]
  simp

end Written

/-- The lines of a file that holds the key of one byte throughout: a comment, an indented line of
one byte with a carriage return, and fifteen of seventeen bytes. -/
def plainRows : List Row :=
  .remark (ascii "# 2048 bit") :: .digits (ascii " \t07\r") ::
    List.replicate 15 (.digits (ascii "0707070707070707070707070707070707"))

theorem parse_plainKey :
    parse (ascii "#\n" ++ (begins ++ (written plainRows ++ (ends ++ ascii "\n")))) =
      .ok plainKey := by
  have hrows : ∀ row ∈ plainRows, row.Fits := by
    intro row hmem
    rcases List.mem_cons.mp hmem with rfl | hmem
    · exact ⟨by decide, by decide, by decide⟩
    · rcases List.mem_cons.mp hmem with rfl | hmem
      · exact (by decide : IsDigits (ascii " \t07\r"))
      · rw [List.eq_of_mem_replicate hmem]
        exact (by decide : IsDigits (ascii "0707070707070707070707070707070707"))
  exact (parse_written hrows (.inr rfl) (by decide) _ _).mpr (by decide +kernel)

end StaticKey

end SynologyFilestation.Openvpn
