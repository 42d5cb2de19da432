import SynologyFilestation.Library.Lines
import SynologyFilestation.Library.Wire
import SynologyFilestation.Openvpn.Push
import SynologyFilestation.Openvpn.TlsAuth

/-!
The `.ovpn` file (`openvpn/src/profile.rs`, and `static_key.rs` for the key in it).

Directives are read line by line, and the blocks are looked for in the text. The two do not agree
on what a block is: a line that begins with a tag that opens is for the directives the beginning
of one whatever follows on it, and for the blocks any place where the tag stands.
-/

namespace SynologyFilestation.Openvpn

open Core Library

/-- The part of `Error` that a profile can have. -/
inductive ProfileError
  | badProfile (text : Bytes)
  | unsupportedProfileOption (line : Bytes)
  | unsupportedCipher (cipher : Bytes)
  | unsupportedCompression (line : Bytes)
  | keyLength (actual : ℕ)
  | keyNotHex
  | keyMissing
  deriving DecidableEq

/-! ### The key -/

/-- `is_ascii_whitespace`. -/
def isAsciiWhitespace (byte : UInt8) : Bool :=
  byte = 0x20 || byte = 0x09 || byte = 0x0a || byte = 0x0c || byte = 0x0d

/-- `hex_digit`. -/
def hexDigit (byte : UInt8) : Except ProfileError UInt8 :=
  if 0x30 ≤ byte ∧ byte ≤ 0x39 then .ok (byte - 0x30)
  else if 0x61 ≤ byte ∧ byte ≤ 0x66 then .ok (byte - 0x61 + 10)
  else if 0x41 ≤ byte ∧ byte ≤ 0x46 then .ok (byte - 0x41 + 10)
  else .error .keyNotHex

/-- The bytes of pairs of digits. -/
def hexBytes : List UInt8 → Except ProfileError Bytes
  | high :: low :: digits => do
      let high ← hexDigit high
      let low ← hexDigit low
      let bytes ← hexBytes digits
      .ok ((high <<< 4 ||| low) :: bytes)
  | _ => .ok []

theorem length_hexBytes {digits bytes : List UInt8} (h : hexBytes digits = .ok bytes) :
    bytes.length = digits.length / 2 := by
  induction digits using hexBytes.induct generalizing bytes with
  | case1 high low digits ih =>
      rw [hexBytes] at h
      obtain ⟨_, _, h⟩ := bind_eq_ok.mp h
      obtain ⟨_, _, h⟩ := bind_eq_ok.mp h
      obtain ⟨rest, hrest, heq⟩ := bind_eq_ok.mp h
      cases heq
      simp only [List.length_cons, ih hrest]
      omega
  | case2 digits hshort =>
      match digits with
      | [] => cases h; rfl
      | [_] => cases h; simp
      | high :: low :: digits => exact absurd rfl (hshort high low digits)

namespace StaticKey

/-- `StaticKey::from_hex`. -/
def fromHex (hex : Bytes) : Except ProfileError StaticKey :=
  let digits := hex.filter (!isAsciiWhitespace ·)
  if digits.length % 2 ≠ 0 then .error .keyNotHex
  else if hlength : digits.length / 2 ≠ 256 then .error (.keyLength (digits.length / 2))
  else
    match h : hexBytes digits with
    | .error e => .error e
    | .ok bytes => .ok ⟨bytes, by rw [length_hexBytes h]; exact not_not.mp hlength⟩

/-- `BEGIN`. -/
def begins : Bytes := ascii "-----BEGIN OpenVPN Static key V1-----"

/-- `END`. -/
def ends : Bytes := ascii "-----END OpenVPN Static key V1-----"

/-- `StaticKey::parse`. -/
def parse (text : Bytes) : Except ProfileError StaticKey :=
  match between begins ends text with
  | none => .error .keyMissing
  | some body =>
      let digits := ((lines body).map trim).filter fun line => line ≠ [] && line.head? ≠ some 0x23
      fromHex digits.flatten

end StaticKey

/-! ### The profile -/

/-- `Profile`. -/
structure Profile where
  remote : Bytes
  port : ℕ
  caPem : Bytes
  staticKey : Option StaticKey
  keyDirection : KeyDirection
  serverName : Bytes
  wantsCredentials : Bool
  deriving DecidableEq

/-- What `Profile::parse` has read of the directives. -/
structure ProfileReading where
  remote : Option Bytes
  port : ℕ
  keyDirection : KeyDirection
  verifyName : Option Bytes

namespace Profile

/-- `eq_ignore_ascii_case`, with `SUPPORTED_CIPHER`. -/
def isSupported (cipher : Bytes) : Bool :=
  cipher.map PushReply.toAsciiLowercase = supportedCipher.map PushReply.toAsciiLowercase

/-- `require_udp`. -/
def requireUdp (protocol line : Bytes) : Except ProfileError Unit :=
  let protocol := protocol.map PushReply.toAsciiLowercase
  if protocol = ascii "udp" ∨ protocol = ascii "udp4" ∨ protocol = ascii "udp6" then .ok ()
  else .error (.unsupportedProfileOption line)

/-- The words behind `remote` and the host. -/
def takeRemote (reading : ProfileReading) (host : Bytes) (rest : List Bytes) (line : Bytes) :
    Except ProfileError ProfileReading := do
  let reading := { reading with remote := some host }
  let reading ← match rest[0]? with
    | none => .ok reading
    | some given =>
        match parseUnsigned (2 ^ 16) given with
        | some port => .ok { reading with port := port }
        | none => .error (.badProfile line)
  match rest[1]? with
  | none => .ok reading
  | some protocol => (requireUdp protocol line).map fun () => reading

/-- One directive, whose name and words these are. -/
def take (reading : ProfileReading) (line name : Bytes) (rest : List Bytes) :
    Except ProfileError ProfileReading :=
  if name = ascii "remote" then
    match rest with
    | host :: rest => takeRemote reading host rest line
    | [] => .ok reading
  else if name = ascii "proto" then
    match rest with
    | [protocol] => (requireUdp protocol line).map fun () => reading
    | _ => .ok reading
  else if name = ascii "key-direction" then
    match rest with
    | [direction] =>
        if direction = ascii "0" then .ok { reading with keyDirection := .normal }
        else if direction = ascii "1" then .ok { reading with keyDirection := .inverse }
        else .error (.badProfile line)
    | _ => .ok reading
  else if name = ascii "verify-x509-name" then
    match rest with
    | name :: _ => .ok { reading with verifyName := some name }
    | [] => .ok reading
  else if name = ascii "cipher" then
    match rest with
    | cipher :: _ => if isSupported cipher then .ok reading else .error (.unsupportedCipher cipher)
    | [] => .ok reading
  else if name = ascii "data-ciphers" then
    match rest with
    | list :: _ =>
        if (list.splitOn 0x3a).any isSupported then .ok reading
        else .error (.unsupportedCipher list)
    | [] => .ok reading
  else if name = ascii "comp-lzo" ∧ rest = [ascii "no"] then .ok reading
  else if name = ascii "comp-lzo" ∨ name = ascii "compress" then
    .error (.unsupportedCompression line)
  else if name = ascii "cert" ∨ name = ascii "pkcs12" then .error (.unsupportedProfileOption line)
  else .ok reading

def takeDirective (reading : ProfileReading) (line : Bytes) : Except ProfileError ProfileReading :=
  match words line with
  | [] => .ok reading
  | name :: rest => take reading line name rest

def isTag (line : Bytes) : Bool := line.head? = some 0x3c

/-- `</`. -/
def closesTag (line : Bytes) : Bool := (ascii "</").isPrefixOf line

/-- A line without anything, or with a comment. -/
def isSkipped (line : Bytes) : Bool :=
  line = [] || line.head? = some 0x23 || line.head? = some 0x3b

/-- The loop of `directives`, over lines that are trimmed. -/
def directivesFrom (inside : Bool) : List Bytes → List Bytes
  | [] => []
  | line :: rest =>
      if isTag line then directivesFrom (!closesTag line) rest
      else if inside || isSkipped line then directivesFrom inside rest
      else line :: directivesFrom inside rest

/-- `directives`. -/
def directives (text : Bytes) : List Bytes := directivesFrom false ((lines text).map trim)

def opening (name : Bytes) : Bytes := ascii "<" ++ name ++ ascii ">"

def closing (name : Bytes) : Bytes := ascii "</" ++ name ++ ascii ">"

/-- `trim_start_matches` of line breaks. -/
def trimBreaks (body : Bytes) : Bytes := body.dropWhile fun byte => byte = 0x0d || byte = 0x0a

/-- `block`. -/
def block (text name : Bytes) : Option Bytes :=
  (between (opening name) (closing name) text).map trimBreaks

/-- The key of the profile, if there is one. -/
def readKey : Option Bytes → Except ProfileError (Option StaticKey)
  | some key => (StaticKey.parse key).map some
  | none => .ok none

/-- `Profile::parse`. -/
def parse (text : Bytes) : Except ProfileError Profile := do
  let reading ← (directives text).foldlM takeDirective ⟨none, 1194, .bidirectional, none⟩
  match reading.remote with
  | none => .error (.badProfile (ascii "no remote"))
  | some remote =>
      match block text (ascii "ca") with
      | none => .error (.badProfile (ascii "no <ca> block"))
      | some caPem => do
          let staticKey ← readKey (block text (ascii "tls-auth"))
          .ok {
            remote := remote
            port := reading.port
            caPem := caPem
            staticKey := staticKey
            keyDirection := reading.keyDirection
            serverName := reading.verifyName.getD remote
            wantsCredentials := (directives text).any fun line =>
              line = ascii "auth-user-pass" || (ascii "auth-user-pass ").isPrefixOf line }

/-! ### Lines that say nothing -/

variable {front mid back text other : Bytes} {p : Profile}

/-- Whether the loop takes what comes behind these lines for a block. -/
def insideAfter (inside : Bool) (trimmed : List Bytes) : Bool :=
  trimmed.foldl (fun inside line => if isTag line then !closesTag line else inside) inside

theorem directivesFrom_append (inside : Bool) (before after : List Bytes) :
    directivesFrom inside (before ++ after) =
      directivesFrom inside before ++ directivesFrom (insideAfter inside before) after := by
  induction before generalizing inside with
  | nil => rfl
  | cons line before ih =>
      rw [List.cons_append, directivesFrom, directivesFrom, insideAfter, List.foldl_cons]
      split
      case isTrue => exact ih _
      case isFalse =>
        split
        case isTrue => exact ih _
        case isFalse => exact congrArg (line :: ·) (ih _)

theorem isTag_eq_false {line : Bytes} (h : isSkipped line = true) : isTag line = false := by
  cases line with
  | nil => rfl
  | cons byte line =>
      simp only [isSkipped, isTag, List.head?_cons] at h ⊢
      simp at h
      rcases h with rfl | rfl <;> rfl

/-- They are left out, and change nothing. -/
theorem directivesFrom_skipped {trimmed : List Bytes}
    (h : ∀ line ∈ trimmed, isSkipped line = true) (inside : Bool) (after : List Bytes) :
    directivesFrom inside (trimmed ++ after) = directivesFrom inside after := by
  induction trimmed with
  | nil => rfl
  | cons line trimmed ih =>
      have hline := h line List.mem_cons_self
      rw [List.cons_append, directivesFrom, isTag_eq_false hline, hline, Bool.or_true]
      exact ih fun other hother => h other (List.mem_cons_of_mem _ hother)

/-- Blank lines and comments come between two lines, or before the first or behind the last of
them. -/
structure Insertion (front mid back : Bytes) : Prop where
  starts : front = [] ∨ front.getLast? = some 0x0a ∨ back = [] ∧ mid.head? = some 0x0a
  ends : back = [] ∨ mid.getLast? = some 0x0a
  skipped : ∀ line ∈ lines mid, isSkipped (trim line) = true

namespace Insertion

variable (h : Insertion front mid back)
include h

theorem skipped_trimmed : ∀ line ∈ (lines mid).map trim, isSkipped line = true := by
  intro line hline
  obtain ⟨raw, hraw, rfl⟩ := List.mem_map.mp hline
  exact h.skipped raw hraw

theorem lines_behind : lines (mid ++ back) = lines mid ++ lines back := by
  rcases h.ends with rfl | hlast
  · rw [List.append_nil]
    exact (List.append_nil _).symm
  · exact lines_append (.inr hlast) back

theorem directives_eq : directives (front ++ mid ++ back) = directives (front ++ back) := by
  unfold directives
  rw [List.append_assoc]
  have hbehind (hfront : front = [] ∨ front.getLast? = some 0x0a) :
      directivesFrom false ((lines (front ++ (mid ++ back))).map trim) =
        directivesFrom false ((lines (front ++ back)).map trim) := by
    rw [lines_append hfront, lines_append hfront, h.lines_behind, List.map_append, List.map_append,
      List.map_append, directivesFrom_append, directivesFrom_skipped h.skipped_trimmed,
      ← directivesFrom_append]
  rcases h.starts with hempty | hlast | ⟨rfl, hbreak⟩
  · exact hbehind (.inl hempty)
  · exact hbehind (.inr hlast)
  · -- The last line was without its line break.
    obtain ⟨more, rfl⟩ : ∃ more, mid = 0x0a :: more := by
      cases mid with
      | nil => cases hbreak
      | cons byte more => exact ⟨more, congrArg (· :: more) (Option.some.inj hbreak)⟩
    have hmore : ∀ line ∈ (lines more).map trim, isSkipped line = true := fun line hline =>
      h.skipped_trimmed line (List.mem_cons_of_mem _ hline)
    have hempty : ∀ line ∈ ([[]] : List Bytes), isSkipped line = true := by decide
    have hlines : lines (front ++ 0x0a :: more) = lines (front ++ [0x0a]) ++ lines more :=
      linesFrom_append [] front more
    have hnothing (trimmed : List Bytes) (hskipped : ∀ line ∈ trimmed, isSkipped line = true) :
        directivesFrom false ((lines front).map trim ++ trimmed) =
          directivesFrom false ((lines front).map trim) := by
      have hskip := directivesFrom_skipped hskipped
        (insideAfter false ((lines front).map trim)) []
      rw [List.append_nil] at hskip
      rw [directivesFrom_append, hskip, directivesFrom, List.append_nil]
    rw [List.append_nil, List.append_nil, hlines, List.map_append]
    rcases trim_lines_concat front with heq | heq
    · rw [heq, hnothing _ hmore]
    · rw [heq, List.append_assoc, hnothing]
      exact fun line hline => (List.mem_append.mp hline).elim (hempty line) (hmore line)

/-- No tag lies across. -/
theorem parted : Parted 0x0a front (mid ++ back) ∧ Parted 0x0a mid back ∧
    Parted 0x0a front back := by
  refine ⟨?_, ?_, ?_⟩
  · rcases h.starts with hempty | hlast | ⟨-, hbreak⟩
    · exact .inl hempty
    · exact .inr (.inl hlast)
    · refine .inr (.inr (.inr ?_))
      rw [List.head?_append, hbreak]
      rfl
  · rcases h.ends with hempty | hlast
    · exact .inr (.inr (.inl hempty))
    · exact .inr (.inl hlast)
  · rcases h.starts with hempty | hlast | ⟨hempty, -⟩
    · exact .inl hempty
    · exact .inr (.inl hlast)
    · exact .inr (.inr (.inl hempty))

end Insertion

/-! ### Blocks -/

/-- The lines leave alone what is between the tags of this name: it was closed before them, or is
opened behind them, or reads the same in spite of them. -/
def Kept {α : Type} (read : Option Bytes → α) (name front mid back : Bytes) : Prop :=
  (between (opening name) (closing name) front).isSome = true ∨
    splitOnce (opening name) front = none ∧ splitOnce (opening name) mid = none ∨
      read (between (opening name) (closing name) (front ++ mid ++ back)) =
        read (between (opening name) (closing name) (front ++ back))

theorem kept_iff {α : Type} {read : Option Bytes → α} {name : Bytes}
    (h : Insertion front mid back) (hname : 0x0a ∉ opening name) :
    Kept read name front mid back ↔
      read (between (opening name) (closing name) (front ++ mid ++ back)) =
        read (between (opening name) (closing name) (front ++ back)) := by
  constructor
  · rintro (hclosed | ⟨hfront, hmid⟩ | hsame)
    · obtain ⟨body, hbody⟩ := Option.isSome_iff_exists.mp hclosed
      rw [List.append_assoc, between_append hbody, between_append hbody]
    · obtain ⟨hmore, hback, hdirect⟩ := h.parted
      rw [List.append_assoc, between_append_of_none hname hfront hmore,
        between_append_of_none hname hmid hback, between_append_of_none hname hfront hdirect]
    · exact hsame
  · exact fun hsame => .inr (.inr hsame)

/-- All that a profile is made of. -/
theorem parse_eq_ok : parse text = .ok p ↔ ∃ reading : ProfileReading,
    (directives text).foldlM takeDirective ⟨none, 1194, .bidirectional, none⟩ = .ok reading ∧
    reading.remote = some p.remote ∧ block text (ascii "ca") = some p.caPem ∧
    readKey (block text (ascii "tls-auth")) = .ok p.staticKey ∧ reading.port = p.port ∧
    reading.keyDirection = p.keyDirection ∧
    reading.verifyName.getD p.remote = p.serverName ∧
    ((directives text).any fun line =>
      line = ascii "auth-user-pass" || (ascii "auth-user-pass ").isPrefixOf line) =
        p.wantsCredentials := by
  rw [parse, bind_eq_ok]
  refine exists_congr fun reading => and_congr_right fun _ => ?_
  constructor
  · intro h
    split at h
    case h_1 => cases h
    case h_2 remote hremote =>
      split at h
      case h_1 => cases h
      case h_2 caPem hca =>
        obtain ⟨key, hkey, heq⟩ := bind_eq_ok.mp h
        cases heq
        exact ⟨hremote, hca, hkey, rfl, rfl, rfl, rfl⟩
  · rintro ⟨hremote, hca, hkey, hport, hdirection, hserver, hwants⟩
    rw [hremote, hca]
    dsimp only
    rw [hkey, hport, hdirection, hserver, hwants]
    rfl

/-- Of two texts with the same directives. -/
theorem parse_eq_iff (hdirectives : directives other = directives text)
    (hp : parse text = .ok p) : parse other = .ok p ↔
      block other (ascii "ca") = block text (ascii "ca") ∧
        readKey (block other (ascii "tls-auth")) = readKey (block text (ascii "tls-auth")) := by
  rw [parse_eq_ok] at hp ⊢
  rw [hdirectives]
  constructor
  · rintro ⟨-, -, -, hca, hkey, -⟩
    obtain ⟨-, -, -, hca', hkey', -⟩ := hp
    exact ⟨hca.trans hca'.symm, hkey.trans hkey'.symm⟩
  · rintro ⟨hca, hkey⟩
    rw [hca, hkey]
    exact hp

/-! ### Directives beside blocks -/

/-- The line says something, and is not part of a tag. -/
def IsDirective (trimmed : Bytes) : Prop := isTag trimmed = false ∧ isSkipped trimmed = false

/-- Of the lines up to this one, it is the last that is taken. -/
def Honoured (before : List Bytes) (line : Bytes) : Prop :=
  directivesFrom false (before.map trim ++ [trim line]) =
    directivesFrom false (before.map trim) ++ [trim line]

instance (before : List Bytes) (line : Bytes) : Decidable (Honoured before line) :=
  inferInstanceAs (Decidable (_ = _))

/-- The last of the lines that begins with a tag begins with one that closes. -/
def LastTagCloses (before : List Bytes) : Prop :=
  ∀ tag, ((before.map trim).filter isTag).getLast? = some tag → closesTag tag = true

theorem insideAfter_concat (trimmed : List Bytes) (line : Bytes) :
    insideAfter false (trimmed ++ [line]) =
      if isTag line then !closesTag line else insideAfter false trimmed :=
  List.foldl_concat ..

theorem insideAfter_eq_false_iff (trimmed : List Bytes) : insideAfter false trimmed = false ↔
    ∀ tag, (trimmed.filter isTag).getLast? = some tag → closesTag tag = true := by
  induction trimmed using List.reverseRecOn with
  | nil => exact ⟨fun _ => nofun, fun _ => rfl⟩
  | append_singleton trimmed line ih =>
      rw [insideAfter_concat, List.filter_append]
      by_cases htag : isTag line = true
      · rw [if_pos htag, List.filter_singleton, htag]
        simp
      · rw [if_neg htag, ih, List.filter_singleton]
        simp [htag]

theorem directivesFrom_singleton {line : Bytes} (h : IsDirective line) (inside : Bool) :
    directivesFrom inside [line] = if inside then [] else [line] := by
  rw [directivesFrom, h.1, h.2, Bool.or_false]
  cases inside <;> rfl

theorem honoured_iff {before : List Bytes} {line : Bytes} (h : IsDirective (trim line)) :
    Honoured before line ↔ LastTagCloses before := by
  rw [Honoured, LastTagCloses, ← insideAfter_eq_false_iff, directivesFrom_append,
    directivesFrom_singleton h, List.append_cancel_left_eq]
  cases insideAfter false (before.map trim) <;> simp

/-- The parser goes through the directives before it, and then this one. -/
theorem Honoured.exists_behind {before after : List Bytes} {line : Bytes}
    (h : Honoured before line) (hlines : lines text = before ++ line :: after) :
    ∃ behind, directives text =
      directivesFrom false (before.map trim) ++ trim line :: behind := by
  have hsplit : (before ++ line :: after).map trim =
      (before.map trim ++ [trim line]) ++ after.map trim := by
    rw [List.map_append, List.map_cons, List.append_assoc]
    rfl
  refine ⟨directivesFrom (insideAfter false (before.map trim ++ [trim line])) (after.map trim), ?_⟩
  rw [directives, hlines, hsplit, directivesFrom_append, h, List.append_assoc]
  rfl

/-- The name of the tag that a line begins with, if it opens. -/
def tagName (trimmed : Bytes) : Option Bytes :=
  if isTag trimmed && !closesTag trimmed && trimmed.contains 0x3e then
    some ((trimmed.drop 1).takeWhile (· ≠ 0x3e))
  else none

/-- The block that is open behind a line: it opens with a line that begins with its tag, and closes
where its closing tag stands, be it on the same line. -/
def openBlock (block : Option Bytes) (trimmed : Bytes) : Option Bytes :=
  (block.or (tagName trimmed)).filter fun name => splitOnce (closing name) trimmed = none

/-- Behind these lines no block is open. -/
def Outside (before : List Bytes) : Prop := (before.map trim).foldl openBlock none = none

instance (before : List Bytes) : Decidable (Outside before) :=
  inferInstanceAs (Decidable (_ = _))

/-- A tag that opens says its name, and one that closes begins its line. -/
structure Tidy (trimmed : Bytes) : Prop where
  opens : isTag trimmed = true → closesTag trimmed = false → (tagName trimmed).isSome = true
  closes : closesTag trimmed = false → splitOnce (ascii "</") trimmed = none

theorem isTag_of_closesTag {trimmed : Bytes} (h : closesTag trimmed = true) :
    isTag trimmed = true := by
  obtain ⟨rest, rfl⟩ := List.isPrefixOf_iff_prefix.mp h
  rfl

theorem openBlock_isSome {trimmed : Bytes} {found : Option Bytes} (htidy : Tidy trimmed)
    (hcloses : closesTag trimmed = false) (h : (found.or (tagName trimmed)).isSome = true) :
    (openBlock found trimmed).isSome = true := by
  obtain ⟨name, hname⟩ := Option.isSome_iff_exists.mp h
  have hnone : splitOnce (closing name) trimmed = none := by
    rw [closing, List.append_assoc]
    exact splitOnce_append_mark (htidy.closes hcloses) _
  rw [openBlock, hname]
  simp [Option.filter, hnone]

/-- Where the tags are tidy, the loop takes for inside what is. -/
theorem lastTagCloses_of_tidy {before : List Bytes} (htidy : ∀ line ∈ before, Tidy (trim line))
    (houtside : Outside before) : LastTagCloses before := by
  have hall : ∀ line ∈ before.map trim, Tidy line := by
    intro line hline
    obtain ⟨raw, hraw, rfl⟩ := List.mem_map.mp hline
    exact htidy raw hraw
  have hinside (trimmed : List Bytes) (hall : ∀ line ∈ trimmed, Tidy line)
      (h : insideAfter false trimmed = true) : (trimmed.foldl openBlock none).isSome = true := by
    induction trimmed using List.reverseRecOn with
    | nil => cases h
    | append_singleton trimmed line ih =>
        have hline := hall line (List.mem_append_right _ (List.mem_singleton_self line))
        rw [insideAfter_concat] at h
        rw [List.foldl_concat]
        split at h
        case isTrue htag =>
          have hcloses : closesTag line = false := by simpa using h
          refine openBlock_isSome hline hcloses ?_
          rw [Option.isSome_or, hline.opens htag hcloses, Bool.or_true]
        case isFalse htag =>
          have hcloses : closesTag line = false :=
            Bool.eq_false_iff.mpr fun hcloses => htag (isTag_of_closesTag hcloses)
          refine openBlock_isSome hline hcloses ?_
          rw [Option.isSome_or, ih (fun l hl => hall l (List.mem_append_left _ hl)) h, Bool.true_or]
  refine (insideAfter_eq_false_iff _).mp (Bool.eq_false_iff.mpr fun h => ?_)
  have hopen := hinside _ hall h
  rw [houtside] at hopen
  cases hopen

/-- A directive outside the blocks of a tidy text is taken. -/
theorem honoured_of_tidy {before : List Bytes} {line : Bytes}
    (htidy : ∀ line ∈ before, Tidy (trim line)) (houtside : Outside before)
    (hline : IsDirective (trim line)) : Honoured before line :=
  (honoured_iff hline).mpr (lastTagCloses_of_tidy htidy houtside)

end Profile

end SynologyFilestation.Openvpn
