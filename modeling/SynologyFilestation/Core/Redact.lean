import SynologyFilestation.Library.CharSlices
import Mathlib.Data.List.TakeWhile
import Mathlib.Tactic.Common

/-!
Scrubbing secrets out of text (`core/src/redact.rs`).

The scan looks for the next `=` and back for the name before it, and cuts the text at byte
offsets. What it writes is what a machine writes that reads the text once, a character at a time,
and remembers the name that it may be in or that it is in a value.
-/

namespace SynologyFilestation.Core

open Library

namespace Redact

/-- `SECRET_PARAMS`. -/
def secretParams : List String :=
  ["_sid", "sid", "passwd", "password", "otp_code", "otp", "synotoken", "x-syno-token"]

/-- `PLACEHOLDER`. -/
def placeholder : List Char := "<redacted>".toList

/-- `eq_ignore_ascii_case`. -/
def eqIgnoreAsciiCase (a b : List Char) : Bool := a.map Char.toLower = b.map Char.toLower

/-- `is_secret`. -/
def isSecret (name : List Char) : Bool :=
  secretParams.any fun candidate => eqIgnoreAsciiCase candidate.toList name

/-- `ends_value`. -/
def endsValue (c : Char) : Bool :=
  c ∈ ['&', '\x22', '\x27', ')', ' ', ',', ';', '\n', '\x0d', '\t']

/-- What a name is made of. -/
def isNameChar (c : Char) : Bool := c.isAlphanum || c = '_' || c = '-'

/-- Where the name begins that ends where the text does. -/
def nameStart (before : List Char) : ℕ :=
  (((charIndices 0 before).reverse.find? fun (_, c) => !isNameChar c).map
    fun (idx, c) => idx + c.utf8Size).getD 0

/-- The loop of `redact_secrets`. A slice that does not exist is a panic. -/
def redactFrom (text : List Char) : ℕ → ℕ → List Char → Option (List Char)
  | 0, cursor, out => if cursor < byteLen text then none else some out
  | n + 1, cursor, out =>
      if cursor < byteLen text then do
        let rest ← sliceFrom text cursor
        match findChar (· = '=') rest with
        | none => return out ++ rest
        | some rel =>
            let eq := cursor + rel
            let before ← sliceTo text eq
            let name ← sliceBetween text (nameStart before) eq
            let copied ← sliceBetween text cursor (eq + 1)
            if isSecret name then
              let value ← sliceFrom text (eq + 1)
              let valueEnd := ((findChar endsValue value).map (eq + 1 + ·)).getD (byteLen text)
              redactFrom text n valueEnd
                (out ++ copied ++ if eq + 1 < valueEnd then placeholder else [])
            else redactFrom text n (eq + 1) (out ++ copied)
      else some out

/-- `redact_secrets`: every turn of the loop gets further. -/
def redactSecrets (text : List Char) : Option (List Char) := redactFrom text (byteLen text) 0 []

/-! ### One character at a time -/

/-- Where a reader of the text is: outside of a secret value, with the name so far, its last
character first; where a secret value begins; or inside of one. -/
inductive Mode
  | copying (name : List Char)
  | opened
  | hidden

/-- Where the reader is after a character. -/
def Mode.next : Mode → Char → Mode
  | .copying name, c =>
      if c = '=' then if isSecret name.reverse then .opened else .copying []
      else if isNameChar c then .copying (c :: name) else .copying []
  | _, c => if endsValue c then .copying [] else .hidden

/-- What is written for a character. -/
def Mode.written : Mode → Char → List Char
  | .copying _, c => [c]
  | .opened, c => if endsValue c then [c] else placeholder
  | .hidden, c => if endsValue c then [c] else []

/-- The machine. -/
def scrub : Mode → List Char → List Char
  | _, [] => []
  | mode, c :: text => mode.written c ++ scrub (mode.next c) text

/-- The name that a text ends with, its last character first. -/
def nameRun (text : List Char) : List Char := text.reverse.takeWhile isNameChar

variable {text front rest done name : List Char} {c : Char} {mode : Mode}

theorem nameRun_concat :
    nameRun (text ++ [c]) = if isNameChar c then c :: nameRun text else [] := by
  simp [nameRun, List.takeWhile_cons]

/-- What comes before the name ends elsewhere. -/
theorem exists_before (text : List Char) : ∃ front, text = front ++ (nameRun text).reverse ∧
    ∀ c ∈ front.getLast?, isNameChar c = false := by
  refine ⟨(text.reverse.dropWhile isNameChar).reverse, ?_, fun c hc => ?_⟩
  · rw [nameRun, ← List.reverse_append, List.takeWhile_append_dropWhile, List.reverse_reverse]
  · rw [List.getLast?_reverse] at hc
    have hhead := List.head?_dropWhile_not isNameChar text.reverse
    rw [Option.mem_def.mp hc] at hhead
    simpa using hhead

theorem nameStart_eq (hname : ∀ c ∈ name, isNameChar c = true)
    (hfront : ∀ c ∈ front.getLast?, isNameChar c = false) :
    nameStart (front ++ name) = byteLen front := by
  have hskip : (charIndices (0 + byteLen front) name).reverse.find?
      (fun (_, c) => !isNameChar c) = none := by
    refine List.find?_eq_none.mpr fun e he => ?_
    have hc : e.2 ∈ name := mem_of_charIndices (List.mem_reverse.mp he)
    simp [hname e.2 hc]
  rw [nameStart, charIndices_append, List.reverse_append, List.find?_append, hskip]
  rcases List.eq_nil_or_concat front with rfl | ⟨before, c, rfl⟩
  · rfl
  · have hc : isNameChar c = false := hfront c (by simp)
    simp [charIndices_append, charIndices, hc]

/-- Up to the next sign the text is copied. -/
theorem scrub_copying (hfront : '=' ∉ front) : scrub (.copying (nameRun done)) (front ++ rest) =
    front ++ scrub (.copying (nameRun (done ++ front))) rest := by
  induction front generalizing done with
  | nil => simp
  | cons c front ih =>
      simp only [List.mem_cons, not_or] at hfront
      have hmode : (if isNameChar c then Mode.copying (c :: nameRun done) else .copying []) =
          .copying (nameRun (done ++ [c])) := by
        rw [nameRun_concat]
        split <;> rfl
      rw [List.cons_append, scrub, Mode.next, if_neg (Ne.symm hfront.1), hmode, ih hfront.2]
      simp [Mode.written]

theorem not_name_of_ends (h : endsValue c = true) : c ≠ '=' ∧ isNameChar c = false := by
  simp only [endsValue, List.mem_cons, decide_eq_true_eq, List.not_mem_nil, or_false] at h
  rcases h with rfl | rfl | rfl | rfl | rfl | rfl | rfl | rfl | rfl | rfl <;> decide

/-- Where a value ends it does not matter what there was. -/
theorem scrub_ended (mode : Mode) (hrest : ∀ c ∈ rest.head?, endsValue c = true) :
    scrub mode rest = scrub (.copying []) rest := by
  cases rest with
  | nil => cases mode <;> rfl
  | cons c rest =>
      have hends : endsValue c = true := hrest c rfl
      obtain ⟨hsign, hname⟩ := not_name_of_ends hends
      cases mode <;> simp [scrub, Mode.next, Mode.written, hends, hsign, hname]

theorem scrub_hidden (hvalue : ∀ c ∈ front, endsValue c = false)
    (hrest : ∀ c ∈ rest.head?, endsValue c = true) :
    scrub .hidden (front ++ rest) = scrub (.copying []) rest := by
  induction front with
  | nil => exact scrub_ended _ hrest
  | cons c front ih =>
      simp only [List.mem_cons, forall_eq_or_imp] at hvalue
      simp [scrub, Mode.next, Mode.written, hvalue.1, ih hvalue.2]

/-- A value that is there is replaced, whatever it is. -/
theorem scrub_opened (hvalue : ∀ c ∈ front, endsValue c = false)
    (hrest : ∀ c ∈ rest.head?, endsValue c = true) :
    scrub .opened (front ++ rest) =
      (if front = [] then [] else placeholder) ++ scrub (.copying []) rest := by
  cases front with
  | nil => exact scrub_ended _ hrest
  | cons c front =>
      simp only [List.mem_cons, forall_eq_or_imp] at hvalue
      simp [scrub, Mode.next, Mode.written, hvalue.1, scrub_hidden hvalue.2 hrest]

/-- A value, and what ends it. -/
theorem exists_value (text : List Char) : ∃ value rest, text = value ++ rest ∧
    (∀ c ∈ value, endsValue c = false) ∧ ∀ c ∈ rest.head?, endsValue c = true := by
  refine ⟨text.takeWhile fun c => !endsValue c, text.dropWhile fun c => !endsValue c,
    List.takeWhile_append_dropWhile.symm, fun c hc => ?_, fun c hc => ?_⟩
  · simpa using List.mem_takeWhile_imp hc
  · have hhead := List.head?_dropWhile_not (fun c => !endsValue c) text
    rw [Option.mem_def.mp hc] at hhead
    simpa using hhead

/-- The name is what the scan cuts out. -/
theorem slice_nameStart : sliceBetween (done ++ rest) (nameStart done) (byteLen done) =
    some (nameRun done).reverse := by
  obtain ⟨front, hdone, hends⟩ := exists_before done
  have hname : ∀ c ∈ (nameRun done).reverse, isNameChar c = true := fun c hc =>
    List.mem_takeWhile_imp (List.mem_reverse.mp hc)
  have hstart : nameStart done = byteLen front := by
    rw [hdone]
    exact nameStart_eq hname hends
  have hlength : byteLen done = byteLen front + byteLen (nameRun done).reverse := by
    rw [← byteLen_append, ← hdone]
  rw [hstart, hlength]
  generalize (nameRun done).reverse = name at hdone ⊢
  rw [hdone]
  exact sliceBetween_append

/-- The value ends where the text does, if nothing ends it before. -/
theorem valueEnd_eq {value ending before : List Char} {start : ℕ}
    (hvalue : ∀ c ∈ value, endsValue c = false) (hend : ∀ c ∈ ending.head?, endsValue c = true)
    (htext : text = before ++ ending) (hstop : start + byteLen value = byteLen before) :
    ((findChar endsValue (value ++ ending)).map (start + ·)).getD (byteLen text) =
      byteLen before := by
  cases ending with
  | nil =>
      rw [List.append_nil, findChar_eq_none hvalue, htext]
      simp
  | cons c ending =>
      rw [findChar_append hvalue (hend c rfl)]
      exact hstop

/-- One turn of the loop that finds a sign: every slice it cuts is there. -/
theorem redactFrom_sign {n : ℕ} {after out : List Char} (hfront : '=' ∉ front) :
    redactFrom (done ++ (front ++ '=' :: after)) (n + 1) (byteLen done) out =
      if isSecret (nameRun (done ++ front)).reverse then
        let valueEnd := ((findChar endsValue after).map (byteLen (done ++ front) + 1 + ·)).getD
          (byteLen (done ++ (front ++ '=' :: after)))
        redactFrom (done ++ (front ++ '=' :: after)) n valueEnd (out ++ (front ++ ['=']) ++
          if byteLen (done ++ front) + 1 < valueEnd then placeholder else [])
      else
        redactFrom (done ++ (front ++ '=' :: after)) n (byteLen (done ++ front) + 1)
          (out ++ (front ++ ['='])) := by
  have hone : byteLen ['='] = 1 := by decide
  have hmore : byteLen done < byteLen (done ++ (front ++ '=' :: after)) := by
    have hlength := @length_le_byteLen (front ++ '=' :: after)
    rw [List.length_append, List.length_cons] at hlength
    rw [byteLen_append]
    omega
  have hfind : findChar (· = '=') (front ++ '=' :: after) = some (byteLen front) := by
    refine findChar_append (fun c hc => decide_eq_false ?_) (by simp)
    rintro rfl
    exact hfront hc
  have heq : byteLen done + byteLen front = byteLen (done ++ front) := byteLen_append.symm
  have hbefore : sliceTo (done ++ (front ++ '=' :: after)) (byteLen (done ++ front)) =
      some (done ++ front) := by
    rw [← List.append_assoc]
    exact sliceTo_append
  have hname := @slice_nameStart ('=' :: after) (done ++ front)
  have hcopied : sliceBetween (done ++ (front ++ '=' :: after)) (byteLen done)
      (byteLen (done ++ front) + 1) = some (front ++ ['=']) := by
    rw [byteLen_append, Nat.add_assoc, ← hone, ← byteLen_append]
    simpa using @sliceBetween_append done after (front ++ ['='])
  have hvalue : sliceFrom (done ++ (front ++ '=' :: after)) (byteLen (done ++ front) + 1) =
      some after := by
    rw [← hone, ← byteLen_append]
    simpa using @sliceFrom_append (done ++ front ++ ['=']) after
  rw [List.append_assoc] at hname
  rw [redactFrom, if_pos hmore, sliceFrom_append]
  simp only [Option.bind_eq_bind, Option.bind_some, hfind, heq, hbefore, hname, hcopied, hvalue]

/-- **The loop never panics**, and writes what the machine does. -/
theorem redactFrom_eq {n : ℕ} (out : List Char) (hn : rest.length ≤ n) :
    redactFrom (done ++ rest) n (byteLen done) out =
      some (out ++ scrub (.copying (nameRun done)) rest) := by
  induction n generalizing done rest out with
  | zero =>
      obtain rfl := List.length_eq_zero_iff.mp (Nat.le_zero.mp hn)
      simp [redactFrom, scrub]
  | succ n ih =>
      by_cases hsign : '=' ∈ rest
      · obtain ⟨front, after, rfl, hfront⟩ := List.eq_append_cons_of_mem hsign
        have hone : byteLen ['='] = 1 := by decide
        rw [redactFrom_sign hfront, scrub_copying hfront, scrub, Mode.next, if_pos rfl,
          Mode.written]
        split
        case isTrue =>
          obtain ⟨value, ending, rfl, hfree, hend⟩ := exists_value after
          have hstop : byteLen (done ++ front) + 1 + byteLen value =
              byteLen (done ++ front ++ '=' :: value) := by
            simp only [byteLen_append, byteLen_cons, byteLen_nil] at hone ⊢
            omega
          have htext : done ++ (front ++ '=' :: (value ++ ending)) =
              (done ++ front ++ '=' :: value) ++ ending := by simp
          dsimp only
          rw [valueEnd_eq hfree hend htext hstop, htext, ih, scrub_opened hfree hend,
            scrub_ended _ hend]
          · have hsome : (byteLen (done ++ front) + 1 < byteLen (done ++ front ++ '=' :: value)) ↔
                value ≠ [] := by
              rw [← hstop, ← List.length_pos_iff]
              have hlength := @length_le_byteLen value
              refine ⟨fun h => List.length_pos_iff.mpr ?_, by omega⟩
              rintro rfl
              simp at h
            simp only [hsome, ite_not, ne_eq]
            simp
          · simp only [List.length_append, List.length_cons] at hn
            omega
        case isFalse =>
          have htext : done ++ (front ++ '=' :: after) = (done ++ front ++ ['=']) ++ after := by
            simp
          have hstop : byteLen (done ++ front) + 1 = byteLen (done ++ front ++ ['=']) := by
            simp only [byteLen_append, hone]
          have hrun : nameRun (done ++ front ++ ['=']) = [] := by
            rw [nameRun_concat]
            rfl
          rw [htext, hstop, ih, hrun]
          · simp
          · simp only [List.length_append, List.length_cons] at hn
            omega
      · have hnone : findChar (· = '=') rest = none := by
          refine findChar_eq_none fun c hc => decide_eq_false ?_
          rintro rfl
          exact hsign hc
        have hcopied := @scrub_copying _ [] done hsign
        simp only [List.append_nil, scrub] at hcopied
        rw [redactFrom, sliceFrom_append]
        split
        case isTrue => simp [hnone, hcopied]
        case isFalse hend =>
          -- nothing is left
          have hempty : rest = [] := by
            have hlength := @length_le_byteLen rest
            rw [byteLen_append] at hend
            exact List.length_eq_zero_iff.mp (by omega)
          simp [hempty, scrub]

/-- **What is written is what the machine writes.** -/
theorem redactSecrets_eq (text : List Char) :
    redactSecrets text = some (scrub (.copying []) text) :=
  @redactFrom_eq text [] _ [] length_le_byteLen

/-! ### What is hidden, and what is not -/

/-- A value that is there. -/
def IsValue (value : List Char) : Prop := value ≠ [] ∧ ∀ c ∈ value, endsValue c = false

/-- A text that a value ends before. -/
def Ended (text : List Char) : Prop := ∀ c ∈ text.head?, endsValue c = true

/-- A text behind which a name begins. -/
def Separates (text : List Char) : Prop := ∀ c ∈ text.getLast?, isNameChar c = false

instance (value : List Char) : Decidable (IsValue value) :=
  decidable_of_iff (value ≠ [] ∧ value.all (!endsValue ·) = true) (by simp [IsValue])

instance (text : List Char) : Decidable (Ended text) :=
  decidable_of_iff (text.head?.all endsValue = true) (by simp [Ended, Option.all_eq_true])

instance (text : List Char) : Decidable (Separates text) :=
  decidable_of_iff (text.getLast?.all (!isNameChar ·) = true)
    (by simp [Separates, Option.all_eq_true])

/-- Two texts that differ only in values of secret parameters. Where such a value goes before,
something ends it. -/
inductive SameButSecrets : Bool → List Char → List Char → Prop
  | same {behind : Bool} {text : List Char} (h : behind = true → Ended text) :
      SameButSecrets behind text text
  | secret {behind : Bool} {plain name value value' text text' : List Char}
      (hplain : behind = true → plain ≠ [] ∧ Ended plain) (hstart : Separates plain)
      (hname : isSecret name = true) (hvalue : IsValue value) (hvalue' : IsValue value')
      (h : SameButSecrets true text text') :
      SameButSecrets behind (plain ++ (name ++ '=' :: (value ++ text)))
        (plain ++ (name ++ '=' :: (value' ++ text')))

/-- All of a text is copied but values of secret parameters, which are replaced. -/
inductive Redacts : List Char → List Char → Prop
  | rest (text : List Char) : Redacts text text
  | value {plain name value text out : List Char} (hstart : Separates plain)
      (hname : isSecret name = true) (hvalue : IsValue value) (hended : Ended text)
      (h : Redacts text out) :
      Redacts (plain ++ name ++ '=' :: (value ++ text))
        (plain ++ name ++ '=' :: (placeholder ++ out))

theorem isNameChar_toLower (h : isNameChar c.toLower = true) : isNameChar c = true := by
  unfold Char.toLower at h
  split at h
  case isTrue hupper =>
    have hup : c.isUpper = true := decide_eq_true hupper
    have halpha : c.isAlpha = true := (Bool.or_eq_true ..).mpr (Or.inl hup)
    simp [isNameChar, Char.isAlphanum, halpha]
  case isFalse => exact h

theorem isNameChar_of_isSecret (h : isSecret name = true) : ∀ c ∈ name, isNameChar c = true := by
  obtain ⟨candidate, hcandidate, heq⟩ := List.any_eq_true.mp h
  have hchars : ∀ candidate ∈ secretParams,
      ∀ c ∈ candidate.toList.map Char.toLower, isNameChar c = true := by
    have hall : secretParams.all (fun candidate =>
        (candidate.toList.map Char.toLower).all isNameChar) = true := by decide
    simpa only [List.all_eq_true] using hall
  intro c hc
  have hlower : c.toLower ∈ candidate.toList.map Char.toLower := by
    rw [of_decide_eq_true heq]
    exact List.mem_map_of_mem hc
  exact isNameChar_toLower (hchars candidate hcandidate _ hlower)

theorem endsValue_of_isNameChar (h : isNameChar c = true) : endsValue c = false := by
  by_contra hends
  rw [(not_name_of_ends ((Bool.not_eq_false _).mp hends)).2] at h
  cases h

theorem scrub_append : scrub mode (front ++ rest) =
    scrub mode front ++ scrub (front.foldl Mode.next mode) rest := by
  induction front generalizing mode with
  | nil => rfl
  | cons c front ih => simp [scrub, ih]

/-- Behind a character that no name is made of there is no name. -/
theorem name_of_separates (hfront : Separates front) (hstart : front = [] → mode = .copying [])
    (h : front.foldl Mode.next mode = .copying name) : name = [] := by
  rcases List.eq_nil_or_concat front with rfl | ⟨before, c, rfl⟩
  · rw [hstart rfl] at h
    exact (Mode.copying.inj h).symm
  · have hc : isNameChar c = false := hfront c (by simp)
    rw [List.concat_eq_append, List.foldl_append, List.foldl_cons, List.foldl_nil] at h
    unfold Mode.next at h
    split at h
    case h_1 =>
      rw [hc] at h
      split_ifs at h <;> simp_all
    case h_2 =>
      split_ifs at h
      exact (Mode.copying.inj h).symm

/-- What a secret parameter becomes does not depend on its value. -/
theorem scrub_secret (hmode : ∀ run, mode = .copying run → run = [])
    (hname : isSecret name = true) :
    ∃ front, ∀ value text, IsValue value → Ended text →
      scrub mode (name ++ '=' :: (value ++ text)) = front ++ scrub (.copying []) text := by
  have hchars := isNameChar_of_isSecret hname
  have hsign : '=' ∉ name := fun hmem => by
    have := hchars _ hmem
    revert this
    decide
  have hrun : nameRun name = name.reverse := by
    rw [nameRun, List.takeWhile_eq_self_iff]
    exact fun c hc => hchars c (List.mem_reverse.mp hc)
  have hfree : ∀ value : List Char, IsValue value →
      ∀ c ∈ name ++ '=' :: value, endsValue c = false := by
    intro value hvalue c hc
    rcases List.mem_append.mp hc with hin | hin
    · exact endsValue_of_isNameChar (hchars c hin)
    · rcases List.mem_cons.mp hin with rfl | hin
      · decide
      · exact hvalue.2 c hin
  have hsplit : ∀ value text : List Char,
      name ++ '=' :: (value ++ text) = (name ++ '=' :: value) ++ text := by simp
  cases mode with
  | copying run =>
      obtain rfl := hmode run rfl
      refine ⟨name ++ '=' :: placeholder, fun value text hvalue hended => ?_⟩
      have hcopied := @scrub_copying name ('=' :: (value ++ text)) [] hsign
      rw [List.nil_append, hrun] at hcopied
      refine hcopied.trans ?_
      rw [scrub, Mode.next, if_pos rfl, List.reverse_reverse, if_pos hname,
        scrub_opened hvalue.2 hended, if_neg hvalue.1]
      simp [Mode.written]
  | opened =>
      refine ⟨placeholder, fun value text hvalue hended => ?_⟩
      rw [hsplit, scrub_opened (hfree value hvalue) hended, if_neg (by simp)]
  | hidden =>
      refine ⟨[], fun value text hvalue hended => ?_⟩
      rw [hsplit, scrub_hidden (hfree value hvalue) hended]
      rfl

theorem SameButSecrets.ended {behind : Bool} {text text' : List Char}
    (h : SameButSecrets behind text text') (hbehind : behind = true) :
    Ended text ∧ Ended text' := by
  cases h with
  | same hended => exact ⟨hended hbehind, hended hbehind⟩
  | @secret _ plain name value value' text text' hplain =>
      obtain ⟨hne, hended⟩ := hplain hbehind
      obtain ⟨c, plain, rfl⟩ := List.exists_cons_of_ne_nil hne
      exact ⟨hended, hended⟩

/-- **What is written does not depend on the secrets.** -/
theorem SameButSecrets.scrub_eq {behind : Bool} {text text' : List Char}
    (h : SameButSecrets behind text text') {mode : Mode}
    (hmode : behind = false → mode = .copying []) : scrub mode text = scrub mode text' := by
  induction h generalizing mode with
  | same => rfl
  | @secret behind plain name value value' text text' hplain hstart hname hvalue hvalue' h ih =>
      have hempty : plain = [] → mode = .copying [] := by
        intro hnil
        cases behind with
        | false => exact hmode rfl
        | true => exact absurd hnil (hplain rfl).1
      obtain ⟨front, hfront⟩ := @scrub_secret name (plain.foldl Mode.next mode)
        (fun _ hrun => name_of_separates hstart hempty hrun) hname
      obtain ⟨hended, hended'⟩ := h.ended rfl
      rw [@scrub_append plain, @scrub_append plain, hfront value text hvalue hended,
        hfront value' text' hvalue' hended', ih nofun]

/-- **All that is not a secret value is copied.** -/
theorem redacts_scrub (text : List Char) : Redacts text (scrub (.copying []) text) := by
  have hrun : ∀ n (done rest : List Char), rest.length ≤ n →
      Redacts (done ++ rest) (done ++ scrub (.copying (nameRun done)) rest) := by
    intro n
    induction n with
    | zero =>
        intro done rest hn
        obtain rfl := List.length_eq_zero_iff.mp (Nat.le_zero.mp hn)
        exact .rest _
    | succ n ih =>
        intro done rest hn
        cases rest with
        | nil => exact .rest _
        | cons c rest =>
            have hrest : rest.length ≤ n := Nat.le_of_succ_le_succ hn
            -- The character is copied, and the name goes on or begins anew.
            have hon : Redacts (done ++ c :: rest)
                (done ++ c :: scrub (.copying (nameRun (done ++ [c]))) rest) := by
              simpa using ih (done ++ [c]) rest hrest
            rw [nameRun_concat] at hon
            by_cases hsign : c = '='
            · subst hsign
              rw [scrub, Mode.next, if_pos rfl]
              have hother : isNameChar '=' = false := by decide
              rw [if_neg (by rw [hother]; simp)] at hon
              split
              case isTrue hsecret =>
                obtain ⟨value, text, rfl, hfree, hended⟩ := exists_value rest
                rw [scrub_opened hfree hended]
                split
                case isTrue hnil =>
                  subst hnil
                  exact hon
                case isFalse hsome =>
                  obtain ⟨plain, hdone, hplain⟩ := exists_before done
                  have htext := ih [] text (by rw [List.length_append] at hrest; omega)
                  have hvalue := Redacts.value hplain hsecret ⟨hsome, hfree⟩ hended htext
                  rw [← hdone] at hvalue
                  exact hvalue
              case isFalse => exact hon
            · rw [scrub, Mode.next, if_neg hsign]
              split at hon <;> simp_all [Mode.written]
  exact hrun _ [] text (Nat.le_refl _)

/-- A text that is redacted is not changed again. -/
theorem scrub_scrub (mode : Mode) (text : List Char) :
    scrub mode (scrub mode text) = scrub mode text := by
  have hplaceholder : ∀ text : List Char,
      scrub .opened (placeholder ++ text) = placeholder ++ scrub .hidden text := by
    intro text
    rw [scrub_append]
    rfl
  induction text generalizing mode with
  | nil => rfl
  | cons c text ih =>
      cases mode with
      | copying name => simp [scrub, Mode.written, ih]
      | opened =>
          by_cases hends : endsValue c = true
          · simp [scrub, Mode.next, Mode.written, hends, ih]
          · simp [scrub, Mode.next, Mode.written, hends, hplaceholder, ih]
      | hidden =>
          by_cases hends : endsValue c = true
          · simp [scrub, Mode.next, Mode.written, hends, ih]
          · simp [scrub, Mode.next, Mode.written, hends, ih]

/-- **Redaction hides the secrets and only the secrets**: what it gives does not depend on them,
it gives something for every text, copies all else, and changes nothing the second time. -/
theorem redaction_hides_secrets_only :
    (∀ text text', SameButSecrets false text text' → redactSecrets text = redactSecrets text') ∧
      ∀ text, ∃ out, redactSecrets text = some out ∧ Redacts text out ∧
        redactSecrets out = some out := by
  refine ⟨fun text text' h => ?_, fun text => ?_⟩
  · rw [redactSecrets_eq, redactSecrets_eq, h.scrub_eq fun _ => rfl]
  · refine ⟨_, redactSecrets_eq text, redacts_scrub text, ?_⟩
    rw [redactSecrets_eq, scrub_scrub]

theorem two_sessions_redacted :
    redactSecrets "?x=é&_sid=one, two".toList = redactSecrets "?x=é&_sid=three, two".toList := by
  refine redaction_hides_secrets_only.1 _ _ ?_
  refine @SameButSecrets.secret false "?x=é&".toList "_sid".toList "one".toList "three".toList
    ", two".toList ", two".toList nofun ?_ (by decide) (by decide) (by decide) (.same fun _ => ?_)
  · show Separates "?x=é&".toList
    decide
  · show Ended ", two".toList
    decide

end Redact

end SynologyFilestation.Core
