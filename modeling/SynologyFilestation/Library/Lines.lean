import SynologyFilestation.Library.Text

/-!
Texts that are cut: into lines, and at the first place of a mark.

A mark without a line break is found in the lines before a break or in those
behind it, and not in both.
-/

namespace SynologyFilestation.Library

/-! ### Marks -/

section Marks

variable {α : Type*}

/-- No mark without this symbol lies across. -/
def Parted (sep : α) (front back : List α) : Prop :=
  front = [] ∨ front.getLast? = some sep ∨ back = [] ∨ back.head? = some sep

variable {mark front back text f r : List α} {sep c : α}

theorem Parted.of_cons (h : Parted sep (c :: front) back) : Parted sep front back := by
  rcases h with h | h | h
  · cases h
  · cases front with
    | nil => exact .inl rfl
    | cons d front => exact .inr (.inl h)
  · exact .inr (.inr h)

/-- A mark that is across has the symbol. -/
theorem Parted.prefix_of_append (hsep : sep ∉ mark) (h : Parted sep (c :: front) back)
    (hmark : mark <+: c :: front ++ back) : mark <+: c :: front := by
  rcases Nat.le_total mark.length (c :: front).length with hle | hle
  · exact List.prefix_of_prefix_length_le hmark (List.prefix_append _ _) hle
  · have hall : c :: front <+: mark :=
      List.prefix_of_prefix_length_le (List.prefix_append _ _) hmark hle
    obtain ⟨across, rfl⟩ := hall
    have hback : across <+: back := (List.prefix_append_right_inj _).mp hmark
    cases across with
    | nil => simp
    | cons d across =>
        rcases h with h | h | h | h
        · cases h
        · exact absurd (List.mem_append_left _ (List.mem_of_getLast? h)) hsep
        · subst h
          cases List.prefix_nil.mp hback
        · obtain ⟨rest, rfl⟩ := hback
          obtain rfl : d = sep := Option.some.inj h
          exact absurd (List.mem_append_right _ List.mem_cons_self) hsep

variable [DecidableEq α]

/-- `str::split_once`: what is before the first place of a mark, and behind it. -/
def splitOnce (mark : List α) : List α → Option (List α × List α)
  | [] => if mark = [] then some ([], []) else none
  | c :: text =>
      if mark.isPrefixOf (c :: text) then some ([], (c :: text).drop mark.length)
      else (splitOnce mark text).map fun (front, rest) => (c :: front, rest)

/-- What is between the first place of one mark and the next of another. -/
def between (opening closing text : List α) : Option (List α) := do
  let (_, rest) ← splitOnce opening text
  let (body, _) ← splitOnce closing rest
  some body

theorem length_le_of_splitOnce (h : splitOnce mark text = some (f, r)) :
    mark.length ≤ text.length := by
  induction text generalizing f r with
  | nil =>
      rw [splitOnce] at h
      split at h
      case isTrue hmark => simp [hmark]
      case isFalse => cases h
  | cons c text ih =>
      rw [splitOnce] at h
      split at h
      case isTrue hbegins => exact (List.isPrefixOf_iff_prefix.mp hbegins).length_le
      case isFalse =>
        obtain ⟨⟨f', r'⟩, hrest, -⟩ := Option.map_eq_some_iff.mp h
        exact Nat.le_succ_of_le (ih hrest)

theorem splitOnce_eq_none : splitOnce mark text = none ↔ ¬mark <:+: text := by
  induction text with
  | nil =>
      rw [splitOnce, List.infix_nil]
      split <;> simp_all
  | cons c text ih =>
      rw [splitOnce, List.infix_cons_iff, not_or, ← ih, ← List.isPrefixOf_iff_prefix]
      split
      case isTrue hbegins => exact ⟨nofun, fun h => absurd hbegins h.1⟩
      case isFalse hbegins =>
        rw [Option.map_eq_none_iff]
        exact ⟨fun h => ⟨hbegins, h⟩, And.right⟩

/-- A longer mark is not found where a shorter one is not. -/
theorem splitOnce_append_mark (h : splitOnce mark text = none) (more : List α) :
    splitOnce (mark ++ more) text = none :=
  splitOnce_eq_none.mpr fun hfound =>
    splitOnce_eq_none.mp h ((List.prefix_append mark more).isInfix.trans hfound)

/-- A mark that was found is found there in a longer text. -/
theorem splitOnce_append (h : splitOnce mark front = some (f, r)) (back : List α) :
    splitOnce mark (front ++ back) = some (f, r ++ back) := by
  induction front generalizing f r with
  | nil =>
      rw [splitOnce] at h
      split at h
      case isTrue hmark =>
        cases h
        subst hmark
        cases back <;> rfl
      case isFalse => cases h
  | cons c front ih =>
      rw [splitOnce] at h
      rw [List.cons_append, splitOnce]
      split at h
      case isTrue hbegins =>
        cases h
        have hlonger := List.isPrefixOf_iff_prefix.mp hbegins
        have hfound : mark.isPrefixOf (c :: (front ++ back)) = true :=
          List.isPrefixOf_iff_prefix.mpr (hlonger.trans (List.prefix_append (c :: front) back))
        rw [if_pos hfound, ← List.cons_append, List.drop_append_of_le_length hlonger.length_le]
      case isFalse hbegins =>
        obtain ⟨⟨f', r'⟩, hrest, heq⟩ := Option.map_eq_some_iff.mp h
        have hlength : mark.length ≤ (c :: front).length :=
          Nat.le_succ_of_le (length_le_of_splitOnce hrest)
        have hnot : ¬mark.isPrefixOf (c :: (front ++ back)) = true := fun hfound =>
          hbegins (List.isPrefixOf_iff_prefix.mpr (List.prefix_of_prefix_length_le
            (List.isPrefixOf_iff_prefix.mp hfound) (List.prefix_append (c :: front) back)
              hlength))
        rw [if_neg hnot, ih hrest]
        cases heq
        rfl

/-- A mark that is not in front is looked for behind. -/
theorem splitOnce_append_of_none (hmark : sep ∉ mark) (h : splitOnce mark front = none)
    (hparted : Parted sep front back) : splitOnce mark (front ++ back) =
      (splitOnce mark back).map fun (f, r) => (front ++ f, r) := by
  induction front with
  | nil =>
      rw [List.nil_append]
      cases splitOnce mark back <;> rfl
  | cons c front ih =>
      rw [splitOnce] at h
      split at h
      case isTrue => cases h
      case isFalse hbegins =>
        have hnot : ¬mark.isPrefixOf (c :: (front ++ back)) = true := fun hfound =>
          hbegins (List.isPrefixOf_iff_prefix.mpr
            (hparted.prefix_of_append hmark (List.isPrefixOf_iff_prefix.mp hfound)))
        rw [List.cons_append, splitOnce, if_neg hnot,
          ih (Option.map_eq_none_iff.mp h) hparted.of_cons, Option.map_map]
        rfl

variable {opening closing body : List α}

/-- What was closed is what it was in a longer text. -/
theorem between_append (h : between opening closing front = some body) (back : List α) :
    between opening closing (front ++ back) = some body := by
  obtain ⟨⟨f, r⟩, hopening, h⟩ := Option.bind_eq_some_iff.mp h
  obtain ⟨⟨body', r'⟩, hclosing, heq⟩ := Option.bind_eq_some_iff.mp h
  rw [between, splitOnce_append hopening back]
  dsimp only [Option.bind_eq_bind, Option.bind_some]
  rw [splitOnce_append hclosing back]
  exact heq

/-- What is not opened in front is what is between the marks behind it. -/
theorem between_append_of_none (hopening : sep ∉ opening) (h : splitOnce opening front = none)
    (hparted : Parted sep front back) :
    between opening closing (front ++ back) = between opening closing back := by
  rw [between, splitOnce_append_of_none hopening h hparted, between]
  cases splitOnce opening back <;> rfl

end Marks

/-! ### Lines -/

/-- Without the carriage return at its end. -/
def stripReturn (line : List UInt8) : List UInt8 :=
  if line.getLast? = some 0x0d then line.dropLast else line

/-- The lines of a text behind what is there of the first of them. -/
def linesFrom (line : List UInt8) : List UInt8 → List (List UInt8)
  | [] => if line = [] then [] else [line]
  | byte :: rest =>
      if byte = 0x0a then stripReturn line :: linesFrom [] rest
      else linesFrom (line ++ [byte]) rest

/-- `str::lines`. -/
def lines (text : List UInt8) : List (List UInt8) := linesFrom [] text

theorem linesFrom_append (line front back : List UInt8) :
    linesFrom line (front ++ 0x0a :: back) = linesFrom line (front ++ [0x0a]) ++ lines back := by
  induction front generalizing line with
  | nil => rfl
  | cons byte front ih =>
      rw [List.cons_append, List.cons_append, linesFrom, linesFrom]
      split
      case isTrue => rw [ih, List.cons_append]
      case isFalse => exact ih _

/-- The lines behind a line break are lines of their own. -/
theorem lines_append {front : List UInt8} (h : front = [] ∨ front.getLast? = some 0x0a)
    (back : List UInt8) : lines (front ++ back) = lines front ++ lines back := by
  rcases h with rfl | h
  · rfl
  · obtain ⟨f, rfl⟩ := List.getLast?_eq_some_iff.mp h
    rw [List.append_assoc]
    exact linesFrom_append [] f back

/-! ### Lines that are trimmed -/

/-- No white space but the carriage return has one. -/
theorem prefix_concat_return {char : List UInt8} (hchar : char ∈ whiteSpace) (byte : UInt8)
    (rest : List UInt8) :
    char.isPrefixOf (byte :: (rest ++ [0x0d])) = char.isPrefixOf (byte :: rest) := by
  rw [Bool.eq_iff_iff, List.isPrefixOf_iff_prefix, List.isPrefixOf_iff_prefix,
    ← List.cons_append, List.prefix_concat_iff]
  constructor
  · rintro (hall | hbegins)
    · have hlong : ∀ char ∈ whiteSpace, 0x0d ∈ char → char.length = 1 := by decide
      have hone := hlong char hchar (hall ▸ List.mem_append_right _ (List.mem_singleton_self _))
      rw [hall, List.length_append] at hone
      simp at hone
    · exact hbegins
  · exact .inr

theorem startsWithAny_concat_return (byte : UInt8) (rest : List UInt8) :
    startsWithAny whiteSpace (byte :: (rest ++ [0x0d])) =
      startsWithAny whiteSpace (byte :: rest) := by
  have hfind (chars : List (List UInt8)) (h : ∀ char ∈ chars, char ∈ whiteSpace) :
      (chars.find? fun char => char.isPrefixOf (byte :: (rest ++ [0x0d]))) =
        chars.find? fun char => char.isPrefixOf (byte :: rest) := by
    induction chars with
    | nil => rfl
    | cons char chars ih =>
        have hrest := ih fun other hother => h other (List.mem_cons_of_mem _ hother)
        rw [List.find?_cons, List.find?_cons,
          prefix_concat_return (h char List.mem_cons_self), hrest]
  exact congrArg (Option.map List.length) (hfind whiteSpace fun _ => id)

/-- What a text starts with is part of it. -/
theorem le_length_of_startsWithAny {chars : List (List UInt8)} {bytes : List UInt8} {n : ℕ}
    (h : startsWithAny chars bytes = some n) : n ≤ bytes.length := by
  obtain ⟨char, hfind, rfl⟩ := Option.map_eq_some_iff.mp h
  have hbegins := List.find?_some (p := fun char => List.isPrefixOf char bytes) hfind
  exact (List.isPrefixOf_iff_prefix.mp hbegins).length_le

theorem dropAny_concat_return {skip : ℕ} {line : List UInt8} (hskip : skip ≤ line.length) :
    dropAny whiteSpace skip (line ++ [0x0d]) =
      if dropAny whiteSpace skip line = [] then [] else dropAny whiteSpace skip line ++ [0x0d] := by
  induction line generalizing skip with
  | nil =>
      obtain rfl := Nat.le_zero.mp hskip
      decide
  | cons byte line ih =>
      cases skip with
      | succ skip => exact ih (Nat.le_of_succ_le_succ hskip)
      | zero =>
          rw [List.cons_append, dropAny, dropAny, startsWithAny_concat_return]
          split
          case h_1 length hstarts =>
            have hlength := le_length_of_startsWithAny hstarts
            rw [List.length_cons] at hlength
            exact ih (by omega)
          case h_2 => rfl

theorem trim_concat_return (line : List UInt8) : trim (line ++ [0x0d]) = trim line := by
  rw [trim, trim, dropAny_concat_return (Nat.zero_le _)]
  split
  case isTrue hempty => rw [hempty]
  case isFalse =>
    rw [List.reverse_append]
    rfl

theorem trim_stripReturn (line : List UInt8) : trim (stripReturn line) = trim line := by
  unfold stripReturn
  split
  case isTrue hlast =>
    obtain ⟨front, rfl⟩ := List.getLast?_eq_some_iff.mp hlast
    rw [List.dropLast_concat, trim_concat_return]
  case isFalse => rfl

/-- A line break at the end is no line, or an empty one. -/
theorem trim_lines_concat (text : List UInt8) :
    (lines (text ++ [0x0a])).map trim = (lines text).map trim ∨
      (lines (text ++ [0x0a])).map trim = (lines text).map trim ++ [[]] := by
  have hfrom (line text : List UInt8) :
      (linesFrom line (text ++ [0x0a])).map trim = (linesFrom line text).map trim ∨
        (linesFrom line (text ++ [0x0a])).map trim = (linesFrom line text).map trim ++ [[]] := by
    induction text generalizing line with
    | nil =>
        have hlast : linesFrom line [0x0a] = [stripReturn line] := rfl
        rw [List.nil_append, hlast, linesFrom]
        split
        case isTrue hempty =>
          subst hempty
          exact .inr (by decide)
        case isFalse => exact .inl (congrArg ([·]) (trim_stripReturn line))
    | cons byte text ih =>
        rw [List.cons_append, linesFrom, linesFrom]
        split
        case isTrue =>
          rcases ih [] with h | h
          · exact .inl (by rw [List.map_cons, h, List.map_cons])
          · exact .inr (by rw [List.map_cons, h, List.map_cons, List.cons_append])
        case isFalse => exact ih _
  exact hfrom [] text

end SynologyFilestation.Library
