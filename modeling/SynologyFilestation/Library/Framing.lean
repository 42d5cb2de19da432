import SynologyFilestation.Library.Wire
import Mathlib.Data.List.Infix

/-!
Messages on a stream that has no frames.

A reader takes a value off the front of what has arrived, or says that there is not enough of it.
What it takes it also takes when more has arrived. A decoder says how many symbols a message
has; decoding what is there after every chunk is decoding all of it at once.
-/

namespace SynologyFilestation.Library

universe u

variable {ε β : Type*} {α γ : Type u} {short : ε → Prop}

/-! ### Readers -/

/-- What a reader says is still so when more has arrived, unless it was short. -/
structure Stable (short : ε → Prop) (read : List β → Except ε (α × List β)) : Prop where
  suffix : ∀ {symbols a rest}, read symbols = .ok (a, rest) → rest <:+ symbols
  ok : ∀ {symbols a rest}, read symbols = .ok (a, rest) →
    ∀ more, read (symbols ++ more) = .ok (a, rest ++ more)
  error : ∀ {symbols e}, read symbols = .error e → ¬short e →
    ∀ more, read (symbols ++ more) = .error e

/-- A reader that can only be short, and what it waits for may come. -/
structure Awaits (short : ε → Prop) (read : List β → Except ε (α × List β)) : Prop
    extends Stable short read where
  short : ∀ {symbols e}, read symbols = .error e → short e
  completes : ∀ {symbols e}, read symbols = .error e →
    ∃ more a, read (symbols ++ more) = .ok (a, [])

section Readers

variable {read : List β → Except ε (α × List β)} {next : α × List β → Except ε (γ × List β)}

theorem bind_eq_error {x : Except ε α} {f : α → Except ε γ} {e : ε} :
    (x >>= f) = .error e ↔ x = .error e ∨ ∃ a, x = .ok a ∧ f a = .error e := by
  cases x with
  | error e' => simp [bind, Except.bind]
  | ok a => simp [bind, Except.bind]

theorem Stable.bind (hread : Stable short read)
    (hnext : ∀ a, Stable short fun rest => next (a, rest)) :
    Stable short fun symbols => read symbols >>= next where
  suffix h := by
    obtain ⟨found, hfound, hrest⟩ := bind_eq_ok.mp h
    exact ((hnext _).suffix hrest).trans (hread.suffix hfound)
  ok h more := by
    obtain ⟨found, hfound, hrest⟩ := bind_eq_ok.mp h
    exact bind_eq_ok.mpr ⟨_, hread.ok hfound more, (hnext _).ok hrest more⟩
  error h hshort more := by
    rcases bind_eq_error.mp h with hread' | ⟨found, hfound, hrest⟩
    · exact bind_eq_error.mpr (.inl (hread.error hread' hshort more))
    · exact bind_eq_error.mpr (.inr ⟨_, hread.ok hfound more, (hnext _).error hrest hshort more⟩)

theorem Awaits.pure (a : α) : Awaits short fun symbols : List β => (.ok (a, symbols) : Except ε _)
    where
  suffix h := by
    obtain ⟨-, rfl⟩ := Prod.mk.inj (Except.ok.inj h)
    exact List.suffix_refl _
  ok h more := by
    obtain ⟨rfl, rfl⟩ := Prod.mk.inj (Except.ok.inj h)
    rfl
  error h := nomatch h
  short h := nomatch h
  completes h := nomatch h

/-- What is read at the very end is nothing, or the reader is short. -/
theorem Awaits.read_nil (hread : Awaits short read) : ∃ more a, read more = .ok (a, []) := by
  cases hnil : read [] with
  | error e => exact hread.completes hnil
  | ok found =>
      have hrest : found.2 = [] := List.suffix_nil.mp (hread.suffix hnil)
      exact ⟨[], found.1, by rw [hnil, ← hrest]⟩

theorem Awaits.bind (hread : Awaits short read)
    (hnext : ∀ a, Awaits short fun rest => next (a, rest)) :
    Awaits short fun symbols => read symbols >>= next where
  toStable := hread.toStable.bind fun a => (hnext a).toStable
  short h := by
    rcases bind_eq_error.mp h with hshort | ⟨found, -, hrest⟩
    · exact hread.short hshort
    · exact (hnext _).short hrest
  completes h := by
    rcases bind_eq_error.mp h with hshort | ⟨found, hfound, hrest⟩
    · obtain ⟨more, a, hmore⟩ := hread.completes hshort
      obtain ⟨more', c, hnext'⟩ := (hnext a).read_nil
      refine ⟨more ++ more', c, ?_⟩
      rw [← List.append_assoc]
      exact bind_eq_ok.mpr ⟨_, hread.ok hmore more', hnext'⟩
    · obtain ⟨more, c, hmore⟩ := (hnext _).completes hrest
      exact ⟨more, c, bind_eq_ok.mpr ⟨_, hread.ok hfound more, hmore⟩⟩

theorem Awaits.ite {read' : List β → Except ε (α × List β)} (c : Prop) [Decidable c]
    (hread : Awaits short read) (hread' : Awaits short read') :
    Awaits short fun symbols => if c then read symbols else read' symbols := by
  split
  · exact hread
  · exact hread'

end Readers

section Front

variable {σ : Type u} {n : ℕ} {e : ε}

theorem takeFront_eq_error {e' : ε} {symbols : List σ} :
    takeFront n e symbols = .error e' ↔ symbols.length < n ∧ e = e' := by
  unfold takeFront
  split
  case isTrue h => simpa using fun hlt => absurd hlt (Nat.not_lt.mpr h)
  case isFalse h => simp [Nat.lt_of_not_le h]

theorem awaits_takeFront [Inhabited σ] (n : ℕ) (h : short e) :
    Awaits short (takeFront n e : List σ → _) where
  suffix hread := by
    obtain ⟨-, rfl⟩ := (lossless_takeFront n e _ _ _).mp hread
    exact List.suffix_append ..
  ok hread more := by
    obtain ⟨-, rfl⟩ := (lossless_takeFront n e _ _ _).mp hread
    exact (lossless_takeFront n e _ _ _).mpr ⟨trivial, List.append_assoc ..⟩
  error hread hshort := by
    obtain ⟨-, rfl⟩ := takeFront_eq_error.mp hread
    exact absurd h hshort
  short hread := (takeFront_eq_error.mp hread).2 ▸ h
  completes {symbols _} hread := by
    obtain ⟨hlt, -⟩ := takeFront_eq_error.mp hread
    have hlength : (symbols ++ List.replicate (n - symbols.length) default).length = n := by
      rw [List.length_append, List.length_replicate]
      omega
    exact ⟨_, ⟨_, hlength⟩, (lossless_takeFront n e _ _ _).mpr ⟨trivial, (List.append_nil _).symm⟩⟩

end Front

/-! ### Decoders -/

section Decoders

variable {decode : List β → Except ε (α × ℕ)}

/-- A message is a front of what has arrived, and is not another one when more has. -/
structure Framed (decode : List β → Except ε (α × ℕ)) : Prop where
  used : ∀ {symbols a used}, decode symbols = .ok (a, used) → 0 < used ∧ used ≤ symbols.length
  ok : ∀ {symbols a used}, decode symbols = .ok (a, used) →
    ∀ more, decode (symbols ++ more) = .ok (a, used)

/-- Every message that there is, each of a symbol at least, and what is left. -/
def decodeUpTo (decode : List β → Except ε (α × ℕ)) : ℕ → List β → List α × List β
  | 0, symbols => ([], symbols)
  | fuel + 1, symbols =>
      match decode symbols with
      | .error _ => ([], symbols)
      | .ok (a, used) =>
          let (as, rest) := decodeUpTo decode fuel (symbols.drop used)
          (a :: as, rest)

def decodeAll (decode : List β → Except ε (α × ℕ)) (symbols : List β) : List α × List β :=
  decodeUpTo decode symbols.length symbols

/-- A chunk arrives: what was decoded before, and what was left. -/
def feed (decode : List β → Except ε (α × ℕ)) (s : List α × List β) (chunk : List β) :
    List α × List β :=
  let (as, rest) := decodeAll decode (s.2 ++ chunk)
  (s.1 ++ as, rest)

namespace Framed

variable (hdecode : Framed decode) {symbols : List β} {a : α} {used : ℕ}
include hdecode

theorem length_drop_lt (h : decode symbols = .ok (a, used)) :
    (symbols.drop used).length < symbols.length := by
  obtain ⟨hpos, hle⟩ := hdecode.used h
  rw [List.length_drop]
  omega

theorem decodeUpTo_eq {fuel : ℕ} (hfuel : symbols.length ≤ fuel) :
    decodeUpTo decode fuel symbols = decodeAll decode symbols := by
  rw [decodeAll]
  induction fuel using Nat.strongRecOn generalizing symbols with
  | ind fuel ih =>
      rcases fuel with _ | fuel
      · rw [Nat.le_zero.mp hfuel]
      cases hsymbols : decode symbols with
      | error e => cases hlength : symbols.length <;> simp [decodeUpTo, hsymbols]
      | ok found =>
          obtain ⟨a, used⟩ := found
          have hdrop := hdecode.length_drop_lt hsymbols
          obtain ⟨length, hlength⟩ : ∃ length, symbols.length = length + 1 :=
            Nat.exists_eq_add_one.mpr (by omega)
          have hrest : ∀ left < fuel + 1, (symbols.drop used).length ≤ left →
              decodeUpTo decode left (symbols.drop used) =
                decodeUpTo decode (symbols.drop used).length (symbols.drop used) :=
            fun left hleft hlength => ih left hleft hlength
          have hleft := hrest fuel (Nat.lt_succ_self _) (by omega)
          have hright := hrest length (by omega) (by omega)
          simp only [hlength, decodeUpTo, hsymbols, hleft, hright]

theorem decodeAll_ok (h : decode symbols = .ok (a, used)) :
    decodeAll decode symbols = (a :: (decodeAll decode (symbols.drop used)).1,
      (decodeAll decode (symbols.drop used)).2) := by
  have hdrop := hdecode.length_drop_lt h
  obtain ⟨length, hlength⟩ : ∃ length, symbols.length = length + 1 :=
    Nat.exists_eq_add_one.mpr (by omega)
  have hrest : decodeUpTo decode length (symbols.drop used) =
      decodeAll decode (symbols.drop used) := hdecode.decodeUpTo_eq (by omega)
  rw [decodeAll, hlength]
  simp only [decodeUpTo, h, hrest]

omit hdecode in
theorem decodeAll_error {e : ε} (h : decode symbols = .error e) :
    decodeAll decode symbols = ([], symbols) := by
  rw [decodeAll]
  cases symbols.length <;> simp [decodeUpTo, h]

/-- What comes behind is decoded together with what was left. -/
theorem decodeAll_append (symbols more : List β) :
    decodeAll decode (symbols ++ more) = feed decode (decodeAll decode symbols) more := by
  induction hlength : symbols.length using Nat.strongRecOn generalizing symbols with
  | ind length ih =>
      subst hlength
      cases hsymbols : decode symbols with
      | error e =>
          rw [decodeAll_error hsymbols, feed]
          rfl
      | ok found =>
          obtain ⟨a, used⟩ := found
          have hrest := ih _ (hdecode.length_drop_lt hsymbols) (symbols.drop used) rfl
          rw [hdecode.decodeAll_ok hsymbols, hdecode.decodeAll_ok (hdecode.ok hsymbols more),
            List.drop_append_of_le_length (hdecode.used hsymbols).2, hrest]
          rfl

/-- **Where the stream is cut does not matter.** -/
theorem feed_chunks (chunks : List (List β)) :
    chunks.foldl (feed decode) ([], []) = decodeAll decode chunks.flatten := by
  induction chunks using List.reverseRecOn with
  | nil => rfl
  | append_singleton chunks chunk ih =>
      rw [List.foldl_append, ih, List.flatten_append, List.flatten_singleton,
        hdecode.decodeAll_append]
      rfl

end Framed

/-- Messages under frames of their own. -/
structure Frames (decode : List β → Except ε (α × ℕ)) (frame : α → List β) (valid : α → Prop) :
    Prop extends Framed decode where
  whole : ∀ {a}, valid a → ∀ rest, decode (frame a ++ rest) = .ok (a, (frame a).length)

namespace Frames

variable {frame : α → List β} {valid : α → Prop} {a : α} {as : List α} {symbols : List β}

/-- A part of a frame is no message. -/
theorem part (h : Frames decode frame valid) (ha : valid a) (hpart : symbols <+: frame a)
    (hne : symbols ≠ frame a) : ∃ e, decode symbols = .error e := by
  cases hsymbols : decode symbols with
  | error e => exact ⟨e, rfl⟩
  | ok found =>
      obtain ⟨b, used⟩ := found
      obtain ⟨more, hmore⟩ := hpart
      have hwhole := h.whole ha []
      rw [List.append_nil, ← hmore, h.ok hsymbols more] at hwhole
      obtain ⟨-, hused⟩ := Prod.mk.inj (Except.ok.inj hwhole)
      have hle := (h.used hsymbols).2
      rw [hused, List.length_append] at hle
      have hnil : more = [] := List.eq_nil_of_length_eq_zero (by omega)
      exact absurd (by rw [← hmore, hnil, List.append_nil]) hne

theorem decodeAll_whole (h : Frames decode frame valid) (has : ∀ a ∈ as, valid a)
    (rest : List β) : decodeAll decode (as.flatMap frame ++ rest) =
      (as ++ (decodeAll decode rest).1, (decodeAll decode rest).2) := by
  induction as with
  | nil => rfl
  | cons a as ih =>
      rw [List.forall_mem_cons] at has
      rw [List.flatMap_cons, List.append_assoc,
        h.toFramed.decodeAll_ok (h.whole has.1 (as.flatMap frame ++ rest)), List.drop_left, ih has.2]
      rfl

/-- What has come of a stream of messages is some of them, in order, and a part of the next. -/
theorem decodeAll_prefix (h : Frames decode frame valid) (has : ∀ a ∈ as, valid a)
    (hsymbols : symbols <+: as.flatMap frame) :
    (decodeAll decode symbols).1 <+: as ∧
      ((decodeAll decode symbols).2 = [] ∨ ∃ a ∈ as,
        (decodeAll decode symbols).2 <+: frame a ∧ (decodeAll decode symbols).2 ≠ frame a) := by
  induction as generalizing symbols with
  | nil =>
      obtain rfl : symbols = [] := List.prefix_nil.mp hsymbols
      exact ⟨List.prefix_refl _, .inl rfl⟩
  | cons a as ih =>
      rw [List.forall_mem_cons] at has
      rw [List.flatMap_cons] at hsymbols
      by_cases hwhole : frame a <+: symbols
      · obtain ⟨more, rfl⟩ := hwhole
        have hmore : more <+: as.flatMap frame := (List.prefix_append_right_inj _).mp hsymbols
        obtain ⟨hfront, hrest⟩ := ih has.2 hmore
        rw [h.toFramed.decodeAll_ok (h.whole has.1 more), List.drop_left]
        refine ⟨List.cons_prefix_cons.mpr ⟨rfl, hfront⟩, hrest.imp_right ?_⟩
        rintro ⟨b, hb, hpart⟩
        exact ⟨b, List.mem_cons_of_mem _ hb, hpart⟩
      · have hpart : symbols <+: frame a :=
          (List.prefix_or_prefix_of_prefix hsymbols (List.prefix_append _ _)).resolve_right hwhole
        have hne : symbols ≠ frame a := fun heq => hwhole (heq ▸ List.prefix_refl _)
        obtain ⟨e, he⟩ := h.part has.1 hpart hne
        rw [Framed.decodeAll_error he]
        exact ⟨List.nil_prefix, .inr ⟨a, List.mem_cons_self, hpart, hne⟩⟩

end Frames

end Decoders

end SynologyFilestation.Library
