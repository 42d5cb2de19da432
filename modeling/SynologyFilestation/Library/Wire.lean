import Mathlib.Data.List.Basic
import Mathlib.Data.List.Flatten

/-!
Formats whose values are read off the front of a list of symbols.

A reader is lossless for a writer if it takes what the writer makes of a valid
value and nothing else. Such readers are put together: what a reader made of
them takes is found by `bind_eq_ok`, one reader after the other.
-/

namespace SynologyFilestation.Library

universe u

variable {ε β : Type*} {α γ : Type u}

theorem bind_eq_ok {x : Except ε α} {f : α → Except ε γ} {c : γ} :
    (x >>= f) = .ok c ↔ ∃ a, x = .ok a ∧ f a = .ok c := by
  cases x with
  | error e => exact ⟨nofun, fun ⟨a, ha, _⟩ => nomatch ha⟩
  | ok a =>
      constructor
      · exact fun h => ⟨a, rfl, h⟩
      · rintro ⟨b, hb, hf⟩
        cases hb
        exact hf

/-- Not an error of this kind. -/
def Avoids (bad : ε → Prop) (x : Except ε α) : Prop := ∀ e, x = .error e → ¬bad e

section Avoids

variable {bad : ε → Prop} {x : Except ε α} {f : α → Except ε γ} {e : ε} {a : α}

@[simp] theorem avoids_ok : Avoids bad (.ok a : Except ε α) := nofun

@[simp] theorem avoids_error : Avoids bad (.error e : Except ε α) ↔ ¬bad e :=
  ⟨fun h => h e rfl, fun h _ he => Except.error.inj he ▸ h⟩

theorem Avoids.bind (hx : Avoids bad x) (hf : ∀ a, Avoids bad (f a)) : Avoids bad (x >>= f) := by
  cases x with
  | error e => exact avoids_error.mpr (avoids_error.mp hx)
  | ok a => exact hf a

theorem Avoids.map {g : α → γ} (hx : Avoids bad x) : Avoids bad (x.map g) := by
  cases x with
  | error e => exact avoids_error.mpr (avoids_error.mp hx)
  | ok a => exact avoids_ok

end Avoids

/-- What is read is what was written, and every valid value can be read. -/
def Lossless (valid : α → Prop) (write : α → List β)
    (read : List β → Except ε (α × List β)) : Prop :=
  ∀ symbols a rest, read symbols = .ok (a, rest) ↔ valid a ∧ symbols = write a ++ rest

section Front

variable {σ : Type u}

/-- The first `n` symbols, or an error if there are fewer. -/
def takeFront (n : ℕ) (short : ε) (symbols : List σ) :
    Except ε ({front : List σ // front.length = n} × List σ) :=
  if h : n ≤ symbols.length then
    .ok (⟨symbols.take n, List.length_take_of_le h⟩, symbols.drop n)
  else .error short

theorem avoids_takeFront {bad : ε → Prop} {short : ε} (h : ¬bad short) (n : ℕ) (symbols : List σ) :
    Avoids bad (takeFront n short symbols) := by
  unfold takeFront
  split
  · exact avoids_ok
  · exact avoids_error.mpr h

theorem lossless_takeFront (n : ℕ) (short : ε) :
    Lossless (fun _ => True) Subtype.val (takeFront n short : List σ → _) := by
  intro symbols front rest
  obtain ⟨front, hlength⟩ := front
  rw [takeFront]
  constructor
  · intro h
    split at h
    case isTrue hle =>
      obtain ⟨rfl, rfl⟩ := Prod.mk.inj (Except.ok.inj h) |>.imp_left (congrArg Subtype.val)
      exact ⟨trivial, (List.take_append_drop ..).symm⟩
    case isFalse => cases h
  · rintro ⟨-, rfl⟩
    subst hlength
    simp

end Front

/-- Reads values of one kind, so many of them. -/
def readTimes (read : List β → Except ε (α × List β)) :
    ℕ → List β → Except ε (List α × List β)
  | 0, symbols => .ok ([], symbols)
  | n + 1, symbols =>
      match read symbols with
      | .error e => .error e
      | .ok (a, rest) => (readTimes read n rest).map fun (as, rest) => (a :: as, rest)

variable {valid : α → Prop} {write : α → List β} {read : List β → Except ε (α × List β)}

theorem Avoids.readTimes {bad : ε → Prop} (h : ∀ symbols, Avoids bad (read symbols)) (n : ℕ)
    (symbols : List β) : Avoids bad (readTimes read n symbols) := by
  induction n generalizing symbols with
  | zero => exact avoids_ok
  | succ n ih =>
      have hfirst := h symbols
      rw [Library.readTimes]
      split
      case h_1 heq =>
        rw [heq] at hfirst
        exact avoids_error.mpr (avoids_error.mp hfirst)
      case h_2 => exact (ih _).map

theorem readTimes_succ_eq_ok {n : ℕ} {symbols rest : List β} {as : List α} :
    readTimes read (n + 1) symbols = .ok (as, rest) ↔
      ∃ a rest' as', read symbols = .ok (a, rest') ∧ readTimes read n rest' = .ok (as', rest) ∧
        as = a :: as' := by
  rw [readTimes]
  constructor
  · intro h
    split at h
    · cases h
    · rename_i a rest' hread
      cases hmany : readTimes read n rest' with
      | error e =>
          rw [hmany] at h
          cases h
      | ok found =>
          rw [hmany] at h
          cases h
          exact ⟨a, rest', found.1, hread, hmany, rfl⟩
  · rintro ⟨a, rest', as', hread, hmany, rfl⟩
    rw [hread]
    simp only [hmany]
    rfl

theorem Lossless.readTimes (h : Lossless valid write read) (n : ℕ) :
    Lossless (fun as => as.length = n ∧ ∀ a ∈ as, valid a) (fun as => as.flatMap write)
      (readTimes read n) := by
  induction n with
  | zero =>
      intro symbols as rest
      constructor
      · intro hread
        obtain ⟨rfl, rfl⟩ := Prod.mk.inj (Except.ok.inj hread)
        exact ⟨⟨rfl, nofun⟩, rfl⟩
      · rintro ⟨⟨hlength, -⟩, rfl⟩
        obtain rfl := List.length_eq_zero_iff.mp hlength
        rfl
  | succ n ih =>
      intro symbols as rest
      rw [readTimes_succ_eq_ok]
      constructor
      · rintro ⟨a, rest', as', hread, hmany, rfl⟩
        obtain ⟨ha, rfl⟩ := (h _ _ _).mp hread
        obtain ⟨⟨rfl, has⟩, rfl⟩ := (ih _ _ _).mp hmany
        refine ⟨⟨rfl, ?_⟩, ?_⟩
        · rintro b (_ | ⟨_, hb⟩)
          · exact ha
          · exact has b hb
        · simp only [List.flatMap_cons, List.append_assoc]
      · rintro ⟨⟨hlength, has⟩, rfl⟩
        obtain ⟨a, as, rfl⟩ := List.exists_cons_of_length_eq_add_one hlength
        refine ⟨a, as.flatMap write ++ rest, as, ?_, ?_, rfl⟩
        · simp only [List.flatMap_cons, List.append_assoc]
          exact (h _ _ _).mpr ⟨has a (.head _), rfl⟩
        · exact (ih _ _ _).mpr ⟨⟨Nat.succ.inj hlength, fun b hb => has b (.tail _ hb)⟩, rfl⟩

/-- A reader whose values are taken for values of another kind. -/
def readAs (f : α → γ) (read : List β → Except ε (α × List β)) (symbols : List β) :
    Except ε (γ × List β) :=
  (read symbols).map fun found => (f found.1, found.2)

theorem Lossless.readAs {f : α → γ} {g : γ → α} (h : Lossless (fun _ => True) write read)
    (hf : ∀ a, g (f a) = a) (hg : ∀ c, f (g c) = c) :
    Lossless (fun _ => True) (fun c => write (g c)) (readAs f read) := by
  intro symbols c rest
  rw [Library.readAs]
  constructor
  · intro hread
    cases hsymbols : read symbols with
    | error e =>
        rw [hsymbols] at hread
        cases hread
    | ok found =>
        rw [hsymbols] at hread
        obtain ⟨rfl, rfl⟩ := Prod.mk.inj (Except.ok.inj hread)
        obtain ⟨-, hsymbols⟩ := (h _ _ _).mp hsymbols
        refine ⟨trivial, ?_⟩
        simpa only [hf] using hsymbols
  · rintro ⟨-, rfl⟩
    rw [(h _ _ _).mpr ⟨trivial, rfl⟩]
    simp only [Except.map, hg]

end SynologyFilestation.Library
