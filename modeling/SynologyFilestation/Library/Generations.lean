import Mathlib.Logic.Basic
import Mathlib.Data.List.Basic

/-!
Generations that follow one another, named by keys that come round again.

One generation is in charge, another may be on its way to replace it. A generation
that is given up for the next one is not taken up again before a replacement. A
follower keeps something of its own for either generation, and is told about a new
one later than it started.
-/

namespace SynologyFilestation.Library

/-- A generation has a key, which others may have at other times, and a number of its own. -/
@[ext] structure Generation (κ : Type*) where
  key : κ
  number : ℕ

structure Generations (κ : Type*) where
  primary : Generation κ
  pending : Option (Generation κ)
  superseded : List κ
  count : ℕ

variable {κ : Type*}

namespace Generations

/-- The generation of a key that is nobody's and was not given up may start. -/
def Starts (g : Generations κ) (key : κ) : Prop :=
  key ≠ g.primary.key ∧ (∀ pending, g.pending = some pending → pending.key ≠ key) ∧
    key ∉ g.superseded

/-- It replaces the one that was on its way. -/
def adopt (g : Generations κ) (key : κ) : Generations κ :=
  { g with
    pending := some ⟨key, g.count + 1⟩
    superseded := g.superseded ++ (g.pending.map Generation.key).toList
    count := g.count + 1 }

/-- Nothing happens, or a new generation starts. -/
inductive Starting (g : Generations κ) : Generations κ → Prop
  | same : Starting g g
  | adopted {key : κ} (h : g.Starts key) : Starting g (g.adopt key)

/-- The one on its way takes charge. -/
def replace (g : Generations κ) (next : Generation κ) : Generations κ :=
  { g with primary := next, pending := none, superseded := [] }

structure Consistent (g : Generations κ) : Prop where
  other {pending} : g.pending = some pending → pending.key ≠ g.primary.key
  fresh {pending} : g.pending = some pending → pending.key ∉ g.superseded
  later {pending} : g.pending = some pending →
    g.primary.number < pending.number ∧ pending.number ≤ g.count
  begun : g.primary.number ≤ g.count
  given {key} : key ∈ g.superseded → key ≠ g.primary.key

variable {g : Generations κ} {key : κ} {next : Generation κ}

theorem Consistent.adopt (h : g.Consistent) (hstarts : g.Starts key) :
    (g.adopt key).Consistent where
  other := by
    rintro _ ⟨⟩
    exact hstarts.1
  fresh := by
    rintro _ ⟨⟩ hmem
    rcases List.mem_append.mp hmem with hold | hnew
    · exact hstarts.2.2 hold
    · obtain ⟨pending, hpending, hkey⟩ := Option.map_eq_some_iff.mp (Option.mem_toList.mp hnew)
      exact hstarts.2.1 pending hpending hkey
  later := by
    rintro _ ⟨⟩
    exact ⟨Nat.lt_succ_of_le h.begun, Nat.le_refl _⟩
  begun := Nat.le_succ_of_le h.begun
  given hmem := by
    rcases List.mem_append.mp hmem with hold | hnew
    · exact h.given hold
    · obtain ⟨pending, hpending, rfl⟩ := Option.map_eq_some_iff.mp (Option.mem_toList.mp hnew)
      exact h.other hpending

theorem Consistent.starting {g' : Generations κ} (h : g.Consistent) (hstarting : g.Starting g') :
    g'.Consistent := by
  cases hstarting with
  | same => exact h
  | adopted hstarts => exact h.adopt hstarts

theorem Consistent.replace (h : g.Consistent) (hnext : g.pending = some next) :
    (g.replace next).Consistent where
  other := nofun
  fresh := nofun
  later := nofun
  begun := (h.later hnext).2
  given := nofun

/-- What was given up stays given up. -/
theorem superseded_adopt : g.superseded ⊆ (g.adopt key).superseded :=
  List.subset_append_left ..

theorem Starting.primary {g' : Generations κ} (h : g.Starting g') : g'.primary = g.primary := by
  cases h <;> rfl

theorem Starting.superseded {g' : Generations κ} (h : g.Starting g') :
    g.superseded ⊆ g'.superseded := by
  cases h with
  | same => exact List.Subset.refl _
  | adopted => exact superseded_adopt

/-- One that was on its way still is, or was given up. -/
theorem Starting.pending {g' : Generations κ} (h : g.Starting g') (hnext : g.pending = some next) :
    g'.pending = some next ∨ next.key ∈ g'.superseded := by
  cases h with
  | same => exact .inl hnext
  | adopted =>
      refine .inr (List.mem_append_right _ (Option.mem_toList.mpr ?_))
      rw [hnext]
      rfl

end Generations

/-- The generations, and a follower: for which generation is what it keeps for the one in
charge, and for which the candidate it has for the one on its way. -/
structure Followed (κ : Type*) where
  generations : Generations κ
  kept : ℕ
  candidate : Option (Generation κ)

namespace Followed

/-- The candidate is for the generation on its way. -/
def InStep (x : Followed κ) : Prop := x.candidate = x.generations.pending

/-- What the follower keeps is for the generation in charge, and its candidate is not for
one that is on its way without being told apart from it. -/
structure Sound (x : Followed κ) : Prop where
  consistent : x.generations.Consistent
  kept : x.kept = x.generations.primary.number
  candidate {c} : x.candidate = some c → x.generations.pending = some c ∨
    x.generations.pending.isSome ∧ c.key ∈ x.generations.superseded

variable {x : Followed κ} {key : κ} {next c : Generation κ}

theorem Sound.adopt (h : x.Sound) (hstarts : x.generations.Starts key) :
    Sound { x with generations := x.generations.adopt key } where
  consistent := h.consistent.adopt hstarts
  kept := h.kept
  candidate hc := by
    refine .inr ⟨rfl, ?_⟩
    rcases h.candidate hc with hpending | ⟨-, hmem⟩
    · refine List.mem_append_right _ (Option.mem_toList.mpr ?_)
      rw [hpending]
      rfl
    · exact Generations.superseded_adopt hmem

theorem Sound.starting {g : Generations κ} (h : x.Sound) (hstarting : x.generations.Starting g) :
    Sound { x with generations := g } := by
  cases hstarting with
  | same => exact h
  | adopted hstarts => exact h.adopt hstarts

/-- The follower is told. -/
theorem Sound.follow (h : x.Sound) : Sound { x with candidate := x.generations.pending } :=
  { h with candidate := fun hc => .inl hc }

/-- A candidate that has the key of the generation on its way is for it. -/
theorem Sound.eq_of_key (h : x.Sound) (hc : x.candidate = some c)
    (hpending : x.generations.pending = some next) (hkey : c.key = next.key) : c = next := by
  rcases h.candidate hc with heq | ⟨-, hmem⟩
  · exact Option.some.inj (heq.symm.trans hpending)
  · exact absurd (hkey ▸ hmem) (h.consistent.fresh hpending)

theorem Sound.candidate_none (h : x.Sound) (hpending : x.generations.pending = none) :
    x.candidate = none := by
  rcases hc : x.candidate with _ | c
  · rfl
  · rcases h.candidate hc with heq | ⟨hsome, -⟩
    · exact absurd (hpending.symm.trans heq) nofun
    · rw [hpending] at hsome
      cases hsome

/-- A candidate does not have the key of the generation in charge. -/
theorem Sound.candidate_ne (h : x.Sound) (hc : x.candidate = some c) :
    c.key ≠ x.generations.primary.key := by
  rcases h.candidate hc with heq | ⟨-, hmem⟩
  · exact h.consistent.other heq
  · exact h.consistent.given hmem

/-- For which generation is what serves a key: the candidate if it has the key, and otherwise
what is kept. -/
def served [DecidableEq κ] (x : Followed κ) (key : κ) : ℕ :=
  match x.candidate with
  | some c => if c.key = key then c.number else x.kept
  | none => x.kept

theorem Sound.served_primary [DecidableEq κ] (h : x.Sound) :
    x.served x.generations.primary.key = x.generations.primary.number := by
  unfold served
  split
  case h_1 c hc =>
    rw [if_neg (h.candidate_ne hc)]
    exact h.kept
  case h_2 => exact h.kept

/-- **The generation on its way is served by what is for it** exactly if the follower is in
step: what serves it otherwise is for the one in charge. -/
theorem Sound.served_pending [DecidableEq κ] (h : x.Sound)
    (hnext : x.generations.pending = some next) : x.served next.key = next.number ↔ x.InStep := by
  have hlater : x.kept ≠ next.number := by
    rw [h.kept]
    exact Nat.ne_of_lt (h.consistent.later hnext).1
  unfold served InStep
  split
  case h_1 c hc =>
    split
    case isTrue hkey =>
      obtain rfl := h.eq_of_key hc hnext hkey
      exact iff_of_true rfl (hc.trans hnext.symm)
    case isFalse hkey =>
      refine iff_of_false hlater fun hstep => hkey ?_
      rw [Option.some.inj (hc.symm.trans (hstep.trans hnext))]
  case h_2 hc =>
    refine iff_of_false hlater fun hstep => ?_
    rw [hc, hnext] at hstep
    cases hstep

/-- Generation and candidate take over together. -/
theorem Sound.replace (h : x.Sound) (hstep : x.InStep) (hc : x.candidate = some c) :
    Sound ⟨x.generations.replace c, c.number, none⟩ where
  consistent := h.consistent.replace (hstep.symm.trans hc)
  kept := rfl
  candidate := nofun

end Followed

end SynologyFilestation.Library
