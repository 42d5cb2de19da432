import Mathlib.Logic.Basic

/-!
Runs of a labelled step relation.

A run condition says which events may happen in which states. `Reaches` is what
a system reaches by steps that all meet the condition, and `Reaches.invariant`
is the one induction over runs: a property of the initial state that every such
step keeps holds in every state reached.
-/

namespace SynologyFilestation.Library

variable {σ ε : Type*} {step : σ → ε → σ → Prop} {meets meets' : σ → ε → Prop} {init : σ}

/-- What the system reaches from `init` by steps that meet the condition. -/
inductive Reaches (step : σ → ε → σ → Prop) (meets : σ → ε → Prop) (init : σ) : σ → Prop
  | start : Reaches step meets init init
  | next {s t : σ} {e : ε} (before : Reaches step meets init s) (allowed : meets s e)
      (h : step s e t) : Reaches step meets init t

/-- No condition on the run. -/
def unrestricted : σ → ε → Prop := fun _ _ => True

theorem Reaches.invariant {P : σ → Prop} (hinit : P init)
    (hstep : ∀ {s e t}, P s → meets s e → step s e t → P t) {s : σ}
    (h : Reaches step meets init s) : P s := by
  induction h with
  | start => exact hinit
  | next _ allowed h ih => exact hstep ih allowed h

/-- Steps that meet one condition meet another, where an invariant of the run says so. -/
theorem Reaches.imp_meets {P : σ → Prop} (hinit : P init)
    (hstep : ∀ {s e t}, P s → meets s e → step s e t → P t)
    (himp : ∀ {s e}, P s → meets s e → meets' s e) {s : σ} (h : Reaches step meets init s) :
    Reaches step meets' init s := by
  induction h with
  | start => exact .start
  | next before allowed h ih => exact ih.next (himp (before.invariant hinit hstep) allowed) h

/-- A system whose next state is a function of the event: every event of a run is one that
`P` allows where it happens. -/
def EveryStep (after : σ → ε → σ) (P : σ → ε → Prop) : σ → List ε → Prop
  | _, [] => True
  | s, e :: events => P s e ∧ EveryStep after P (after s e) events

instance EveryStep.decidable {after : σ → ε → σ} {P : σ → ε → Prop} [∀ s e, Decidable (P s e)] :
    ∀ s events, Decidable (EveryStep after P s events)
  | _, [] => .isTrue trivial
  | s, e :: events =>
      @instDecidableAnd _ _ _ (EveryStep.decidable (after s e) events)

theorem everyStep_unrestricted (after : σ → ε → σ) (s : σ) (events : List ε) :
    EveryStep after unrestricted s events := by
  induction events generalizing s with
  | nil => trivial
  | cons e events ih => exact ⟨trivial, ih (after s e)⟩

theorem EveryStep.imp {after : σ → ε → σ} {P Q : σ → ε → Prop} {I : σ → Prop}
    (hstep : ∀ {s e}, I s → P s e → I (after s e)) (himp : ∀ {s e}, I s → P s e → Q s e) {s : σ}
    (hs : I s) {events : List ε} (h : EveryStep after P s events) :
    EveryStep after Q s events := by
  induction events generalizing s with
  | nil => trivial
  | cons e events ih => exact ⟨himp hs h.1, ih (hstep hs h.1) h.2⟩

/-- What is the same in every state of a run is the same of the run. The states are those
that steps meeting the first of the two lead to. -/
theorem everyStep_iff_of_met {after : σ → ε → σ} {P Q : σ → ε → Prop} {I : σ → Prop}
    (hstep : ∀ {s e}, I s → P s e → I (after s e)) (hsame : ∀ {s e}, I s → (P s e ↔ Q s e)) {s : σ}
    (hs : I s) (events : List ε) : EveryStep after P s events ↔ EveryStep after Q s events :=
  ⟨EveryStep.imp (I := I) hstep (fun hs h => (hsame hs).mp h) hs,
    EveryStep.imp (I := I) (fun hs h => hstep hs ((hsame hs).mpr h)) (fun hs h => (hsame hs).mpr h)
      hs⟩

theorem everyStep_iff {after : σ → ε → σ} {P Q : σ → ε → Prop} {I : σ → Prop}
    (hstep : ∀ {s e}, I s → I (after s e)) (hsame : ∀ {s e}, I s → (P s e ↔ Q s e)) {s : σ}
    (hs : I s) (events : List ε) : EveryStep after P s events ↔ EveryStep after Q s events :=
  everyStep_iff_of_met (fun hs _ => hstep hs) hsame hs events

/-- A run of such events reaches where it ends. -/
theorem Reaches.events {after : σ → ε → σ} {s : σ} {events : List ε}
    (h : Reaches (fun s e t => t = after s e) meets init s)
    (hevents : EveryStep after meets s events) :
    Reaches (fun s e t => t = after s e) meets init (events.foldl after s) := by
  induction events generalizing s with
  | nil => exact h
  | cons e events ih => exact ih (h.next hevents.1 rfl) hevents.2

end SynologyFilestation.Library
