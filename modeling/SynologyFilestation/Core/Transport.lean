import SynologyFilestation.Core.Error
import Mathlib.Data.List.Basic

/-!
Backends and the breakers that watch them (`core/src/transport.rs`, and the
fallback loop every client call starts with, `via_metadata!` and its siblings
in `core/src/client`). A backend is asked only while its breaker lets it; one
that declines or cannot be reached is stepped over, and the first that answers
is the answer.
-/

namespace SynologyFilestation.Core

structure BreakerConfig where
  failureThreshold : ℕ
  cooldown : ℕ
  deriving DecidableEq, Repr

/-- The default of `BreakerConfig`, in milliseconds. -/
def BreakerConfig.standard : BreakerConfig := { failureThreshold := 2, cooldown := 30000 }

inductive BreakerState
  | closed
  | opened (openedAt : ℕ)
  | halfOpen
  deriving DecidableEq, Repr

structure CircuitBreaker where
  config : BreakerConfig
  state : BreakerState
  consecutiveFailures : ℕ
  deriving DecidableEq, Repr

def CircuitBreaker.new (config : BreakerConfig) : CircuitBreaker :=
  { config := config, state := .closed, consecutiveFailures := 0 }

/-- `allows`: whether an attempt may be made at `now`. Past the cool-down the
breaker goes half-open and lets one trial out. -/
def CircuitBreaker.allows (b : CircuitBreaker) (now : ℕ) : Bool × CircuitBreaker :=
  match b.state with
  | .closed => (true, b)
  | .opened openedAt =>
      if b.config.cooldown ≤ now - openedAt then (true, { b with state := .halfOpen })
      else (false, b)
  | .halfOpen => (false, b)

def CircuitBreaker.onSuccess (b : CircuitBreaker) : CircuitBreaker :=
  { b with state := .closed, consecutiveFailures := 0 }

def CircuitBreaker.onFailure (b : CircuitBreaker) (now : ℕ) : CircuitBreaker :=
  match b.state with
  | .halfOpen => { b with state := .opened now }
  | _ =>
      let failures := b.consecutiveFailures + 1
      if b.config.failureThreshold ≤ failures then
        { b with consecutiveFailures := failures, state := .opened now }
      else { b with consecutiveFailures := failures }

/-- `TransportEntry`: an injected backend and its breaker. -/
structure TransportEntry (T : Type) where
  transport : T
  breaker : CircuitBreaker

/-- Whether a backend's result sends the call on to the next one: it declined,
or could not be reached. -/
def passesOn {α : Type} : Except SynoFsError α → Bool
  | .ok _ => false
  | .error e => e.category = .notSupported || e.category = .transport

section Ladder

variable {S T α : Type}

/-- The fallback loop. `call` asks one backend, `asked` and `told` are the
instants at which its breaker is consulted and told of a failure. The result
is `none` when no backend answered and the call goes on to HTTP. -/
def viaTransports (call : T → S → Except SynoFsError α × S) (asked told : T → S → ℕ) :
    List (TransportEntry T) → S →
      Option (Except SynoFsError α) × List (TransportEntry T) × S
  | [], s => (none, [], s)
  | entry :: rest, s =>
      match entry.breaker.allows (asked entry.transport s) with
      | (false, breaker) =>
          let (answer, rest, s) := viaTransports call asked told rest s
          (answer, { entry with breaker := breaker } :: rest, s)
      | (true, breaker) =>
          match call entry.transport s with
          | (.ok v, s) => (some (.ok v), { entry with breaker := breaker.onSuccess } :: rest, s)
          | (.error e, s) =>
              if e.category = .notSupported then
                let (answer, rest, s) := viaTransports call asked told rest s
                (answer, { entry with breaker := breaker.onSuccess } :: rest, s)
              else if e.category = .transport then
                let breaker := breaker.onFailure (told entry.transport s)
                let (answer, rest, s) := viaTransports call asked told rest s
                (answer, { entry with breaker := breaker } :: rest, s)
              else (some (.error e), { entry with breaker := breaker.onSuccess } :: rest, s)

@[simp] theorem viaTransports_nil (call : T → S → Except SynoFsError α × S)
    (asked told : T → S → ℕ) (s : S) : viaTransports call asked told [] s = (none, [], s) :=
  rfl

/-- **The ladder rule.** What every backend keeps while it is stepped over
holds when the ladder ends without an answer, and what every answer
establishes holds of the ladder's. -/
theorem viaTransports_rule (call : T → S → Except SynoFsError α × S) (asked told : T → S → ℕ)
    (P : S → Prop) (Q : Except SynoFsError α → S → Prop) {entries : List (TransportEntry T)}
    (hpass : ∀ entry ∈ entries, ∀ s, P s → passesOn (call entry.transport s).1 = true →
      P (call entry.transport s).2)
    (hanswer : ∀ entry ∈ entries, ∀ s, P s → passesOn (call entry.transport s).1 = false →
      Q (call entry.transport s).1 (call entry.transport s).2)
    {s : S} (hs : P s) :
    ((viaTransports call asked told entries s).1 = none →
      P (viaTransports call asked told entries s).2.2) ∧
    ∀ r, (viaTransports call asked told entries s).1 = some r →
      Q r (viaTransports call asked told entries s).2.2 := by
  induction entries generalizing s with
  | nil => exact ⟨fun _ => hs, by simp⟩
  | cons entry rest ih =>
      have ih' := fun {s} => ih (s := s) (fun e he => hpass e (List.mem_cons_of_mem _ he))
        (fun e he => hanswer e (List.mem_cons_of_mem _ he))
      have hp := hpass entry List.mem_cons_self s hs
      have ha := hanswer entry List.mem_cons_self s hs
      rw [viaTransports]
      cases entry.breaker.allows (asked entry.transport s) with
      | mk allowed breaker =>
          cases allowed with
          | false => exact ih' hs
          | true =>
              cases hcall : call entry.transport s with
              | mk r s' =>
                  rw [hcall] at hp ha
                  cases r with
                  | ok v => exact ⟨by simp, fun r hr => by cases hr; exact ha rfl⟩
                  | error e =>
                      simp only [passesOn, Bool.or_eq_true, decide_eq_true_eq,
                        Bool.or_eq_false_iff, decide_eq_false_iff_not] at hp ha
                      by_cases hdecl : e.category = .notSupported
                      · simp only [hdecl, if_true]
                        exact ih' (hp (Or.inl hdecl))
                      · by_cases hdead : e.category = .transport
                        · simp only [hdead, if_true, reduceCtorEq, if_false]
                          exact ih' (hp (Or.inr hdead))
                        · simp only [hdecl, hdead, if_false]
                          exact ⟨by simp, fun r hr => by cases hr; exact ha ⟨hdecl, hdead⟩⟩

/-- Backends that are all stepped over without effect leave the call to HTTP. -/
theorem viaTransports_passed (call : T → S → Except SynoFsError α × S) (asked told : T → S → ℕ)
    {entries : List (TransportEntry T)} {s : S}
    (hpass : ∀ entry ∈ entries, passesOn (call entry.transport s).1 = true ∧
      (call entry.transport s).2 = s) :
    ∃ entries', viaTransports call asked told entries s = (none, entries', s) := by
  obtain ⟨hnone, hsome⟩ := viaTransports_rule call asked told (· = s) (fun _ _ => False)
    (fun entry hentry s' hs' _ => by rw [hs']; exact (hpass entry hentry).2)
    (fun entry hentry s' hs' hfinal => by
      rw [hs', (hpass entry hentry).1] at hfinal
      cases hfinal) rfl
  cases hcall : viaTransports call asked told entries s with
  | mk answer rest =>
      rw [hcall] at hnone hsome
      cases answer with
      | none => exact ⟨rest.1, by rw [← hnone rfl]⟩
      | some r => exact (hsome r rfl).elim

/-- Half-open breakers let nothing through. -/
theorem viaTransports_unasked (call : T → S → Except SynoFsError α × S) (asked told : T → S → ℕ)
    {entries : List (TransportEntry T)} (s : S)
    (hhalf : ∀ entry ∈ entries, entry.breaker.state = .halfOpen) :
    viaTransports call asked told entries s = (none, entries, s) := by
  induction entries with
  | nil => rfl
  | cons entry rest ih =>
      rw [viaTransports, CircuitBreaker.allows, hhalf entry List.mem_cons_self]
      simp only [ih fun e he => hhalf e (List.mem_cons_of_mem _ he)]

end Ladder

end SynologyFilestation.Core
