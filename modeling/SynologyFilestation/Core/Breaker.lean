import SynologyFilestation.Core.Transport
import SynologyFilestation.Library.Table
import SynologyFilestation.Library.Transition

/-!
Breakers under operations that may end at any await. Every ladder of the client
(`via_metadata!`, `download`, `upload` and their siblings) asks an entry's breaker,
waits for the backend and tells the breaker what came of it. An operation that is
dropped while it waits tells nothing.

A half-open breaker refuses everyone until it is told, and has no clock of its own.
-/

namespace SynologyFilestation.Core

open Function Library

/-- What every ladder tells the breaker of an entry it has asked. -/
def CircuitBreaker.told (b : CircuitBreaker) (r : Except SynoFsError Unit) (now : ℕ) :
    CircuitBreaker :=
  match r with
  | .ok () => b.onSuccess
  | .error e =>
      if e.category = .notSupported then b.onSuccess
      else if e.category = .transport then b.onFailure now
      else b.onSuccess

theorem CircuitBreaker.onFailure_ne_halfOpen (b : CircuitBreaker) (now : ℕ) :
    (b.onFailure now).state ≠ .halfOpen := by
  unfold onFailure
  split
  · nofun
  case h_2 hstate =>
    rw [apply_ite CircuitBreaker.state]
    split
    · nofun
    · exact fun h => hstate h

/-- After a verdict nobody is on trial. -/
theorem CircuitBreaker.told_ne_halfOpen (b : CircuitBreaker) (r : Except SynoFsError Unit)
    (now : ℕ) : (b.told r now).state ≠ .halfOpen := by
  unfold told
  split
  · nofun
  · split
    · nofun
    · split
      · exact b.onFailure_ne_halfOpen now
      · nofun

/-- A breaker that is half-open once it was asked has let the asker out, or someone before. -/
theorem CircuitBreaker.allows_halfOpen {b : CircuitBreaker} {now : ℕ}
    (h : (b.allows now).2.state = .halfOpen) :
    (b.allows now).1 = true ∨ b.state = .halfOpen := by
  unfold allows at h ⊢
  split at h
  · exact .inl rfl
  · split at h
    · exact .inl (by rw [if_pos ‹_›])
    · exact .inr h
  · exact .inr h

theorem CircuitBreaker.allows_of_halfOpen {b : CircuitBreaker} (h : b.state = .halfOpen)
    (now : ℕ) : b.allows now = (false, b) := by
  rw [allows, h]

section Ladder

variable {S T α : Type}

/-- Nothing that was asked is left half-open, entry by entry. -/
def Settled (before after : TransportEntry T) : Prop :=
  after.breaker.state = .halfOpen → before.breaker.state = .halfOpen

theorem settled_refl (entries : List (TransportEntry T)) :
    List.Forall₂ Settled entries entries := by
  induction entries with
  | nil => exact .nil
  | cons entry entries ih => exact .cons id ih

/-- A ladder that is not dropped settles what it asks. -/
theorem viaTransports_settles (call : T → S → Except SynoFsError α × S) (asked heard : T → S → ℕ)
    (entries : List (TransportEntry T)) (s : S) :
    List.Forall₂ Settled entries (viaTransports call asked heard entries s).2.1 := by
  induction entries generalizing s with
  | nil => exact .nil
  | cons entry rest ih =>
      rw [viaTransports]
      have hallows := @CircuitBreaker.allows_halfOpen entry.breaker (asked entry.transport s)
      cases hasked : entry.breaker.allows (asked entry.transport s) with
      | mk allowed breaker =>
          rw [hasked] at hallows
          cases allowed with
          | false => exact .cons (fun h => (hallows h).resolve_left (by rintro ⟨⟩)) (ih s)
          | true =>
              cases hcall : call entry.transport s with
              | mk r s' =>
                  cases r with
                  | ok v => exact .cons (by rintro ⟨⟩) (settled_refl rest)
                  | error e =>
                      by_cases hdeclined : e.category = .notSupported
                      · simp only [hdeclined, if_true]
                        exact .cons (by rintro ⟨⟩) (ih s')
                      · by_cases hdead : e.category = .transport
                        · simp only [hdead, if_true, reduceCtorEq, if_false]
                          exact .cons (fun h => (breaker.onFailure_ne_halfOpen _ h).elim) (ih s')
                        · simp only [hdeclined, hdead, if_false]
                          exact .cons (by rintro ⟨⟩) (settled_refl rest)

end Ladder

/-! ### Operations -/

/-- Where an operation is on its ladder: before the entries still to be asked, or
waiting for what it asked one of them. -/
inductive LadderOp
  | asking (rest : List ℕ)
  | waiting (entry : ℕ) (rest : List ℕ)
  | past
  deriving DecidableEq

/-- The breakers of all entries, and the operations. -/
structure Ladders where
  breakers : ℕ → CircuitBreaker
  ops : ℕ → Option LadderOp
  now : ℕ

def Ladders.new (config : ℕ → BreakerConfig) : Ladders :=
  ⟨fun i => .new (config i), fun _ => none, 0⟩

def Ladders.setOp (s : Ladders) (n : ℕ) (op : LadderOp) : Ladders :=
  { s with ops := update s.ops n (some op) }

def Ladders.setBreaker (s : Ladders) (i : ℕ) (b : CircuitBreaker) : Ladders :=
  { s with breakers := update s.breakers i b }

@[simp] theorem Ladders.breakers_setOp (s : Ladders) (n : ℕ) (op : LadderOp) :
    (s.setOp n op).breakers = s.breakers := rfl

@[simp] theorem Ladders.breakers_setBreaker (s : Ladders) (i : ℕ) (b : CircuitBreaker) :
    (s.setBreaker i b).breakers = update s.breakers i b := rfl

inductive LadderEvent
  | start (n : ℕ)
  | ask (n : ℕ)
  | answer (n : ℕ) (r : Except SynoFsError Unit)
  | onward (n : ℕ)
  | drop (n : ℕ)
  | wait (time : ℕ)

inductive LadderStep : Ladders → LadderEvent → Ladders → Prop
  | start {s : Ladders} (n : ℕ) (entries : List ℕ) (hn : s.ops n = none) :
      LadderStep s (.start n) (s.setOp n (.asking entries))
  | allowed {s : Ladders} {n i : ℕ} {rest : List ℕ} (hn : s.ops n = some (.asking (i :: rest)))
      (hallows : ((s.breakers i).allows s.now).1 = true) :
      LadderStep s (.ask n)
        ((s.setBreaker i ((s.breakers i).allows s.now).2).setOp n (.waiting i rest))
  | skipped {s : Ladders} {n i : ℕ} {rest : List ℕ} (hn : s.ops n = some (.asking (i :: rest)))
      (hallows : ((s.breakers i).allows s.now).1 = false) :
      LadderStep s (.ask n)
        ((s.setBreaker i ((s.breakers i).allows s.now).2).setOp n (.asking rest))
  | answer {s : Ladders} {n i : ℕ} {rest : List ℕ} (r : Except SynoFsError Unit)
      (hn : s.ops n = some (.waiting i rest)) :
      LadderStep s (.answer n r) ((s.setBreaker i ((s.breakers i).told r s.now)).setOp n
        (if passesOn r then .asking rest else .past))
  -- HTTP, or nothing more to ask.
  | onward {s : Ladders} {n : ℕ} (hn : s.ops n = some (.asking [])) :
      LadderStep s (.onward n) (s.setOp n .past)
  -- The future is gone, wherever it was.
  | drop {s : Ladders} {n : ℕ} {op : LadderOp} (hn : s.ops n = some op) :
      LadderStep s (.drop n) (s.setOp n .past)
  | wait {s : Ladders} (time : ℕ) : LadderStep s (.wait time) { s with now := s.now + time }

/-- Nobody drops what a half-open breaker waits for. -/
def Attended (s : Ladders) : LadderEvent → Prop
  | .drop n => ∀ i rest, s.ops n = some (.waiting i rest) → (s.breakers i).state = .halfOpen →
      ∃ m rest', m ≠ n ∧ s.ops m = some (.waiting i rest')
  | _ => True

/-- An operation waits at the entry. -/
def Ladders.Waits (s : Ladders) (i : ℕ) : Prop := ∃ n rest, s.ops n = some (.waiting i rest)

/-- A half-open breaker has let out an operation that is still waiting. -/
def Ladders.Trialled (s : Ladders) : Prop :=
  ∀ i, (s.breakers i).state = .halfOpen → s.Waits i

section Runs

variable {config : ℕ → BreakerConfig} {s s' : Ladders} {n i j : ℕ} {op op' : LadderOp}
  {b : CircuitBreaker} {e : LadderEvent}

theorem trialled_new (config : ℕ → BreakerConfig) : (Ladders.new config).Trialled :=
  fun _ h => by cases h

/-- An operation moves that was not waiting at the entry. -/
theorem Ladders.Waits.setOp (h : s.Waits i) (hn : ∀ rest, s.ops n ≠ some (.waiting i rest))
    (op : LadderOp) : (s.setOp n op).Waits i := by
  obtain ⟨m, rest, hm⟩ := h
  have hne : m ≠ n := by
    rintro rfl
    exact hn rest hm
  exact ⟨m, rest, (update_of_ne hne ..).trans hm⟩

/-- An operation moves that was waiting nowhere. -/
theorem Ladders.Trialled.setOp (h : s.Trialled) (hn : ∀ i rest, s.ops n ≠ some (.waiting i rest))
    (op : LadderOp) : (s.setOp n op).Trialled :=
  fun i hi => (h i hi).setOp (hn i) op

/-- Any step: only a drop may leave a breaker half-open with nobody waiting. -/
theorem Ladders.Trialled.step (h : s.Trialled) (hmeets : Attended s e) (hstep : LadderStep s e s') :
    s'.Trialled := by
  cases hstep with
  | start n entries hn => exact h.setOp (by rw [hn]; nofun) _
  | @allowed n i rest hn hallows =>
      intro j hj
      rcases eq_or_ne j i with rfl | hne
      · exact ⟨n, rest, update_self ..⟩
      · have hold : (s.breakers j).state = .halfOpen := by
          rwa [Ladders.breakers_setOp, Ladders.breakers_setBreaker, update_of_ne hne] at hj
        exact (h j hold).setOp (by rw [hn]; nofun) _
  | @skipped n i rest hn hallows =>
      intro j hj
      have hold : (s.breakers j).state = .halfOpen := by
        rcases eq_or_ne j i with rfl | hne
        · rw [Ladders.breakers_setOp, Ladders.breakers_setBreaker, update_self] at hj
          exact (CircuitBreaker.allows_halfOpen hj).resolve_left (by simp [hallows])
        · rwa [Ladders.breakers_setOp, Ladders.breakers_setBreaker, update_of_ne hne] at hj
      exact (h j hold).setOp (by rw [hn]; nofun) _
  | @answer n i rest r hn =>
      intro j hj
      rcases eq_or_ne j i with rfl | hne
      · rw [Ladders.breakers_setOp, Ladders.breakers_setBreaker, update_self] at hj
        exact (CircuitBreaker.told_ne_halfOpen _ _ _ hj).elim
      · rw [Ladders.breakers_setOp, Ladders.breakers_setBreaker, update_of_ne hne] at hj
        refine (h j hj).setOp ?_ _
        rw [hn]
        rintro rest' ⟨⟩
        exact hne rfl
  | onward hn => exact h.setOp (by rw [hn]; nofun) _
  | @drop n op hn =>
      intro j hj
      by_cases hwaits : ∃ rest, s.ops n = some (.waiting j rest)
      · obtain ⟨rest, hrest⟩ := hwaits
        obtain ⟨m, rest', hne, hm⟩ := hmeets j rest hrest hj
        exact ⟨m, rest', (update_of_ne hne ..).trans hm⟩
      · exact (h j hj).setOp (fun rest hrest => hwaits ⟨rest, hrest⟩) _
  | wait time => exact h

/-- A breaker is left half-open, with nobody to tell it. -/
def Ladders.Stranded (i : ℕ) (s : Ladders) : Prop :=
  (s.breakers i).state = .halfOpen ∧ ¬s.Waits i

/-- It takes a waiting operation to leave the state, and the breaker lets none out. -/
theorem Ladders.Stranded.step (h : s.Stranded i) (hstep : LadderStep s e s') : s'.Stranded i := by
  have hwaits : ∀ {n op}, (∀ rest, op ≠ .waiting i rest) → ¬(s.setOp n op).Waits i := by
    rintro n op hop ⟨m, rest, hm⟩
    rcases update_eq_some hm with ⟨_, rfl⟩ | ⟨_, hold⟩
    · exact hop rest rfl
    · exact h.2 ⟨m, rest, hold⟩
  cases hstep with
  | start n entries hn => exact ⟨h.1, hwaits nofun⟩
  | @allowed n j rest hn hallows =>
      have hne : i ≠ j := by
        rintro rfl
        rw [CircuitBreaker.allows_of_halfOpen h.1] at hallows
        cases hallows
      refine ⟨?_, hwaits (by rintro rest' ⟨⟩; exact hne rfl)⟩
      rw [Ladders.breakers_setOp, Ladders.breakers_setBreaker, update_of_ne hne]
      exact h.1
  | @skipped n j rest hn hallows =>
      refine ⟨?_, hwaits nofun⟩
      rw [Ladders.breakers_setOp, Ladders.breakers_setBreaker]
      rcases eq_or_ne i j with rfl | hne
      · rw [update_self, CircuitBreaker.allows_of_halfOpen h.1]
        exact h.1
      · rw [update_of_ne hne]
        exact h.1
  | @answer n j rest r hn =>
      have hne : i ≠ j := by
        rintro rfl
        exact h.2 ⟨n, rest, hn⟩
      refine ⟨?_, hwaits (by split <;> nofun)⟩
      rw [Ladders.breakers_setOp, Ladders.breakers_setBreaker, update_of_ne hne]
      exact h.1
  | onward hn => exact ⟨h.1, hwaits nofun⟩
  | drop hn => exact ⟨h.1, hwaits nofun⟩
  | wait time => exact h

/-- **A stranded breaker is stranded for good**: no run leads out of it. -/
theorem stranded_for_good (h : s.Stranded i) (hrun : Reaches LadderStep unrestricted s s') :
    s'.Stranded i :=
  hrun.invariant h fun ht _ hstep => ht.step hstep

variable (config s)

/-- **A half-open breaker has its trial out**, as long as nobody drops the operations
it waits for, and whatever the backend answers settles it. -/
theorem halfOpen_on_trial (h : Reaches LadderStep Attended (.new config) s) :
    ∀ i, (s.breakers i).state = .halfOpen → ∃ n rest, s.ops n = some (.waiting i rest) ∧
      ∀ r s', LadderStep s (.answer n r) s' → (s'.breakers i).state ≠ .halfOpen := by
  intro i hi
  have hs : s.Trialled :=
    h.invariant (trialled_new config) fun ht hmeets hstep => ht.step hmeets hstep
  obtain ⟨n, rest, hn⟩ := hs i hi
  refine ⟨n, rest, hn, fun r s' hstep => ?_⟩
  cases hstep with
  | @answer _ j rest' _ hj =>
      obtain ⟨rfl, rfl⟩ := LadderOp.waiting.inj (Option.some.inj (hn.symm.trans hj))
      rw [Ladders.breakers_setOp, Ladders.breakers_setBreaker, update_self]
      exact CircuitBreaker.told_ne_halfOpen _ r s.now

end Runs

/-! ### A trial, and one that is dropped -/

def standardEntries : ℕ → BreakerConfig := fun _ => .standard

/-- Two reads fail, and the first after the cool-down is out on trial. -/
theorem trial_out :
    ∃ s, Reaches LadderStep Attended (.new standardEntries) s ∧
      (s.breakers 0).state = .halfOpen ∧ s.ops 2 = some (.waiting 0 []) ∧
      ∀ n rest, s.ops n = some (.waiting 0 rest) → n = 2 := by
  have h := (Reaches.start : Reaches LadderStep Attended (.new standardEntries) _)
  have h := h.next (by trivial) (@LadderStep.start _ 0 [0] rfl)
  have h := h.next (by trivial) (@LadderStep.allowed _ 0 0 [] rfl rfl)
  have h := h.next (by trivial) (@LadderStep.answer _ 0 0 [] (.error (.io "timed out")) rfl)
  have h := h.next (by trivial) (@LadderStep.start _ 1 [0] rfl)
  have h := h.next (by trivial) (@LadderStep.allowed _ 1 0 [] rfl rfl)
  have h := h.next (by trivial) (@LadderStep.answer _ 1 0 [] (.error (.io "timed out")) rfl)
  have h := h.next (by trivial) (@LadderStep.wait _ 30000)
  have h := h.next (by trivial) (@LadderStep.start _ 2 [0] rfl)
  have h := h.next (by trivial) (@LadderStep.allowed _ 2 0 [] rfl rfl)
  refine ⟨_, h, rfl, rfl, fun n rest hn => ?_⟩
  by_contra htrial
  rcases eq_or_ne n 0 with rfl | hfirst
  · cases hn
  · rcases eq_or_ne n 1 with rfl | hsecond
    · cases hn
    · simp [Ladders.setOp, Ladders.setBreaker, Ladders.new, hfirst, hsecond, htrial] at hn

/-- The trial's verdict is still to come. -/
theorem trial_is_waited_for :
    ∃ s, (s.breakers 0).state = .halfOpen ∧ ∃ n rest, s.ops n = some (.waiting 0 rest) ∧
      ∀ r s', LadderStep s (.answer n r) s' → (s'.breakers 0).state ≠ .halfOpen := by
  obtain ⟨s, h, hstate, -, -⟩ := trial_out
  exact ⟨s, hstate, halfOpen_on_trial _ s h 0 hstate⟩

/-- The read is a prefetch, and its file is closed. -/
theorem dropped_trial_disables :
    ∃ s, Reaches LadderStep unrestricted (.new standardEntries) s ∧
      (s.breakers 0).state = .halfOpen ∧ ¬s.Waits 0 ∧
      ∀ s', Reaches LadderStep unrestricted s s' →
        ∀ now, ((s'.breakers 0).allows now).1 = false := by
  obtain ⟨s, h, hstate, htrial, honly⟩ := trial_out
  have hrun : Reaches LadderStep unrestricted (.new standardEntries) s :=
    h.imp_meets (P := fun _ => True) trivial (fun _ _ _ => trivial) fun _ _ => trivial
  have hdropped := hrun.next (by trivial) (LadderStep.drop htrial)
  have hstranded : (s.setOp 2 .past).Stranded 0 := by
    refine ⟨hstate, ?_⟩
    rintro ⟨n, rest, hn⟩
    rcases update_eq_some hn with ⟨_, hpast⟩ | ⟨hne, hold⟩
    · cases hpast
    · exact hne (honly n rest hold)
  refine ⟨_, hdropped, hstranded.1, hstranded.2, fun s' hs' now => ?_⟩
  rw [CircuitBreaker.allows_of_halfOpen (stranded_for_good hstranded hs').1]

end SynologyFilestation.Core
