import SynologyFilestation.Library.Transition
import SynologyFilestation.Library.Table
import Mathlib.Data.List.Basic
import Mathlib.Data.Nat.Notation

/-!
The gate in front of logins (`AuthGate` in `smb/src/probe.rs`). The appliance
counts refused logins and blocks the address after a few, so a refusal is
remembered and not asked for again until a cool-down has passed. An account's
dials queue on the lock of its slot, held by a dial whose outcome nobody knows;
the ones behind it look at how it ended.

The steps are what is done without waiting: between two of them other dials
run. The slot of one account is modelled; dials for other accounts show in the
sweeps they make. `accepts` is the server's verdict on the credentials.
`strikes` is no part of the gate: it lists the refusals the server has counted.
-/

namespace SynologyFilestation.Smb

open Function Library

/-- What a dial runs on. -/
inductive Route
  | address
  | stream
  deriving DecidableEq

/-- A refused login, and when. -/
structure Refusal where
  time : ℕ
  why : String

/-- How the last dial that held the lock ended: accepted, or why the link could
not be reached. -/
structure Outcome where
  time : ℕ
  route : Route
  unreachable : Option String

/-- What the gate knows about the account. -/
structure Slot where
  refusal : Option Refusal
  last : Option Outcome

inductive FallbackKind
  | authRefused
  | authCooldown
  | unreachable
  deriving DecidableEq

inductive DialResult
  | ok
  | failed (why : String)
  | fallback (kind : FallbackKind) (why : String)

inductive DialPhase
  | asked
  | queued (slot : ℕ)
  /-- Dialling under the lock. -/
  | leading (slot : ℕ)
  /-- Dialling without it. -/
  | alone (slot : ℕ)
  /-- Refused without it: the refusal is yet to be written down. -/
  | refusedAlone (slot : ℕ) (why : String)
  | leaving (slot : ℕ) (result : DialResult)
  | done (result : DialResult)

structure Dial where
  route : Route
  asked : ℕ
  /-- When `dial` was called. -/
  made : ℕ
  phase : DialPhase

/-- The slot a dial has a reference to. -/
def DialPhase.slot : DialPhase → Option ℕ
  | .queued slot | .leading slot | .alone slot | .refusedAlone slot _ | .leaving slot _ => some slot
  | .asked | .done _ => none

/-- A login the server refused. -/
structure Strike where
  made : ℕ
  refused : ℕ

structure AuthGate where
  now : ℕ
  /-- The account's slot, when the map has one. -/
  accounts : Option ℕ
  slots : ℕ → Slot
  /-- Slots made so far. -/
  made : ℕ
  dials : ℕ → Option Dial
  strikes : List Strike

namespace AuthGate

def new : AuthGate :=
  { now := 0, accounts := none, slots := fun _ => ⟨none, none⟩, made := 0, dials := fun _ => none,
    strikes := [] }

def setDial (g : AuthGate) (n : ℕ) (d : Dial) : AuthGate :=
  { g with dials := update g.dials n (some d) }

theorem of_setDial {g : AuthGate} {n m : ℕ} {d d' : Dial} (h : (g.setDial n d).dials m = some d') :
    m = n ∧ d' = d ∨ m ≠ n ∧ g.dials m = some d' :=
  update_eq_some h

def setSlot (g : AuthGate) (slot : ℕ) (state : Slot) : AuthGate :=
  { g with slots := update g.slots slot state }

/-- Nobody has a reference to the slot, `n` apart. -/
def UnheldBut (g : AuthGate) (n slot : ℕ) : Prop :=
  ∀ m d, m ≠ n → g.dials m = some d → d.phase.slot ≠ some slot

def Unheld (g : AuthGate) (slot : ℕ) : Prop :=
  ∀ m d, g.dials m = some d → d.phase.slot ≠ some slot

/-- The slot's lock can be taken. -/
def Unlocked (g : AuthGate) (slot : ℕ) : Prop :=
  ∀ m d, g.dials m = some d → d.phase ≠ .leading slot

/-- No refusal stands against a login: there is none, or its cool-down is over. -/
def Cooled (cooldown : ℕ) (g : AuthGate) (slot : ℕ) : Prop :=
  ∀ r, (g.slots slot).refusal = some r → r.time + cooldown ≤ g.now

/-- `forgettable`, for a slot that only the map has. -/
def Forgettable (cooldown : ℕ) (g : AuthGate) (slot : ℕ) : Prop :=
  g.Unheld slot ∧ g.Cooled cooldown slot

/-- A dial that finished while `d` waited for the lock. -/
def Finished (g : AuthGate) (slot : ℕ) (d : Dial) (o : Outcome) : Prop :=
  (g.slots slot).last = some o ∧ d.asked ≤ o.time

/-- The answer that the link is down is `d`'s as well. -/
def Shares (d : Dial) (o : Outcome) : Prop := d.route = .address ∧ o.route = .address

end AuthGate

inductive GateEvent
  | tick
  | ask (n : ℕ) (route : Route)
  | slot (n : ℕ)
  | sweep
  | lock (n : ℕ)
  | finish (n : ℕ)
  | record (n : ℕ)
  | release (n : ℕ)

/-- The steps of the dials, and the clock's. -/
inductive GateStep (accepts : Bool) (cooldown : ℕ) (g : AuthGate) : GateEvent → AuthGate → Prop
  | tick : GateStep accepts cooldown g .tick { g with now := g.now + 1 }
  /-- `dial` is called. -/
  | ask {n route} (hnew : g.dials n = none) :
      GateStep accepts cooldown g (.ask n route)
        (g.setDial n { route := route, asked := g.now, made := g.now, phase := .asked })
  /-- `slot`, when the account has one. -/
  | known {n d slot} (hd : g.dials n = some d) (hphase : d.phase = .asked)
      (hslot : g.accounts = some slot) (hkeep : ¬g.Forgettable cooldown slot) :
      GateStep accepts cooldown g (.slot n) (g.setDial n { d with phase := .queued slot })
  /-- `slot`, when it has none, or none worth keeping. -/
  | fresh {n d} (hd : g.dials n = some d) (hphase : d.phase = .asked)
      (hslot : ∀ slot, g.accounts = some slot → g.Forgettable cooldown slot) :
      GateStep accepts cooldown g (.slot n)
        ({ g.setSlot g.made ⟨none, none⟩ with
            accounts := some g.made, made := g.made + 1 }.setDial n
          { d with phase := .queued g.made })
  /-- Another account's dial sweeps. -/
  | sweep {slot} (hslot : g.accounts = some slot) (hforget : g.Forgettable cooldown slot) :
      GateStep accepts cooldown g .sweep { g with accounts := none }
  /-- A refusal still stands. -/
  | turnedAway {n d slot r} (hd : g.dials n = some d) (hphase : d.phase = .queued slot)
      (hfree : g.Unlocked slot) (hrefusal : (g.slots slot).refusal = some r)
      (hwarm : g.now < r.time + cooldown) :
      GateStep accepts cooldown g (.lock n)
        (g.setDial n { d with phase := .done (.fallback .authCooldown r.why) })
  /-- The dial before this one found the link down, for both. -/
  | share {n d slot o why} (hd : g.dials n = some d) (hphase : d.phase = .queued slot)
      (hfree : g.Unlocked slot) (hcooled : g.Cooled cooldown slot)
      (hlast : g.Finished slot d o) (hdown : o.unreachable = some why)
      (hshares : AuthGate.Shares d o) :
      GateStep accepts cooldown g (.lock n)
        ((g.setSlot slot ⟨none, (g.slots slot).last⟩).setDial n
          { d with phase := .leaving slot (.fallback .unreachable why) })
  /-- It ended otherwise: this one dials without the lock. -/
  | goAlone {n d slot o} (hd : g.dials n = some d) (hphase : d.phase = .queued slot)
      (hfree : g.Unlocked slot) (hcooled : g.Cooled cooldown slot)
      (hlast : g.Finished slot d o) (hother : ¬(o.unreachable.isSome ∧ AuthGate.Shares d o)) :
      GateStep accepts cooldown g (.lock n)
        ((g.setSlot slot ⟨none, (g.slots slot).last⟩).setDial n
          { d with phase := .alone slot, made := g.now })
  /-- Nobody dialled meanwhile. -/
  | lead {n d slot} (hd : g.dials n = some d) (hphase : d.phase = .queued slot)
      (hfree : g.Unlocked slot) (hcooled : g.Cooled cooldown slot)
      (hlast : ∀ o, ¬g.Finished slot d o) :
      GateStep accepts cooldown g (.lock n)
        ((g.setSlot slot ⟨none, (g.slots slot).last⟩).setDial n
          { d with phase := .leading slot, made := g.now })
  | accepted {n d slot} (hd : g.dials n = some d) (hphase : d.phase = .leading slot)
      (hverdict : accepts = true) :
      GateStep accepts cooldown g (.finish n)
        ((g.setSlot slot ⟨(g.slots slot).refusal, some ⟨g.now, d.route, none⟩⟩).setDial n
          { d with phase := .leaving slot .ok })
  | refused {n d slot why} (hd : g.dials n = some d) (hphase : d.phase = .leading slot)
      (hverdict : accepts = false) :
      GateStep accepts cooldown g (.finish n)
        ({ g.setSlot slot ⟨some ⟨g.now, why⟩, none⟩ with
            strikes := g.strikes ++ [(⟨d.made, g.now⟩ : Strike)] }.setDial n
          { d with phase := .leaving slot (.fallback .authRefused why) })
  | failed {n d slot why} (hd : g.dials n = some d) (hphase : d.phase = .leading slot) :
      GateStep accepts cooldown g (.finish n)
        ((g.setSlot slot ⟨(g.slots slot).refusal, some ⟨g.now, d.route, some why⟩⟩).setDial n
          { d with phase := .leaving slot (.failed why) })
  | aloneAccepted {n d slot} (hd : g.dials n = some d) (hphase : d.phase = .alone slot)
      (hverdict : accepts = true) :
      GateStep accepts cooldown g (.finish n) (g.setDial n { d with phase := .leaving slot .ok })
  | aloneRefused {n d slot why} (hd : g.dials n = some d) (hphase : d.phase = .alone slot)
      (hverdict : accepts = false) :
      GateStep accepts cooldown g (.finish n)
        ({ g with strikes := g.strikes ++ [(⟨d.made, g.now⟩ : Strike)] }.setDial n
          { d with phase := .refusedAlone slot why })
  | aloneFailed {n d slot why} (hd : g.dials n = some d) (hphase : d.phase = .alone slot) :
      GateStep accepts cooldown g (.finish n)
        (g.setDial n { d with phase := .leaving slot (.failed why) })
  | record {n d slot why} (hd : g.dials n = some d) (hphase : d.phase = .refusedAlone slot why)
      (hfree : g.Unlocked slot) :
      GateStep accepts cooldown g (.record n)
        ((g.setSlot slot ⟨some ⟨g.now, why⟩, (g.slots slot).last⟩).setDial n
          { d with phase := .leaving slot (.fallback .authRefused why) })
  /-- `release`, by the last to leave a slot with nothing to remember. -/
  | releaseLast {n d slot result} (hd : g.dials n = some d)
      (hphase : d.phase = .leaving slot result) (hslot : g.accounts = some slot)
      (hlast : g.UnheldBut n slot) (hnone : (g.slots slot).refusal = none) :
      GateStep accepts cooldown g (.release n)
        ({ g with accounts := none }.setDial n { d with phase := .done result })
  | release {n d slot result} (hd : g.dials n = some d)
      (hphase : d.phase = .leaving slot result)
      (hkeep : ¬(g.accounts = some slot ∧ g.UnheldBut n slot ∧ (g.slots slot).refusal = none)) :
      GateStep accepts cooldown g (.release n) (g.setDial n { d with phase := .done result })

/-! ### One strike -/

/-- Of the dials made within a cool-down, the server refuses one at most: the
next one it refuses was made when the last refusal's cool-down was over. -/
def OneStrike (cooldown : ℕ) (g : AuthGate) : Prop :=
  g.strikes.Pairwise fun earlier later =>
    earlier.made ≤ earlier.refused ∧ earlier.refused + cooldown ≤ later.made

/-- While the server refuses the credentials, no dial that queued behind a link
failure goes on without the lock: the failure is its own answer as well. -/
def Answered (accepts : Bool) (g : AuthGate) : GateEvent → Prop
  | .lock n => ∀ d slot o, g.dials n = some d → d.phase = .queued slot → g.Finished slot d o →
      accepts = false → o.unreachable.isSome → AuthGate.Shares d o
  | _ => True

/-- The gate while the server refuses the credentials. -/
structure Guarded (cooldown : ℕ) (g : AuthGate) : Prop where
  /-- Whoever has a reference has one to the slot in the map. -/
  held : ∀ n d slot, g.dials n = some d → d.phase.slot = some slot → g.accounts = some slot
  locked : ∀ n m d d' slot, g.dials n = some d → g.dials m = some d' →
    d.phase = .leading slot → d'.phase = .leading slot → n = m
  none_alone : ∀ n d, g.dials n = some d →
    (∀ slot, d.phase ≠ .alone slot) ∧ ∀ slot why, d.phase ≠ .refusedAlone slot why
  down : ∀ slot o, (g.slots slot).last = some o → o.unreachable.isSome
  past : ∀ s ∈ g.strikes, s.made ≤ s.refused ∧ s.refused ≤ g.now
  /-- A strike that still counts stands in the slot. -/
  remembered : ∀ s ∈ g.strikes, s.refused + cooldown ≤ g.now ∨
    ∃ slot r, g.accounts = some slot ∧ (g.slots slot).refusal = some r ∧ s.refused ≤ r.time
  /-- Who leads was let by when no strike counted. -/
  leading : ∀ n d slot, g.dials n = some d → d.phase = .leading slot →
    d.made ≤ g.now ∧ ∀ s ∈ g.strikes, s.refused + cooldown ≤ d.made
  spaced : OneStrike cooldown g

section Steps

variable {cooldown : ℕ} {g h' : AuthGate} {e : GateEvent}

theorem guarded_new : Guarded cooldown .new where
  held _ _ _ hd := by cases hd
  locked _ _ _ _ _ hd := by cases hd
  none_alone _ _ hd := by cases hd
  down _ _ hlast := by cases hlast
  past _ hs := by cases hs
  remembered _ hs := by cases hs
  leading _ _ _ hd := by cases hd
  spaced := .nil

/-- A slot without a standing refusal: every strike's cool-down is over. -/
theorem Guarded.cooled (hg : Guarded cooldown g) {slot : ℕ} (hslot : g.accounts = some slot)
    (hcooled : g.Cooled cooldown slot) {s : Strike} (hs : s ∈ g.strikes) :
    s.refused + cooldown ≤ g.now := by
  rcases hg.remembered s hs with hover | ⟨slot', r, hslot', hr, hle⟩
  · exact hover
  · obtain rfl := Option.some.inj (hslot.symm.trans hslot')
    exact Nat.le_trans (Nat.add_le_add_right hle cooldown) (hcooled r hr)

/-- A dial goes on to a phase in which it does not dial, and keeps its reference
or gives it up. -/
theorem Guarded.setDial (hg : Guarded cooldown g) {n : ℕ} {d : Dial}
    (hheld : ∀ slot, d.phase.slot = some slot → g.accounts = some slot)
    (hidle : (∀ slot, d.phase ≠ .leading slot) ∧ (∀ slot, d.phase ≠ .alone slot) ∧
      ∀ slot why, d.phase ≠ .refusedAlone slot why) :
    Guarded cooldown (g.setDial n d) := by
  constructor
  case held =>
    intro m d' slot hd' hslot
    rcases AuthGate.of_setDial hd' with ⟨_, rfl⟩ | ⟨_, hd'⟩
    · exact hheld slot hslot
    · exact hg.held m d' slot hd' hslot
  case locked =>
    intro m m' d' d'' slot hd' hd'' hphase hphase'
    rcases AuthGate.of_setDial hd' with ⟨_, rfl⟩ | ⟨_, hd'⟩
    · exact (hidle.1 slot hphase).elim
    · rcases AuthGate.of_setDial hd'' with ⟨_, rfl⟩ | ⟨_, hd''⟩
      · exact (hidle.1 slot hphase').elim
      · exact hg.locked m m' d' d'' slot hd' hd'' hphase hphase'
  case none_alone =>
    intro m d' hd'
    rcases AuthGate.of_setDial hd' with ⟨_, rfl⟩ | ⟨_, hd'⟩
    · exact hidle.2
    · exact hg.none_alone m d' hd'
  case down => exact hg.down
  case past => exact hg.past
  case remembered => exact hg.remembered
  case leading =>
    intro m d' slot hd' hphase
    rcases AuthGate.of_setDial hd' with ⟨_, rfl⟩ | ⟨_, hd'⟩
    · exact (hidle.1 slot hphase).elim
    · exact hg.leading m d' slot hd' hphase
  case spaced => exact hg.spaced

/-- A refusal that no longer stands is forgotten. -/
theorem Guarded.clear (hg : Guarded cooldown g) {slot : ℕ} (hslot : g.accounts = some slot)
    (hcooled : g.Cooled cooldown slot) :
    Guarded cooldown (g.setSlot slot ⟨none, (g.slots slot).last⟩) where
  held := hg.held
  locked := hg.locked
  none_alone := hg.none_alone
  down := by
    intro slot' o hlast
    apply hg.down slot' o
    rcases eq_or_ne slot' slot with rfl | hne
    · simpa [AuthGate.setSlot] using hlast
    · simpa [AuthGate.setSlot, hne] using hlast
  past := hg.past
  remembered s hs := Or.inl (hg.cooled hslot hcooled hs)
  leading := hg.leading
  spaced := hg.spaced

/-- A dial takes the lead: no strike counts any more. -/
theorem Guarded.lead (hg : Guarded cooldown g) {n slot : ℕ} {d : Dial}
    (hslot : g.accounts = some slot) (hphase : d.phase = .leading slot) (hmade : d.made = g.now)
    (hfree : g.Unlocked slot) (hover : ∀ s ∈ g.strikes, s.refused + cooldown ≤ g.now) :
    Guarded cooldown (g.setDial n d) := by
  have hnobody : ∀ m d' slot', g.dials m = some d' → d'.phase ≠ .leading slot' := by
    intro m d' slot' hd' hleads
    have hthere := hg.held m d' slot' hd' (by rw [hleads]; rfl)
    obtain rfl := Option.some.inj (hslot.symm.trans hthere)
    exact hfree m d' hd' hleads
  constructor
  case held =>
    intro m d' slot' hd' hheld
    rcases AuthGate.of_setDial hd' with ⟨_, rfl⟩ | ⟨_, hd'⟩
    · rw [hphase] at hheld
      exact hslot.trans hheld
    · exact hg.held m d' slot' hd' hheld
  case locked =>
    intro m m' d' d'' slot' hd' hd'' hleads hleads'
    rcases AuthGate.of_setDial hd' with ⟨rfl, _⟩ | ⟨_, hd'⟩
    · rcases AuthGate.of_setDial hd'' with ⟨rfl, _⟩ | ⟨_, hd''⟩
      · rfl
      · exact (hnobody m' d'' slot' hd'' hleads').elim
    · exact (hnobody m d' slot' hd' hleads).elim
  case none_alone =>
    intro m d' hd'
    rcases AuthGate.of_setDial hd' with ⟨_, rfl⟩ | ⟨_, hd'⟩
    · rw [hphase]
      exact ⟨nofun, nofun⟩
    · exact hg.none_alone m d' hd'
  case down => exact hg.down
  case past => exact hg.past
  case remembered => exact hg.remembered
  case leading =>
    intro m d' slot' hd' hleads
    rcases AuthGate.of_setDial hd' with ⟨_, rfl⟩ | ⟨_, hd'⟩
    · rw [hmade]
      exact ⟨Nat.le_refl _, hover⟩
    · exact (hnobody m d' slot' hd' hleads).elim
  case spaced => exact hg.spaced

/-- A refusal, written down as it comes. -/
theorem Guarded.strike (hg : Guarded cooldown g) {slot made : ℕ} {why : String}
    (hslot : g.accounts = some slot) (hmade : made ≤ g.now)
    (hnobody : ∀ m d slot, g.dials m = some d → d.phase ≠ .leading slot)
    (hover : ∀ s ∈ g.strikes, s.refused + cooldown ≤ made) :
    Guarded cooldown { g.setSlot slot ⟨some ⟨g.now, why⟩, none⟩ with
      strikes := g.strikes ++ [(⟨made, g.now⟩ : Strike)] } where
  held := hg.held
  locked := hg.locked
  none_alone := hg.none_alone
  down := by
    intro slot' o hlast
    rcases eq_or_ne slot' slot with rfl | hne
    · simp [AuthGate.setSlot] at hlast
    · apply hg.down slot' o
      simpa [AuthGate.setSlot, hne] using hlast
  past := by
    intro s hs
    rcases List.mem_append.mp hs with hs | hs
    · exact hg.past s hs
    · obtain rfl := List.mem_singleton.mp hs
      exact ⟨hmade, Nat.le_refl _⟩
  remembered := by
    intro s hs
    refine Or.inr ⟨slot, ⟨g.now, why⟩, hslot, by simp [AuthGate.setSlot], ?_⟩
    rcases List.mem_append.mp hs with hs | hs
    · exact (hg.past s hs).2
    · obtain rfl := List.mem_singleton.mp hs
      exact Nat.le_refl _
  leading m d slot' hd hleads := (hnobody m d slot' hd hleads).elim
  spaced := by
    refine List.pairwise_append.mpr ⟨hg.spaced, List.pairwise_singleton _ _, ?_⟩
    intro s hs s' hs'
    obtain rfl := List.mem_singleton.mp hs'
    exact ⟨(hg.past s hs).1, hover s hs⟩

/-- The slot leaves the map: nobody has it, and nothing stands in it. -/
theorem Guarded.forget (hg : Guarded cooldown g) {slot : ℕ} (hslot : g.accounts = some slot)
    (hunheld : g.Unheld slot) (hcooled : g.Cooled cooldown slot) (accounts : Option ℕ) :
    Guarded cooldown { g with accounts := accounts } := by
  have hnobody : ∀ n d slot', g.dials n = some d → d.phase.slot ≠ some slot' := by
    intro n d slot' hd hheld
    obtain rfl := Option.some.inj (hslot.symm.trans (hg.held n d slot' hd hheld))
    exact hunheld n d hd hheld
  constructor
  case held => exact fun n d slot' hd hheld => (hnobody n d slot' hd hheld).elim
  case locked => exact hg.locked
  case none_alone => exact hg.none_alone
  case down => exact hg.down
  case past => exact hg.past
  case remembered => exact fun s hs => Or.inl (hg.cooled hslot hcooled hs)
  case leading => exact hg.leading
  case spaced => exact hg.spaced

/-- A new slot, which only the dial that made it will have. -/
theorem Guarded.fresh (hg : Guarded cooldown g)
    (hslot : ∀ slot, g.accounts = some slot → g.Forgettable cooldown slot) :
    Guarded cooldown { g.setSlot g.made ⟨none, none⟩ with
      accounts := some g.made, made := g.made + 1 } := by
  have hnobody : ∀ n d slot, g.dials n = some d → d.phase.slot ≠ some slot := by
    intro n d slot hd hheld
    exact (hslot slot (hg.held n d slot hd hheld)).1 n d hd hheld
  have hover : ∀ s ∈ g.strikes, s.refused + cooldown ≤ g.now := by
    intro s hs
    rcases hg.remembered s hs with hover | ⟨slot, _, haccounts, _⟩
    · exact hover
    · exact hg.cooled haccounts (hslot slot haccounts).2 hs
  constructor
  case held => exact fun n d slot hd hheld => (hnobody n d slot hd hheld).elim
  case locked => exact hg.locked
  case none_alone => exact hg.none_alone
  case down =>
    intro slot o hlast
    rcases eq_or_ne slot g.made with rfl | hne
    · simp [AuthGate.setSlot] at hlast
    · apply hg.down slot o
      simpa [AuthGate.setSlot, hne] using hlast
  case past => exact hg.past
  case remembered => exact fun s hs => Or.inl (hover s hs)
  case leading => exact hg.leading
  case spaced => exact hg.spaced

/-- A dial that did not reach the server leaves word of it. -/
theorem Guarded.linkDown (hg : Guarded cooldown g) (slot : ℕ) (route : Route) (why : String) :
    Guarded cooldown
      (g.setSlot slot ⟨(g.slots slot).refusal, some ⟨g.now, route, some why⟩⟩) where
  held := hg.held
  locked := hg.locked
  none_alone := hg.none_alone
  down := by
    intro slot' o hlast
    rcases eq_or_ne slot' slot with rfl | hne
    · simp only [AuthGate.setSlot, update_self, Option.some.injEq] at hlast
      rw [← hlast]
      rfl
    · apply hg.down slot' o
      simpa [AuthGate.setSlot, hne] using hlast
  past := hg.past
  remembered := by
    intro s hs
    refine (hg.remembered s hs).imp_right ?_
    rintro ⟨slot', r, haccounts, hr, hle⟩
    refine ⟨slot', r, haccounts, ?_, hle⟩
    rcases eq_or_ne slot' slot with rfl | hne
    · simpa [AuthGate.setSlot] using hr
    · simpa [AuthGate.setSlot, hne] using hr
  leading := hg.leading
  spaced := hg.spaced

theorem Guarded.step (hg : Guarded cooldown g) (hanswered : Answered false g e)
    (hstep : GateStep false cooldown g e h') : Guarded cooldown h' := by
  cases hstep with
  | tick =>
      exact
        { hg with
          past := fun s hs => ⟨(hg.past s hs).1, Nat.le_succ_of_le (hg.past s hs).2⟩
          remembered := fun s hs => (hg.remembered s hs).imp_left Nat.le_succ_of_le
          leading := fun n d slot hd hphase =>
            ⟨Nat.le_succ_of_le (hg.leading n d slot hd hphase).1,
              (hg.leading n d slot hd hphase).2⟩ }
  | ask hnew => exact hg.setDial nofun ⟨nofun, nofun, nofun⟩
  | known hd hphase hslot hkeep =>
      refine hg.setDial ?_ ⟨nofun, nofun, nofun⟩
      intro slot' hheld
      obtain rfl := Option.some.inj hheld
      exact hslot
  | fresh hd hphase hslot => exact (hg.fresh hslot).setDial (fun _ h => h) ⟨nofun, nofun, nofun⟩
  | sweep hslot hforget => exact hg.forget hslot hforget.1 hforget.2 none
  | turnedAway hd hphase hfree hrefusal hwarm => exact hg.setDial nofun ⟨nofun, nofun, nofun⟩
  | @share n d slot o why hd hphase hfree hcooled hlast hdown hshares =>
      have hslot := hg.held n d slot hd (by rw [hphase]; rfl)
      refine (hg.clear hslot hcooled).setDial ?_ ⟨nofun, nofun, nofun⟩
      intro slot' hheld
      obtain rfl := Option.some.inj hheld
      exact hslot
  | @goAlone n d slot o hd hphase hfree hcooled hlast hother =>
      have hdown := hg.down slot o hlast.1
      exact (hother ⟨hdown, hanswered d slot o hd hphase hlast rfl hdown⟩).elim
  | @lead n d slot hd hphase hfree hcooled hlast =>
      have hslot := hg.held n d slot hd (by rw [hphase]; rfl)
      exact (hg.clear hslot hcooled).lead hslot rfl rfl hfree fun s hs => hg.cooled hslot hcooled hs
  | accepted _ _ hverdict => cases hverdict
  | @refused n d slot why hd hphase hverdict =>
      have hslot := hg.held n d slot hd (by rw [hphase]; rfl)
      obtain ⟨hmade, hover⟩ := hg.leading n d slot hd hphase
      have hleft : Guarded cooldown (g.setDial n
          { d with phase := .leaving slot (.fallback .authRefused why) }) := by
        refine hg.setDial ?_ ⟨nofun, nofun, nofun⟩
        intro slot' hheld
        obtain rfl := Option.some.inj hheld
        exact hslot
      refine hleft.strike hslot hmade ?_ hover
      intro m d' slot' hd' hleads
      rcases AuthGate.of_setDial hd' with ⟨_, rfl⟩ | ⟨hne, hother⟩
      · cases hleads
      · have hthere := hg.held m d' slot' hother (by rw [hleads]; rfl)
        obtain rfl := Option.some.inj (hslot.symm.trans hthere)
        exact hne (hg.locked m n d' d slot hother hd hleads hphase)
  | @failed n d slot why hd hphase =>
      have hslot := hg.held n d slot hd (by rw [hphase]; rfl)
      refine (hg.linkDown slot d.route why).setDial ?_ ⟨nofun, nofun, nofun⟩
      intro slot' hheld
      obtain rfl := Option.some.inj hheld
      exact hslot
  | aloneAccepted _ _ hverdict => cases hverdict
  | @aloneRefused n d slot why hd hphase hverdict =>
      exact ((hg.none_alone n d hd).1 slot hphase).elim
  | @aloneFailed n d slot why hd hphase => exact ((hg.none_alone n d hd).1 slot hphase).elim
  | @record n d slot why hd hphase hfree => exact ((hg.none_alone n d hd).2 slot why hphase).elim
  | @releaseLast n d slot result hd hphase hslot hlast hnone =>
      have hleft : Guarded cooldown (g.setDial n { d with phase := .done result }) :=
        hg.setDial nofun ⟨nofun, nofun, nofun⟩
      refine hleft.forget hslot ?_ (fun r hr => ?_) none
      · intro m d' hd'
        rcases AuthGate.of_setDial hd' with ⟨_, rfl⟩ | ⟨hne, hother⟩
        · exact nofun
        · exact hlast m d' hne hother
      · cases hnone.symm.trans hr
  | release hd hphase hkeep => exact hg.setDial nofun ⟨nofun, nofun, nofun⟩

theorem strikes_of_accepts (h : GateStep true cooldown g e h') (hg : g.strikes = []) :
    h'.strikes = [] := by
  cases h with
  | refused _ _ hverdict => cases hverdict
  | aloneRefused _ _ hverdict => cases hverdict
  | _ => exact hg

theorem strikes_spaced {accepts : Bool}
    (h : Reaches (GateStep accepts cooldown) (Answered accepts) .new g) : OneStrike cooldown g := by
  cases accepts with
  | true =>
      have hnone : g.strikes = [] :=
        h.invariant (P := fun g => g.strikes = []) rfl fun hs _ hstep => strikes_of_accepts hstep hs
      rw [OneStrike, hnone]
      exact .nil
  | false =>
      have hguarded : Guarded cooldown g :=
        h.invariant guarded_new fun hg hanswered hstep => hg.step hanswered hstep
      exact hguarded.spaced

end Steps

/-! ### Dials of one address -/

/-- Every dial goes to the account's own address. -/
def OnAddress : AuthGate → GateEvent → Prop
  | _, .ask _ route => route = .address
  | _, _ => True

structure Addressed (g : AuthGate) : Prop where
  dials : ∀ n d, g.dials n = some d → d.route = .address
  last : ∀ slot o, (g.slots slot).last = some o → o.route = .address

section Address

variable {accepts : Bool} {cooldown : ℕ} {g h' : AuthGate} {e : GateEvent} {n slot : ℕ} {d : Dial}

theorem Addressed.setDial (hg : Addressed g) (hd : d.route = .address) :
    Addressed (g.setDial n d) where
  dials m d' hd' := by
    rcases AuthGate.of_setDial hd' with ⟨_, rfl⟩ | ⟨_, hd'⟩
    · exact hd
    · exact hg.dials m d' hd'
  last := hg.last

theorem Addressed.setSlot (hg : Addressed g) {state : Slot}
    (hlast : ∀ o, state.last = some o → o.route = .address) :
    Addressed (g.setSlot slot state) where
  dials := hg.dials
  last slot' o ho := by
    rcases eq_or_ne slot' slot with rfl | hne
    · exact hlast o (by simpa [AuthGate.setSlot] using ho)
    · exact hg.last slot' o (by simpa [AuthGate.setSlot, hne] using ho)

theorem Addressed.step (hg : Addressed g) (haddress : OnAddress g e)
    (hstep : GateStep accepts cooldown g e h') : Addressed h' := by
  cases hstep with
  | tick => exact ⟨hg.dials, hg.last⟩
  | ask hnew => exact hg.setDial haddress
  | known hd | turnedAway hd | aloneAccepted hd | aloneFailed hd | release hd =>
      exact hg.setDial (hg.dials _ _ hd :)
  | fresh hd =>
      have hslot : Addressed (g.setSlot g.made ⟨none, none⟩) := hg.setSlot nofun
      exact Addressed.setDial ⟨hslot.dials, hslot.last⟩ (hg.dials _ _ hd :)
  | sweep => exact ⟨hg.dials, hg.last⟩
  | share hd | goAlone hd | lead hd | record hd =>
      exact (hg.setSlot (by exact hg.last _)).setDial (hg.dials _ _ hd :)
  | accepted hd | failed hd =>
      refine (hg.setSlot ?_).setDial (hg.dials _ _ hd :)
      intro o ho
      rw [← Option.some.inj ho]
      exact hg.dials _ _ hd
  | @refused n d slot why hd =>
      have hslot : Addressed (g.setSlot slot ⟨some ⟨g.now, why⟩, none⟩) := hg.setSlot nofun
      exact Addressed.setDial ⟨hslot.dials, hslot.last⟩ (hg.dials _ _ hd :)
  | aloneRefused hd | releaseLast hd =>
      exact Addressed.setDial ⟨hg.dials, hg.last⟩ (hg.dials _ _ hd :)

/-- Dials of one address answer for each other. -/
theorem answered_of_onAddress (h : Reaches (GateStep accepts cooldown) OnAddress .new g) :
    Reaches (GateStep accepts cooldown) (Answered accepts) .new g := by
  have hnew : Addressed .new := ⟨nofun, nofun⟩
  refine h.imp_meets hnew (fun hg hmeets hstep => hg.step hmeets hstep) ?_
  intro s e hs _
  cases e with
  | lock n => exact fun d slot o hd _ hlast _ _ => ⟨hs.dials n d hd, hs.last slot o hlast.1⟩
  | _ => trivial

variable (accepts cooldown g)

end Address

/-! ### Runs of either kind -/

section Runs

variable {g : AuthGate} {slot n : ℕ} {d d' : Dial}

theorem unlocked_new (slot : ℕ) : AuthGate.new.Unlocked slot := by
  intro m d hd
  cases hd

theorem unlocked_setDial (h : g.Unlocked slot) (hd : d.phase ≠ .leading slot) :
    (g.setDial n d).Unlocked slot := by
  intro m d' hd'
  rcases AuthGate.of_setDial hd' with ⟨_, rfl⟩ | ⟨_, hd'⟩
  · exact hd
  · exact h m d' hd'

/-- The lock is free again when the dial that took it has moved on. -/
theorem unlocked_again (h : g.Unlocked slot) (hd : d'.phase ≠ .leading slot) :
    ((g.setDial n d).setDial n d').Unlocked slot := by
  intro m e he
  rcases AuthGate.of_setDial he with ⟨_, rfl⟩ | ⟨hne, he⟩
  · exact hd
  · rcases AuthGate.of_setDial he with ⟨heq, _⟩ | ⟨_, he⟩
    · exact (hne heq).elim
    · exact h m e he

theorem unlocked_congr {h : AuthGate} (hg : g.Unlocked slot) (hdials : h.dials = g.dials) :
    h.Unlocked slot := by
  intro m d hd
  rw [hdials] at hd
  exact hg m d hd

/-- The lock as a run has left it. -/
theorem unlocked_after {accepts : Bool} {cooldown : ℕ} {meets : AuthGate → GateEvent → Prop}
    (_ : Reaches (GateStep accepts cooldown) meets .new g) (hg : g.Unlocked slot) :
    g.Unlocked slot := hg

end Runs

end SynologyFilestation.Smb
