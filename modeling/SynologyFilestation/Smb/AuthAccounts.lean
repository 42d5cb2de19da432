import SynologyFilestation.Library.Registry
import SynologyFilestation.Smb.AuthGate

/-!
The gate's map of accounts (`AuthGate` in `smb/src/probe.rs`), with the dials of
every account at once. A lookup sweeps out the slots that nobody but the map has a
reference to and that have no refusal to remember; a dial that lets go takes its
slot out of the map if it was the last to have it. A dial may be dropped wherever it
waits, and lets go of its lock and its reference without a word.

The steps are those of one account's gate, on the slot the dial was given. `recorded`
is no part of the gate: it lists the refusals written down, and when.
-/

namespace SynologyFilestation.Smb

open Function Library

/-- What the gate reads of it. -/
structure SmbConfig where
  host : String
  username : String
  password : String
  domain : String

structure Account where
  host : String
  username : String
  domain : String
  password : UInt64
  deriving DecidableEq

/-- `to_lowercase`, and the process's keyed hash. -/
structure Folding where
  lowercase : String → String
  hash : String → UInt64

def Account.of (f : Folding) (cfg : SmbConfig) : Account :=
  ⟨f.lowercase cfg.host, f.lowercase cfg.username, f.lowercase cfg.domain, f.hash cfg.password⟩

/-- `DOMAIN\user`, or the bare name when there is no domain. -/
def principal (cfg : SmbConfig) : String :=
  if cfg.domain = "" then cfg.username else cfg.domain ++ "\\" ++ cfg.username

def cooldownDetail (cfg : SmbConfig) (cooldown since : ℕ) (why : String) : String :=
  "SMB login to " ++ cfg.host ++ " as " ++ principal cfg ++ " was refused " ++ toString since ++
    "s ago (" ++ why ++ "); not trying again for " ++ toString (cooldown - since) ++ "s"

def refusedDetail (cfg : SmbConfig) (cooldown : ℕ) (e : String) : String :=
  "SMB login to " ++ cfg.host ++ " as " ++ principal cfg ++ " was refused (" ++ e ++
    "). Each refused login counts towards the NAS's auto-block of this address, so SMB is not " ++
    "tried again for this account for " ++ toString cooldown ++ "s; using HTTP" ++
    if cfg.domain = "" then
      ". If this is a domain account — bare username: SMB checks local accounts; set a domain " ++
      "(DOMAIN\\user or SYNOLOGY_FS_SMB_DOMAIN). If it is a local DSM account, its password was " ++
      "refused: check it before trying again"
    else ""

def unreachableDetail (cfg : SmbConfig) (e : String) : String :=
  "SMB unavailable at " ++ cfg.host ++ " as " ++ principal cfg ++ ": " ++ e

inductive CallPhase
  | asked
  | queued (slot : ℕ)
  /-- Dialling under the lock. -/
  | leading (slot : ℕ)
  /-- Dialling without it. -/
  | alone (slot : ℕ)
  | refusedAlone (slot : ℕ) (why : String)
  /-- To be released. -/
  | leaving (slot : ℕ) (result : DialResult)
  /-- The gate has answered; the reference goes when the call returns. -/
  | returning (slot : ℕ) (result : DialResult)
  | done (result : DialResult)
  | dropped

/-- The slot that the call runs on. -/
def CallPhase.runsOn : CallPhase → Option ℕ
  | .queued slot | .leading slot | .alone slot | .refusedAlone slot _ | .leaving slot _ => some slot
  | .asked | .returning .. | .done _ | .dropped => none

/-- The slot that the call has a reference to. -/
def CallPhase.slot : CallPhase → Option ℕ
  | .returning slot _ => some slot
  | p => p.runsOn

theorem CallPhase.slot_eq {p : CallPhase} {slot : ℕ} (h : p.runsOn = some slot) :
    p.slot = some slot := by
  cases p with
  | returning => cases h
  | _ => exact h

/-- A dial of the gate. -/
structure GateCall where
  cfg : SmbConfig
  route : Route
  asked : ℕ
  phase : CallPhase

def GateCall.goTo (d : GateCall) (phase : CallPhase) : GateCall := { d with phase }

structure AccountGate where
  now : ℕ
  accounts : Registry Account
  slots : ℕ → Slot
  calls : ℕ → Option GateCall
  recorded : List (Account × ℕ)

namespace AccountGate

def new : AccountGate :=
  { now := 0, accounts := .empty, slots := fun _ => ⟨none, none⟩, calls := fun _ => none,
    recorded := [] }

def setCall (g : AccountGate) (n : ℕ) (d : GateCall) : AccountGate :=
  { g with calls := update g.calls n (some d) }

def setSlot (g : AccountGate) (slot : ℕ) (state : Slot) : AccountGate :=
  { g with slots := update g.slots slot state }

/-- Nobody has a reference to the slot. -/
def Unheld (g : AccountGate) (slot : ℕ) : Prop :=
  ∀ m d, g.calls m = some d → d.phase.slot ≠ some slot

def UnheldBut (g : AccountGate) (n slot : ℕ) : Prop :=
  ∀ m d, m ≠ n → g.calls m = some d → d.phase.slot ≠ some slot

/-- The slot's lock can be taken. -/
def Unlocked (g : AccountGate) (slot : ℕ) : Prop :=
  ∀ m d, g.calls m = some d → d.phase ≠ .leading slot

/-- No refusal stands against a login: there is none, or its cool-down is over. -/
def Cooled (g : AccountGate) (cooldown slot : ℕ) : Prop :=
  ∀ r, (g.slots slot).refusal = some r → r.time + cooldown ≤ g.now

/-- `forgettable`, for a slot that only the map has. Nobody has its lock, then. -/
def Forgettable (g : AccountGate) (cooldown slot : ℕ) : Prop :=
  g.Unheld slot ∧ g.Cooled cooldown slot

/-- A dial that finished while `d` waited for the lock. -/
def Finished (g : AccountGate) (slot : ℕ) (d : GateCall) (o : Outcome) : Prop :=
  (g.slots slot).last = some o ∧ d.asked ≤ o.time

/-- The answer that the link is down is `d`'s as well. -/
def Shares (d : GateCall) (o : Outcome) : Prop := d.route = .address ∧ o.route = .address

/-- What a lookup's sweep leaves of the map. -/
structure Swept (g : AccountGate) (cooldown : ℕ) (left : Registry Account) : Prop where
  made : left.made = g.accounts.made
  entry : ∀ a slot, left.entry a = some slot ↔
    g.accounts.entry a = some slot ∧ ¬g.Forgettable cooldown slot

/-- A refusal is written down. -/
def refuse (g : AccountGate) (slot : ℕ) (a : Account) (why : String) (last : Option Outcome) :
    AccountGate :=
  { g.setSlot slot ⟨some ⟨g.now, why⟩, last⟩ with recorded := g.recorded ++ [(a, g.now)] }

end AccountGate

inductive CallEvent
  | tick
  | ask (n : ℕ)
  | slot (n : ℕ)
  | lock (n : ℕ)
  | finish (n : ℕ)
  | record (n : ℕ)
  | release (n : ℕ)
  | returns (n : ℕ)
  | drop (n : ℕ)

/-- The steps of the dials, and the clock's. The server may answer anything. -/
inductive CallStep (f : Folding) (cooldown : ℕ) (g : AccountGate) : CallEvent → AccountGate → Prop
  | tick : CallStep f cooldown g .tick { g with now := g.now + 1 }
  | ask {n cfg route} (hnew : g.calls n = none) :
      CallStep f cooldown g (.ask n)
        (g.setCall n { cfg := cfg, route := route, asked := g.now, phase := .asked })
  /-- `slot`, when the account has one that is not swept out. -/
  | known {n d left slot} (hd : g.calls n = some d) (hphase : d.phase = .asked)
      (hleft : g.Swept cooldown left) (hslot : left.entry (.of f d.cfg) = some slot) :
      CallStep f cooldown g (.slot n)
        ({ g with accounts := left }.setCall n (d.goTo (.queued slot)))
  | fresh {n d left} (hd : g.calls n = some d) (hphase : d.phase = .asked)
      (hleft : g.Swept cooldown left) (hslot : left.entry (.of f d.cfg) = none) :
      CallStep f cooldown g (.slot n)
        ({ g.setSlot left.made ⟨none, none⟩ with
            accounts := left.enter (.of f d.cfg) }.setCall n
          (d.goTo (.queued left.made)))
  /-- A refusal still stands. -/
  | turnedAway {n d slot r} (hd : g.calls n = some d) (hphase : d.phase = .queued slot)
      (hfree : g.Unlocked slot) (hrefusal : (g.slots slot).refusal = some r)
      (hwarm : g.now < r.time + cooldown) :
      CallStep f cooldown g (.lock n)
        (g.setCall n (d.goTo (.returning slot (.fallback .authCooldown
          (cooldownDetail d.cfg cooldown (g.now - r.time) r.why)))))
  /-- The dial before this one found the link down, for both. -/
  | share {n d slot o why} (hd : g.calls n = some d) (hphase : d.phase = .queued slot)
      (hfree : g.Unlocked slot) (hcooled : g.Cooled cooldown slot)
      (hlast : g.Finished slot d o) (hdown : o.unreachable = some why)
      (hshares : AccountGate.Shares d o) :
      CallStep f cooldown g (.lock n)
        ((g.setSlot slot ⟨none, (g.slots slot).last⟩).setCall n
          (d.goTo (.leaving slot (.fallback .unreachable why))))
  /-- It ended otherwise: this one dials without the lock. -/
  | goAlone {n d slot o} (hd : g.calls n = some d) (hphase : d.phase = .queued slot)
      (hfree : g.Unlocked slot) (hcooled : g.Cooled cooldown slot)
      (hlast : g.Finished slot d o) (hother : ¬(o.unreachable.isSome ∧ AccountGate.Shares d o)) :
      CallStep f cooldown g (.lock n)
        ((g.setSlot slot ⟨none, (g.slots slot).last⟩).setCall n (d.goTo (.alone slot)))
  /-- Nobody dialled meanwhile. -/
  | lead {n d slot} (hd : g.calls n = some d) (hphase : d.phase = .queued slot)
      (hfree : g.Unlocked slot) (hcooled : g.Cooled cooldown slot)
      (hlast : ∀ o, ¬g.Finished slot d o) :
      CallStep f cooldown g (.lock n)
        ((g.setSlot slot ⟨none, (g.slots slot).last⟩).setCall n (d.goTo (.leading slot)))
  | accepted {n d slot} (hd : g.calls n = some d) (hphase : d.phase = .leading slot) :
      CallStep f cooldown g (.finish n)
        ((g.setSlot slot ⟨(g.slots slot).refusal, some ⟨g.now, d.route, none⟩⟩).setCall n
          (d.goTo (.leaving slot .ok)))
  | refused {n d slot e} (hd : g.calls n = some d) (hphase : d.phase = .leading slot) :
      CallStep f cooldown g (.finish n)
        ((g.refuse slot (.of f d.cfg) e none).setCall n
          (d.goTo (.leaving slot (.fallback .authRefused (refusedDetail d.cfg cooldown e)))))
  | failed {n d slot e} (hd : g.calls n = some d) (hphase : d.phase = .leading slot) :
      CallStep f cooldown g (.finish n)
        ((g.setSlot slot ⟨(g.slots slot).refusal,
            some ⟨g.now, d.route, some (unreachableDetail d.cfg e)⟩⟩).setCall n
          (d.goTo (.leaving slot (.failed e))))
  | aloneEnded {n d slot result} (hd : g.calls n = some d) (hphase : d.phase = .alone slot)
      (hresult : result = .ok ∨ ∃ e, result = .failed e) :
      CallStep f cooldown g (.finish n) (g.setCall n (d.goTo (.leaving slot result)))
  | aloneRefused {n d slot e} (hd : g.calls n = some d) (hphase : d.phase = .alone slot) :
      CallStep f cooldown g (.finish n) (g.setCall n (d.goTo (.refusedAlone slot e)))
  | record {n d slot e} (hd : g.calls n = some d) (hphase : d.phase = .refusedAlone slot e)
      (hfree : g.Unlocked slot) :
      CallStep f cooldown g (.record n)
        ((g.refuse slot (.of f d.cfg) e (g.slots slot).last).setCall n
          (d.goTo (.leaving slot (.fallback .authRefused (refusedDetail d.cfg cooldown e)))))
  /-- `release`, by the last to have a slot with nothing to remember. -/
  | releaseLast {n d slot result} (hd : g.calls n = some d)
      (hphase : d.phase = .leaving slot result)
      (hours : g.accounts.entry (.of f d.cfg) = some slot) (hlast : g.UnheldBut n slot)
      (hnone : (g.slots slot).refusal = none) :
      CallStep f cooldown g (.release n)
        ({ g with accounts := g.accounts.strike (.of f d.cfg) }.setCall n
          (d.goTo (.returning slot result)))
  | release {n d slot result} (hd : g.calls n = some d)
      (hphase : d.phase = .leaving slot result)
      (hkeep : ¬(g.accounts.entry (.of f d.cfg) = some slot ∧ g.UnheldBut n slot ∧
        (g.slots slot).refusal = none)) :
      CallStep f cooldown g (.release n) (g.setCall n (d.goTo (.returning slot result)))
  | returns {n d slot result} (hd : g.calls n = some d)
      (hphase : d.phase = .returning slot result) :
      CallStep f cooldown g (.returns n) (g.setCall n (d.goTo (.done result)))
  /-- The future is dropped where it waits: for the lock, or for the server. -/
  | drop {n d} (hd : g.calls n = some d)
      (hwaits : (∃ slot, d.phase = .queued slot) ∨ (∃ slot, d.phase = .leading slot) ∨
        (∃ slot, d.phase = .alone slot) ∨ ∃ slot e, d.phase = .refusedAlone slot e) :
      CallStep f cooldown g (.drop n) (g.setCall n (d.goTo .dropped))

/-- The slot that each call runs on, and the account it was given for. -/
def AccountGate.holds (f : Folding) (g : AccountGate) (n : ℕ) : Option (Account × ℕ) :=
  (g.calls n).bind fun d => d.phase.runsOn.map fun slot => (.of f d.cfg, slot)

/-- The gate's memory: its dials run on the slots of their accounts, and what it has
recorded still stands in them. -/
structure Remembering (f : Folding) (cooldown : ℕ) (g : AccountGate) : Prop where
  accounts : g.accounts.Sound (g.holds f)
  locked {n m d d' slot} : g.calls n = some d → g.calls m = some d' → d.phase = .leading slot →
    d'.phase = .leading slot → n = m
  /-- Whoever leads found no refusal, and nobody writes one down meanwhile. -/
  leads {n d slot} : g.calls n = some d → d.phase = .leading slot → (g.slots slot).refusal = none
  past : ∀ x ∈ g.recorded, x.2 ≤ g.now
  dated {slot r} : (g.slots slot).refusal = some r → r.time ≤ g.now
  remembered : ∀ x ∈ g.recorded, x.2 + cooldown ≤ g.now ∨
    ∃ slot r, g.accounts.entry x.1 = some slot ∧ (g.slots slot).refusal = some r ∧ x.2 ≤ r.time

/-- The gate's memory is exact, and bounded. -/
structure MemoryExact (f : Folding) (cooldown : ℕ) (g : AccountGate) : Prop where
  /-- Dials of one account that run at a time run on one slot. -/
  shared {n m d d' slot slot'} : g.calls n = some d → g.calls m = some d' →
    Account.of f d.cfg = .of f d'.cfg → d.phase.runsOn = some slot → d'.phase.runsOn = some slot' →
    slot = slot'
  /-- Within the cool-down of a refusal that was recorded no dial of the account is made under
  the lock, so that whoever asks may take it, and is turned away. -/
  refuses {a time n d} : (a, time) ∈ g.recorded → g.now < time + cooldown →
    g.calls n = some d → Account.of f d.cfg = a →
    (∀ slot, d.phase ≠ .leading slot) ∧ ∀ slot, d.phase = .queued slot → g.Unlocked slot ∧
      ∀ g', CallStep f cooldown g (.lock n) g' → ∃ why, g' =
        g.setCall n (d.goTo (.returning slot (.fallback .authCooldown why)))
  /-- A lookup while no other dial has a slot leaves the account's own, and those that have a
  refusal still within its cool-down. -/
  forgets {n g'} : CallStep f cooldown g (.slot n) g' →
    (∀ m d, m ≠ n → g.calls m = some d → d.phase.slot = none) →
    ∀ a slot, g'.accounts.entry a = some slot →
      (∃ d, g.calls n = some d ∧ Account.of f d.cfg = a) ∨
        ∃ r, (g'.slots slot).refusal = some r ∧ g'.now < r.time + cooldown

section Steps

variable {f : Folding} {cooldown : ℕ} {g g' : AccountGate} {n m slot : ℕ} {d d' : GateCall}
  {p : CallPhase} {a : Account} {e : CallEvent}

theorem AccountGate.of_setCall (h : (g.setCall n d).calls m = some d') :
    m = n ∧ d' = d ∨ m ≠ n ∧ g.calls m = some d' :=
  update_eq_some h

theorem AccountGate.holds_eq_some :
    g.holds f n = some (a, slot) ↔
      ∃ d, g.calls n = some d ∧ .of f d.cfg = a ∧ d.phase.runsOn = some slot := by
  simp [AccountGate.holds, Option.bind_eq_some_iff, and_comm]

theorem remembering_new (f : Folding) (cooldown : ℕ) : Remembering f cooldown .new where
  accounts := Registry.sound_empty fun _ => rfl
  locked := nofun
  leads := nofun
  past := nofun
  dated := nofun
  remembered := nofun

/-- The entry that a dial runs on is its account's. -/
theorem Remembering.entry (h : Remembering f cooldown g) (hd : g.calls n = some d)
    (hruns : d.phase.runsOn = some slot) : g.accounts.entry (.of f d.cfg) = some slot :=
  h.accounts.held (AccountGate.holds_eq_some.mpr ⟨d, hd, rfl, hruns⟩)

/-- A dial goes on without the lock, and runs on the slot it ran on or on none. -/
theorem Remembering.move (h : Remembering f cooldown g)
    (hruns : ∀ slot, p.runsOn = some slot → g.accounts.entry (.of f d.cfg) = some slot)
    (hidle : ∀ slot, p ≠ .leading slot) :
    Remembering f cooldown (g.setCall n (d.goTo p)) where
  accounts := by
    refine h.accounts.use fun m a slot hm => ?_
    obtain ⟨d', hd', rfl, hslot⟩ := AccountGate.holds_eq_some.mp hm
    rcases AccountGate.of_setCall hd' with ⟨_, rfl⟩ | ⟨_, hd'⟩
    · exact .inr (hruns slot hslot)
    · exact .inl (AccountGate.holds_eq_some.mpr ⟨d', hd', rfl, hslot⟩)
  locked hm hm' hphase hphase' := by
    rcases AccountGate.of_setCall hm with ⟨_, rfl⟩ | ⟨_, hm⟩
    · exact (hidle _ hphase).elim
    · rcases AccountGate.of_setCall hm' with ⟨_, rfl⟩ | ⟨_, hm'⟩
      · exact (hidle _ hphase').elim
      · exact h.locked hm hm' hphase hphase'
  leads hm hphase := by
    rcases AccountGate.of_setCall hm with ⟨_, rfl⟩ | ⟨_, hm⟩
    · exact (hidle _ hphase).elim
    · exact h.leads hm hphase
  past := h.past
  dated := h.dated
  remembered := h.remembered

theorem Remembering.lead (h : Remembering f cooldown g) (hd : g.calls n = some d)
    (hphase : d.phase = .queued slot) (hfree : g.Unlocked slot)
    (hnone : (g.slots slot).refusal = none) :
    Remembering f cooldown (g.setCall n (d.goTo (.leading slot))) where
  accounts := by
    have hentry : g.accounts.entry (.of f d.cfg) = some slot := h.entry hd (by rw [hphase]; rfl)
    refine h.accounts.use fun m a slot' hm => ?_
    obtain ⟨d', hd', rfl, hslot⟩ := AccountGate.holds_eq_some.mp hm
    rcases AccountGate.of_setCall hd' with ⟨_, rfl⟩ | ⟨_, hd'⟩
    · cases hslot
      exact .inr hentry
    · exact .inl (AccountGate.holds_eq_some.mpr ⟨d', hd', rfl, hslot⟩)
  locked hm hm' hleads hleads' := by
    rcases AccountGate.of_setCall hm with ⟨hn, rfl⟩ | ⟨_, hm⟩ <;>
      rcases AccountGate.of_setCall hm' with ⟨hn', rfl⟩ | ⟨_, hm'⟩
    · exact hn.trans hn'.symm
    · cases hleads
      exact (hfree _ _ hm' hleads').elim
    · cases hleads'
      exact (hfree _ _ hm hleads).elim
    · exact h.locked hm hm' hleads hleads'
  leads hm hleads := by
    rcases AccountGate.of_setCall hm with ⟨_, rfl⟩ | ⟨_, hm⟩
    · cases hleads
      exact hnone
    · exact h.leads hm hleads
  past := h.past
  dated := h.dated
  remembered := h.remembered

/-- A slot's record changes, and no refusal is lost that still stands. -/
theorem Remembering.setSlot (h : Remembering f cooldown g) {state : Slot}
    (hleads : ∀ m d, g.calls m = some d → d.phase = .leading slot → state.refusal = none)
    (hdated : ∀ r, state.refusal = some r → r.time ≤ g.now)
    (hstands : ∀ r, (g.slots slot).refusal = some r → r.time + cooldown ≤ g.now ∨
      ∃ r', state.refusal = some r' ∧ r.time ≤ r'.time) :
    Remembering f cooldown (g.setSlot slot state) where
  accounts := h.accounts
  locked := h.locked
  leads {m d slot'} hm hphase := by
    rcases eq_or_ne slot' slot with rfl | hne
    · simpa [AccountGate.setSlot] using hleads m d hm hphase
    · simpa [AccountGate.setSlot, hne] using h.leads hm hphase
  past := h.past
  dated {slot' r} hr := by
    rcases eq_or_ne slot' slot with rfl | hne
    · exact hdated r (by simpa [AccountGate.setSlot] using hr)
    · exact h.dated (by simpa [AccountGate.setSlot, hne] using hr)
  remembered x hx := by
    rcases h.remembered x hx with hover | ⟨slot', r, hentry, hr, hle⟩
    · exact .inl hover
    · rcases eq_or_ne slot' slot with rfl | hne
      · rcases hstands r hr with hover | ⟨r', hr', hlater⟩
        · exact .inl (Nat.le_trans (Nat.add_le_add_right hle _) hover)
        · refine .inr ⟨slot', r', hentry, ?_, Nat.le_trans hle hlater⟩
          simpa [AccountGate.setSlot] using hr'
      · exact .inr ⟨slot', r, hentry, by simpa [AccountGate.setSlot, hne] using hr, hle⟩

/-- A refusal that no longer stands is forgotten. -/
theorem Remembering.clear (h : Remembering f cooldown g) (hcooled : g.Cooled cooldown slot) :
    Remembering f cooldown (g.setSlot slot ⟨none, (g.slots slot).last⟩) :=
  h.setSlot (fun _ _ _ _ => rfl) nofun fun r hr => .inl (hcooled r hr)

/-- Only how the last dial ended changes. -/
theorem Remembering.setLast (h : Remembering f cooldown g) (last : Option Outcome) :
    Remembering f cooldown (g.setSlot slot ⟨(g.slots slot).refusal, last⟩) :=
  h.setSlot (fun _ _ hm hphase => h.leads hm hphase) (fun _ hr => h.dated hr) fun r hr =>
    .inr ⟨r, hr, Nat.le_refl _⟩

/-- A refusal is written down in the account's slot, whose lock nobody else has. -/
theorem Remembering.refuse (h : Remembering f cooldown g)
    (hentry : g.accounts.entry a = some slot) (hfree : g.Unlocked slot) (why : String)
    (last : Option Outcome) : Remembering f cooldown (g.refuse slot a why last) := by
  have hset : Remembering f cooldown (g.setSlot slot ⟨some ⟨g.now, why⟩, last⟩) := by
    refine h.setSlot (fun m d hm hphase => (hfree m d hm hphase).elim) ?_ fun r hr =>
      .inr ⟨_, rfl, h.dated hr⟩
    rintro _ ⟨⟩
    exact Nat.le_refl _
  refine ⟨hset.accounts, hset.locked, hset.leads, fun x hx => ?_, hset.dated, fun x hx => ?_⟩
  · rcases List.mem_append.mp hx with hold | hnew
    · exact h.past x hold
    · rw [List.mem_singleton.mp hnew]
      exact Nat.le_refl g.now
  · rcases List.mem_append.mp hx with hold | hnew
    · exact hset.remembered x hold
    · rw [List.mem_singleton.mp hnew]
      refine .inr ⟨slot, ⟨g.now, why⟩, hentry, ?_, Nat.le_refl g.now⟩
      simp [AccountGate.refuse, AccountGate.setSlot]

/-- The leader has let go: nobody has the slot's lock. -/
theorem Remembering.unlocked (h : Remembering f cooldown g) (hd : g.calls n = some d)
    (hphase : d.phase = .leading slot) (hd' : ∀ slot, d'.phase ≠ .leading slot) :
    (g.setCall n d').Unlocked slot := by
  intro m d'' hm hleads
  rcases AccountGate.of_setCall hm with ⟨_, rfl⟩ | ⟨hne, hm⟩
  · exact hd' _ hleads
  · exact hne (h.locked hm hd hleads hphase)

/-- What a sweep leaves, and loses: nothing that runs, and no refusal that stands. -/
theorem Remembering.sweep (h : Remembering f cooldown g) {left : Registry Account}
    (hleft : g.Swept cooldown left) : Remembering f cooldown { g with accounts := left } where
  accounts := by
    refine h.accounts.sub hleft.made (fun a slot hslot => ((hleft.entry a slot).mp hslot).1) ?_
    intro m a slot hm
    refine (hleft.entry a slot).mpr ⟨h.accounts.held hm, fun hforget => ?_⟩
    obtain ⟨d, hd, _, hruns⟩ := AccountGate.holds_eq_some.mp hm
    exact hforget.1 m d hd (CallPhase.slot_eq hruns)
  locked := h.locked
  leads := h.leads
  past := h.past
  dated := h.dated
  remembered x hx := by
    rcases h.remembered x hx with hover | ⟨slot, r, hentry, hr, hle⟩
    · exact .inl hover
    · rcases Nat.lt_or_ge g.now (r.time + cooldown) with hwarm | hover
      · refine .inr ⟨slot, r, (hleft.entry _ _).mpr ⟨hentry, fun hforget => ?_⟩, hr, hle⟩
        exact Nat.not_lt_of_le (hforget.2 r hr) hwarm
      · exact .inl (Nat.le_trans (Nat.add_le_add_right hle _) hover)

/-- The account gets a slot of its own, with nothing on it. -/
theorem Remembering.enter (h : Remembering f cooldown g) (hnone : g.accounts.entry a = none) :
    Remembering f cooldown
      { g.setSlot g.accounts.made ⟨none, none⟩ with accounts := g.accounts.enter a } := by
  -- the slots that are some account's are older
  have hold {b slot} (hslot : g.accounts.entry b = some slot) :
      update g.slots g.accounts.made ⟨none, none⟩ slot = g.slots slot :=
    update_of_ne (Nat.ne_of_lt (h.accounts.numbered hslot)) ..
  constructor
  case accounts => exact h.accounts.enter hnone
  case locked => exact h.locked
  case leads =>
    intro m d slot hm hphase
    have hentry : g.accounts.entry (.of f d.cfg) = some slot := h.entry hm (by rw [hphase]; rfl)
    exact (congrArg Slot.refusal (hold hentry)).trans (h.leads hm hphase)
  case past => exact h.past
  case dated =>
    intro slot r hr
    change (update g.slots _ _ slot).refusal = some r at hr
    rcases eq_or_ne slot g.accounts.made with rfl | hne
    · rw [update_self] at hr
      cases hr
    · rw [update_of_ne hne] at hr
      exact h.dated hr
  case remembered =>
    intro x hx
    rcases h.remembered x hx with hover | ⟨slot, r, hentry, hr, hle⟩
    · exact .inl hover
    · have hne : x.1 ≠ a := by
        intro heq
        cases hnone.symm.trans (heq ▸ hentry)
      refine .inr ⟨slot, r, (update_of_ne hne ..).trans hentry, ?_, hle⟩
      exact (congrArg Slot.refusal (hold hentry)).trans hr

/-- The last to have the slot takes it out of the map: it has no refusal. -/
theorem Remembering.strike (h : Remembering f cooldown g)
    (hours : g.accounts.entry (.of f d.cfg) = some slot) (hlast : g.UnheldBut n slot)
    (hnone : (g.slots slot).refusal = none) {p : CallPhase} (hp : p.runsOn = none) :
    Remembering f cooldown
      ({ g with accounts := g.accounts.strike (.of f d.cfg) }.setCall n (d.goTo p)) := by
  have hmoved : Remembering f cooldown (g.setCall n (d.goTo p)) :=
    h.move (by rw [hp]; exact nofun) (by rintro slot rfl; cases hp)
  refine ⟨hmoved.accounts.strike fun m slot' hm => ?_, hmoved.locked, hmoved.leads, h.past,
    h.dated, fun x hx => ?_⟩
  · obtain ⟨d', hd', haccount, hruns⟩ := AccountGate.holds_eq_some.mp hm
    rcases AccountGate.of_setCall hd' with ⟨_, rfl⟩ | ⟨hne, hd'⟩
    · cases hp.symm.trans hruns
    · have hentry := h.entry hd' hruns
      rw [haccount, hours] at hentry
      obtain rfl := Option.some.inj hentry
      exact hlast m d' hne hd' (CallPhase.slot_eq hruns)
  · rcases h.remembered x hx with hover | ⟨slot', r, hentry, hr, hle⟩
    · exact .inl hover
    · have hne : x.1 ≠ .of f d.cfg := by
        intro heq
        rw [heq, hours] at hentry
        obtain rfl := Option.some.inj hentry
        cases hnone.symm.trans hr
      exact .inr ⟨slot', r, (update_of_ne hne ..).trans hentry, hr, hle⟩

theorem Remembering.tick (h : Remembering f cooldown g) :
    Remembering f cooldown { g with now := g.now + 1 } where
  accounts := h.accounts
  locked := h.locked
  leads := h.leads
  past x hx := Nat.le_succ_of_le (h.past x hx)
  dated hr := Nat.le_succ_of_le (h.dated hr)
  remembered x hx := (h.remembered x hx).imp_left Nat.le_succ_of_le

theorem Remembering.step (h : Remembering f cooldown g) (hstep : CallStep f cooldown g e g') :
    Remembering f cooldown g' := by
  cases hstep with
  | tick => exact h.tick
  | @ask n cfg route => exact h.move (d := ⟨cfg, route, g.now, .asked⟩) (p := .asked) nofun nofun
  | known hd hphase hleft hslot =>
      refine (h.sweep hleft).move ?_ nofun
      rintro _ ⟨⟩
      exact hslot
  | @fresh n d left hd hphase hleft hslot =>
      have hswept := h.sweep hleft
      refine (hswept.enter hslot).move ?_ nofun
      rintro _ ⟨⟩
      exact Registry.entry_enter
  | turnedAway hd hphase => exact h.move nofun nofun
  | share hd hphase _ hcooled =>
      refine (h.clear hcooled).move ?_ nofun
      rintro _ ⟨⟩
      exact h.entry hd (by rw [hphase]; rfl)
  | goAlone hd hphase _ hcooled =>
      refine (h.clear hcooled).move ?_ nofun
      rintro _ ⟨⟩
      exact h.entry hd (by rw [hphase]; rfl)
  | lead hd hphase hfree hcooled =>
      exact (h.clear hcooled).lead hd hphase hfree (by simp [AccountGate.setSlot])
  | accepted hd hphase | failed hd hphase =>
      refine (h.setLast _).move ?_ nofun
      rintro _ ⟨⟩
      exact h.entry hd (by rw [hphase]; rfl)
  | @refused n d slot e hd hphase =>
      have hentry : g.accounts.entry (.of f d.cfg) = some slot := h.entry hd (by rw [hphase]; rfl)
      have hmoved : Remembering f cooldown (g.setCall n (d.goTo (.leaving slot
          (.fallback .authRefused (refusedDetail d.cfg cooldown e))))) := by
        refine h.move ?_ nofun
        rintro _ ⟨⟩
        exact hentry
      exact hmoved.refuse hentry (h.unlocked hd hphase nofun) e none
  | aloneEnded hd hphase | aloneRefused hd hphase =>
      refine h.move ?_ nofun
      rintro _ ⟨⟩
      exact h.entry hd (by rw [hphase]; rfl)
  | @record n d slot e hd hphase hfree =>
      have hentry : g.accounts.entry (.of f d.cfg) = some slot := h.entry hd (by rw [hphase]; rfl)
      refine (h.refuse hentry hfree e _).move ?_ nofun
      rintro _ ⟨⟩
      exact hentry
  | releaseLast _ _ hours hlast hnone => exact h.strike hours hlast hnone rfl
  | release | returns | drop => exact h.move nofun nofun

/-- The refusal that was recorded stands in the account's slot. -/
theorem Remembering.stands (h : Remembering f cooldown g) {time : ℕ}
    (hmem : (a, time) ∈ g.recorded) (hwarm : g.now < time + cooldown) :
    ∃ slot r, g.accounts.entry a = some slot ∧ (g.slots slot).refusal = some r ∧
      g.now < r.time + cooldown := by
  rcases h.remembered _ hmem with hover | ⟨slot, r, hentry, hr, hle⟩
  · exact (Nat.not_lt_of_le hover hwarm).elim
  · exact ⟨slot, r, hentry, hr, Nat.lt_of_lt_of_le hwarm (Nat.add_le_add_right hle _)⟩

/-- While a refusal stands in a slot nobody dials under its lock. -/
theorem Remembering.unlocked_of_refusal (h : Remembering f cooldown g) {r : Refusal}
    (hr : (g.slots slot).refusal = some r) : g.Unlocked slot := by
  intro m d hm hphase
  rw [h.leads hm hphase] at hr
  cases hr

/-- A dial that gets the lock while a refusal stands goes no further. -/
theorem turnedAway_of_lock {r : Refusal} (hd : g.calls n = some d)
    (hphase : d.phase = .queued slot) (hr : (g.slots slot).refusal = some r)
    (hwarm : g.now < r.time + cooldown) (hstep : CallStep f cooldown g (.lock n) g') :
    ∃ why, g' = g.setCall n (d.goTo (.returning slot (.fallback .authCooldown why))) := by
  have hd_eq {d'} (hd' : g.calls n = some d') : d' = d := Option.some.inj (hd'.symm.trans hd)
  have hnot {d' slot'} (hd' : g.calls n = some d') (hphase' : d'.phase = .queued slot') :
      ¬g.Cooled cooldown slot' := by
    intro hcooled
    rw [hd_eq hd', hphase] at hphase'
    cases hphase'
    exact Nat.not_lt_of_le (hcooled r hr) hwarm
  cases hstep with
  | @turnedAway _ d' slot' r' hd' hphase' =>
      obtain rfl := hd_eq hd'
      rw [hphase] at hphase'
      cases hphase'
      exact ⟨_, rfl⟩
  | share hd' hphase' _ hcooled | goAlone hd' hphase' _ hcooled | lead hd' hphase' _ hcooled =>
      exact (hnot hd' hphase' hcooled).elim

/-- What is left by a sweep while nobody has a slot remembers a refusal that stands. -/
theorem refusal_of_swept {left : Registry Account} (hleft : g.Swept cooldown left)
    (hunheld : g.Unheld slot) (hentry : left.entry a = some slot) :
    ∃ r, (g.slots slot).refusal = some r ∧ g.now < r.time + cooldown := by
  have hkept := ((hleft.entry a slot).mp hentry).2
  have hwarm : ¬g.Cooled cooldown slot := fun hcooled => hkept ⟨hunheld, hcooled⟩
  simpa [AccountGate.Cooled] using hwarm

theorem Remembering.forgets (h : Remembering f cooldown g)
    (hstep : CallStep f cooldown g (.slot n) g')
    (halone : ∀ m d, m ≠ n → g.calls m = some d → d.phase.slot = none)
    (hentry : g'.accounts.entry a = some slot) :
    (∃ d, g.calls n = some d ∧ Account.of f d.cfg = a) ∨
      ∃ r, (g'.slots slot).refusal = some r ∧ g'.now < r.time + cooldown := by
  have hunheld {d} (hd : g.calls n = some d) (hphase : d.phase = .asked) : g.Unheld slot := by
    intro m d' hm
    rcases eq_or_ne m n with rfl | hne
    · rw [← Option.some.inj (hd.symm.trans hm), hphase]
      exact nofun
    · rw [halone m d' hne hm]
      exact nofun
  cases hstep with
  | known hd hphase hleft => exact .inr (refusal_of_swept hleft (hunheld hd hphase) hentry :)
  | @fresh _ d left hd hphase hleft =>
      rcases update_eq_some hentry with ⟨ha, _⟩ | ⟨_, hold⟩
      · exact .inl ⟨d, hd, ha.symm⟩
      · obtain ⟨r, hr, hwarm⟩ := refusal_of_swept hleft (hunheld hd hphase) hold
        -- the new slot is not the one of an account that was kept
        have hne : slot ≠ left.made := Nat.ne_of_lt ((h.sweep hleft).accounts.numbered hold)
        refine .inr ⟨r, ?_, hwarm⟩
        exact (congrArg Slot.refusal (update_of_ne hne ..)).trans hr

/-- **The gate's memory is exact and bounded**, for any accounts and any interleaving of
their dials. -/
theorem memory_exact (f : Folding) (cooldown : ℕ)
    (h : Reaches (CallStep f cooldown) unrestricted .new g) : MemoryExact f cooldown g := by
  have hg : Remembering f cooldown g :=
    h.invariant (remembering_new f cooldown) fun hg _ hstep => hg.step hstep
  constructor
  case shared =>
    intro n m d d' slot slot' hd hd' haccount hruns hruns'
    have hentry := hg.entry hd' hruns'
    rw [← haccount, hg.entry hd hruns] at hentry
    exact Option.some.inj hentry
  case refuses =>
    rintro _ time n d hmem hwarm hd rfl
    obtain ⟨stood, r, hentry, hr, hstands⟩ := hg.stands hmem hwarm
    have hown {slot} (hruns : d.phase.runsOn = some slot) : slot = stood :=
      Option.some.inj ((hg.entry hd hruns).symm.trans hentry)
    refine ⟨fun slot hphase => ?_, fun slot hphase => ?_⟩
    · obtain rfl := hown (by rw [hphase]; rfl)
      exact hg.unlocked_of_refusal hr n d hd hphase
    · obtain rfl := hown (by rw [hphase]; rfl)
      exact ⟨hg.unlocked_of_refusal hr, fun g' => turnedAway_of_lock hd hphase hr hstands⟩
  case forgets => exact fun hstep halone a slot => hg.forgets hstep halone

end Steps

/-! ### A run -/

def alice : SmbConfig := ⟨"nas.example", "alice", "guess", ""⟩

/-- Names that are in lower case already, and one password. -/
def plain : Folding := ⟨id, fun _ => 7⟩

/-- A login is refused, and the next one of the account finds its slot. -/
theorem second_login_finds_slot :
    ∃ g, MemoryExact plain 3600 g ∧ g.recorded = [(.of plain alice, 0)] ∧
      (g.calls 1).map GateCall.phase = some (.queued 0) := by
  have h := (Reaches.start : Reaches (CallStep plain 3600) unrestricted .new _)
  have h := h.next trivial (@CallStep.ask _ _ _ 0 alice .address rfl)
  have h := h.next trivial (@CallStep.fresh _ _ _ 0 _ .empty rfl rfl
    ⟨rfl, fun _ _ => ⟨nofun, nofun⟩⟩ rfl)
  have h := h.next trivial (@CallStep.lead _ _ _ 0 _ 0 rfl rfl ?free nofun nofun)
  have h := h.next trivial (@CallStep.refused _ _ _ 0 _ 0 "bad password" rfl rfl)
  have h := h.next trivial (@CallStep.ask _ _ _ 1 alice .address rfl)
  have h := h.next trivial (@CallStep.known _ _ _ 1 _ _ 0 rfl rfl ⟨rfl, ?kept⟩ rfl)
  · exact ⟨_, memory_exact plain 3600 h, rfl, rfl⟩
  case free =>
    intro m d hm
    rcases AccountGate.of_setCall hm with ⟨_, rfl⟩ | ⟨hne, hm⟩
    · exact nofun
    · rcases AccountGate.of_setCall hm with ⟨heq, _⟩ | ⟨_, hm⟩
      · exact (hne heq).elim
      · cases hm
  case kept =>
    refine fun a slot => ⟨fun hentry => ⟨hentry, fun hforget => ?_⟩, And.left⟩
    rcases update_eq_some hentry with ⟨_, rfl⟩ | ⟨_, hnone⟩
    · -- its refusal is as old as the clock
      have hover : 0 + 3600 ≤ 0 := hforget.2 ⟨0, "bad password"⟩ rfl
      cases hover
    · cases hnone

end SynologyFilestation.Smb
