import SynologyFilestation.Library.Transition
import Mathlib.Data.List.Nodup

/-!
The throttle of the heavy transfers (`core/src/client/throttle.rs`,
`acquire_transfer_slot`).

A call is given a slot by the belt, sleeps until the slot opens, and then takes a permit of
the semaphore. Slots are a `min_interval` apart. What the belt says nothing about is how
long a call waits for its permit behind its slot: calls that are let in together start together,
however far apart their slots were.
-/

namespace SynologyFilestation.Core

open Library

/-- The two limits of `ThrottleConfig` that a slot is subject to. -/
structure ThrottleConfig where
  maxConcurrency : ℕ
  minInterval : ℕ

/-- `Semaphore`. It serves in turn: a permit that comes back goes to the first who waits. -/
structure Semaphore where
  permits : ℕ
  waiters : List ℕ

structure Throttle where
  sem : Semaphore
  minInterval : ℕ
  /-- When the next request may start. -/
  nextEarliest : ℕ

/-- `with_throttle`. -/
def ThrottleConfig.throttle (cfg : ThrottleConfig) (now : ℕ) : Throttle :=
  { sem := ⟨max cfg.maxConcurrency 1, []⟩, minInterval := cfg.minInterval, nextEarliest := now }

/-- The rate-limit belt: the slot that a call reserves. A belt of no interval is not asked, and
the call goes on at once. -/
def Throttle.reserve (t : Throttle) (now : ℕ) : ℕ × Throttle :=
  if 0 < t.minInterval then
    let scheduled := max t.nextEarliest now
    (scheduled, { t with nextEarliest := scheduled + t.minInterval })
  else (now, t)

@[simp] theorem Throttle.sem_reserve (t : Throttle) (now : ℕ) : (t.reserve now).2.sem = t.sem := by
  unfold reserve
  split <;> rfl

@[simp] theorem Throttle.minInterval_reserve (t : Throttle) (now : ℕ) :
    (t.reserve now).2.minInterval = t.minInterval := by
  unfold reserve
  split <;> rfl

/-- A slot is not before those reserved, and the next is an interval behind it. -/
theorem Throttle.reserve_of_pos {t : Throttle} (h : 0 < t.minInterval) (now : ℕ) :
    t.nextEarliest ≤ (t.reserve now).1 ∧
      (t.reserve now).2.nextEarliest = (t.reserve now).1 + t.minInterval := by
  rw [reserve, if_pos h]
  exact ⟨Nat.le_max_left .., rfl⟩

/-- Where a call of `acquire_transfer_slot` is. -/
inductive SlotStage
  /-- Sleeps until the slot opens, or is about to ask for a permit. -/
  | reserved
  | queued
  /-- Has a permit and is about to return. -/
  | granted
  /-- Has returned: the request is in flight. -/
  | inFlight
  /-- The guard was dropped, or the call was given up. -/
  | ended
  deriving DecidableEq

namespace SlotStage

def hasPermit : SlotStage → Bool
  | granted | inFlight => true
  | _ => false

def hasAsked : SlotStage → Bool
  | queued | granted => true
  | _ => false

end SlotStage

/-- A return of `acquire_transfer_slot`. -/
structure Start where
  call : ℕ
  time : ℕ

/-- The throttle and the calls it ever had, numbered in the order of their slots. -/
structure Transfers where
  throttle : Throttle
  now : ℕ
  slots : List ℕ
  stages : List SlotStage
  /-- The latest first. -/
  starts : List Start

/-- Nobody has called yet. -/
def ThrottleConfig.transfers (cfg : ThrottleConfig) (now : ℕ) : Transfers :=
  { throttle := cfg.throttle now, now := now, slots := [], stages := [], starts := [] }

inductive SlotEvent
  | pass (time : ℕ)
  /-- A new call has the lock of the belt. -/
  | arrive
  /-- A call whose slot has opened asks for a permit. -/
  | acquire (call : ℕ)
  /-- A call with a permit returns. -/
  | enter (call : ℕ)
  /-- The request is over, or the caller gives up where it is. -/
  | leave (call : ℕ)

namespace Transfers

def slot (s : Transfers) (c : ℕ) : ℕ := s.slots.getD c 0

def sem (s : Transfers) : Semaphore := s.throttle.sem

def put (s : Transfers) (c : ℕ) (stage : SlotStage) : Transfers :=
  { s with stages := s.stages.set c stage }

def setSem (s : Transfers) (sem : Semaphore) : Transfers :=
  { s with throttle := { s.throttle with sem := sem } }

/-- `acquire`, at its first poll. -/
def ask (s : Transfers) (c : ℕ) : Transfers :=
  if 0 < s.sem.permits then
    (s.put c .granted).setSem { s.sem with permits := s.sem.permits - 1 }
  else (s.put c .queued).setSem { s.sem with waiters := s.sem.waiters ++ [c] }

/-- A permit comes back. -/
def release (s : Transfers) : Transfers :=
  match s.sem.waiters with
  | [] => s.setSem { s.sem with permits := s.sem.permits + 1 }
  | u :: waiters => (s.put u .granted).setSem { s.sem with waiters := waiters }

def drop (s : Transfers) (c : ℕ) : Transfers :=
  match s.stages[c]? with
  | some .reserved => s.put c .ended
  | some .queued =>
      (s.put c .ended).setSem { s.sem with waiters := s.sem.waiters.erase c }
  | some .granted | some .inFlight => (s.put c .ended).release
  | _ => s

def after (s : Transfers) : SlotEvent → Transfers
  | .pass time => { s with now := s.now + time }
  | .arrive =>
      { s with
        throttle := (s.throttle.reserve s.now).2
        slots := s.slots ++ [(s.throttle.reserve s.now).1]
        stages := s.stages ++ [.reserved] }
  | .acquire c => if s.stages[c]? = some .reserved ∧ s.slot c ≤ s.now then s.ask c else s
  | .enter c =>
      if s.stages[c]? = some .granted then
        { s.put c .inFlight with starts := ⟨c, s.now⟩ :: s.starts }
      else s
  | .leave c => s.drop c

/-- How many requests are in flight. -/
def inFlight (s : Transfers) : ℕ := s.stages.countP (· = .inFlight)

/-- Any two requests started at least `interval` apart. -/
def Spaced (interval : ℕ) (s : Transfers) : Prop :=
  s.starts.Pairwise fun later earlier => earlier.time + interval ≤ later.time

instance (interval : ℕ) (s : Transfers) : Decidable (s.Spaced interval) :=
  inferInstanceAs (Decidable (List.Pairwise _ _))

/-- How far behind its slot a call returned. -/
def delay (s : Transfers) (x : Start) : ℕ := x.time - s.slot x.call

/-- A call that returns does not catch up with the last that returned: either its slot is clear
of that return, or that call was before it in the order of the slots and was held up behind
its slot no longer than this one is. Without a belt there is nothing to keep. -/
def NoCatchingUp (s : Transfers) : SlotEvent → Prop
  | .enter c => 0 < s.throttle.minInterval →
      ∀ last ∈ s.starts.head?, last.time + s.throttle.minInterval ≤ s.slot c ∨
        last.call < c ∧ s.delay last ≤ s.delay ⟨c, s.now⟩
  | _ => True

instance NoCatchingUp.decidable (s : Transfers) : ∀ e, Decidable (s.NoCatchingUp e)
  | .enter _ => inferInstanceAs (Decidable (_ → ∀ last ∈ s.starts.head?, _))
  | .pass _ | .arrive | .acquire _ | .leave _ => .isTrue trivial

section Served

variable {s : Transfers} {c u capacity : ℕ} {stage new : SlotStage} {sem : Semaphore}

@[simp] theorem sem_put : (s.put c new).sem = s.sem := rfl

@[simp] theorem sem_setSem : (s.setSem sem).sem = sem := rfl

@[simp] theorem stages_setSem : (s.setSem sem).stages = s.stages := rfl

theorem stages_put_of_ne (h : c ≠ u) : (s.put c new).stages[u]? = s.stages[u]? :=
  List.getElem?_set_ne h

theorem stages_put_self (h : s.stages[c]? = some stage) :
    (s.put c new).stages[c]? = some new := by
  rw [put, List.getElem?_set_self (List.getElem?_eq_some_iff.mp h).1]

/-- How many calls have a permit. -/
def held (s : Transfers) : ℕ := s.stages.countP SlotStage.hasPermit

theorem held_put (h : s.stages[c]? = some stage) :
    (s.put c new).held + stage.hasPermit.toNat = s.held + new.hasPermit.toNat := by
  obtain ⟨hlt, rfl⟩ := List.getElem?_eq_some_iff.mp h
  have hle : s.stages[c].hasPermit.toNat ≤ s.held := by
    cases hp : s.stages[c].hasPermit with
    | true => exact List.countP_pos_iff.mpr ⟨_, List.getElem_mem hlt, hp⟩
    | false => exact Nat.zero_le _
  have hif : ∀ b : Bool, (if b = true then 1 else 0) = b.toNat := by decide
  rw [held, put, List.countP_set hlt, hif, hif]
  simp only [held] at hle ⊢
  omega

/-- Permits are with the semaphore or with calls, and those in line are waiting. -/
structure Served (capacity : ℕ) (s : Transfers) : Prop where
  permits : s.sem.permits + s.held = capacity
  queued : ∀ u ∈ s.sem.waiters, s.stages[u]? = some .queued
  nodup : s.sem.waiters.Nodup

/-- Whoever is in line is not the call at another stage, and stays in line when that call
goes on. -/
theorem Served.queued_put (h : s.Served capacity) (new : SlotStage) (hc : s.stages[c]? = some stage)
    (hstage : stage ≠ .queued) (hu : u ∈ s.sem.waiters) :
    c ≠ u ∧ (s.put c new).stages[u]? = some .queued := by
  have hne : c ≠ u := by
    rintro rfl
    rw [h.queued c hu] at hc
    exact hstage (Option.some.inj hc).symm
  exact ⟨hne, (stages_put_of_ne hne).trans (h.queued u hu)⟩

theorem Served.ask (h : s.Served capacity) (hc : s.stages[c]? = some .reserved) :
    (s.ask c).Served capacity := by
  have hpermits := h.permits
  have hkept := fun new u (hu : u ∈ s.sem.waiters) =>
    h.queued_put new hc (by decide) hu
  unfold Transfers.ask
  split
  case isTrue hfree =>
    have hheld : (s.put c .granted).held = s.held + 1 := held_put hc
    refine ⟨?_, fun u hu => (hkept _ u hu).2, h.nodup⟩
    change s.sem.permits - 1 + (s.put c .granted).held = capacity
    omega
  case isFalse hfull =>
    have hheld : (s.put c .queued).held = s.held := held_put hc
    refine ⟨?_, fun u hu => ?_, ?_⟩
    · change s.sem.permits + (s.put c .queued).held = capacity
      rw [hheld, hpermits]
    · rcases List.mem_append.mp hu with hu | hu
      · exact (hkept _ u hu).2
      · obtain rfl := List.mem_singleton.mp hu
        exact stages_put_self hc
    · refine List.nodup_append.mpr ⟨h.nodup, List.nodup_singleton c, fun u hu v hv => ?_⟩
      obtain rfl := List.mem_singleton.mp hv
      exact (hkept .queued u hu).1.symm

/-- With one permit on its way back. -/
theorem Served.release (h : s.Served capacity) : s.release.Served (capacity + 1) := by
  have hpermits := h.permits
  unfold Transfers.release
  split
  case h_1 hnone =>
    refine ⟨?_, h.queued, h.nodup⟩
    change s.sem.permits + 1 + s.held = capacity + 1
    omega
  case h_2 u waiters hline =>
    have hu : s.stages[u]? = some .queued := h.queued u (hline ▸ List.mem_cons_self ..)
    obtain ⟨hfirst, hrest⟩ := List.nodup_cons.mp (hline ▸ h.nodup)
    refine ⟨?_, fun v hv => ?_, hrest⟩
    · have hheld : (s.put u .granted).held = s.held + 1 := held_put hu
      change s.sem.permits + (s.put u .granted).held = capacity + 1
      omega
    · have hne : u ≠ v := fun h => hfirst (h ▸ hv)
      exact (stages_put_of_ne hne).trans (h.queued v (hline ▸ List.mem_cons_of_mem _ hv))

/-- A call that is not in line ends; what it had is on its way back. -/
theorem Served.end (h : s.Served capacity) (hc : s.stages[c]? = some stage)
    (hstage : stage ≠ .queued) : (s.put c .ended).Served (capacity - stage.hasPermit.toNat) := by
  have hpermits := h.permits
  have hheld : (s.put c .ended).held + stage.hasPermit.toNat = s.held := held_put hc
  refine ⟨?_, fun u hu => (h.queued_put .ended hc hstage hu).2, h.nodup⟩
  change s.sem.permits + (s.put c .ended).held = capacity - stage.hasPermit.toNat
  omega

theorem Served.end_release (h : s.Served capacity) (hc : s.stages[c]? = some stage)
    (hstage : stage ≠ .queued) (hpermit : stage.hasPermit = true) :
    (s.put c .ended).release.Served capacity := by
  have hpos : 0 < s.held :=
    List.countP_pos_iff.mpr ⟨stage, List.mem_of_getElem? hc, hpermit⟩
  have hended := (h.end hc hstage).release
  rw [hpermit, Bool.toNat_true, Nat.sub_add_cancel] at hended
  · exact hended
  · have hpermits := h.permits
    omega

theorem Served.drop (h : s.Served capacity) : (s.drop c).Served capacity := by
  unfold Transfers.drop
  split
  case h_1 hc => exact h.end hc (by decide)
  case h_2 hc =>
    have hheld : (s.put c .ended).held = s.held := held_put hc
    refine ⟨hheld ▸ h.permits, fun u hu => ?_, h.nodup.erase c⟩
    have hne : u ≠ c := ((List.Nodup.mem_erase_iff h.nodup).mp hu).1
    exact (stages_put_of_ne hne.symm).trans (h.queued u (List.mem_of_mem_erase hu))
  case h_3 hc => exact h.end_release hc (by decide) rfl
  case h_4 hc => exact h.end_release hc (by decide) rfl
  case h_5 => exact h

theorem served_transfers (cfg : ThrottleConfig) (now : ℕ) :
    (cfg.transfers now).Served (max cfg.maxConcurrency 1) :=
  ⟨rfl, by simp [ThrottleConfig.transfers, ThrottleConfig.throttle, Transfers.sem], .nil⟩

theorem Served.after (h : s.Served capacity) (e : SlotEvent) : (s.after e).Served capacity := by
  cases e with
  | pass => exact ⟨h.permits, h.queued, h.nodup⟩
  | arrive =>
      have hsem : (s.after .arrive).sem = s.sem := s.throttle.sem_reserve s.now
      refine ⟨?_, ?_, ?_⟩
      · rw [hsem, held, Transfers.after, List.countP_append]
        exact h.permits
      · intro u hu
        rw [hsem] at hu
        exact List.getElem?_append_left (List.getElem?_eq_some_iff.mp (h.queued u hu)).1 ▸
          h.queued u hu
      · exact hsem ▸ h.nodup
  | acquire c =>
      rw [Transfers.after]
      split
      case isTrue hc => exact h.ask hc.1
      case isFalse => exact h
  | enter c =>
      rw [Transfers.after]
      split
      case isTrue hc =>
        have hheld : (s.put c .inFlight).held + 1 = s.held + 1 := held_put hc
        refine ⟨?_, fun u hu => (h.queued_put .inFlight hc (by decide) hu).2, h.nodup⟩
        change s.sem.permits + (s.put c .inFlight).held = capacity
        have hpermits := h.permits
        omega
      case isFalse => exact h
  | leave c => exact h.drop

theorem Served.inFlight_le (h : s.Served capacity) : s.inFlight ≤ capacity := by
  have hle : s.inFlight ≤ s.held :=
    List.countP_mono_left fun stage _ hstage => by
      rw [of_decide_eq_true hstage]
      rfl
  have hpermits := h.permits
  omega

end Served

section Belt

variable {s : Transfers} {c c' u capacity interval : ℕ} {stage : SlotStage} {sem : Semaphore}
  {e : SlotEvent}

@[simp] theorem starts_ask : (s.ask c).starts = s.starts := by
  unfold Transfers.ask
  split <;> rfl

@[simp] theorem starts_release : s.release.starts = s.starts := by
  unfold Transfers.release
  split <;> rfl

@[simp] theorem starts_drop : (s.drop c).starts = s.starts := by
  unfold Transfers.drop
  split <;> first | exact starts_release | rfl

/-- What the belt keeps: slots lie an interval apart, and a call asks for its permit, and returns,
when its slot has opened. -/
structure OnBelt (interval : ℕ) (s : Transfers) : Prop where
  interval_eq : s.throttle.minInterval = interval
  length_eq : s.slots.length = s.stages.length
  slots : 0 < interval → s.slots.Pairwise fun slot slot' => slot + interval ≤ slot'
  next : 0 < interval → ∀ slot ∈ s.slots, slot + interval ≤ s.throttle.nextEarliest
  opened : ∀ c stage, s.stages[c]? = some stage → stage.hasAsked → s.slot c ≤ s.now
  started : ∀ x ∈ s.starts,
    x.call < s.slots.length ∧ s.slot x.call ≤ x.time ∧ x.time ≤ s.now

theorem OnBelt.setSem (h : s.OnBelt interval) : (s.setSem sem).OnBelt interval :=
  ⟨h.interval_eq, h.length_eq, h.slots, h.next, h.opened, h.started⟩

theorem OnBelt.put (h : s.OnBelt interval) (hstage : stage.hasAsked → s.slot c ≤ s.now) :
    (s.put c stage).OnBelt interval := by
  refine ⟨h.interval_eq, ?_, h.slots, h.next, fun c' stage' hc' hasked => ?_, h.started⟩
  · rw [Transfers.put, List.length_set]
    exact h.length_eq
  · change s.slot c' ≤ s.now
    by_cases hcc : c = c'
    · subst hcc
      have hlt : c < s.stages.length := by
        have := (List.getElem?_eq_some_iff.mp hc').1
        rwa [Transfers.put, List.length_set] at this
      rw [Transfers.put, List.getElem?_set_self hlt] at hc'
      exact hstage (Option.some.inj hc' ▸ hasked)
    · rw [stages_put_of_ne hcc] at hc'
      exact h.opened c' stage' hc' hasked

theorem OnBelt.ask (h : s.OnBelt interval) (hslot : s.slot c ≤ s.now) :
    (s.ask c).OnBelt interval := by
  unfold Transfers.ask
  split
  · exact (h.put fun _ => hslot).setSem
  · exact (h.put fun _ => hslot).setSem

theorem OnBelt.release (h : s.OnBelt interval) (hserved : s.Served capacity) :
    s.release.OnBelt interval := by
  unfold Transfers.release
  split
  case h_1 => exact h.setSem
  case h_2 u waiters hline =>
    have hu : s.stages[u]? = some .queued := hserved.queued u (hline ▸ List.mem_cons_self ..)
    exact (h.put fun _ => h.opened u _ hu rfl).setSem

theorem OnBelt.drop (h : s.OnBelt interval) (hserved : s.Served capacity) :
    (s.drop c).OnBelt interval := by
  have hended : (s.put c .ended).OnBelt interval := h.put nofun
  unfold Transfers.drop
  split
  case h_1 => exact hended
  case h_2 => exact hended.setSem
  case h_3 hc => exact hended.release (hserved.end hc (by decide))
  case h_4 hc => exact hended.release (hserved.end hc (by decide))
  case h_5 => exact h

theorem OnBelt.after (h : s.OnBelt interval) (hserved : s.Served capacity) (e : SlotEvent) :
    (s.after e).OnBelt interval := by
  cases e with
  | pass time =>
      refine ⟨h.interval_eq, h.length_eq, h.slots, h.next, fun c stage hc hasked => ?_,
        fun x hx => ?_⟩
      · exact Nat.le_trans (h.opened c stage hc hasked) (Nat.le_add_right ..)
      · obtain ⟨hlt, hslot, hpast⟩ := h.started x hx
        exact ⟨hlt, hslot, Nat.le_trans hpast (Nat.le_add_right ..)⟩
  | arrive =>
      have hslot : ∀ c < s.slots.length, (s.after .arrive).slot c = s.slot c := fun c hc => by
        rw [slot, slot, List.getD_eq_getElem?_getD, List.getD_eq_getElem?_getD, Transfers.after,
          List.getElem?_append_left hc]
      refine ⟨?_, ?_, fun hpos => ?_, fun hpos => ?_, ?_, ?_⟩
      · exact (s.throttle.minInterval_reserve s.now).trans h.interval_eq
      · simp [Transfers.after, h.length_eq]
      · obtain ⟨hnext, -⟩ := Throttle.reserve_of_pos (t := s.throttle) (h.interval_eq ▸ hpos) s.now
        refine List.pairwise_append.mpr
          ⟨h.slots hpos, List.pairwise_singleton .., fun slot hslot slot' hslot' => ?_⟩
        obtain rfl := List.mem_singleton.mp hslot'
        exact Nat.le_trans (h.next hpos slot hslot) hnext
      · intro slot hslot
        obtain ⟨hnext, hnext'⟩ :=
          Throttle.reserve_of_pos (t := s.throttle) (h.interval_eq ▸ hpos) s.now
        rw [h.interval_eq] at hnext'
        change slot + interval ≤ (s.throttle.reserve s.now).2.nextEarliest
        rcases List.mem_append.mp hslot with hslot | hslot
        · have := h.next hpos slot hslot
          omega
        · obtain rfl := List.mem_singleton.mp hslot
          omega
      · intro c stage hc hasked
        change (s.stages ++ [.reserved])[c]? = some stage at hc
        rcases Nat.lt_or_ge c s.stages.length with hlt | hge
        · rw [List.getElem?_append_left hlt] at hc
          rw [hslot c (h.length_eq ▸ hlt)]
          exact h.opened c stage hc hasked
        · rw [List.getElem?_append_right hge] at hc
          obtain rfl := List.mem_singleton.mp (List.mem_of_getElem? hc)
          cases hasked
      · intro x hx
        obtain ⟨hlt, hopen, hpast⟩ := h.started x hx
        refine ⟨?_, (hslot _ hlt).symm ▸ hopen, hpast⟩
        change x.call < (s.slots ++ _).length
        rw [List.length_append]
        exact Nat.lt_add_right _ hlt
  | acquire c =>
      rw [Transfers.after]
      split
      case isTrue hc => exact h.ask hc.2
      case isFalse => exact h
  | enter c =>
      rw [Transfers.after]
      split
      case isTrue hc =>
        have hput : (s.put c .inFlight).OnBelt interval := h.put nofun
        refine ⟨hput.interval_eq, hput.length_eq, hput.slots, hput.next, hput.opened, ?_⟩
        intro x hx
        rcases List.mem_cons.mp hx with rfl | hx
        · refine ⟨?_, h.opened c _ hc rfl, Nat.le_refl _⟩
          exact h.length_eq ▸ (List.getElem?_eq_some_iff.mp hc).1
        · exact h.started x hx
      case isFalse => exact h
  | leave c => exact h.drop hserved

/-- Later calls have later slots. -/
theorem OnBelt.slot_add_le (h : s.OnBelt interval) (hpos : 0 < interval) (hcc : c < c')
    (hc' : s.stages[c']? = some stage) : s.slot c + interval ≤ s.slot c' := by
  have hlt : c' < s.slots.length := h.length_eq ▸ (List.getElem?_eq_some_iff.mp hc').1
  have hlt' : c < s.slots.length := by omega
  simp only [slot, List.getD_eq_getElem?_getD, List.getElem?_eq_getElem hlt,
    List.getElem?_eq_getElem hlt', Option.getD_some]
  exact List.pairwise_iff_getElem.mp (h.slots hpos) c c' hlt' hlt hcc

/-- Whoever does not catch up with the last that returned is an interval behind it. -/
theorem OnBelt.add_le_now (h : s.OnBelt interval) (hc : s.stages[c]? = some .granted)
    (hmeets : s.NoCatchingUp (.enter c)) {last : Start} (hlast : last ∈ s.starts.head?) :
    last.time + interval ≤ s.now := by
  obtain ⟨-, hslot, hpast⟩ := h.started last (List.mem_of_mem_head? hlast)
  have hopened : s.slot c ≤ s.now := h.opened c _ hc rfl
  rcases Nat.eq_zero_or_pos interval with rfl | hpos
  · exact hpast
  · have hinterval := h.interval_eq
    rcases hmeets (hinterval ▸ hpos) last hlast with hclear | ⟨hbefore, hdelay⟩
    · omega
    · have hslots := h.slot_add_le hpos hbefore hc
      simp only [delay] at hdelay
      omega

theorem Spaced.after (h : s.Spaced interval) (hbelt : s.OnBelt interval)
    (hmeets : s.NoCatchingUp e) : (s.after e).Spaced interval := by
  cases e with
  | pass | arrive => exact h
  | acquire c =>
      rw [Transfers.after]
      split
      · rwa [Spaced, starts_ask]
      · exact h
  | enter c =>
      rw [Transfers.after]
      split
      case isTrue hc =>
        refine List.pairwise_cons.mpr ⟨fun x hx => ?_, h⟩
        change x.time + interval ≤ s.now
        obtain ⟨last, rest, hstarts⟩ := List.exists_cons_of_ne_nil (List.ne_nil_of_mem hx)
        have hlast : last.time + interval ≤ s.now :=
          hbelt.add_le_now hc hmeets (by rw [hstarts]; rfl)
        rw [hstarts] at hx
        rcases List.mem_cons.mp hx with rfl | hx
        · exact hlast
        · rw [Spaced, hstarts] at h
          have hearlier := List.rel_of_pairwise_cons h hx
          omega
      case isFalse => exact h
  | leave c => rwa [Transfers.after, Spaced, starts_drop]

theorem onBelt_transfers (cfg : ThrottleConfig) (now : ℕ) :
    (cfg.transfers now).OnBelt cfg.minInterval :=
  ⟨rfl, rfl, fun _ => .nil, fun _ => nofun, nofun, nofun⟩

end Belt

variable {events : List SlotEvent}

theorem served_events (cfg : ThrottleConfig) (now : ℕ) (events : List SlotEvent) :
    (events.foldl after (cfg.transfers now)).Served (max cfg.maxConcurrency 1) := by
  have hrun : Reaches _ unrestricted _ (events.foldl after (cfg.transfers now)) :=
    Reaches.start.events (everyStep_unrestricted after _ events)
  refine hrun.invariant (served_transfers cfg now) ?_
  rintro s e t hserved - rfl
  exact hserved.after e

theorem spaced_events {cfg : ThrottleConfig} {now : ℕ}
    (h : EveryStep after NoCatchingUp (cfg.transfers now) events) :
    (events.foldl after (cfg.transfers now)).Spaced cfg.minInterval := by
  have hrun : Reaches _ NoCatchingUp _ (events.foldl after (cfg.transfers now)) :=
    Reaches.start.events h
  refine (hrun.invariant
    (P := fun s => s.Served (max cfg.maxConcurrency 1) ∧ s.OnBelt cfg.minInterval ∧
      s.Spaced cfg.minInterval)
    ⟨served_transfers cfg now, onBelt_transfers cfg now, .nil⟩ ?_).2.2
  rintro s e t ⟨hserved, hbelt, hspaced⟩ hmeets rfl
  exact ⟨hserved.after e, hbelt.after hserved e, hspaced.after hbelt hmeets⟩

/-- However long requests last, no more than `max_concurrency` are in flight. They start
`min_interval` apart in every run in which no call catches up with the last that returned. -/
theorem throttle_promises (cfg : ThrottleConfig) (hcfg : 1 ≤ cfg.maxConcurrency) (now : ℕ)
    (events : List SlotEvent) :
    (events.foldl after (cfg.transfers now)).inFlight ≤ cfg.maxConcurrency ∧
      (EveryStep after NoCatchingUp (cfg.transfers now) events →
        (events.foldl after (cfg.transfers now)).Spaced cfg.minInterval) := by
  refine ⟨?_, spaced_events⟩
  have hle := (served_events cfg now events).inFlight_le
  omega

/-- One request at a time: the second call waits for its permit, and the third no less. -/
def patientEvents : List SlotEvent :=
  [.arrive, .acquire 0, .enter 0, .arrive, .arrive, .pass 10, .acquire 1, .pass 10, .acquire 2,
    .pass 5, .leave 0, .enter 1, .pass 10, .leave 1, .enter 2]

theorem patient_promises :
    (patientEvents.foldl after (ThrottleConfig.transfers ⟨1, 10⟩ 0)).Spaced 10 :=
  (throttle_promises ⟨1, 10⟩ (by decide) 0 patientEvents).2 (by decide)

/-- Two long requests end together, and two calls whose slots have long been open return at
once. -/
def togetherEvents : List SlotEvent :=
  [.arrive, .arrive, .arrive, .arrive, .acquire 0, .enter 0, .pass 10, .acquire 1, .enter 1,
    .pass 10, .acquire 2, .pass 10, .acquire 3, .pass 70, .leave 0, .leave 1, .enter 2, .enter 3]

theorem let_in_together : ¬ ∀ (cfg : ThrottleConfig) (now : ℕ) (events : List SlotEvent),
    1 ≤ cfg.maxConcurrency →
      (events.foldl after (cfg.transfers now)).inFlight ≤ cfg.maxConcurrency ∧
        (events.foldl after (cfg.transfers now)).Spaced cfg.minInterval := by
  intro h
  have hspaced := (h ⟨2, 10⟩ 0 togetherEvents (by decide)).2
  revert hspaced
  decide

end Transfers

end SynologyFilestation.Core
