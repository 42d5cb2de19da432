import SynologyFilestation.Library.Transition
import SynologyFilestation.Library.Table
import Mathlib.Data.List.Basic
import Mathlib.Data.Nat.Notation
import Mathlib.Data.UInt

/-!
The extra connections to read over (`Pool` in `smb/src/pool.rs`), and the tasks
that open them (`undrainedmore_lanes` in `smb/src/transport.rs`). Every list is
behind a lock of its own, the flag and the generation are atomics, and the tasks
run across the changes of the session: a step is one access to one of them.

`retire` and `retire_all` take a lane out of `live` in one step and put it into
`draining` in a later one. `all` reads the two lists in that order.
-/

namespace SynologyFilestation.Smb

open Function Library

def firstBackoff : ℕ := 30

def maxBackoff : ℕ := 30 * 60

def maxFailures : ℕ := 6

/-- Seconds to wait after so many failed attempts in a row, or `none` once it is time to
stop asking. -/
def backoff (failures : ℕ) : Option ℕ :=
  if failures = 0 then some 0
  else if maxFailures ≤ failures then none
  else some (min (firstBackoff * 2 ^ (failures - 1)) maxBackoff)

/-- A lane, by when it was added, and the generation it was opened for. -/
structure PoolLane where
  id : ℕ
  generation : ℕ
  deriving DecidableEq

/-- Where an opener's loop is. -/
inductive OpenerStage
  | loops
  /-- `wants` has read the generation. -/
  | current
  | dialing
  | connected
  /-- The loop is over: `opened` is called. -/
  | reporting (failed : Bool)
  deriving DecidableEq

inductive OpenerPhase
  /-- Fewer are live than wanted. -/
  | counted
  /-- And no backoff stands. -/
  | waited
  /-- `opening` was false. -/
  | claimed
  /-- Opening for a generation; `kept` when a lane it opened was added. -/
  | running (generation : ℕ) (kept : Bool) (stage : OpenerStage)
  | releasing
  deriving DecidableEq

/-- The right to open is this task's. -/
def OpenerPhase.Holds : OpenerPhase → Prop
  | .counted | .waited => False
  | .claimed | .running .. | .releasing => True

inductive RetirePhase
  /-- `retire_all` has started this generation. -/
  | bumped (generation : ℕ)
  | cleared (generation : ℕ)
  /-- These lanes are in neither list. -/
  | handing (left : List PoolLane) (generation : Option ℕ)

/-- An `all` that has read `live`. -/
structure Walk where
  seen : List PoolLane
  /-- The lanes that were added and not drained when it began. -/
  owed : List PoolLane

structure Pool where
  wanted : ℕ
  /-- Whether there is a way to open connections. -/
  opener : Bool
  live : List PoolLane
  opening : Bool
  generation : ℕ
  failures : ℕ × Option ℕ
  draining : List PoolLane
  openers : ℕ → Option OpenerPhase
  retires : ℕ → Option RetirePhase
  walks : ℕ → Option Walk
  added : List PoolLane
  drained : List PoolLane
  /-- The latest generation that a `retire_all` that has returned started. -/
  returned : ℕ
  /-- The lanes that the result of some `all` lacks. -/
  missed : List PoolLane
  /-- The attempts for this generation that failed since a lane of it was added. -/
  streak : ℕ

namespace Pool

/-- `Pool::with`. -/
def start (wanted : ℕ) (opener : Bool) : Pool :=
  { wanted, opener, live := [], opening := false, generation := 0, failures := (0, none),
    draining := [], openers := fun _ => none, retires := fun _ => none, walks := fun _ => none,
    added := [], drained := [], returned := 0, missed := [], streak := 0 }

def setOpener (s : Pool) (i : ℕ) (phase : Option OpenerPhase) : Pool :=
  { s with openers := update s.openers i phase }

def setRetire (s : Pool) (k : ℕ) (phase : Option RetirePhase) : Pool :=
  { s with retires := update s.retires k phase }

def setWalk (s : Pool) (k : ℕ) (walk : Option Walk) : Pool :=
  { s with walks := update s.walks k walk }

/-- The wait after the last failure is over. -/
def Waited (s : Pool) (now : ℕ) : Prop :=
  ∃ wait, backoff s.failures.1 = some wait ∧ ∀ last, s.failures.2 = some last → last + wait ≤ now

/-- `add`, when it keeps the lane. -/
def add (s : Pool) (g : ℕ) : Pool :=
  { s with
    live := s.live ++ [⟨s.added.length, g⟩]
    added := s.added ++ [⟨s.added.length, g⟩]
    streak := 0 }

/-- The count that `opened` leaves. -/
def counted (s : Pool) (failed : Bool) (now : ℕ) : ℕ × Option ℕ :=
  if failed then (min (s.failures.1 + 1) (2 ^ 32 - 1), some now) else (0, none)

/-- What `all` returns. -/
def found (s : Pool) (w : Walk) : List PoolLane := w.seen ++ s.draining

/-- Added and not drained. -/
def undrained (s : Pool) : List PoolLane := s.added.filter (· ∉ s.drained)

/-- A `retire` or `retire_all` has taken the lane out of `live`, and not put it into
`draining` yet. -/
def InTransit (s : Pool) (lane : PoolLane) : Prop :=
  ∃ k left g, s.retires k = some (.handing left g) ∧ lane ∈ left

end Pool

inductive PoolEvent
  | opener (i : ℕ)
  /-- The task is dropped while it dials. -/
  | cancel (i : ℕ)
  | retire (k : ℕ)
  | drained (lane : PoolLane)
  | all (k : ℕ)

/-- The steps of the openers, the retires and the walks. Whether the session is live and
its login not refused is not the pool's to say: an opener's loop may end wherever it asks. -/
inductive PoolStep (s : Pool) : PoolEvent → Pool → Prop
  /-- `should_open`, which reads `live`, then the failures, and claims. -/
  | count {i} (hnew : s.openers i = none) (hopener : s.opener = true)
      (hfew : s.live.length < s.wanted) : PoolStep s (.opener i) (s.setOpener i (some .counted))
  | wait {i now} (hi : s.openers i = some .counted) (hwaited : s.Waited now) :
      PoolStep s (.opener i) (s.setOpener i (some .waited))
  | putOff {i now} (hi : s.openers i = some .counted) (hwaited : ¬s.Waited now) :
      PoolStep s (.opener i) (s.setOpener i none)
  | claim {i} (hi : s.openers i = some .waited) (hopening : s.opening = false) :
      PoolStep s (.opener i) ({ s with opening := true }.setOpener i (some .claimed))
  | late {i} (hi : s.openers i = some .waited) (hopening : s.opening = true) :
      PoolStep s (.opener i) (s.setOpener i none)
  | begin {i} (hi : s.openers i = some .claimed) :
      PoolStep s (.opener i) (s.setOpener i (some (.running s.generation false .loops)))
  | current {i g kept} (hi : s.openers i = some (.running g kept .loops))
      (hg : s.generation = g) :
      PoolStep s (.opener i) (s.setOpener i (some (.running g kept .current)))
  | dial {i g kept} (hi : s.openers i = some (.running g kept .current))
      (hfew : s.live.length < s.wanted) :
      PoolStep s (.opener i) (s.setOpener i (some (.running g kept .dialing)))
  /-- The pool wants no more, the session is not live, or there is no runtime. -/
  | stop {i g kept stage} (hi : s.openers i = some (.running g kept stage))
      (hstage : stage = .loops ∨ stage = .current) :
      PoolStep s (.opener i) (s.setOpener i (some (.running g kept (.reporting false))))
  | connected {i g kept} (hi : s.openers i = some (.running g kept .dialing)) :
      PoolStep s (.opener i) (s.setOpener i (some (.running g kept .connected)))
  | failed {i g kept} (hi : s.openers i = some (.running g kept .dialing)) :
      PoolStep s (.opener i)
        ({ s with streak := if g = s.generation then s.streak + 1 else s.streak }.setOpener i
          (some (.running g kept (.reporting true))))
  /-- `add`. It reads the generation under the lock of `live`, which nobody takes before
  the lane is pushed. -/
  | keep {i g kept} (hi : s.openers i = some (.running g kept .connected))
      (hg : s.generation = g) (hfew : s.live.length < s.wanted) :
      PoolStep s (.opener i) ((s.add g).setOpener i (some (.running g true .loops)))
  | refuse {i g kept} (hi : s.openers i = some (.running g kept .connected))
      (hnot : ¬(s.generation = g ∧ s.live.length < s.wanted)) :
      PoolStep s (.opener i) (s.setOpener i (some (.running g kept (.reporting false))))
  | report {i g kept failed now} (hi : s.openers i = some (.running g kept (.reporting failed))) :
      PoolStep s (.opener i)
        ({ s with failures := s.counted failed now }.setOpener i (some .releasing))
  | release {i} (hi : s.openers i = some .releasing) :
      PoolStep s (.opener i) ({ s with opening := false }.setOpener i none)
  | cancel {i g kept} (hi : s.openers i = some (.running g kept .dialing)) :
      PoolStep s (.cancel i) (s.setOpener i none)
  | retire {k lane} (hnew : s.retires k = none) (hlive : lane ∈ s.live) :
      PoolStep s (.retire k)
        ({ s with live := s.live.filter (· ≠ lane) }.setRetire k (some (.handing [lane] none)))
  /-- `retire_all`, which starts a generation, forgets the failures and takes `live`. -/
  | bump {k} (hnew : s.retires k = none) :
      PoolStep s (.retire k)
        ({ s with generation := s.generation + 1, streak := 0 }.setRetire k
          (some (.bumped (s.generation + 1))))
  | clear {k g} (hk : s.retires k = some (.bumped g)) :
      PoolStep s (.retire k)
        ({ s with failures := (0, none) }.setRetire k (some (.cleared g)))
  | take {k g} (hk : s.retires k = some (.cleared g)) :
      PoolStep s (.retire k)
        ({ s with live := [] }.setRetire k (some (.handing s.live (some g))))
  | drain {k lane left g} (hk : s.retires k = some (.handing (lane :: left) g)) :
      PoolStep s (.retire k)
        ({ s with draining := s.draining ++ [lane] }.setRetire k (some (.handing left g)))
  | returns {k g} (hk : s.retires k = some (.handing [] g)) :
      PoolStep s (.retire k)
        ({ s with returned := max s.returned (g.getD 0) }.setRetire k none)
  | drained {lane} (hlane : lane ∈ s.draining) :
      PoolStep s (.drained lane)
        { s with
          draining := s.draining.filter (· ≠ lane)
          drained := s.drained ++ [lane] }
  /-- `all`, which reads `live`, then `draining`. -/
  | walk {k} (hnew : s.walks k = none) :
      PoolStep s (.all k) (s.setWalk k (some ⟨s.live, s.undrained⟩))
  | collect {k w} (hk : s.walks k = some w) :
      PoolStep s (.all k)
        ({ s with
            missed := s.missed ++ w.owed.filter
              fun lane => lane ∉ s.drained ∧ lane ∉ s.found w }.setWalk k none)

/-! ### One opener -/

/-- Whoever holds the right to open holds it alone. -/
structure OneOpener (s : Pool) : Prop where
  opening {i p} : s.openers i = some p → p.Holds → s.opening = true
  one {i j p q} : s.openers i = some p → s.openers j = some q → p.Holds → q.Holds → i = j

section Openers

variable {s t : Pool} {i : ℕ} {p q : OpenerPhase} {e : PoolEvent}

theorem OneOpener.congr (h : OneOpener s) (hopeners : t.openers = s.openers)
    (hopening : t.opening = s.opening) : OneOpener t where
  opening := by
    rw [hopeners, hopening]
    exact h.opening
  one := by
    rw [hopeners]
    exact h.one

/-- A task that gets no right to open by its step. -/
theorem OneOpener.move (h : OneOpener s) (hp : s.openers i = some p)
    (hholds : q.Holds → p.Holds) : OneOpener (s.setOpener i (some q)) where
  opening {j r} hr hrHolds := by
    rcases update_eq_some hr with ⟨rfl, rfl⟩ | ⟨_, hr⟩
    · exact h.opening hp (hholds hrHolds)
    · exact h.opening hr hrHolds
  one {j j' r r'} hr hr' hrHolds hrHolds' := by
    rcases update_eq_some hr with ⟨hj, hrq⟩ | ⟨_, hr⟩ <;>
      rcases update_eq_some hr' with ⟨hj', hrq'⟩ | ⟨_, hr'⟩
    · exact hj.trans hj'.symm
    · rw [hj]
      exact h.one hp hr' (hholds (hrq ▸ hrHolds)) hrHolds'
    · rw [hj']
      exact h.one hr hp hrHolds (hholds (hrq' ▸ hrHolds'))
    · exact h.one hr hr' hrHolds hrHolds'

theorem OneOpener.enter (h : OneOpener s) (hq : ¬q.Holds) :
    OneOpener (s.setOpener i (some q)) where
  opening {j r} hr hrHolds := by
    rcases update_eq_some hr with ⟨_, rfl⟩ | ⟨_, hr⟩
    · exact (hq hrHolds).elim
    · exact h.opening hr hrHolds
  one {j j' r r'} hr hr' hrHolds hrHolds' := by
    rcases update_eq_some hr with ⟨_, rfl⟩ | ⟨_, hr⟩
    · exact (hq hrHolds).elim
    · rcases update_eq_some hr' with ⟨_, rfl⟩ | ⟨_, hr'⟩
      · exact (hq hrHolds').elim
      · exact h.one hr hr' hrHolds hrHolds'

theorem OneOpener.leave (h : OneOpener s) : OneOpener (s.setOpener i none) where
  opening hr := h.opening (update_none_eq_some hr).2
  one hr hr' := h.one (update_none_eq_some hr).2 (update_none_eq_some hr').2

/-- The flag was false: nobody had the right. -/
theorem OneOpener.claim (h : OneOpener s) (hopening : s.opening = false) :
    OneOpener ({ s with opening := true }.setOpener i (some q)) where
  opening _ _ := rfl
  one {j j' r r'} hr hr' hrHolds hrHolds' := by
    have hnone {k} {u : OpenerPhase} (hu : s.openers k = some u) : ¬u.Holds := by
      intro hholds
      rw [h.opening hu hholds] at hopening
      cases hopening
    rcases update_eq_some hr with ⟨rfl, _⟩ | ⟨_, hr⟩
    · rcases update_eq_some hr' with ⟨rfl, _⟩ | ⟨_, hr'⟩
      · rfl
      · exact (hnone hr' hrHolds').elim
    · exact (hnone hr hrHolds).elim

/-- The one that lets go of the right was the one who had it. -/
theorem OneOpener.release (h : OneOpener s) (hp : s.openers i = some p) (hholds : p.Holds) :
    OneOpener ({ s with opening := false }.setOpener i none) where
  opening hr hrHolds := by
    have ⟨hne, hr⟩ := update_none_eq_some hr
    exact (hne (h.one hr hp hrHolds hholds)).elim
  one hr hr' := h.one (update_none_eq_some hr).2 (update_none_eq_some hr').2

theorem oneOpener_start (wanted : ℕ) (opener : Bool) : OneOpener (.start wanted opener) :=
  ⟨nofun, nofun⟩

theorem OneOpener.step (h : OneOpener s) (hstep : PoolStep s e t) : OneOpener t := by
  cases hstep with
  | count => exact h.enter nofun
  | wait hi => exact h.move hi id
  | putOff | late | cancel => exact h.leave
  | claim _ hopening => exact h.claim hopening
  | begin hi | current hi | dial hi | stop hi | connected hi | refuse hi =>
      exact h.move hi fun _ => trivial
  | failed hi =>
      refine OneOpener.move (s := { s with streak := _ }) ?_ hi fun _ => trivial
      exact h.congr rfl rfl
  | keep hi =>
      refine OneOpener.move (s := s.add _) ?_ hi fun _ => trivial
      exact h.congr rfl rfl
  | report hi =>
      refine OneOpener.move (s := { s with failures := _ }) ?_ hi fun _ => trivial
      exact h.congr rfl rfl
  | release hi => exact h.release hi trivial
  | _ => exact h.congr rfl rfl

end Openers

/-! ### What `retire_all` disowns -/

section Generations

variable {s t : Pool} {e : PoolEvent} {g : ℕ}

/-- Nothing opened for a generation before `g` is live, nor can it be added. -/
def Disowned (s : Pool) (g : ℕ) : Prop := g ≤ s.generation ∧ ∀ lane ∈ s.live, g ≤ lane.generation

/-- What is live after a step was live before it, or was opened for the pool's generation. -/
theorem PoolStep.live (hstep : PoolStep s e t) :
    s.generation ≤ t.generation ∧
      ∀ lane ∈ t.live, lane ∈ s.live ∨ lane.generation = s.generation := by
  cases hstep with
  | keep hi hg =>
      refine ⟨Nat.le_refl _, fun lane hlane => ?_⟩
      rcases List.mem_append.mp hlane with hold | hnew
      · exact .inl hold
      · rw [List.mem_singleton.mp hnew]
        exact .inr hg.symm
  | retire => exact ⟨Nat.le_refl _, fun lane hlane => .inl (List.mem_of_mem_filter hlane)⟩
  | take => exact ⟨Nat.le_refl _, nofun⟩
  | bump => exact ⟨Nat.le_succ _, fun lane hlane => .inl hlane⟩
  | _ => exact ⟨Nat.le_refl _, fun lane hlane => .inl hlane⟩

theorem Disowned.step (h : Disowned s g) (hstep : PoolStep s e t) : Disowned t g := by
  have ⟨hle, hlive⟩ := hstep.live
  refine ⟨Nat.le_trans h.1 hle, fun lane hlane => ?_⟩
  rcases hlive lane hlane with hold | hnew
  · exact h.2 lane hold
  · exact hnew ▸ h.1

/-- Where a `retire_all` is, and what it has disowned by then. -/
def RetirePhase.Sound (s : Pool) : RetirePhase → Prop
  | .bumped g | .cleared g => g ≤ s.generation
  | .handing _ g => ∀ started, g = some started → Disowned s started

structure Disowning (s : Pool) : Prop where
  returned : Disowned s s.returned
  retires {k p} : s.retires k = some p → p.Sound s

theorem RetirePhase.Sound.step {p : RetirePhase} (h : p.Sound s) (hstep : PoolStep s e t) :
    p.Sound t := by
  cases p with
  | bumped | cleared => exact Nat.le_trans h hstep.live.1
  | handing left g => exact fun started hg => (h started hg).step hstep

theorem disowning_start (wanted : ℕ) (opener : Bool) : Disowning (.start wanted opener) :=
  ⟨⟨Nat.le_refl _, nofun⟩, nofun⟩

/-- The phases that a step leaves, and the one that it may change. -/
theorem PoolStep.retires (h : Disowning s) (hstep : PoolStep s e t) {k : ℕ} {p : RetirePhase}
    (hp : t.retires k = some p) : s.retires k = some p ∨ p.Sound t := by
  cases hstep with
  | retire =>
      rcases update_eq_some hp with ⟨_, rfl⟩ | ⟨_, hp⟩
      · exact .inr nofun
      · exact .inl hp
  | bump =>
      rcases update_eq_some hp with ⟨_, rfl⟩ | ⟨_, hp⟩
      · exact .inr (Nat.le_refl _)
      · exact .inl hp
  | clear hk =>
      rcases update_eq_some hp with ⟨_, rfl⟩ | ⟨_, hp⟩
      · exact .inr (h.retires hk :)
      · exact .inl hp
  | take hk =>
      rcases update_eq_some hp with ⟨_, rfl⟩ | ⟨_, hp⟩
      · refine .inr fun started hg => ?_
        obtain rfl := Option.some.inj hg
        exact ⟨h.retires hk, nofun⟩
      · exact .inl hp
  | drain hk =>
      rcases update_eq_some hp with ⟨_, rfl⟩ | ⟨_, hp⟩
      · exact .inr (h.retires hk :)
      · exact .inl hp
  | returns => exact .inl (update_none_eq_some hp).2
  | _ => exact .inl hp

theorem PoolStep.returned (h : Disowning s) (hstep : PoolStep s e t) :
    Disowned s t.returned := by
  cases hstep with
  | @returns k g hk =>
      show Disowned s (max s.returned (g.getD 0))
      rcases Nat.le_total (g.getD 0) s.returned with hle | hle
      · rw [Nat.max_eq_left hle]
        exact h.returned
      · rw [Nat.max_eq_right hle]
        cases g with
        | none => exact ⟨Nat.zero_le _, fun _ _ => Nat.zero_le _⟩
        | some started => exact h.retires hk started rfl
  | _ => exact h.returned

theorem Disowning.step (h : Disowning s) (hstep : PoolStep s e t) : Disowning t where
  returned := (hstep.returned h).step hstep
  retires hp := by
    rcases hstep.retires h hp with hold | hsound
    · exact (h.retires hold).step hstep
    · exact hsound

end Generations

/-! ### Where the lanes are -/

/-- Every `all` finds what it has to, the pool is not larger than wanted, a `retire_all`
that has returned leaves no lane of an earlier generation, and one task opens at a time. -/
structure LanesKept (s : Pool) : Prop where
  missed : s.missed = []
  bounded : s.live.length ≤ s.wanted
  disowned : ∀ lane ∈ s.live, s.returned ≤ lane.generation
  one {i j p q} : s.openers i = some p → s.openers j = some q → p.Holds → q.Holds → i = j

/-- No `all` reads `draining` while a lane that it has to find, and did not see live, is
between the two lists. -/
def NoneInTransit (s : Pool) : PoolEvent → Prop
  | .all k => ∀ w, s.walks k = some w → ∀ lane ∈ w.owed, lane ∉ w.seen → ¬s.InTransit lane
  | _ => True

structure Placed (s : Pool) : Prop where
  numbered : ∀ lane ∈ s.added, lane.id < s.added.length
  place : ∀ lane ∈ s.added,
    lane ∈ s.drained ∨ lane ∈ s.live ∨ lane ∈ s.draining ∨ s.InTransit lane
  /-- What was not live when the walk began is not live again. -/
  owed {k w} : s.walks k = some w → ∀ lane ∈ w.owed,
    lane ∈ s.added ∧ (lane ∈ s.live → lane ∈ w.seen)
  missed : s.missed = []
  bounded : s.live.length ≤ s.wanted

section Lanes

variable {s t : Pool} {e : PoolEvent} {k : ℕ} {lane : PoolLane} {left : List PoolLane}
  {g : Option ℕ} {w : Walk}

theorem mem_undrained : lane ∈ s.undrained ↔ lane ∈ s.added ∧ lane ∉ s.drained := by
  simp [Pool.undrained]

theorem placed_start (wanted : ℕ) (opener : Bool) : Placed (.start wanted opener) :=
  ⟨nofun, nofun, nofun, rfl, Nat.zero_le _⟩

/-- A retire begins, or is at another of its steps, and no lane was in its hands. -/
theorem Pool.InTransit.setRetire {p : Option RetirePhase} (h : s.InTransit lane)
    (hk : ∀ left g, s.retires k = some (.handing left g) → lane ∉ left) :
    (s.setRetire k p).InTransit lane := by
  obtain ⟨j, left, g, hj, hmem⟩ := h
  have hne : j ≠ k := by
    rintro rfl
    exact hk left g hj hmem
  exact ⟨j, left, g, (update_of_ne hne ..).trans hj, hmem⟩

/-- What a retire has in its hands is in transit. -/
theorem Pool.inTransit_of_handing (hmem : lane ∈ left) :
    (s.setRetire k (some (.handing left g))).InTransit lane :=
  ⟨k, left, g, update_self .., hmem⟩

/-- The lanes that were live are in the retire's hands now, apart from those that still are. -/
theorem Placed.takeFrom (h : Placed s) (hk : ∀ left g, s.retires k ≠ some (.handing left g))
    {kept : List PoolLane} (hsub : kept.Sublist s.live)
    (hsplit : ∀ lane ∈ s.live, lane ∈ kept ∨ lane ∈ left) :
    Placed ({ s with live := kept }.setRetire k (some (.handing left g))) where
  numbered := h.numbered
  place lane hadded := by
    rcases h.place lane hadded with hgone | hlive | hdraining | htransit
    · exact .inl hgone
    · rcases hsplit lane hlive with hkept | hleft
      · exact .inr (.inl hkept)
      · exact .inr (.inr (.inr (Pool.inTransit_of_handing hleft)))
    · exact .inr (.inr (.inl hdraining))
    · refine .inr (.inr (.inr ?_))
      exact Pool.InTransit.setRetire (s := { s with live := kept }) htransit
        fun left g hleft => (hk left g hleft).elim
  owed hw lane howed :=
    ⟨(h.owed hw lane howed).1, fun hlive => (h.owed hw lane howed).2 (hsub.subset hlive)⟩
  missed := h.missed
  bounded := Nat.le_trans hsub.length_le h.bounded

/-- A retire that moves on with nothing in its hands, before and after. -/
theorem Placed.setRetire (h : Placed s) {p : Option RetirePhase}
    (hk : ∀ left g, s.retires k = some (.handing left g) → left = []) :
    Placed (s.setRetire k p) where
  numbered := h.numbered
  place lane hadded := by
    rcases h.place lane hadded with hgone | hlive | hdraining | htransit
    · exact .inl hgone
    · exact .inr (.inl hlive)
    · exact .inr (.inr (.inl hdraining))
    · refine .inr (.inr (.inr (htransit.setRetire fun left g hleft => ?_)))
      rw [hk left g hleft]
      exact List.not_mem_nil
  owed := h.owed
  missed := h.missed
  bounded := h.bounded

theorem Placed.drain (h : Placed s) (hk : s.retires k = some (.handing (lane :: left) g)) :
    Placed ({ s with draining := s.draining ++ [lane] }.setRetire k (some (.handing left g))) where
  numbered := h.numbered
  place other hadded := by
    rcases h.place other hadded with hgone | hlive | hdraining | ⟨j, rest, g', hj, hmem⟩
    · exact .inl hgone
    · exact .inr (.inl hlive)
    · exact .inr (.inr (.inl (List.mem_append_left _ hdraining)))
    · rcases eq_or_ne j k with rfl | hne
      · -- it is the lane that is put into `draining`, or one of those behind it
        obtain ⟨rfl, rfl⟩ := RetirePhase.handing.inj (Option.some.inj (hk.symm.trans hj))
        rcases List.mem_cons.mp hmem with rfl | hleft
        · exact .inr (.inr (.inl (List.mem_append_right _ (List.mem_singleton_self _))))
        · exact .inr (.inr (.inr (Pool.inTransit_of_handing hleft)))
      · exact .inr (.inr (.inr ⟨j, rest, g', (update_of_ne hne ..).trans hj, hmem⟩))
  owed := h.owed
  missed := h.missed
  bounded := h.bounded

theorem Placed.add {g : ℕ} (h : Placed s) (hfew : s.live.length < s.wanted) : Placed (s.add g) where
  numbered lane hadded := by
    show lane.id < (s.added ++ [_]).length
    rw [List.length_append, List.length_singleton]
    rcases List.mem_append.mp hadded with hold | hnew
    · exact Nat.lt_succ_of_lt (h.numbered lane hold)
    · rw [List.mem_singleton.mp hnew]
      exact Nat.lt_succ_self _
  place lane hadded := by
    rcases List.mem_append.mp hadded with hold | hnew
    · rcases h.place lane hold with hgone | hlive | hrest
      · exact .inl hgone
      · exact .inr (.inl (List.mem_append_left _ hlive))
      · exact .inr (.inr hrest)
    · exact .inr (.inl (List.mem_append_right _ hnew))
  owed hw lane howed := by
    have ⟨hadded, hseen⟩ := h.owed hw lane howed
    refine ⟨List.mem_append_left _ hadded, fun hlive => ?_⟩
    rcases List.mem_append.mp hlive with hold | hnew
    · exact hseen hold
    · -- the number of the lane that is added is nobody's yet
      have hlt := h.numbered lane hadded
      rw [List.mem_singleton.mp hnew] at hlt
      exact (Nat.lt_irrefl _ hlt).elim
  missed := h.missed
  bounded := by
    show (s.live ++ [_]).length ≤ s.wanted
    rw [List.length_append, List.length_singleton]
    exact hfew

theorem Placed.walk (h : Placed s) : Placed (s.setWalk k (some ⟨s.live, s.undrained⟩)) where
  numbered := h.numbered
  place := h.place
  owed hw lane howed := by
    rcases update_eq_some hw with ⟨_, rfl⟩ | ⟨_, hw⟩
    · exact ⟨(mem_undrained.mp howed).1, id⟩
    · exact h.owed hw lane howed
  missed := h.missed
  bounded := h.bounded

/-- Nothing that it owes was in transit: what it did not see live is draining or drained. -/
theorem Placed.collect (h : Placed s) (hk : s.walks k = some w)
    (hnone : ∀ lane ∈ w.owed, lane ∉ w.seen → ¬s.InTransit lane) :
    w.owed.filter (fun lane => lane ∉ s.drained ∧ lane ∉ s.found w) = [] := by
  refine List.filter_eq_nil_iff.mpr fun lane howed hmissed => ?_
  have ⟨hnot, hfound⟩ := of_decide_eq_true hmissed
  have hseen : lane ∉ w.seen := fun hmem => hfound (List.mem_append_left _ hmem)
  have ⟨hadded, hlive⟩ := h.owed hk lane howed
  rcases h.place lane hadded with hgone | hin | hdraining | htransit
  · exact hnot hgone
  · exact hseen (hlive hin)
  · exact hfound (List.mem_append_right _ hdraining)
  · exact hnone lane howed hseen htransit

theorem Placed.step (h : Placed s) (hmeets : NoneInTransit s e) (hstep : PoolStep s e t) :
    Placed t := by
  cases hstep with
  | @keep i g kept _ _ hfew =>
      have hadd : Placed (s.add g) := h.add hfew
      exact ⟨hadd.numbered, hadd.place, hadd.owed, hadd.missed, hadd.bounded⟩
  | @retire k lane hnew hlive =>
      refine h.takeFrom (by rw [hnew]; exact nofun) List.filter_sublist fun other hother => ?_
      rcases eq_or_ne other lane with rfl | hne
      · exact .inr (List.mem_singleton_self _)
      · exact .inl (List.mem_filter.mpr ⟨hother, decide_eq_true hne⟩)
  | take hk =>
      exact h.takeFrom (by rw [hk]; exact nofun) (List.nil_sublist _) fun _ hlive => .inr hlive
  | drain hk => exact h.drain hk
  | bump hnew =>
      refine Placed.setRetire (s := { s with generation := _, streak := 0 }) ?_ ?_
      · exact ⟨h.numbered, h.place, h.owed, h.missed, h.bounded⟩
      · show ∀ left g, s.retires _ = _ → _
        rw [hnew]
        exact nofun
  | clear hk =>
      refine Placed.setRetire (s := { s with failures := _ }) ?_ ?_
      · exact ⟨h.numbered, h.place, h.owed, h.missed, h.bounded⟩
      · show ∀ left g, s.retires _ = _ → _
        rw [hk]
        exact nofun
  | returns hk =>
      refine Placed.setRetire (s := { s with returned := _ }) ?_ ?_
      · exact ⟨h.numbered, h.place, h.owed, h.missed, h.bounded⟩
      · show ∀ left g, s.retires _ = _ → _
        rw [hk]
        rintro left g ⟨⟩
        rfl
  | @drained lane =>
      refine ⟨h.numbered, fun other hadded => ?_, h.owed, h.missed, h.bounded⟩
      rcases h.place other hadded with hgone | hlive | hdraining | htransit
      · exact .inl (List.mem_append_left _ hgone)
      · exact .inr (.inl hlive)
      · rcases eq_or_ne other lane with rfl | hne
        · exact .inl (List.mem_append_right _ (List.mem_singleton_self _))
        · exact .inr (.inr (.inl (List.mem_filter.mpr ⟨hdraining, decide_eq_true hne⟩)))
      · exact .inr (.inr (.inr htransit))
  | walk => exact h.walk
  | collect hk =>
      refine ⟨h.numbered, h.place, fun hw => h.owed (update_none_eq_some hw).2, ?_, h.bounded⟩
      show s.missed ++ _ = []
      rw [h.missed, List.nil_append]
      exact h.collect hk (hmeets _ hk)
  | _ => exact ⟨h.numbered, h.place, h.owed, h.missed, h.bounded⟩

/-- **Every lane stays visible**, whatever the openers, the retires and the walks do at once,
as long as no walk reads `draining` while a lane it has to find is between the two lists. -/
theorem lanes_kept (wanted : ℕ) (opener : Bool)
    (h : Reaches PoolStep NoneInTransit (.start wanted opener) s) : LanesKept s := by
  have hinv : OneOpener s ∧ Disowning s ∧ Placed s := by
    refine h.invariant (P := fun s => OneOpener s ∧ Disowning s ∧ Placed s) ?_ ?_
    · exact ⟨oneOpener_start .., disowning_start .., placed_start ..⟩
    · exact fun ⟨hone, hgone, hplaced⟩ hmeets hstep =>
        ⟨hone.step hstep, hgone.step hstep, hplaced.step hmeets hstep⟩
  obtain ⟨hone, hgone, hplaced⟩ := hinv
  exact ⟨hplaced.missed, hplaced.bounded, hgone.returned.2, hone.one⟩

end Lanes

/-- The one opener of a pool that wants two has added a lane and dials for the next. -/
def dialingAnother : Pool :=
  { Pool.start 2 true with
    live := [⟨0, 0⟩]
    opening := true
    openers := update (fun _ => none) 0 (some (.running 0 true .dialing))
    added := [⟨0, 0⟩] }

theorem reaches_dialingAnother (meets : Pool → PoolEvent → Prop)
    (hmeets : ∀ s, (∀ g kept, s.openers 0 ≠ some (.running g kept (.reporting true))) →
      meets s (.opener 0)) :
    Reaches PoolStep meets (.start 2 true) dialingAnother := by
  have h := (Reaches.start : Reaches PoolStep meets (.start 2 true) _)
  have h := h.next (hmeets _ nofun) (PoolStep.count (i := 0) rfl rfl (by decide))
  have h := h.next (hmeets _ nofun) (@PoolStep.wait _ 0 5 rfl ⟨0, rfl, nofun⟩)
  have h := h.next (hmeets _ nofun) (PoolStep.claim rfl rfl)
  have h := h.next (hmeets _ nofun) (PoolStep.begin rfl)
  have h := h.next (hmeets _ nofun) (PoolStep.current rfl rfl)
  have h := h.next (hmeets _ nofun) (PoolStep.dial rfl (by decide))
  have h := h.next (hmeets _ nofun) (PoolStep.connected rfl)
  have h := h.next (hmeets _ nofun) (PoolStep.keep rfl rfl (by decide))
  have h := h.next (hmeets _ nofun) (PoolStep.current rfl rfl)
  have h := h.next (hmeets _ nofun) (PoolStep.dial rfl (by decide))
  simpa [Pool.setOpener, Pool.start, Pool.add, dialingAnother] using h

/-- A lane is retired while an `all` runs, and is found draining. -/
theorem retired_lane_found :
    ∃ s, LanesKept s ∧ s.added = [⟨0, 0⟩] ∧ s.live = [] ∧ s.draining = [⟨0, 0⟩] := by
  have h := reaches_dialingAnother NoneInTransit fun _ _ => trivial
  have h := h.next (by trivial) (@PoolStep.retire _ 0 ⟨0, 0⟩ rfl (by decide))
  have h := h.next (by exact nofun) (PoolStep.walk (k := 0) rfl)
  have h := h.next (by trivial) (PoolStep.drain (k := 0) rfl)
  have h := h.next ?_ (PoolStep.collect (k := 0) rfl)
  · exact ⟨_, lanes_kept 2 true h, rfl, rfl, rfl⟩
  · rintro w hw lane howed hseen ⟨k, left, g, hk, hmem⟩
    rcases update_eq_some hk with ⟨_, hleft⟩ | ⟨hne, hk⟩
    · cases hleft
      cases hmem
    · rcases update_eq_some hk with ⟨heq, _⟩ | ⟨_, hk⟩
      · exact hne heq
      · cases hk

/-- `all` runs between the two steps of `retire`: the lane is in neither list. -/
theorem lane_in_transit_missed :
    ∃ s, Reaches PoolStep unrestricted (.start 2 true) s ∧ ¬LanesKept s := by
  have h := reaches_dialingAnother unrestricted fun _ _ => trivial
  have h := h.next (by trivial) (@PoolStep.retire _ 0 ⟨0, 0⟩ rfl (by decide))
  have h := h.next (by trivial) (PoolStep.walk (k := 0) rfl)
  have h := h.next (by trivial) (PoolStep.collect (k := 0) rfl)
  refine ⟨_, h, fun hkept => ?_⟩
  have hmissed : [(⟨0, 0⟩ : PoolLane)] = [] := hkept.missed
  cases hmissed

end SynologyFilestation.Smb
