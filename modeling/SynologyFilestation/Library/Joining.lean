import SynologyFilestation.Library.Custody
import SynologyFilestation.Library.OrderedMap
import SynologyFilestation.Library.Transition

/-!
Work that is shared by those who ask for it while it is under way.

Callers are numbered, and each has a party that looks after it. A party joins the work on its key
that is under way, or leads it if there is none: it waits for a permit, comes by the answer, and
tells it to all who have joined up to then. A caller is told once at the most, and every caller is
told in the end.
-/

namespace SynologyFilestation.Library

/-- Where a party is. -/
inductive JoinPhase (A : Type*)
  /-- By itself, with its caller. -/
  | apart (caller : ℕ)
  /-- It leads, and has no permit yet. -/
  | queued
  | holding
  | answered (a : A)
  | telling (a : A) (waiting : List ℕ)
  | finished

structure Joining (K A : Type*) [LinearOrder K] where
  parties : List (K × JoinPhase A)
  /-- The work under way, and the callers that wait for it. -/
  running : OrderedMap K (List ℕ)
  permits : ℕ
  /-- What callers were told. -/
  told : List (ℕ × A)

namespace JoinPhase

variable {A : Type*}

/-- The callers that a party has in hand. -/
def callers : JoinPhase A → List ℕ
  | .apart caller => [caller]
  | .telling _ waiting => waiting
  | .queued | .holding | .answered _ | .finished => []

def isLeading : JoinPhase A → Bool
  | .queued | .holding | .answered _ => true
  | .apart _ | .telling .. | .finished => false

def isHolding : JoinPhase A → Bool
  | .holding => true
  | _ => false

/-- How many steps there are to it, those of telling callers apart. -/
def rank : JoinPhase A → ℕ
  | .apart _ => 4
  | .queued => 3
  | .holding => 2
  | .answered _ => 1
  | .telling .. | .finished => 0

end JoinPhase

namespace Joining

variable {K A : Type*} [LinearOrder K]

def initial (permits : ℕ) : Joining K A := ⟨[], .empty, permits, []⟩

variable (s : Joining K A)

/-- A caller comes, and its party with it. -/
def enter (key : K) : Joining K A :=
  { s with parties := s.parties ++ [(key, .apart s.parties.length)] }

def setPhase (i : ℕ) (key : K) (phase : JoinPhase A) : Joining K A :=
  { s with parties := s.parties.set i (key, phase) }

/-- A party answers its caller by itself. -/
def leave (i : ℕ) (key : K) (caller : ℕ) (a : A) : Joining K A :=
  { s.setPhase i key .finished with told := s.told ++ [(caller, a)] }

def join (i : ℕ) (key : K) (caller : ℕ) (waiting : List ℕ) : Joining K A :=
  { s.setPhase i key .finished with running := s.running.insert key (waiting ++ [caller]) }

def lead (i : ℕ) (key : K) (caller : ℕ) : Joining K A :=
  { s.setPhase i key .queued with running := s.running.insert key [caller] }

def acquire (i : ℕ) (key : K) : Joining K A :=
  { s.setPhase i key .holding with permits := s.permits - 1 }

/-- The answer is there, and the permit goes back. -/
def finish (i : ℕ) (key : K) (a : A) : Joining K A :=
  { s.setPhase i key (.answered a) with permits := s.permits + 1 }

/-- The work is no longer there to be joined. -/
def collect (i : ℕ) (key : K) (a : A) : Joining K A :=
  { s.setPhase i key (.telling a ((s.running.get? key).getD [])) with
    running := s.running.erase key }

def tell (i : ℕ) (key : K) (a : A) (caller : ℕ) (waiting : List ℕ) : Joining K A :=
  { s.setPhase i key (.telling a waiting) with told := s.told ++ [(caller, a)] }

end Joining

inductive JoinEvent (K A : Type*)
  | enter (key : K)
  | leave (key : K) (caller : ℕ) (a : A)
  | join (key : K) (caller : ℕ)
  | lead (key : K) (caller : ℕ)
  | acquire (key : K)
  | finish (key : K) (a : A)
  | collect (key : K)
  | tell (key : K)

open Joining in
inductive JoinStep {K A : Type*} [LinearOrder K] (s : Joining K A) :
    JoinEvent K A → Joining K A → Prop
  | enter {key} : JoinStep s (.enter key) (s.enter key)
  | leave {i key caller a} (hi : s.parties[i]? = some (key, .apart caller)) :
      JoinStep s (.leave key caller a) (s.leave i key caller a)
  | join {i key caller waiting} (hi : s.parties[i]? = some (key, .apart caller))
      (hrunning : s.running.get? key = some waiting) :
      JoinStep s (.join key caller) (s.join i key caller waiting)
  | lead {i key caller} (hi : s.parties[i]? = some (key, .apart caller))
      (hrunning : s.running.get? key = none) :
      JoinStep s (.lead key caller) (s.lead i key caller)
  | acquire {i key} (hi : s.parties[i]? = some (key, .queued)) (hpermits : 0 < s.permits) :
      JoinStep s (.acquire key) (s.acquire i key)
  | finish {i key a} (hi : s.parties[i]? = some (key, .holding)) :
      JoinStep s (.finish key a) (s.finish i key a)
  | collect {i key a} (hi : s.parties[i]? = some (key, .answered a)) :
      JoinStep s (.collect key) (s.collect i key a)
  | tell {i key a caller waiting}
      (hi : s.parties[i]? = some (key, .telling a (caller :: waiting))) :
      JoinStep s (.tell key) (s.tell i key a caller waiting)

/-- What callers may be told. -/
structure JoinRule (K A : Type*) where
  /-- What a caller's own party may answer. -/
  alone : ℕ → K → A → Prop
  /-- Who may be among those that share the work. -/
  joins : ℕ → K → Prop
  /-- What the work may bring. -/
  shared : K → A → Prop

/-- A run that goes on where it can, with less to do after each step, comes to where it cannot. -/
theorem exists_rest {σ : Type*} {states : ℕ → σ} (measure : σ → ℕ) {more : σ → Prop}
    (hless : ∀ n, (∀ k ≤ n, more (states k)) → measure (states (n + 1)) < measure (states n)) :
    ∃ n ≤ measure (states 0), ¬more (states n) ∧ ∀ k < n, more (states k) := by
  by_contra hnever
  have hmore : ∀ n ≤ measure (states 0),
      (∀ k ≤ n, more (states k)) ∧ measure (states n) + n ≤ measure (states 0) := by
    intro n
    induction n with
    | zero =>
        refine fun _ => ⟨fun k hk => ?_, le_rfl⟩
        obtain rfl := Nat.le_zero.mp hk
        refine by_contra fun hrest => hnever ⟨0, Nat.zero_le _, hrest, fun l hl => ?_⟩
        exact absurd hl l.not_lt_zero
    | succ n ih =>
        intro hn
        obtain ⟨hall, hle⟩ := ih (by omega)
        have hlt := hless n hall
        refine ⟨fun k hk => by_contra fun hrest => hnever ⟨k, by omega, hrest, fun l hl => ?_⟩, ?_⟩
        · exact hall l (by omega)
        · omega
  obtain ⟨hall, hle⟩ := hmore _ le_rfl
  have hlt := hless _ hall
  omega

/-! ### Every caller is somewhere -/

namespace Joining

section Invariants

variable {K A : Type*} [LinearOrder K] {s s' : Joining K A} {e : JoinEvent K A} {i j : ℕ}
  {key : K} {phase phase' : JoinPhase A} {caller : ℕ}

@[simp] theorem setPhase_running : (s.setPhase i key phase).running = s.running := rfl

@[simp] theorem setPhase_permits : (s.setPhase i key phase).permits = s.permits := rfl

@[simp] theorem setPhase_told : (s.setPhase i key phase).told = s.told := rfl

theorem parties_acquire (hi : s.parties[i]? = some (key, phase)) :
    (s.acquire i key).parties[i]? = some (key, .holding) :=
  List.getElem?_set_self (List.getElem?_eq_some_iff.mp hi).1

/-- The callers that wait for work that is under way. -/
def waiting (running : OrderedMap K (List ℕ)) : List ℕ := running.entries.flatMap Prod.snd

theorem waiting_of_get? {running : OrderedMap K (List ℕ)} {callers : List ℕ}
    (h : running.get? key = some callers) :
    (waiting running).Perm (callers ++ waiting (running.erase key)) :=
  (OrderedMap.perm_of_get? h).flatMap_right _

theorem waiting_erase_of_none {running : OrderedMap K (List ℕ)} (h : running.get? key = none) :
    waiting (running.erase key) = waiting running := by
  rw [waiting, OrderedMap.entries_erase_of_none h, waiting]

theorem waiting_insert (running : OrderedMap K (List ℕ)) (key : K) (callers : List ℕ) :
    (waiting (running.insert key callers)).Perm (callers ++ waiting (running.erase key)) :=
  (running.perm_insert key callers).flatMap_right _

/-- The callers that were not told yet. -/
def held (s : Joining K A) : List ℕ := s.parties.flatMap (·.2.callers) ++ waiting s.running

/-- Each caller is held once, or was told once. -/
def Kept (s : Joining K A) : Prop := Custody s.parties.length s.held (s.told.map Prod.fst)

/-- What a step of one party has to do, for all to be kept. -/
theorem Kept.setPhase (h : s.Kept) (hi : s.parties[i]? = some (key, phase))
    {running : OrderedMap K (List ℕ)} {permits : ℕ} {told : List (ℕ × A)}
    (hmoved : (phase.callers ++ (waiting s.running ++ s.told.map Prod.fst)).Perm
      (phase'.callers ++ (waiting running ++ told.map Prod.fst))) :
    Kept ⟨s.parties.set i (key, phase'), running, permits, told⟩ := by
  obtain ⟨rest, hbefore, hafter⟩ := exists_flatMap_set (fun p : K × JoinPhase A => p.2.callers) hi
  unfold Kept Custody held at h ⊢
  rw [List.length_set]
  refine List.Perm.trans (List.perm_iff_count.mpr fun n => ?_) h
  have hold := hbefore.count_eq n
  have hnew := (hafter (key, phase')).count_eq n
  have hcallers := hmoved.count_eq n
  simp only [List.count_append] at hold hnew hcallers ⊢
  omega

theorem Kept.step (h : s.Kept) (hstep : JoinStep s e s') : s'.Kept := by
  cases hstep with
  | @enter key =>
      have hmade := Custody.make h
      unfold Kept Joining.enter
      rw [List.length_append]
      refine hmade.pass ?_
      rw [held, held, List.flatMap_append, List.append_assoc]
      exact List.perm_middle
  | @leave i key caller a hi =>
      refine h.setPhase hi (List.perm_iff_count.mpr fun n => ?_)
      simp only [JoinPhase.callers, setPhase_running, List.map_append, List.map_cons, List.map_nil,
        List.count_append, List.count_nil]
      omega
  | @join i key caller callers hi hrunning =>
      refine h.setPhase hi (List.perm_iff_count.mpr fun n => ?_)
      have hold := (waiting_of_get? hrunning).count_eq n
      have hnew := (waiting_insert s.running key (callers ++ [caller])).count_eq n
      simp only [JoinPhase.callers, setPhase_told, List.count_append, List.count_nil] at hold hnew ⊢
      omega
  | @lead i key caller hi hrunning =>
      refine h.setPhase hi (List.perm_iff_count.mpr fun n => ?_)
      have hnew := (waiting_insert s.running key [caller]).count_eq n
      rw [waiting_erase_of_none hrunning] at hnew
      simp only [JoinPhase.callers, setPhase_told, List.count_append, List.count_nil] at hnew ⊢
      omega
  | @acquire i key hi _ => exact h.setPhase hi .rfl
  | @finish i key a hi => exact h.setPhase hi .rfl
  | @collect i key a hi =>
      refine h.setPhase hi (List.perm_iff_count.mpr fun n => ?_)
      cases hrunning : s.running.get? key with
      | none =>
          simp only [JoinPhase.callers, setPhase_told, Option.getD_none,
            waiting_erase_of_none hrunning]
      | some callers =>
          have hold := (waiting_of_get? hrunning).count_eq n
          simp only [JoinPhase.callers, setPhase_told, Option.getD_some, List.count_append,
            List.count_nil] at hold ⊢
          omega
  | @tell i key a caller callers hi =>
      refine h.setPhase hi (List.perm_iff_count.mpr fun n => ?_)
      simp only [JoinPhase.callers, setPhase_running, List.map_append, List.map_cons, List.map_nil,
        List.count_append, List.count_cons, List.count_nil]
      omega

/-! ### One leader for a key -/

/-- Whether the party leads the work on the key. -/
def leads (key : K) (party : K × JoinPhase A) : ℕ :=
  if party.1 = key then party.2.isLeading.toNat else 0

def runs (running : OrderedMap K (List ℕ)) (key : K) : ℕ := (running.get? key).isSome.toNat

theorem runs_insert (running : OrderedMap K (List ℕ)) (key : K) (callers : List ℕ) (k : K) :
    runs (running.insert key callers) k = if k = key then 1 else runs running k := by
  unfold runs
  rw [OrderedMap.get?_insert]
  split <;> rfl

theorem runs_erase (running : OrderedMap K (List ℕ)) (key k : K) :
    runs (running.erase key) k = if k = key then 0 else runs running k := by
  unfold runs
  rw [OrderedMap.get?_erase]
  split <;> rfl

/-- Work under way has one leader, and none other has any. -/
def Led (s : Joining K A) : Prop := ∀ k, (s.parties.map (leads k)).sum = runs s.running k

theorem Led.setPhase (h : s.Led) (hi : s.parties[i]? = some (key, phase))
    {running : OrderedMap K (List ℕ)} {permits : ℕ} {told : List (ℕ × A)}
    (hother : ∀ k, k ≠ key → runs running k = runs s.running k)
    (hkey : runs running key + phase.isLeading.toNat =
      runs s.running key + phase'.isLeading.toNat) :
    Led ⟨s.parties.set i (key, phase'), running, permits, told⟩ := by
  intro k
  have hset := sum_map_set (leads k) hi (key, phase')
  have hsum := h k
  show ((s.parties.set i (key, phase')).map (leads k)).sum = runs running k
  unfold leads at hset hsum ⊢
  rcases eq_or_ne key k with rfl | hne
  · simp only [if_true] at hset
    omega
  · simp only [if_neg hne] at hset
    rw [hother k hne.symm]
    omega

theorem Led.enter (h : s.Led) (key : K) : (s.enter key).Led := by
  intro k
  have hsum := h k
  have hapart : leads k (key, (.apart s.parties.length : JoinPhase A)) = 0 := by
    unfold leads
    split <;> rfl
  show ((s.parties ++ [(key, _)]).map (leads k)).sum = runs s.running k
  rw [List.map_append, List.map_singleton, hapart, List.sum_append, hsum, List.sum_singleton,
    Nat.add_zero]

theorem Led.step (h : s.Led) (hstep : JoinStep s e s') : s'.Led := by
  cases hstep with
  | @enter key => exact h.enter key
  | @leave i key caller a hi => exact h.setPhase hi (fun _ _ => rfl) rfl
  | @join i key caller callers hi hrunning =>
      refine h.setPhase hi (fun k hk => ?_) ?_
      · rw [runs_insert, if_neg hk]
      · rw [runs_insert, if_pos rfl, runs, hrunning]
        rfl
  | @lead i key caller hi hrunning =>
      refine h.setPhase hi (fun k hk => ?_) ?_
      · rw [runs_insert, if_neg hk]
      · rw [runs_insert, if_pos rfl, runs, hrunning]
        rfl
  | @acquire i key hi _ => exact h.setPhase hi (fun _ _ => rfl) rfl
  | @finish i key a hi => exact h.setPhase hi (fun _ _ => rfl) rfl
  | @collect i key a hi =>
      have hrunning : runs s.running key = 1 := by
        have hshare := share_le_sum (leads key) (List.mem_of_getElem? hi)
        have hsum := h key
        have hleads : leads key (key, JoinPhase.answered a) = 1 := if_pos rfl
        have hle : runs s.running key ≤ 1 := Bool.toNat_le _
        omega
      refine h.setPhase hi (fun k hk => ?_) ?_
      · rw [runs_erase, if_neg hk]
      · rw [runs_erase, if_pos rfl, hrunning]
        rfl
  | @tell i key a caller callers hi => exact h.setPhase hi (fun _ _ => rfl) rfl

/-- No two parties lead the work on one key. -/
theorem Led.alone (h : s.Led) (hi : s.parties[i]? = some (key, phase))
    (hj : s.parties[j]? = some (key, phase')) (hlead : phase.isLeading = true)
    (hlead' : phase'.isLeading = true) : i = j := by
  have hone : (s.parties.map (leads key)).sum ≤ 1 := by
    rw [h key]
    exact Bool.toNat_le _
  refine index_unique (leads key) hone hi hj ?_ ?_
  · rw [leads, if_pos rfl, hlead]
    exact Nat.one_pos
  · rw [leads, if_pos rfl, hlead']
    exact Nat.one_pos

theorem Led.exists_leader (h : s.Led) {callers : List ℕ}
    (hrunning : s.running.get? key = some callers) :
    ∃ (i : ℕ) (phase : JoinPhase A),
      s.parties[i]? = some (key, phase) ∧ phase.isLeading = true := by
  have hsum : 0 < (s.parties.map (leads key)).sum := by
    rw [h key, runs, hrunning]
    exact Nat.one_pos
  obtain ⟨i, ⟨k, phase⟩, hi, hshare⟩ := exists_share (leads key) hsum
  unfold leads at hshare
  split at hshare
  case isTrue heq =>
    obtain rfl : k = key := heq
    cases hleading : phase.isLeading with
    | true => exact ⟨i, phase, hi, hleading⟩
    | false =>
        rw [hleading] at hshare
        exact absurd hshare (Nat.lt_irrefl 0)
  case isFalse => exact absurd hshare (Nat.lt_irrefl 0)

/-! ### Permits -/

def holds (party : K × JoinPhase A) : ℕ := party.2.isHolding.toNat

/-- So many permits there are, those that are held and those that are not. -/
def Permitted (permits : ℕ) (s : Joining K A) : Prop :=
  s.permits + (s.parties.map holds).sum = permits

theorem Permitted.setPhase {all : ℕ} (h : s.Permitted all)
    (hi : s.parties[i]? = some (key, phase)) {running : OrderedMap K (List ℕ)} {permits : ℕ}
    {told : List (ℕ × A)}
    (hpermits : permits + phase'.isHolding.toNat = s.permits + phase.isHolding.toNat) :
    Permitted all ⟨s.parties.set i (key, phase'), running, permits, told⟩ := by
  have hset := sum_map_set holds hi (key, phase')
  unfold Permitted holds at *
  dsimp only at hset ⊢
  omega

theorem Permitted.step {all : ℕ} (h : s.Permitted all) (hstep : JoinStep s e s') :
    s'.Permitted all := by
  cases hstep with
  | @enter key =>
      show s.permits + ((s.parties ++ [(key, _)]).map holds).sum = all
      rw [List.map_append, List.map_singleton, List.sum_append]
      exact h
  | @leave i key caller a hi => exact h.setPhase hi rfl
  | @join i key caller callers hi hrunning => exact h.setPhase hi rfl
  | @lead i key caller hi hrunning => exact h.setPhase hi rfl
  | @acquire i key hi hfree => exact h.setPhase hi (Nat.sub_add_cancel hfree)
  | @finish i key a hi => exact h.setPhase hi rfl
  | @collect i key a hi => exact h.setPhase hi rfl
  | @tell i key a caller callers hi => exact h.setPhase hi rfl

/-! ### Whose answer it is -/

/-- The step keeps to the rule. -/
def Meets (rule : JoinRule K A) (_ : Joining K A) : JoinEvent K A → Prop
  | .leave key caller a => rule.alone caller key a
  | .join key caller | .lead key caller => rule.joins caller key
  | .finish key a => rule.shared key a
  | .enter _ | .acquire _ | .collect _ | .tell _ => True

/-- The key that a caller came with. -/
def Asked (s : Joining K A) (caller : ℕ) (key : K) : Prop :=
  ∃ phase, s.parties[caller]? = some (key, phase)

/-- Who waits for the work on a key has asked with that key. -/
def Shares (rule : JoinRule K A) (s : Joining K A) (key : K) (callers : List ℕ) : Prop :=
  ∀ caller ∈ callers, s.Asked caller key ∧ rule.joins caller key

def Fits (rule : JoinRule K A) (s : Joining K A) (key : K) : JoinPhase A → Prop
  | .apart caller => s.Asked caller key
  | .answered a => rule.shared key a
  | .telling a waiting => rule.shared key a ∧ s.Shares rule key waiting
  | .queued | .holding | .finished => True

/-- Callers are told what the rule lets them be told of their own keys. -/
structure Right (rule : JoinRule K A) (s : Joining K A) : Prop where
  parties : ∀ (i : ℕ) (key : K) (phase : JoinPhase A), s.parties[i]? = some (key, phase) →
    s.Fits rule key phase
  running : ∀ key callers, s.running.get? key = some callers → s.Shares rule key callers
  told : ∀ caller a, (caller, a) ∈ s.told → ∃ key, s.Asked caller key ∧
    (rule.alone caller key a ∨ rule.joins caller key ∧ rule.shared key a)

variable {rule : JoinRule K A} {t : Joining K A}

/-- The keys stay what they are. -/
theorem Fits.of_asked (hasked : ∀ caller k, s.Asked caller k → t.Asked caller k)
    (h : s.Fits rule key phase) : t.Fits rule key phase := by
  cases phase with
  | apart caller => exact hasked caller key h
  | telling a callers =>
      exact ⟨h.1, fun caller hcaller => (h.2 caller hcaller).imp_left (hasked caller key)⟩
  | queued => trivial
  | holding => trivial
  | answered a => exact h
  | finished => trivial

theorem Asked.setPhase (hi : s.parties[i]? = some (key, phase))
    {running : OrderedMap K (List ℕ)} {permits : ℕ} {told : List (ℕ × A)} (caller : ℕ) (k : K)
    (h : s.Asked caller k) :
    Asked ⟨s.parties.set i (key, phase'), running, permits, told⟩ caller k := by
  obtain ⟨old, hold⟩ := h
  have hlt := (List.getElem?_eq_some_iff.mp hi).1
  rcases eq_or_ne caller i with rfl | hne
  · obtain ⟨rfl, -⟩ := Prod.mk.inj (Option.some.inj (hold.symm.trans hi))
    exact ⟨phase', List.getElem?_set_self hlt⟩
  · exact ⟨old, (List.getElem?_set_ne hne.symm).trans hold⟩

theorem Right.setPhase (h : s.Right rule) (hi : s.parties[i]? = some (key, phase))
    {running : OrderedMap K (List ℕ)} {permits : ℕ} {told : List (ℕ × A)}
    (hfits : s.Fits rule key phase')
    (hrunning : ∀ k callers, running.get? k = some callers → s.Shares rule k callers)
    (htold : ∀ caller a, (caller, a) ∈ told → ∃ k, s.Asked caller k ∧
      (rule.alone caller k a ∨ rule.joins caller k ∧ rule.shared k a)) :
    Right rule ⟨s.parties.set i (key, phase'), running, permits, told⟩ := by
  constructor
  · intro j k other hj
    refine Fits.of_asked (Asked.setPhase hi) ?_
    rcases eq_or_ne i j with rfl | hne
    · have hlt := (List.getElem?_eq_some_iff.mp hi).1
      rw [List.getElem?_set_self hlt] at hj
      obtain ⟨rfl, rfl⟩ := Prod.mk.inj (Option.some.inj hj)
      exact hfits
    · rw [List.getElem?_set_ne hne] at hj
      exact h.parties j k other hj
  · intro k callers hk caller hcaller
    exact (hrunning k callers hk caller hcaller).imp_left (Asked.setPhase hi caller k)
  · intro caller a hcaller
    obtain ⟨k, hasked, hrule⟩ := htold caller a hcaller
    exact ⟨k, Asked.setPhase hi caller k hasked, hrule⟩

theorem Right.enter (h : s.Right rule) (key : K) : (s.enter key).Right rule := by
  have hasked : ∀ caller k, s.Asked caller k → (s.enter key).Asked caller k := by
    rintro caller k ⟨phase, hphase⟩
    have hlt := (List.getElem?_eq_some_iff.mp hphase).1
    exact ⟨phase, (List.getElem?_append_left hlt).trans hphase⟩
  constructor
  · intro j k phase hj
    rcases Nat.lt_or_ge j s.parties.length with hlt | hge
    · have hold := (List.getElem?_append_left hlt).symm.trans hj
      exact (h.parties j k phase hold).of_asked hasked
    · obtain ⟨hlt, -⟩ := List.getElem?_eq_some_iff.mp hj
      obtain rfl : j = s.parties.length := by
        simp only [Joining.enter, List.length_append, List.length_singleton] at hlt
        omega
      have hnew : (s.enter key).parties[s.parties.length]? = some (key, .apart s.parties.length) :=
        List.getElem?_concat_length
      obtain ⟨rfl, rfl⟩ := Prod.mk.inj (Option.some.inj (hj.symm.trans hnew))
      exact ⟨_, hnew⟩
  · intro k callers hk caller hcaller
    exact (h.running k callers hk caller hcaller).imp_left (hasked caller k)
  · intro caller a hcaller
    obtain ⟨k, hk, hrule⟩ := h.told caller a hcaller
    exact ⟨k, hasked caller k hk, hrule⟩

theorem Right.told_snoc (h : s.Right rule) (hcaller : s.Asked caller key) {a : A}
    (ha : rule.alone caller key a ∨ rule.joins caller key ∧ rule.shared key a) :
    ∀ c b, (c, b) ∈ s.told ++ [(caller, a)] → ∃ k, s.Asked c k ∧
      (rule.alone c k b ∨ rule.joins c k ∧ rule.shared k b) := by
  intro c b hmem
  rcases List.mem_append.mp hmem with hold | hnew
  · exact h.told c b hold
  · obtain ⟨rfl, rfl⟩ := Prod.mk.inj (List.mem_singleton.mp hnew)
    exact ⟨key, hcaller, ha⟩

theorem Right.running_insert (h : s.Right rule) {callers : List ℕ}
    (hcallers : s.Shares rule key callers) (k : K) (others : List ℕ)
    (hk : (s.running.insert key callers).get? k = some others) : s.Shares rule k others := by
  rw [OrderedMap.get?_insert] at hk
  split at hk
  case isTrue heq =>
    subst heq
    obtain rfl := Option.some.inj hk
    exact hcallers
  case isFalse => exact h.running k others hk

theorem Right.step (h : s.Right rule) (hmeets : Meets rule s e) (hstep : JoinStep s e s') :
    s'.Right rule := by
  cases hstep with
  | @enter key => exact h.enter key
  | @leave i key caller a hi =>
      exact h.setPhase hi trivial h.running (h.told_snoc (h.parties i key _ hi) (.inl hmeets))
  | @join i key caller callers hi hrunning =>
      refine h.setPhase hi trivial (h.running_insert fun other hother => ?_) h.told
      rcases List.mem_append.mp hother with hold | hnew
      · exact h.running key callers hrunning other hold
      · obtain rfl := List.mem_singleton.mp hnew
        exact ⟨h.parties i key _ hi, hmeets⟩
  | @lead i key caller hi hrunning =>
      refine h.setPhase hi trivial (h.running_insert fun other hother => ?_) h.told
      obtain rfl := List.mem_singleton.mp hother
      exact ⟨h.parties i key _ hi, hmeets⟩
  | @acquire i key hi _ => exact h.setPhase hi trivial h.running h.told
  | @finish i key a hi => exact h.setPhase hi hmeets h.running h.told
  | @collect i key a hi =>
      refine h.setPhase hi ⟨h.parties i key _ hi, ?_⟩ (fun k callers hk => ?_) h.told
      · cases hrunning : s.running.get? key with
        | none => exact fun other hother => by cases hother
        | some callers => exact h.running key callers hrunning
      · rw [OrderedMap.get?_erase] at hk
        split at hk
        case isTrue => cases hk
        case isFalse => exact h.running k callers hk
  | @tell i key a caller callers hi =>
      obtain ⟨ha, hshares⟩ := h.parties i key _ hi
      obtain ⟨hcaller, hjoins⟩ := hshares caller (List.mem_cons_self ..)
      refine h.setPhase hi ⟨ha, fun other hother => ?_⟩ h.running
        (h.told_snoc hcaller (.inr ⟨hjoins, ha⟩))
      exact hshares other (List.mem_cons_of_mem _ hother)

/-! ### What holds in every run -/

structure Sound (all : ℕ) (rule : JoinRule K A) (s : Joining K A) : Prop where
  kept : s.Kept
  led : s.Led
  permitted : s.Permitted all
  right : s.Right rule

theorem Sound.step {all : ℕ} (h : s.Sound all rule) (hmeets : Meets rule s e)
    (hstep : JoinStep s e s') : s'.Sound all rule where
  kept := h.kept.step hstep
  led := h.led.step hstep
  permitted := h.permitted.step hstep
  right := h.right.step hmeets hstep

theorem sound_initial (all : ℕ) (rule : JoinRule K A) :
    (initial all : Joining K A).Sound all rule where
  kept := Custody.start
  led _ := rfl
  permitted := rfl
  right := by
    refine ⟨fun i key phase hi => ?_, fun key callers hk => ?_, fun caller a hcaller => ?_⟩
    · cases hi
    · cases hk
    · cases hcaller

/-- Nobody is told twice. -/
theorem Kept.once (h : s.Kept) : (s.told.map Prod.fst).Nodup := h.nodup.of_append_right

/-- Who was not told is held. -/
theorem Kept.mem_held (h : s.Kept) (hcaller : caller < s.parties.length)
    (htold : caller ∉ s.told.map Prod.fst) : caller ∈ s.held := by
  have hmem : caller ∈ s.held ++ s.told.map Prod.fst := h.mem_iff.mpr (List.mem_range.mpr hcaller)
  rcases List.mem_append.mp hmem with hheld | hmem
  · exact hheld
  · exact absurd hmem htold

/-- Who was told did ask. -/
theorem Kept.lt_of_told (h : s.Kept) (htold : caller ∈ s.told.map Prod.fst) :
    caller < s.parties.length :=
  List.mem_range.mp (h.mem_iff.mp (List.mem_append_right _ htold))

/-- No more parties hold a permit than there are permits. -/
theorem Permitted.holding_le {all : ℕ} (h : s.Permitted all) :
    s.parties.countP (·.2.isHolding) ≤ all := by
  have hcount := sum_toNat (fun p : K × JoinPhase A => p.2.isHolding) s.parties
  unfold Permitted holds at h
  omega

/-! ### It comes to an end -/

/-- How many steps there may be before the next caller comes. -/
def left (s : Joining K A) : ℕ :=
  (s.parties.map (·.2.rank)).sum + (s.parties.length - s.told.length)

theorem left_lt_of_set (hi : s.parties[i]? = some (key, phase))
    {running : OrderedMap K (List ℕ)} {permits : ℕ} {told : List (ℕ × A)}
    (hlt : phase'.rank + s.told.length < phase.rank + told.length)
    (hmore : s.told.length ≤ told.length) (hfew : told.length ≤ s.parties.length) :
    left ⟨s.parties.set i (key, phase'), running, permits, told⟩ < s.left := by
  have hrank := sum_map_set (fun p : K × JoinPhase A => p.2.rank) hi (key, phase')
  simp only [left, List.length_set] at hrank ⊢
  omega

/-- Each step is one less that is left, if no caller comes. -/
theorem left_lt (h : s.Kept) (h' : s'.Kept) (hstep : JoinStep s e s')
    (hcomes : ∀ key, e ≠ .enter key) : s'.left < s.left := by
  have hfew {t : Joining K A} (ht : t.Kept) : t.told.length ≤ t.parties.length := by
    have hlength := ht.length_eq
    rw [List.length_append, List.length_map, List.length_range] at hlength
    omega
  have hbefore := hfew h
  have hafter := hfew h'
  cases hstep with
  | @enter key => exact absurd rfl (hcomes key)
  | @leave i key caller a hi =>
      rw [leave, setPhase, List.length_set] at hafter
      refine left_lt_of_set hi ?_ ?_ hafter <;>
        simp only [JoinPhase.rank, List.length_append, List.length_singleton] <;>
        omega
  | @join i key caller callers hi _ =>
      refine left_lt_of_set hi ?_ le_rfl hbefore
      simp only [setPhase_told, JoinPhase.rank]
      omega
  | @lead i key caller hi _ =>
      refine left_lt_of_set hi ?_ le_rfl hbefore
      simp only [setPhase_told, JoinPhase.rank]
      omega
  | @acquire i key hi _ =>
      refine left_lt_of_set hi ?_ le_rfl hbefore
      simp only [setPhase_told, JoinPhase.rank]
      omega
  | @finish i key a hi =>
      refine left_lt_of_set hi ?_ le_rfl hbefore
      simp only [setPhase_told, JoinPhase.rank]
      omega
  | @collect i key a hi =>
      refine left_lt_of_set hi ?_ le_rfl hbefore
      simp only [setPhase_told, JoinPhase.rank]
      omega
  | @tell i key a caller callers hi =>
      rw [tell, setPhase, List.length_set] at hafter
      refine left_lt_of_set hi ?_ ?_ hafter <;>
        simp only [JoinPhase.rank, List.length_append, List.length_singleton] <;>
        omega

/-- A party that can take its next step. -/
def Ready (s : Joining K A) : JoinPhase A → Prop
  | .apart _ | .holding | .answered _ => True
  | .queued => 0 < s.permits
  | .telling _ waiting => waiting ≠ []
  | .finished => False

/-- As long as a caller is held, there is a party that can. -/
theorem Sound.exists_ready {all : ℕ} (h : s.Sound all rule) (hall : 0 < all)
    (hcaller : caller ∈ s.held) :
    ∃ (i : ℕ) (key : K) (phase : JoinPhase A), s.parties[i]? = some (key, phase) ∧
      s.Ready phase := by
  rcases List.mem_append.mp hcaller with hhand | hwaiting
  · obtain ⟨⟨key, phase⟩, hmem, hcallers⟩ := List.mem_flatMap.mp hhand
    obtain ⟨i, hi⟩ := List.mem_iff_getElem?.mp hmem
    refine ⟨i, key, phase, hi, ?_⟩
    cases phase with
    | apart => trivial
    | telling a callers => exact List.ne_nil_of_mem hcallers
    | queued => cases hcallers
    | holding => trivial
    | answered a => trivial
    | finished => cases hcallers
  · obtain ⟨⟨key, callers⟩, hmem, -⟩ := List.mem_flatMap.mp hwaiting
    obtain ⟨i, phase, hi, hleading⟩ := h.led.exists_leader (OrderedMap.get?_eq_some.mpr hmem)
    cases phase with
    | apart => cases hleading
    | telling => cases hleading
    | finished => cases hleading
    | holding => exact ⟨i, key, _, hi, trivial⟩
    | answered a => exact ⟨i, key, _, hi, trivial⟩
    | queued =>
        rcases Nat.eq_zero_or_pos s.permits with hzero | hpos
        · -- All permits are held, and who holds one can go on.
          have hsum : 0 < (s.parties.map holds).sum := by
            have hpermitted := h.permitted
            unfold Permitted at hpermitted
            omega
          obtain ⟨j, ⟨k, other⟩, hj, hshare⟩ := exists_share holds hsum
          refine ⟨j, k, other, hj, ?_⟩
          cases other with
          | holding => trivial
          | _ => exact absurd hshare (Nat.lt_irrefl 0)
        · exact ⟨i, key, _, hi, hpos⟩

end Invariants

end Joining

end SynologyFilestation.Library
