import SynologyFilestation.Library.Routines
import Mathlib.Data.Prod.Lex
import Mathlib.Data.Set.Insert
import Mathlib.Logic.Relation
import Mathlib.Tactic.Set

/-!
Ranks of gates, and why tasks that keep to them cannot all wait for good.

A routine keeps to the ranks when it asks for a permit only while all that it holds
are of higher rank, and waits for nothing at all while it has a claim. That is a
property of each routine by itself. Of tasks that all keep to the ranks, in whatever
order they run, none waits in a circle, and one that cannot go on waits, by way of
others, for one that can.
-/

namespace SynologyFilestation.Library

open Function Relation

variable {σ G K Q : Type} {A : Q → Type}

/-! ### Keeping to the ranks -/

/-- The routine keeps to the ranks, begun by a task that holds `held g` permits of the
gate `g` and has the claims `owned`. It ends with neither. -/
def Routine.Ranked [DecidableEq G] (rank : G → ℕ) :
    (G → ℕ) → Set K → Routine σ G K Q A → Prop
  | held, owned, .done => (∀ g, held g = 0) ∧ owned = ∅
  | held, owned, .act _ next => ∀ isFree data, (next isFree data).Ranked rank held owned
  | held, owned, .ask _ next => ∀ a, (next a).Ranked rank held owned
  | held, owned, .acquire g next =>
      (∀ h, 0 < held h → rank g < rank h) ∧ owned = ∅ ∧
        next.Ranked rank (update held g (held g + 1)) owned
  | held, owned, .release g next =>
      0 < held g ∧ next.Ranked rank (update held g (held g - 1)) owned
  | held, owned, .claim key next =>
      (next true).Ranked rank held (insert key owned) ∧ (next false).Ranked rank held owned
  | held, owned, .resolve keys next => next.Ranked rank held {key ∈ owned | keys key = false}
  | held, owned, .await _ next => owned = ∅ ∧ next.Ranked rank held owned
  | held, owned, .fork moved task next =>
      task.Ranked rank (fun _ => 0) {key ∈ owned | key ∈ moved} ∧
        next.Ranked rank held {key ∈ owned | key ∉ moved}

/-- What is left to do of a task in line is to take its permit, and go on. -/
def Strand.Ranked [DecidableEq G] (rank : G → ℕ) (held : G → ℕ) (owned : Set K) :
    Strand σ G K Q A → Prop
  | .running r => r.Ranked rank held owned
  | .queued g r => (Routine.acquire g r).Ranked rank held owned
  | .listening key _ r => (Routine.await key r).Ranked rank held owned

/-- Fewer claims are no hindrance. -/
theorem Routine.Ranked.anti [DecidableEq G] {rank held : G → ℕ} {owned owned' : Set K}
    {r : Routine σ G K Q A} (h : r.Ranked rank held owned) (hsub : owned' ⊆ owned) :
    r.Ranked rank held owned' := by
  induction r generalizing held owned owned' with
  | done => exact ⟨h.1, Set.subset_eq_empty hsub h.2⟩
  | act f next ih => exact fun isFree data => ih isFree data (h isFree data) hsub
  | ask q next ih => exact fun a => ih a (h a) hsub
  | acquire g next ih => exact ⟨h.1, Set.subset_eq_empty hsub h.2.1, ih h.2.2 hsub⟩
  | release g next ih => exact ⟨h.1, ih h.2 hsub⟩
  | claim key next ih => exact ⟨ih true h.1 (Set.insert_subset_insert hsub), ih false h.2 hsub⟩
  | resolve keys next ih => exact ih h fun _ hkey => ⟨hsub hkey.1, hkey.2⟩
  | await key next ih => exact ⟨Set.subset_eq_empty hsub h.1, ih h.2 hsub⟩
  | fork moved task next ihTask ihNext =>
      exact ⟨ihTask h.1 fun _ hkey => ⟨hsub hkey.1, hkey.2⟩,
        ihNext h.2 fun _ hkey => ⟨hsub hkey.1, hkey.2⟩⟩

theorem Strand.Ranked.anti [DecidableEq G] {rank held : G → ℕ} {owned owned' : Set K}
    {x : Strand σ G K Q A} (h : x.Ranked rank held owned) (hsub : owned' ⊆ owned) :
    x.Ranked rank held owned' := by
  cases x with
  | running r => exact Routine.Ranked.anti h hsub
  | queued g r => exact Routine.Ranked.anti (r := .acquire g r) h hsub
  | listening key bell r => exact Routine.Ranked.anti (r := .await key r) h hsub

section Rules

variable [DecidableEq G] {rank held : G → ℕ} {owned : Set K} {g : G} {next : Routine σ G K Q A}

/-- What was acquired last is released. -/
theorem Routine.Ranked.release (h : next.Ranked rank held owned) :
    (Routine.release g next).Ranked rank (update held g (held g + 1)) owned := by
  have hback : update (update held g (held g + 1)) g (update held g (held g + 1) g - 1) = held := by
    rw [update_idem, update_self, Nat.add_sub_cancel, update_eq_self]
  exact ⟨by simp, hback.symm ▸ h⟩

theorem Routine.Ranked.act {f : σ → σ} {next : (G → Bool) → σ → Routine σ G K Q A}
    (h : ∀ isFree data, (next isFree data).Ranked rank held owned) :
    (Routine.act f next).Ranked rank held owned := h

theorem Routine.Ranked.resolve {keys : K → Bool} (h : next.Ranked rank held ∅) :
    (Routine.resolve keys next).Ranked rank held ∅ :=
  h.anti fun _ hkey => hkey.1

theorem Routine.Ranked.spawn {moved : List K} {task : Routine σ G K Q A}
    (htask : task.Ranked rank (fun _ => 0) ∅) (h : next.Ranked rank held ∅) :
    (Routine.fork moved task next).Ranked rank held ∅ :=
  ⟨htask.anti fun _ hkey => hkey.1, h.anti fun _ hkey => hkey.1⟩

/-- A question asked with a permit in hand. -/
theorem Routine.Ranked.guarded {q : Q} {next : A q → Routine σ G K Q A}
    (hlt : ∀ h, 0 < held h → rank g < rank h)
    (h : ∀ a, (next a).Ranked rank held (∅ : Set K)) :
    (Routine.acquire g (.ask q fun a => .release g (next a))).Ranked rank held ∅ :=
  ⟨hlt, rfl, fun a => (h a).release⟩

end Rules

namespace Crew

section Holdings

theorem tasks_put_self (s : Crew σ G K Q A) (t : ℕ) (x : Strand σ G K Q A) :
    (s.put t x).tasks t = some x := by simp only [put, update_self]

theorem tasks_put_of_ne {t u : ℕ} (h : u ≠ t) (s : Crew σ G K Q A) (x : Strand σ G K Q A) :
    (s.put t x).tasks u = s.tasks u := by simp only [put, update_of_ne h]

/-- How many permits of each gate a task has. -/
def held (s : Crew σ G K Q A) (t : ℕ) : G → ℕ := fun g => (s.gates g).holders.count t

def owned (s : Crew σ G K Q A) (t : ℕ) : Set K := {key | ∃ c, s.claims key = some c ∧ c.owner = t}

variable {s : Crew σ G K Q A} {t u : ℕ} {g : G}

theorem held_setGate [DecidableEq G] (gate : Gate) :
    (s.setGate g gate).held u = update (s.held u) g (gate.holders.count u) := by
  funext g'
  rcases eq_or_ne g' g with rfl | hne
  · simp [held, setGate]
  · simp [held, setGate, update_of_ne hne]

theorem held_setGate_same [DecidableEq G] {gate : Gate}
    (hsame : gate.holders.count u = (s.gates g).holders.count u) :
    (s.setGate g gate).held u = s.held u := by
  rw [held_setGate, hsame]
  exact update_eq_self g (s.held u)

theorem mem_owned_setClaim [DecidableEq K] {key key' : K} (h : key' ∈ (s.setClaim key t).owned u) :
    key' = key ∧ u = t ∨ key' ∈ s.owned u := by
  obtain ⟨c, hc, rfl⟩ := h
  rcases update_eq_some hc with ⟨rfl, rfl⟩ | ⟨_, hold⟩
  · exact .inl ⟨rfl, rfl⟩
  · exact .inr ⟨c, hold, rfl⟩

theorem mem_owned_dropClaims {keys : K → Bool} {key : K} (h : key ∈ (s.dropClaims keys).owned u) :
    key ∈ s.owned u ∧ keys key = false := by
  obtain ⟨c, hc, rfl⟩ := h
  simp only [dropClaims] at hc
  cases hkeys : keys key with
  | true => simp [hkeys] at hc
  | false => exact ⟨⟨c, by simpa [hkeys] using hc, rfl⟩, rfl⟩

theorem mem_owned_moveClaims [DecidableEq K] {keys : List K} {v : ℕ} {key : K}
    (h : key ∈ (s.moveClaims keys t v).owned u) :
    u = v ∧ key ∈ s.owned t ∧ key ∈ keys ∨ key ∈ s.owned u ∧ ¬(u = t ∧ key ∈ keys) := by
  obtain ⟨c, hc, rfl⟩ := h
  simp only [moveClaims, Option.map_eq_some_iff] at hc
  obtain ⟨c, hold, rfl⟩ := hc
  split
  next hmoved => exact .inl ⟨rfl, ⟨c, hold, hmoved.1⟩, hmoved.2⟩
  next hkept => exact .inr ⟨⟨c, hold, rfl⟩, hkept⟩

end Holdings

section Steps

variable [DecidableEq G]

/-- Every task keeps to the ranks, and the gates serve in turn: `capacity` permits
each, and nobody in line while one is left. -/
structure Ranked (rank capacity : G → ℕ) (s : Crew σ G K Q A) : Prop where
  permits (g) : (s.gates g).free + (s.gates g).holders.length = capacity g
  full {g} (hfree : 0 < (s.gates g).free) : (s.gates g).line = []
  inLine {g t} : t ∈ (s.gates g).line ↔ ∃ r, s.tasks t = some (.queued g r)
  once (g) : (s.gates g).line.Nodup
  fresh {t} (ht : s.made ≤ t) : s.tasks t = none
  absent {t} (ht : s.tasks t = none) : (∀ g, s.held t g = 0) ∧ s.owned t = ∅
  ranked {t x} (ht : s.tasks t = some x) : x.Ranked rank (s.held t) (s.owned t)

variable {rank capacity : G → ℕ} {s s' : Crew σ G K Q A} {t u : ℕ} {g : G}
  {x y : Strand σ G K Q A} {r : Routine σ G K Q A}

theorem ranked_idle (rank capacity : G → ℕ) (data : σ) :
    (idle data capacity : Crew σ G K Q A).Ranked rank capacity where
  permits _ := rfl
  full _ := rfl
  inLine := by simp [idle]
  once _ := List.nodup_nil
  fresh _ := rfl
  absent _ := ⟨fun _ => rfl, Set.eq_empty_of_forall_notMem fun _ ⟨_, hc, _⟩ => nomatch hc⟩
  ranked ht := nomatch ht

theorem Ranked.number_lt (h : s.Ranked rank capacity) (ht : s.tasks t = some x) : t < s.made := by
  by_contra hge
  cases (h.fresh (not_lt.mp hge)).symm.trans ht

/-- A task goes on that is in no line, before or after. What it gives up or takes is
its own, and claims that others lose. -/
theorem Ranked.go (h : s.Ranked rank capacity) (ht : s.tasks t = some x)
    (hx : ∀ g r, x ≠ .queued g r) (hy : ∀ g r, y ≠ .queued g r)
    (htasks : s'.tasks = update s.tasks t (some y)) (hmade : s'.made = s.made)
    (hpermits : ∀ g, (s'.gates g).free + (s'.gates g).holders.length = capacity g)
    (hline : ∀ g, (s'.gates g).line = (s.gates g).line)
    (hfull : ∀ g, 0 < (s'.gates g).free → (s.gates g).line = [])
    (hheld : ∀ u, u ≠ t → s'.held u = s.held u)
    (howned : ∀ u, u ≠ t → s'.owned u ⊆ s.owned u)
    (hranked : y.Ranked rank (s'.held t) (s'.owned t)) : s'.Ranked rank capacity where
  permits := hpermits
  full hfree := (hline _).trans (hfull _ hfree)
  inLine {g u} := by
    rw [hline, h.inLine, htasks]
    rcases eq_or_ne u t with rfl | hne
    · rw [update_self, ht]
      exact ⟨fun ⟨r, hr⟩ => absurd (Option.some.inj hr) (hx g r),
        fun ⟨r, hr⟩ => absurd (Option.some.inj hr) (hy g r)⟩
    · rw [update_of_ne hne]
  once g := by rw [hline]; exact h.once g
  fresh {u} hu := by
    rw [hmade] at hu
    rw [htasks, update_of_ne ((h.number_lt ht).trans_le hu).ne']
    exact h.fresh hu
  absent {u} hu := by
    have hne : u ≠ t := by
      rintro rfl
      rw [htasks, update_self] at hu
      cases hu
    rw [htasks, update_of_ne hne] at hu
    rw [hheld u hne]
    exact ⟨(h.absent hu).1, Set.subset_eq_empty (howned u hne) (h.absent hu).2⟩
  ranked {u z} hu := by
    rw [htasks] at hu
    rcases update_eq_some hu with ⟨rfl, rfl⟩ | ⟨hne, hold⟩
    · exact hranked
    · rw [hheld u hne]
      exact (h.ranked hold).anti (howned u hne)

/-- A task goes on that changes no gate and no claim. -/
theorem Ranked.put (h : s.Ranked rank capacity) (ht : s.tasks t = some x)
    (hx : ∀ g r, x ≠ .queued g r) (hy : ∀ g r, y ≠ .queued g r)
    (hranked : y.Ranked rank (s.held t) (s.owned t)) : (s.put t y).Ranked rank capacity :=
  h.go ht hx hy rfl rfl h.permits (fun _ => rfl) (fun _ => h.full) (fun _ _ => rfl)
    (fun _ _ => subset_rfl) hranked

/-- A new task, to which others may have left claims. -/
theorem Ranked.add (h : s.Ranked rank capacity)
    (htasks : s'.tasks = update s.tasks s.made (some (.running r)))
    (hmade : s'.made = s.made + 1) (hgates : s'.gates = s.gates)
    (howned : ∀ u, u ≠ s.made → s'.owned u ⊆ s.owned u)
    (hranked : r.Ranked rank (fun _ => 0) (s'.owned s.made)) : s'.Ranked rank capacity := by
  have hheld : ∀ u, s'.held u = s.held u := fun u => by
    unfold held
    rw [hgates]
  refine ⟨?_, ?_, ?_, ?_, ?_, ?_, ?_⟩
  · simpa only [hgates] using h.permits
  · intro g hfree
    rw [hgates] at hfree ⊢
    exact h.full hfree
  · intro g u
    rw [hgates, h.inLine, htasks]
    rcases eq_or_ne u s.made with rfl | hne
    · simp [h.fresh le_rfl]
    · rw [update_of_ne hne]
  · simpa only [hgates] using h.once
  · intro u hu
    rw [hmade] at hu
    rw [htasks, update_of_ne (Nat.lt_of_succ_le hu).ne']
    exact h.fresh (Nat.le_of_succ_le hu)
  · intro u hu
    have hne : u ≠ s.made := by
      rintro rfl
      rw [htasks, update_self] at hu
      cases hu
    rw [htasks, update_of_ne hne] at hu
    rw [hheld]
    exact ⟨(h.absent hu).1, Set.subset_eq_empty (howned u hne) (h.absent hu).2⟩
  · intro u z hu
    rw [htasks] at hu
    rcases update_eq_some hu with ⟨rfl, rfl⟩ | ⟨hne, hold⟩
    · rw [hheld, funext (h.absent (h.fresh le_rfl)).1]
      exact hranked
    · rw [hheld]
      exact (h.ranked hold).anti (howned u hne)

/-- The ranks are kept to when a program starts. -/
theorem Ranked.start (h : s.Ranked rank capacity) (hr : r.Ranked rank (fun _ => 0) ∅) :
    (s.start r).Ranked rank capacity := by
  refine h.add rfl rfl rfl (fun _ _ => subset_rfl) ?_
  have hnone : (s.start r).owned s.made = ∅ := (h.absent (h.fresh le_rfl)).2
  rwa [hnone]

variable {next : Routine σ G K Q A}

theorem Ranked.not_mem_line (h : s.Ranked rank capacity) (ht : s.tasks t = some (.running r)) :
    t ∉ (s.gates g).line := fun hmem => by
  obtain ⟨r', hr'⟩ := h.inLine.mp hmem
  cases ht.symm.trans hr'

theorem Ranked.mem_holders (h : s.Ranked rank capacity)
    (ht : s.tasks t = some (.running (.release g next))) : t ∈ (s.gates g).holders :=
  List.count_pos_iff.mp (h.ranked ht).1

/-- What holds of every gate holds of them after one has changed. -/
theorem forall_setGate {gate : Gate} {P : G → Gate → Prop} (hnew : P g gate)
    (hold : ∀ g', P g' (s.gates g')) (g' : G) : P g' ((s.setGate g gate).gates g') := by
  simp only [setGate]
  rcases eq_or_ne g' g with rfl | hne
  · rwa [update_self]
  · rw [update_of_ne hne]
    exact hold g'

/-- A task goes on that takes permits of one gate, or gives them up. -/
theorem Ranked.goAt (h : s.Ranked rank capacity) (ht : s.tasks t = some (.running r)) {gate : Gate}
    (hpermits : gate.free + gate.holders.length = capacity g)
    (hline : gate.line = (s.gates g).line) (hfull : 0 < gate.free → (s.gates g).line = [])
    (hothers : ∀ u, u ≠ t → gate.holders.count u = (s.gates g).holders.count u)
    (hranked : next.Ranked rank (update (s.held t) g (gate.holders.count t)) (s.owned t)) :
    ((s.setGate g gate).put t (.running next)).Ranked rank capacity := by
  refine h.go ht nofun (by nofun) rfl rfl ?_ ?_ ?_ (fun u hu => held_setGate_same (hothers u hu))
    (fun _ _ => subset_rfl) ?_
  · exact forall_setGate (P := fun g gate => gate.free + gate.holders.length = capacity g)
      hpermits h.permits
  · exact forall_setGate (P := fun g gate => gate.line = (s.gates g).line) hline fun _ => rfl
  · exact forall_setGate (P := fun g gate => 0 < gate.free → (s.gates g).line = []) hfull
      fun _ => h.full
  · rw [← held_setGate] at hranked
    exact hranked

theorem Ranked.take (h : s.Ranked rank capacity)
    (ht : s.tasks t = some (.running (.acquire g next))) (hfree : 0 < (s.gates g).free) :
    ((s.setGate g { s.gates g with
      free := (s.gates g).free - 1, holders := t :: (s.gates g).holders }).put t
        (.running next)).Ranked rank capacity := by
  refine h.goAt ht ?_ rfl (fun _ => h.full hfree) (fun u hu => List.count_cons_of_ne hu.symm) ?_
  · have hall := h.permits g
    simp only [List.length_cons]
    omega
  · rw [List.count_cons_self]
    exact (h.ranked ht).2.2

theorem Ranked.giveBack (h : s.Ranked rank capacity)
    (ht : s.tasks t = some (.running (.release g next))) (hline : (s.gates g).line = []) :
    ((s.setGate g { s.gates g with
      free := (s.gates g).free + 1, holders := (s.gates g).holders.erase t }).put t
        (.running next)).Ranked rank capacity := by
  have hmem := h.mem_holders ht
  refine h.goAt ht ?_ rfl (fun _ => hline) (fun u hu => List.count_erase_of_ne hu) ?_
  · have hall := h.permits g
    have hpos := List.length_pos_of_mem hmem
    simp only [List.length_erase_of_mem hmem]
    omega
  · rw [List.count_erase_self]
    exact (h.ranked ht).2

theorem Ranked.lineUp (h : s.Ranked rank capacity)
    (ht : s.tasks t = some (.running (.acquire g next))) (hfull : (s.gates g).free = 0) :
    ((s.setGate g { s.gates g with line := (s.gates g).line ++ [t] }).put t
      (.queued g next)).Ranked rank capacity := by
  have hheld : ∀ u, (s.setGate g { s.gates g with line := (s.gates g).line ++ [t] }).held u =
      s.held u := fun u => held_setGate_same rfl
  refine ⟨?_, ?_, ?_, ?_, ?_, ?_, ?_⟩
  · exact forall_setGate (P := fun g gate => gate.free + gate.holders.length = capacity g)
      (h.permits g) h.permits
  · refine fun {g'} => forall_setGate (P := fun _ gate => 0 < gate.free → gate.line = [])
      ?_ (fun _ => h.full) g'
    exact fun hfree => absurd hfull hfree.ne'
  · intro g' u
    have hnot : t ∉ (s.gates g').line := h.not_mem_line ht
    simp only [Crew.put, setGate]
    rcases eq_or_ne u t with rfl | hu
    · rcases eq_or_ne g' g with rfl | hne
      · simp
      · simp [update_of_ne hne, hnot, hne.symm]
    · rw [update_of_ne hu, ← h.inLine]
      rcases eq_or_ne g' g with rfl | hne
      · simp [hu]
      · rw [update_of_ne hne]
  · refine forall_setGate (P := fun _ gate => gate.line.Nodup) ?_ h.once
    refine List.nodup_append.mpr ⟨h.once g, by simp, fun u hu v hv => ?_⟩
    rintro rfl
    exact h.not_mem_line ht (List.mem_singleton.mp hv ▸ hu)
  · intro u hu
    exact (tasks_put_of_ne ((h.number_lt ht).trans_le hu).ne' ..).trans (h.fresh hu)
  · intro u hu
    have hne : u ≠ t := by
      rintro rfl
      cases (tasks_put_self ..).symm.trans hu
    have hold := h.absent ((tasks_put_of_ne hne ..).symm.trans hu)
    exact ⟨fun g' => (congrFun (hheld u) g').trans (hold.1 g'), hold.2⟩
  · intro u z hu
    show z.Ranked rank ((s.setGate g _).held u) (s.owned u)
    rw [hheld]
    have hasked := h.ranked ht
    rcases update_eq_some hu with ⟨rfl, rfl⟩ | ⟨_, hold⟩
    · exact hasked
    · exact h.ranked hold

/-- The permit is the other task's before anyone else can have it. -/
theorem Ranked.handOver (h : s.Ranked rank capacity)
    (ht : s.tasks t = some (.running (.release g next))) {line : List ℕ}
    (hline : (s.gates g).line = u :: line) (hu : s.tasks u = some (.queued g r)) :
    (((s.setGate g { s.gates g with
      holders := u :: (s.gates g).holders.erase t, line := line }).put u (.running r)).put t
        (.running next)).Ranked rank capacity := by
  have hmem := h.mem_holders ht
  have htu : t ≠ u := by
    rintro rfl
    cases ht.symm.trans hu
  have hnodup := hline ▸ h.once g
  set gate : Gate := { s.gates g with
    holders := u :: (s.gates g).holders.erase t, line := line } with hgate
  have htasks : ∀ v, v ≠ t → v ≠ u → (((s.setGate g gate).put u (.running r)).put t
      (.running next)).tasks v = s.tasks v := fun v hvt hvu =>
    (tasks_put_of_ne hvt ..).trans (tasks_put_of_ne hvu ..)
  have hothers : ∀ v, v ≠ t → v ≠ u → (s.setGate g gate).held v = s.held v := fun v hvt hvu => by
    refine held_setGate_same ?_
    rw [hgate, List.count_cons_of_ne hvu.symm, List.count_erase_of_ne hvt]
  refine ⟨?_, ?_, ?_, ?_, ?_, ?_, ?_⟩
  · refine forall_setGate (P := fun g gate => gate.free + gate.holders.length = capacity g)
      ?_ h.permits
    have hall := h.permits g
    have hpos := List.length_pos_of_mem hmem
    simp only [hgate, List.length_cons, List.length_erase_of_mem hmem]
    omega
  · refine fun {g'} => forall_setGate (P := fun _ gate => 0 < gate.free → gate.line = [])
      ?_ (fun _ => h.full) g'
    intro hfree
    cases hline.symm.trans (h.full hfree)
  · intro g' v
    show v ∈ ((s.setGate g gate).gates g').line ↔ _
    rcases eq_or_ne v t with rfl | hvt
    · have hnot : v ∉ (s.gates g').line := h.not_mem_line ht
      rw [tasks_put_self]
      rcases eq_or_ne g' g with rfl | hne
      · simp only [setGate, update_self]
        exact ⟨fun hv => absurd (hline ▸ List.mem_cons_of_mem u hv) hnot, nofun⟩
      · simp only [setGate, update_of_ne hne]
        exact ⟨fun hv => absurd hv hnot, nofun⟩
    rcases eq_or_ne v u with rfl | hvu
    · rw [tasks_put_of_ne hvt, tasks_put_self]
      rcases eq_or_ne g' g with rfl | hne
      · simp only [setGate, update_self]
        exact ⟨fun hv => absurd hv (List.nodup_cons.mp hnodup).1, nofun⟩
      · simp only [setGate, update_of_ne hne]
        refine ⟨fun hv => ?_, nofun⟩
        obtain ⟨r', hr'⟩ := h.inLine.mp hv
        cases hu.symm.trans hr'
        exact absurd rfl hne
    · rw [htasks v hvt hvu, ← h.inLine]
      rcases eq_or_ne g' g with rfl | hne
      · simp [setGate, hgate, hline, hvu]
      · simp [setGate, update_of_ne hne]
  · exact forall_setGate (P := fun _ gate => gate.line.Nodup) (List.nodup_cons.mp hnodup).2 h.once
  · intro v hv
    exact (htasks v ((h.number_lt ht).trans_le hv).ne' ((h.number_lt hu).trans_le hv).ne').trans
      (h.fresh hv)
  · intro v hv
    have hvt : v ≠ t := by
      rintro rfl
      cases (tasks_put_self ..).symm.trans hv
    have hvu : v ≠ u := by
      rintro rfl
      rw [tasks_put_of_ne hvt, tasks_put_self] at hv
      cases hv
    have hold := h.absent ((htasks v hvt hvu).symm.trans hv)
    exact ⟨fun g' => (congrFun (hothers v hvt hvu) g').trans (hold.1 g'), hold.2⟩
  · intro v z hv
    show z.Ranked rank ((s.setGate g gate).held v) (s.owned v)
    have hreleased := h.ranked ht
    have hqueued := h.ranked hu
    rcases update_eq_some hv with ⟨rfl, rfl⟩ | ⟨hvt, hv⟩
    · have hcount : gate.holders.count v = s.held v g - 1 := by
        rw [hgate, List.count_cons_of_ne htu.symm, List.count_erase_self]
        rfl
      rw [held_setGate, hcount]
      exact hreleased.2
    rcases update_eq_some hv with ⟨rfl, rfl⟩ | ⟨hvu, hold⟩
    · have hcount : gate.holders.count v = s.held v g + 1 := by
        rw [hgate, List.count_cons_self, List.count_erase_of_ne hvt]
        rfl
      rw [held_setGate, hcount]
      exact hqueued.2.2
    · rw [hothers v hvt hvu]
      exact h.ranked hold

theorem Ranked.fork [DecidableEq K] (h : s.Ranked rank capacity) {moved : List K}
    {task : Routine σ G K Q A} (ht : s.tasks t = some (.running (.fork moved task next))) :
    (((s.moveClaims moved t s.made).start task).put t (.running next)).Ranked rank capacity := by
  have hne : t ≠ s.made := (h.number_lt ht).ne
  obtain ⟨htask, hnext⟩ := h.ranked ht
  have hstarted : ((s.moveClaims moved t s.made).start task).Ranked rank capacity := by
    refine h.add rfl rfl rfl (fun u hu key hkey => ?_) (htask.anti fun key hkey => ?_)
    · rcases mem_owned_moveClaims hkey with ⟨hmade, _⟩ | ⟨hold, _⟩
      · exact absurd hmade hu
      · exact hold
    · rcases mem_owned_moveClaims hkey with ⟨_, hmoved⟩ | ⟨hold, _⟩
      · exact hmoved
      · cases (h.absent (h.fresh le_rfl)).2 ▸ hold
  refine hstarted.put ((tasks_put_of_ne hne ..).trans ht) nofun (by nofun)
    (hnext.anti fun key hkey => ?_)
  rcases mem_owned_moveClaims hkey with ⟨hmade, _⟩ | ⟨hold, hkept⟩
  · exact absurd hmade hne
  · exact ⟨hold, fun hin => hkept ⟨rfl, hin⟩⟩

theorem Ranked.turn [DecidableEq K] (h : s.Ranked rank capacity) (hturn : Turn s t s') :
    s'.Ranked rank capacity := by
  cases hturn with
  | act ht =>
      exact h.go ht nofun (by nofun) rfl rfl h.permits (fun _ => rfl) (fun _ => h.full)
        (fun _ _ => rfl) (fun _ _ => subset_rfl) (h.ranked ht _ _)
  | ask ht a => exact h.put ht nofun (by nofun) (h.ranked ht a)
  | take ht hfree => exact h.take ht hfree
  | lineUp ht hfull => exact h.lineUp ht hfull
  | handOver ht hline hu => exact h.handOver ht hline hu
  | giveBack ht hline => exact h.giveBack ht hline
  | win ht hkey =>
      refine h.go ht nofun (by nofun) rfl rfl h.permits (fun _ => rfl) (fun _ => h.full)
        (fun _ _ => rfl) (fun u hu key' hkey' => ?_) ((h.ranked ht).1.anti fun key' hkey' => ?_)
      · rcases mem_owned_setClaim hkey' with ⟨_, hown⟩ | hold
        · exact absurd hown hu
        · exact hold
      · rcases mem_owned_setClaim hkey' with ⟨rfl, _⟩ | hold
        · exact Set.mem_insert _ _
        · exact Set.mem_insert_of_mem _ hold
  | lose ht hkey => exact h.put ht nofun (by nofun) (h.ranked ht).2
  | @resolve keys next ht =>
      have hleft : next.Ranked rank (s.held t) {key ∈ s.owned t | keys key = false} := h.ranked ht
      exact h.go ht nofun (by nofun) rfl rfl h.permits (fun _ => rfl) (fun _ => h.full)
        (fun _ _ => rfl) (fun _ _ _ hkey => (mem_owned_dropClaims hkey).1)
        (hleft.anti fun _ hkey => mem_owned_dropClaims hkey)
  | pass ht hkey => exact h.put ht nofun (by nofun) (h.ranked ht).2
  | listen ht hkey =>
      have hasked := h.ranked ht
      exact h.put ht nofun (by nofun) hasked
  | hear ht hkey => exact h.put ht nofun (by nofun) (h.ranked ht).2
  | fork ht => exact h.fork ht

/-- Programs that keep to the ranks do so whatever the others do. -/
theorem Ranked.step [DecidableEq K] (h : s.Ranked rank capacity)
    {programs : Routine σ G K Q A → Prop} {e : Stirring}
    (hprograms : ∀ r, programs r → r.Ranked rank (fun _ => 0) ∅)
    (hstep : CrewStep programs s e s') : s'.Ranked rank capacity := by
  cases hstep with
  | start hr => exact h.start (hprograms _ hr)
  | turn hturn => exact h.turn hturn
  | timeout ht => exact h.put ht nofun (by nofun) (h.ranked ht).2

end Steps

/-! ### Nobody waits for good -/

/-- Whom a task waits for: those that have what it wants, and those before it in line. -/
inductive Waits (s : Crew σ G K Q A) (t u : ℕ) : Prop
  | holder {g r} (ht : s.tasks t = some (.queued g r)) (hu : u ∈ (s.gates g).holders)
  | ahead {g r} (ht : s.tasks t = some (.queued g r)) (hu : u ∈ (s.gates g).line)
      (hbefore : (s.gates g).line.idxOf u < (s.gates g).line.idxOf t)
  | claim {key r c} (ht : s.tasks t = some (.listening key c.bell r))
      (hkey : s.claims key = some c) (hu : c.owner = u)

def Unfinished (s : Crew σ G K Q A) (t : ℕ) : Prop :=
  ∃ x, s.tasks t = some x ∧ x ≠ .running .done

def CanTurn [DecidableEq G] [DecidableEq K] (s : Crew σ G K Q A) (t : ℕ) : Prop :=
  ∃ s', Turn s t s'

/-- How far a task in line is from its permit: the rank of the gate, and its place. -/
def distance (rank : G → ℕ) (s : Crew σ G K Q A) (t : ℕ) : ℕ ×ₗ ℕ :=
  match s.tasks t with
  | some (.queued g _) => toLex (rank g + 1, (s.gates g).line.idxOf t)
  | _ => toLex (0, 0)

section Waiting

variable [DecidableEq G] {rank capacity : G → ℕ} {s : Crew σ G K Q A} {t u v : ℕ} {g : G}
  {r : Routine σ G K Q A} {x : Strand σ G K Q A}

/-- What a task in line holds is of higher rank. -/
theorem Ranked.queued_lt (h : s.Ranked rank capacity) (ht : s.tasks t = some (.queued g r))
    {g' : G} (hheld : t ∈ (s.gates g').holders) : rank g < rank g' :=
  (h.ranked ht).1 g' (List.count_pos_iff.mpr hheld)

/-- Whoever has a claim is not waiting. -/
theorem Ranked.owner_running (h : s.Ranked rank capacity) {key : K} {c : Claim}
    (hkey : s.claims key = some c) :
    ∃ r, s.tasks c.owner = some (.running r) ∧ r ≠ .done := by
  have hown : key ∈ s.owned c.owner := ⟨c, hkey, rfl⟩
  cases htask : s.tasks c.owner with
  | none => cases (h.absent htask).2 ▸ hown
  | some x =>
      have hranked := h.ranked htask
      cases x with
      | running r =>
          refine ⟨r, rfl, ?_⟩
          rintro rfl
          cases hranked.2 ▸ hown
      | queued g r => cases hranked.2.1 ▸ hown
      | listening key' bell r => cases hranked.1 ▸ hown

/-- Whoever has a permit is not done. -/
theorem Ranked.holder_unfinished (h : s.Ranked rank capacity) (hu : u ∈ (s.gates g).holders) :
    s.Unfinished u := by
  have hpos : 0 < s.held u g := List.count_pos_iff.mpr hu
  cases htask : s.tasks u with
  | none => exact absurd ((h.absent htask).1 g) hpos.ne'
  | some x =>
      refine ⟨x, htask, ?_⟩
      rintro rfl
      exact absurd ((h.ranked htask).1 g) hpos.ne'

theorem Ranked.distance_lt (h : s.Ranked rank capacity) (htu : s.Waits t u) (huv : s.Waits u v) :
    s.distance rank u < s.distance rank t := by
  cases htu with
  | @holder g r ht hu =>
      cases huv with
      | holder hu' | ahead hu' =>
          simp only [distance, ht, hu', Prod.Lex.toLex_lt_toLex]
          exact .inl (Nat.succ_lt_succ (h.queued_lt hu' hu))
      | claim hu' =>
          simp only [distance, ht, hu', Prod.Lex.toLex_lt_toLex]
          exact .inl (Nat.succ_pos _)
  | @ahead g r ht hu hbefore =>
      obtain ⟨r', hu'⟩ := h.inLine.mp hu
      simp only [distance, ht, hu', Prod.Lex.toLex_lt_toLex]
      exact .inr ⟨trivial, hbefore⟩
  | claim ht hkey hu =>
      obtain ⟨r', hrunning, _⟩ := h.owner_running hkey
      rw [hu] at hrunning
      cases huv with
      | holder hu' | ahead hu' | claim hu' => cases hrunning.symm.trans hu'

/-- Waiting never comes round in a circle. -/
theorem Ranked.not_circular (h : s.Ranked rank capacity) : ¬TransGen s.Waits t t := by
  have hlt : ∀ {u v w}, TransGen s.Waits u v → s.Waits v w →
      s.distance rank v < s.distance rank u := by
    intro u v w huv hvw
    induction huv generalizing w with
    | single huv => exact h.distance_lt huv hvw
    | tail _ hvw' ih => exact (h.distance_lt hvw' hvw).trans (ih hvw')
  intro hround
  obtain ⟨u, htu, _⟩ := TransGen.head'_iff.mp hround
  exact lt_irrefl _ (hlt hround htu)

variable [DecidableEq K]

/-- A task that runs and is not done can go on. -/
theorem Ranked.canTurn_running (h : s.Ranked rank capacity) (ht : s.tasks t = some (.running r))
    (hr : r ≠ .done) (hanswer : ∀ q, Nonempty (A q)) : s.CanTurn t := by
  cases r with
  | done => exact absurd rfl hr
  | act f next => exact ⟨_, .act ht⟩
  | ask q next => exact ⟨_, .ask ht (hanswer q).some⟩
  | acquire g next =>
      rcases Nat.eq_zero_or_pos (s.gates g).free with hfull | hfree
      · exact ⟨_, .lineUp ht hfull⟩
      · exact ⟨_, .take ht hfree⟩
  | release g next =>
      cases hline : (s.gates g).line with
      | nil => exact ⟨_, .giveBack ht hline⟩
      | cons u line =>
          obtain ⟨r, hu⟩ := h.inLine.mp (hline ▸ List.mem_cons_self : u ∈ (s.gates g).line)
          exact ⟨_, .handOver ht hline hu⟩
  | claim key next =>
      cases hkey : s.claims key with
      | none => exact ⟨_, .win ht hkey⟩
      | some c => exact ⟨_, .lose ht hkey⟩
  | resolve keys next => exact ⟨_, .resolve ht⟩
  | await key next =>
      cases hkey : s.claims key with
      | none => exact ⟨_, .pass ht hkey⟩
      | some c => exact ⟨_, .listen ht hkey⟩
  | fork moved task next => exact ⟨_, .fork ht⟩

/-- A task that listens can go on, or whoever it listens to can. -/
theorem Ranked.canTurn_listening (h : s.Ranked rank capacity) {key : K} {bell : ℕ}
    (ht : s.tasks t = some (.listening key bell r)) (hanswer : ∀ q, Nonempty (A q)) :
    ∃ u, ReflTransGen s.Waits t u ∧ s.CanTurn u := by
  by_cases hheard : ∀ c, s.claims key = some c → c.bell ≠ bell
  · exact ⟨t, .refl, _, .hear ht hheard⟩
  · push Not at hheard
    obtain ⟨c, hkey, rfl⟩ := hheard
    obtain ⟨r', hrunning, hr'⟩ := h.owner_running hkey
    exact ⟨c.owner, .single (.claim ht hkey rfl), h.canTurn_running hrunning hr' hanswer⟩

/-- Whoever is not finished can go on, or waits by way of others for one that can. The
induction is on the rank of the gate that it is in line at. -/
theorem Ranked.progress (h : s.Ranked rank capacity) (hcapacity : ∀ g, 0 < capacity g)
    (hanswer : ∀ q, Nonempty (A q)) (ht : s.Unfinished t) :
    ∃ u, ReflTransGen s.Waits t u ∧ s.CanTurn u := by
  obtain ⟨x, hx, hne⟩ := ht
  cases x with
  | running r =>
      exact ⟨t, .refl, h.canTurn_running hx (fun hr => hne (hr ▸ rfl)) hanswer⟩
  | listening key bell r => exact h.canTurn_listening hx hanswer
  | queued g r =>
      induction hrank : rank g using Nat.strong_induction_on generalizing g t r with
      | _ n ih =>
      -- somebody holds a permit of the gate
      have hfree : (s.gates g).free = 0 := by
        by_contra hfree
        cases h.full (Nat.pos_of_ne_zero hfree) ▸ h.inLine.mpr ⟨r, hx⟩
      have hall := h.permits g
      have hpos := hcapacity g
      obtain ⟨u, hu⟩ := List.exists_mem_of_length_pos (l := (s.gates g).holders) (by omega)
      obtain ⟨y, hy, hyne⟩ := h.holder_unfinished hu
      have hwaits : s.Waits t u := .holder hx hu
      cases y with
      | running r' =>
          exact ⟨u, .single hwaits, h.canTurn_running hy (fun hr => hyne (hr ▸ rfl)) hanswer⟩
      | listening key bell r' =>
          obtain ⟨v, huv, hv⟩ := h.canTurn_listening hy hanswer
          exact ⟨v, .head hwaits huv, hv⟩
      | queued g' r' =>
          obtain ⟨v, huv, hv⟩ := ih (rank g') (hrank ▸ h.queued_lt hy hu) g' r' hy hyne rfl
          exact ⟨v, .head hwaits huv, hv⟩

end Waiting

end Crew

end SynologyFilestation.Library
