import SynologyFilestation.Smb.Pool

/-!
When the pool stops opening lanes (`should_open`, `opened` and `retire_all` in
`smb/src/pool.rs`). The count of failures is one for all openers: `opened` does
not ask for which generation the attempt was, nor whether a lane was added before
it failed, and a task that is dropped never calls it.
-/

namespace SynologyFilestation.Smb

open Function Library

namespace Pool

def Holder (s : Pool) (i : ℕ) : Prop := ∃ p, s.openers i = some p ∧ p.Holds

/-- A `retire_all` has started a generation and has yet to forget the failures before it. -/
def Clearing (s : Pool) : Prop := ∃ k g, s.retires k = some (.bumped g)

/-- No task opens lanes, and none will be let. -/
def GivenUp (s : Pool) : Prop :=
  (∀ i, ¬s.Holder i) ∧ (s.opening = true ∨ backoff s.failures.1 = none)

/-- The opener was started for an earlier generation. -/
def Stale (s : Pool) (i : ℕ) : Prop :=
  ∃ g kept stage, s.openers i = some (.running g kept stage) ∧ g ≠ s.generation

/-- What the pool decides by for its generation. -/
structure SameCourse (s t : Pool) : Prop where
  live : t.live = s.live
  generation : t.generation = s.generation
  failures : t.failures = s.failures
  streak : t.streak = s.streak

end Pool

/-- The pool is given up for cause: after so many attempts for its generation that failed,
with no lane of it added in between. An opener of an earlier generation changes nothing. -/
def OnlyForCause (s : Pool) (meets : Pool → PoolEvent → Prop) : Prop :=
  (s.GivenUp → ¬s.Clearing → maxFailures ≤ s.streak) ∧
    ∀ i e t, e = .opener i ∨ e = .cancel i → meets s e → PoolStep s e t → s.Stale i →
      ¬s.Clearing → s.SameCourse t

/-- An opener whose attempt failed reports it for the pool's own generation, and has added
no lane before, or follows no failure. No task is dropped. -/
def OwnFailures (s : Pool) : PoolEvent → Prop
  | .opener i => ∀ g kept, s.openers i = some (.running g kept (.reporting true)) → ¬s.Clearing →
      g = s.generation ∧ (kept = true → s.failures.1 = 0)
  | .cancel _ => False
  | _ => True

theorem backoff_eq_none {n : ℕ} : backoff n = none ↔ maxFailures ≤ n := by
  rcases Nat.eq_zero_or_pos n with rfl | hpos
  · decide
  · simp [backoff, Nat.ne_of_gt hpos]

/-- What is known of the count, once every `retire_all` has cleared it. -/
structure Reckoning (s : Pool) : Prop where
  /-- It is more than the attempts that failed only while an opener has a lane to report. -/
  count : s.failures.1 ≤ s.streak ∨ ∃ i g stage, s.openers i = some (.running g true stage)
  failed {i g} : s.openers i = some (.running g false (.reporting true)) → g = s.generation →
    s.failures.1 < s.streak
  stale {i} : s.Stale i → s.failures = (0, none)

structure Tallied (s : Pool) : Prop where
  one : OneOpener s
  held : s.opening = true → ∃ i, s.Holder i
  begun {i g kept stage} : s.openers i = some (.running g kept stage) → g ≤ s.generation
  failed {i g kept} : s.openers i = some (.running g kept (.reporting true)) → g = s.generation →
    0 < s.streak
  reckoning : ¬s.Clearing → Reckoning s

section Steps

variable {s t : Pool} {e : PoolEvent} {i j k : ℕ} {p : OpenerPhase} {g : ℕ} {kept : Bool}
  {stage : OpenerStage}

/-- Of the tasks that hold the right to open there is one. -/
theorem Tallied.eq (h : Tallied s) {q : OpenerPhase} (hi : s.openers i = some p)
    (hj : s.openers j = some q) (hp : p.Holds) (hq : q.Holds) : j = i :=
  h.one.one hj hi hq hp

theorem Pool.Clearing.setRetire {q : Option RetirePhase} (h : s.Clearing)
    (hk : ∀ g, s.retires k ≠ some (.bumped g)) : (s.setRetire k q).Clearing := by
  obtain ⟨j, g, hj⟩ := h
  have hne : j ≠ k := by
    rintro rfl
    exact hk g hj
  exact ⟨j, g, (update_of_ne hne ..).trans hj⟩

/-- A step that the count does not show in. -/
theorem Tallied.congr (h : Tallied s) (hopeners : t.openers = s.openers)
    (hopening : t.opening = s.opening) (hgeneration : t.generation = s.generation)
    (hfailures : t.failures = s.failures) (hstreak : t.streak = s.streak)
    (hclearing : s.Clearing → t.Clearing) : Tallied t where
  one := h.one.congr hopeners hopening
  held := by
    unfold Pool.Holder
    rw [hopeners, hopening]
    exact h.held
  begun := by
    rw [hopeners, hgeneration]
    exact h.begun
  failed := by
    rw [hopeners, hgeneration, hstreak]
    exact h.failed
  reckoning hnot := by
    have ⟨hcount, hfailed, hstale⟩ := h.reckoning fun hs => hnot (hclearing hs)
    constructor
    · rw [hopeners, hfailures, hstreak]
      exact hcount
    · rw [hopeners, hgeneration, hfailures, hstreak]
      exact hfailed
    · unfold Pool.Stale
      rw [hopeners, hgeneration, hfailures]
      exact hstale

theorem counted_start (wanted : ℕ) (opener : Bool) : Tallied (.start wanted opener) :=
  ⟨oneOpener_start .., nofun, nofun, nofun, fun _ => ⟨.inl (Nat.le_refl _), nofun, nofun⟩⟩

/-- A task goes on, and does not report a failure next. -/
theorem Tallied.setOpener (h : Tallied s) {q : Option OpenerPhase}
    (hone : OneOpener (s.setOpener i q)) (hheld : s.Holder i → ∃ p, q = some p ∧ p.Holds)
    (hrun : ∀ g kept stage, q = some (.running g kept stage) →
      stage ≠ .reporting true ∧ g ≤ s.generation ∧ (g ≠ s.generation → s.Stale i))
    (hkept : ∀ g stage, s.openers i = some (.running g true stage) →
      ∃ stage', q = some (.running g true stage')) : Tallied (s.setOpener i q) := by
  -- what runs is the task, at another stage, or one that ran before
  have hcases {j g kept stage} (hj : (s.setOpener i q).openers j = some (.running g kept stage)) :
      j = i ∧ q = some (.running g kept stage) ∨ s.openers j = some (.running g kept stage) := by
    change update s.openers i q j = _ at hj
    rcases eq_or_ne j i with rfl | hne
    · rw [update_self] at hj
      exact .inl ⟨rfl, hj⟩
    · rw [update_of_ne hne] at hj
      exact .inr hj
  constructor
  case one => exact hone
  case held =>
    intro hopening
    obtain ⟨j, p, hj, hholds⟩ := h.held hopening
    rcases eq_or_ne j i with rfl | hne
    · obtain ⟨p', hq, hholds'⟩ := hheld ⟨p, hj, hholds⟩
      exact ⟨j, p', (update_self ..).trans hq, hholds'⟩
    · exact ⟨j, p, (update_of_ne hne ..).trans hj, hholds⟩
  case begun =>
    intro j g kept stage hj
    rcases hcases hj with ⟨_, hq⟩ | hj
    · exact (hrun g kept stage hq).2.1
    · exact h.begun hj
  case failed =>
    intro j g kept hj hg
    rcases hcases hj with ⟨_, hq⟩ | hj
    · exact ((hrun g kept _ hq).1 rfl).elim
    · exact h.failed hj hg
  case reckoning =>
    intro hnot
    have ⟨hcount, hfailed, hstale⟩ := h.reckoning hnot
    constructor
    · rcases hcount with hle | ⟨j, g, stage, hj⟩
      · exact .inl hle
      · rcases eq_or_ne j i with rfl | hne
        · obtain ⟨stage', hq⟩ := hkept g stage hj
          exact .inr ⟨j, g, stage', (update_self ..).trans hq⟩
        · exact .inr ⟨j, g, stage, (update_of_ne hne ..).trans hj⟩
    · intro j g hj hg
      rcases hcases hj with ⟨_, hq⟩ | hj
      · exact ((hrun g false _ hq).1 rfl).elim
      · exact hfailed hj hg
    · rintro j ⟨g, kept, stage, hj, hne⟩
      rcases hcases hj with ⟨_, hq⟩ | hj
      · exact hstale ((hrun g kept stage hq).2.2 hne)
      · exact hstale ⟨g, kept, stage, hj, hne⟩

/-- A task that does not hold the right to open, before and after. -/
theorem Tallied.outside (h : Tallied s) {q : Option OpenerPhase}
    (hi : ∀ p, s.openers i = some p → ¬p.Holds) (hq : ∀ p, q = some p → ¬p.Holds) :
    Tallied (s.setOpener i q) := by
  refine h.setOpener ?_ ?_ ?_ ?_
  · cases q with
    | none => exact h.one.leave
    | some p => exact h.one.enter (hq p rfl)
  · rintro ⟨p, hp, hholds⟩
    exact (hi p hp hholds).elim
  · exact fun g kept stage hrunning => (hq _ hrunning trivial).elim
  · exact fun g stage hrunning => (hi _ hrunning trivial).elim

/-- An opener at the next stage of its loop. -/
theorem Tallied.run (h : Tallied s) {stage' : OpenerStage}
    (hi : s.openers i = some (.running g kept stage)) (hstage : stage' ≠ .reporting true) :
    Tallied (s.setOpener i (some (.running g kept stage'))) := by
  refine h.setOpener (h.one.move hi id) (fun _ => ⟨_, rfl, trivial⟩) ?_ ?_
  · rintro _ _ _ ⟨⟩
    exact ⟨hstage, h.begun hi, fun hne => ⟨g, kept, stage, hi, hne⟩⟩
  · intro g' stage'' hi'
    obtain ⟨rfl, rfl, rfl⟩ := OpenerPhase.running.inj (Option.some.inj (hi.symm.trans hi'))
    exact ⟨stage', rfl⟩

theorem Tallied.begin (h : Tallied s) (hi : s.openers i = some .claimed) :
    Tallied (s.setOpener i (some (.running s.generation false .loops))) := by
  refine h.setOpener (h.one.move hi fun _ => trivial) (fun _ => ⟨_, rfl, trivial⟩) ?_ ?_
  · rintro _ _ _ ⟨⟩
    exact ⟨nofun, Nat.le_refl _, fun hne => (hne rfl).elim⟩
  · intro g' stage' hi'
    cases hi.symm.trans hi'

theorem Tallied.claim (h : Tallied s) (hi : s.openers i = some .waited)
    (hopening : s.opening = false) :
    Tallied ({ s with opening := true }.setOpener i (some .claimed)) := by
  have hcases {j g kept stage}
      (hj : update s.openers i (some .claimed) j = some (.running g kept stage)) :
      s.openers j = some (.running g kept stage) := by
    rcases update_eq_some hj with ⟨_, hnone⟩ | ⟨_, hj⟩
    · cases hnone
    · exact hj
  constructor
  case one => exact h.one.claim hopening
  case held => exact fun _ => ⟨i, .claimed, update_self .., trivial⟩
  case begun => exact fun hj => h.begun (hcases hj)
  case failed => exact fun hj => h.failed (hcases hj)
  case reckoning =>
    intro hnot
    have ⟨hcount, hfailed, hstale⟩ := h.reckoning hnot
    refine ⟨?_, fun hj => hfailed (hcases hj), ?_⟩
    · rcases hcount with hle | ⟨j, g, stage, hj⟩
      · exact .inl hle
      · have hne : j ≠ i := by
          rintro rfl
          cases hi.symm.trans hj
        exact .inr ⟨j, g, stage, (update_of_ne hne ..).trans hj⟩
    · rintro j ⟨g, kept, stage, hj, hne⟩
      exact hstale ⟨g, kept, stage, hcases hj, hne⟩

/-- The attempt failed: it counts, where it was for the pool's generation. -/
theorem Tallied.fail (h : Tallied s) (hi : s.openers i = some (.running g kept .dialing)) :
    Tallied ({ s with streak := if g = s.generation then s.streak + 1 else s.streak }.setOpener i
      (some (.running g kept (.reporting true)))) := by
  have hle : s.streak ≤ if g = s.generation then s.streak + 1 else s.streak := by
    split <;> omega
  constructor
  case one =>
    refine OneOpener.move (s := { s with streak := _ }) ?_ hi fun _ => trivial
    exact h.one.congr rfl rfl
  case held => exact fun _ => ⟨i, _, update_self .., trivial⟩
  case begun =>
    intro j g' kept' stage' hj
    rcases update_eq_some hj with ⟨_, hrunning⟩ | ⟨_, hj⟩
    · cases hrunning
      exact h.begun hi
    · exact h.begun hj
  case failed =>
    intro j g' kept' hj hg
    show 0 < ite ..
    rcases update_eq_some hj with ⟨_, hrunning⟩ | ⟨_, hj⟩
    · cases hrunning
      have hgen : g = s.generation := hg
      rw [if_pos hgen]
      exact Nat.succ_pos _
    · exact Nat.lt_of_lt_of_le (h.failed hj hg) hle
  case reckoning =>
    intro hnot
    have ⟨hcount, hfailed, hstale⟩ := h.reckoning hnot
    constructor
    · rcases hcount with hcount | ⟨j, g', stage', hj⟩
      · exact .inl (Nat.le_trans hcount hle)
      · obtain rfl := h.eq hi hj trivial trivial
        obtain ⟨rfl, rfl, rfl⟩ := OpenerPhase.running.inj (Option.some.inj (hi.symm.trans hj))
        exact .inr ⟨j, g, _, update_self ..⟩
    · intro j g' hj hg
      show s.failures.1 < ite ..
      rcases update_eq_some hj with ⟨_, hrunning⟩ | ⟨_, hj⟩
      · cases hrunning
        have hgen : g = s.generation := hg
        rw [if_pos hgen]
        -- it has added no lane, and no other opener has one to report
        rcases hcount with hcount | ⟨j', g', stage', hj'⟩
        · exact Nat.lt_succ_of_le hcount
        · obtain rfl := h.eq hi hj' trivial trivial
          cases hi.symm.trans hj'
      · exact Nat.lt_of_lt_of_le (hfailed hj hg) hle
    · rintro j ⟨g', kept', stage', hj, hne⟩
      rcases update_eq_some hj with ⟨_, hrunning⟩ | ⟨_, hj⟩
      · cases hrunning
        exact hstale ⟨g, kept, .dialing, hi, hne⟩
      · exact hstale ⟨g', kept', stage', hj, hne⟩

theorem Tallied.keep (h : Tallied s) (hi : s.openers i = some (.running g kept .connected))
    (hg : s.generation = g) :
    Tallied ((s.add g).setOpener i (some (.running g true .loops))) := by
  -- who runs is this opener
  have hcases {j g' kept' stage'}
      (hj : update s.openers i (some (.running g true .loops)) j =
        some (.running g' kept' stage')) :
      j = i ∧ g' = g ∧ kept' = true ∧ stage' = .loops := by
    rcases update_eq_some hj with ⟨rfl, hrunning⟩ | ⟨hne, hj⟩
    · cases hrunning
      exact ⟨rfl, rfl, rfl, rfl⟩
    · exact (hne (h.eq hi hj trivial trivial)).elim
  constructor
  case one =>
    refine OneOpener.move (s := s.add g) ?_ hi fun _ => trivial
    exact h.one.congr rfl rfl
  case held => exact fun _ => ⟨i, _, update_self .., trivial⟩
  case begun =>
    intro j g' kept' stage' hj
    obtain ⟨_, rfl, _⟩ := hcases hj
    exact h.begun hi
  case failed =>
    intro j g' kept' hj
    cases (hcases hj).2.2.2
  case reckoning =>
    refine fun _ => ⟨.inr ⟨i, g, .loops, update_self ..⟩, fun hj => ?_, ?_⟩
    · cases (hcases hj).2.2.1
    · rintro j ⟨g', kept', stage', hj, hne⟩
      obtain ⟨_, rfl, _⟩ := hcases hj
      exact (hne hg.symm).elim

/-- No opener runs but the one that has reported. -/
theorem Tallied.not_running (h : Tallied s) (hi : s.openers i = some p) (hp : p.Holds)
    {q : Option OpenerPhase} (hq : ∀ g kept stage, q ≠ some (.running g kept stage)) :
    update s.openers i q j ≠ some (.running g kept stage) := by
  intro hj
  rcases eq_or_ne j i with rfl | hne
  · rw [update_self] at hj
    exact hq _ _ _ hj
  · rw [update_of_ne hne] at hj
    exact hne (h.eq hi hj hp trivial)

theorem Tallied.report (h : Tallied s) {failed : Bool} {now : ℕ}
    (hi : s.openers i = some (.running g kept (.reporting failed)))
    (hown : failed = true → ¬s.Clearing → g = s.generation ∧ (kept = true → s.failures.1 = 0)) :
    Tallied ({ s with failures := s.counted failed now }.setOpener i (some .releasing)) := by
  have hnot {j g kept stage} :
      update s.openers i (some .releasing) j ≠ some (.running g kept stage) :=
    h.not_running hi trivial nofun
  constructor
  case one =>
    refine OneOpener.move (s := { s with failures := _ }) ?_ hi fun _ => trivial
    exact h.one.congr rfl rfl
  case held => exact fun _ => ⟨i, _, update_self .., trivial⟩
  case begun => exact fun hj => (hnot hj).elim
  case failed => exact fun hj => (hnot hj).elim
  case reckoning =>
    intro hclear
    refine ⟨.inl ?_, fun hj => (hnot hj).elim, fun ⟨_, _, _, hj, _⟩ => (hnot hj).elim⟩
    show (s.counted failed now).1 ≤ s.streak
    cases failed with
    | false => exact Nat.zero_le _
    | true =>
        obtain ⟨hg, hkept⟩ := hown rfl hclear
        have hone := h.failed hi hg
        have hlt : s.failures.1 < s.streak := by
          cases kept with
          | true => rwa [hkept rfl]
          | false => exact (h.reckoning hclear).failed hi hg
        simp only [Pool.counted, if_pos]
        omega

theorem Tallied.release (h : Tallied s) (hi : s.openers i = some .releasing) :
    Tallied ({ s with opening := false }.setOpener i none) := by
  have hnot {j g kept stage} : update s.openers i none j ≠ some (.running g kept stage) :=
    h.not_running hi trivial nofun
  refine ⟨h.one.release hi trivial, nofun, fun hj => (hnot hj).elim, fun hj => (hnot hj).elim, ?_⟩
  intro hclear
  refine ⟨.inl ?_, fun hj => (hnot hj).elim, fun ⟨_, _, _, hj, _⟩ => (hnot hj).elim⟩
  rcases (h.reckoning hclear).count with hle | ⟨j, g, stage, hj⟩
  · exact hle
  · obtain rfl := h.eq hi hj trivial trivial
    cases hi.symm.trans hj

/-- No opener was started for the generation that starts. -/
theorem Tallied.bump (h : Tallied s) :
    Tallied ({ s with generation := s.generation + 1, streak := 0 }.setRetire k
      (some (.bumped (s.generation + 1)))) where
  one := h.one.congr rfl rfl
  held := h.held
  begun hj := Nat.le_succ_of_le (h.begun hj)
  failed hj hg := by
    have hle := h.begun hj
    have : _ = s.generation + 1 := hg
    omega
  reckoning hnot := (hnot ⟨k, _, update_self ..⟩).elim

theorem Tallied.clear (h : Tallied s) {q : Option RetirePhase} :
    Tallied ({ s with failures := (0, none) }.setRetire k q) where
  one := h.one.congr rfl rfl
  held := h.held
  begun := h.begun
  failed := h.failed
  reckoning _ := ⟨.inl (Nat.zero_le _), fun hj => h.failed hj, fun _ => rfl⟩

theorem Tallied.step (h : Tallied s) (hmeets : OwnFailures s e) (hstep : PoolStep s e t) :
    Tallied t := by
  cases hstep with
  | count hnew => exact h.outside (by rw [hnew]; exact nofun) (by rintro _ ⟨⟩; exact id)
  | wait hi =>
      exact h.outside (by rw [hi]; rintro _ ⟨⟩; exact id) (by rintro _ ⟨⟩; exact id)
  | putOff hi | late hi => exact h.outside (by rw [hi]; rintro _ ⟨⟩; exact id) nofun
  | claim hi hopening => exact h.claim hi hopening
  | begin hi => exact h.begin hi
  | current hi | dial hi | stop hi | connected hi | refuse hi => exact h.run hi nofun
  | failed hi => exact h.fail hi
  | keep hi hg => exact h.keep hi hg
  | @report i g kept failed now hi =>
      refine h.report hi ?_
      rintro rfl
      exact hmeets g kept hi
  | release hi => exact h.release hi
  | cancel => exact hmeets.elim
  | bump => exact h.bump
  | clear => exact h.clear
  | retire hnew =>
      refine h.congr rfl rfl rfl rfl rfl fun hs => ?_
      exact Pool.Clearing.setRetire hs (by rw [hnew]; exact nofun)
  | take hk | drain hk | returns hk =>
      refine h.congr rfl rfl rfl rfl rfl fun hs => ?_
      exact Pool.Clearing.setRetire hs (by rw [hk]; exact nofun)
  | drained | walk | collect => exact h.congr rfl rfl rfl rfl rfl id

/-- An opener started for an earlier generation leaves the pool's course as it is: what it
reports, it reports to a count that nobody has added to. -/
theorem Tallied.same (h : Tallied s) (hmeets : OwnFailures s e) (hstep : PoolStep s e t)
    (he : e = .opener i ∨ e = .cancel i) (hstale : s.Stale i) (hclear : ¬s.Clearing) :
    s.SameCourse t := by
  obtain ⟨g, kept, stage, hi, hne⟩ := hstale
  have hzero := (h.reckoning hclear).stale ⟨g, kept, stage, hi, hne⟩
  have hphase {p : OpenerPhase} {j : ℕ} (hj : s.openers j = some p)
      (hej : PoolEvent.opener j = .opener i ∨ PoolEvent.opener j = .cancel i) :
      p = .running g kept stage := by
    have hji : j = i := by simpa using hej
    exact Option.some.inj (hj.symm.trans (hji ▸ hi))
  cases hstep with
  | count | wait | putOff | claim | late | begin | current | dial | stop | connected | refuse
    | release => exact ⟨rfl, rfl, rfl, rfl⟩
  | cancel => exact ⟨rfl, rfl, rfl, rfl⟩
  | failed hj =>
      cases hphase hj he
      exact ⟨rfl, rfl, rfl, if_neg hne⟩
  | keep hj hg =>
      cases hphase hj he
      exact (hne hg.symm).elim
  | @report j g' kept' failed now hj =>
      have hrunning := hphase hj he
      cases hrunning
      refine ⟨rfl, rfl, ?_, rfl⟩
      cases failed with
      | false => exact hzero.symm
      | true => exact (hne (hmeets _ _ hj hclear).1).elim
  | _ => simp at he

/-- **The pool gives up only for cause**, as long as each failure that is reported is one of
the pool's generation, with no lane added since the last, and no opener is dropped. -/
theorem gives_up_for_cause (wanted : ℕ) (opener : Bool)
    (h : Reaches PoolStep OwnFailures (.start wanted opener) s) : OnlyForCause s OwnFailures := by
  have hcounted : Tallied s :=
    h.invariant (counted_start ..) fun hs hmeets hstep => hs.step hmeets hstep
  refine ⟨fun ⟨hnone, hgiven⟩ hclear => ?_, fun i e t he hmeets hstep => ?_⟩
  · have hmany : maxFailures ≤ s.failures.1 := by
      rcases hgiven with hopening | hbackoff
      · obtain ⟨i, hi⟩ := hcounted.held hopening
        exact (hnone i hi).elim
      · exact backoff_eq_none.mp hbackoff
    rcases (hcounted.reckoning hclear).count with hle | ⟨i, g, stage, hi⟩
    · exact Nat.le_trans hmany hle
    · exact (hnone i ⟨_, hi, trivial⟩).elim
  · exact hcounted.same hmeets hstep he

end Steps

/-- A lane is added, the next attempt fails and is reported: one failure counts. -/
theorem own_failure_counts :
    ∃ s, OnlyForCause s OwnFailures ∧ s.failures = (1, some 9) ∧ s.streak = 1 := by
  have h := reaches_dialingAnother OwnFailures fun s hnot g kept hi _ =>
    (hnot g kept hi).elim
  have h := h.next (by exact nofun) (PoolStep.failed (i := 0) rfl)
  have h := h.next (e := .opener 0) ?_ (@PoolStep.report _ 0 _ _ _ 9 rfl)
  · exact ⟨_, gives_up_for_cause 2 true h, rfl, rfl⟩
  · rintro g kept ⟨⟩ _
    exact ⟨rfl, fun _ => rfl⟩

/-- An attempt for the session before fails when `retire_all` has forgotten the failures: the
count of the new session, of which no attempt was made, begins with it. -/
theorem late_failure_counts :
    ∃ s, Reaches PoolStep unrestricted (.start 2 true) s ∧ ¬OnlyForCause s unrestricted := by
  have h := reaches_dialingAnother unrestricted fun _ _ => trivial
  have h := h.next trivial (PoolStep.bump (k := 0) rfl)
  have h := h.next trivial (PoolStep.clear (k := 0) rfl)
  have h := h.next trivial (PoolStep.failed (i := 0) rfl)
  refine ⟨_, h, fun hcause => ?_⟩
  have hsame := hcause.2 0 _ _ (.inl rfl) trivial (@PoolStep.report _ 0 _ _ _ 9 rfl)
    ⟨0, true, _, rfl, nofun⟩ ?_
  · cases hsame.failures
  · rintro ⟨k, g, hk⟩
    rcases update_eq_some hk with ⟨_, hcleared⟩ | ⟨hne, hk⟩
    · cases hcleared
    · rcases update_eq_some hk with ⟨heq, _⟩ | ⟨_, hk⟩
      · exact hne heq
      · cases hk

end SynologyFilestation.Smb
