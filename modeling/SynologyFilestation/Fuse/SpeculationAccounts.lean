import SynologyFilestation.Fuse.SpeculativeClaims

/-!
Read-ahead accounts for every block.

While a file is not invalidated, a claim of it that is given back is the one that was made
(`Owned`): nobody else's is taken away. With `Sound` that makes each claim of a run given back
once, by the time the run is through.
-/

namespace SynologyFilestation.Fuse

open Function Library

/-- The runs that a call has cut. -/
structure SpawnCall.CutIntoRuns (c : SpawnCall) : Prop where
  wellCut : ∀ run ∈ c.runs, WellCut run
  /-- They are all that it claimed. -/
  exactly : c.stage = .returned → c.runs.flatten = c.claimed
  /-- No claim is in two of them, or twice in one. -/
  apart : (c.runs.flatten.map (·.slot)).Nodup
  /-- Nor is a block, unless it was asked for twice. -/
  blocks_apart : c.asked.Nodup → (c.runs.flatten.map (·.block)).Nodup

theorem SpawnCall.Fits.cutIntoRuns {s : Speculation} {c : SpawnCall} (h : c.Fits s) :
    c.CutIntoRuns := by
  have hsublist : c.runs.flatten.Sublist c.claimed := by
    rw [← h.cut, List.append_assoc]
    exact List.sublist_append_left ..
  refine ⟨h.runs, fun hreturned => ?_, ?_, fun hasked => ?_⟩
  · rw [← h.cut, h.returned hreturned, hreturned]
    simp [CallStage.guards]
  · exact (h.slots.imp fun hlt => Nat.ne_of_lt hlt).sublist (hsublist.map _)
  · refine hasked.sublist ((hsublist.map _).trans ?_)
    exact (List.sublist_append_left ..).trans (List.append_assoc .. ▸ h.asked)

namespace Speculation

variable {s t : Speculation} {n ino : ℕ} {c : SpawnCall} {f : Fetch} {g : InflightGuard}
  {events : List SpecEvent} {run : List InflightGuard}

/-! ### Whose claim is given back -/

/-- A claim of the file that somebody has in hand is the one that there is, and one that was given
back was. -/
structure Owned (ino : ℕ) (s : Speculation) : Prop where
  holds : ∀ g ∈ s.guards, g.ino = ino → s.cache.inFlight g.key = some g.slot
  logged : ∀ r ∈ s.log, r.guard.ino = ino → r.taken = some r.guard.slot

theorem Handled.owned (h : Handled s t s.guards t.guards) (hs : s.Sound)
    (howned : s.Owned ino) : t.Owned ino := by
  cases h with
  | pass hguards hlog hclaims _ =>
      refine ⟨fun g hg hino => ?_, hlog ▸ howned.logged⟩
      rw [hclaims]
      exact howned.holds g (hguards.mem_iff.mp hg) hino
  | claim new _ hfree hguards hlog hclaims _ =>
      refine ⟨fun g hg hino => ?_, hlog ▸ howned.logged⟩
      rw [hclaims]
      rcases List.mem_cons.mp (hguards.mem_iff.mp hg) with rfl | hg
      · exact update_self ..
      · have hheld := howned.holds g hg hino
        have hne : g.key ≠ new.key := fun heq => by
          rw [heq, hfree] at hheld
          cases hheld
        rwa [update_of_ne hne]
  | resolve back outcome hguards hlog hclaims _ =>
      refine ⟨fun g hg hino => ?_, fun r hr hino => ?_⟩
      · have hheld := howned.holds g (hguards.mem_iff.mpr (List.mem_cons_of_mem _ hg)) hino
        have hne : g.key ≠ back.key := fun heq => by
          have hback := howned.holds back (hguards.mem_iff.mpr (List.mem_cons_self ..))
            ((congrArg Prod.fst heq).symm.trans hino)
          rw [← heq, hheld] at hback
          have hnodup := (hs.custody.pass (hguards.map (·.slot)).symm).nodup
          rw [List.map_cons, List.cons_append] at hnodup
          exact (List.nodup_cons.mp hnodup).1 (List.mem_append_left _
            (Option.some.inj hback ▸ List.mem_map_of_mem hg))
        rw [hclaims, update_of_ne hne]
        exact hheld
      · rw [hlog] at hr
        rcases List.mem_cons.mp hr with rfl | hr
        · exact howned.holds back (hguards.mem_iff.mpr (List.mem_cons_self ..)) hino
        · exact howned.logged r hr hino

theorem Owned.after (h : s.Owned ino) (hs : s.Sound) {e : SpecEvent}
    (hspares : e.Spares ino) : (s.after e).Owned ino := by
  by_cases he : ∀ key, e ≠ .revoke key
  · exact (hs.goes_after he).handled.owned hs h
  · obtain ⟨key, hkey⟩ := not_forall.mp he
    obtain rfl := not_not.mp hkey
    obtain ⟨resolved, hafter⟩ := s.after_revoke key
    rw [hafter]
    refine ⟨fun g hg hino => ?_, h.logged⟩
    have hne : g.key ≠ key := fun heq => hspares (heq ▸ hino)
    exact (update_of_ne hne ..).trans (h.holds g hg hino)

/-! ### The budget -/

/-- What the step may claim of the budget up to. -/
def limitOf (s : Speculation) : SpecEvent → ℕ
  | .turn n => (s.calls[n]?).elim 0 fun c => budgetLimit c.connections
  | _ => 0

theorem inFlight_spawnRun_le (run : List InflightGuard) :
    (s.spawnRun n c run).inFlight ≤ max s.inFlight (budgetLimit c.connections) := by
  unfold spawnRun
  split
  · exact Nat.le_max_left ..
  · dsimp only
    cases htry : s.tryClaim run.length (budgetLimit c.connections) with
    | none => exact Nat.le_max_left ..
    | some s' =>
        obtain ⟨hle, rfl⟩ := tryClaim_eq_some htry
        exact Nat.le_trans hle (Nat.le_max_right ..)

theorem inFlight_turn_le :
    (s.turn n c).inFlight ≤ max s.inFlight (budgetLimit c.connections) := by
  unfold turn
  split
  case h_1 op ops _ =>
    refine Nat.le_trans ?_ (Nat.le_max_left ..)
    change (s.perform op).1.inFlight ≤ s.inFlight
    rw [inFlight_perform]
    exact Nat.sub_le ..
  case h_2 =>
    split
    case h_1 =>
      split
      · exact inFlight_spawnRun_le ..
      · exact Nat.le_max_left ..
    case h_2 =>
      rw [claimInflight_eq]
      split_ifs <;> exact Nat.le_max_left ..
    case h_3 =>
      split
      · exact inFlight_spawnRun_le ..
      · exact Nat.le_max_left ..
    case h_4 => exact Nat.le_max_left ..

/-- Nothing is granted beyond the limit that was named. -/
theorem inFlight_after_le (s : Speculation) (e : SpecEvent) :
    (s.after e).inFlight ≤ max s.inFlight (s.limitOf e) := by
  cases e with
  | turn n =>
      rw [Speculation.after, limitOf]
      cases s.calls[n]? with
      | none => exact Nat.le_max_left ..
      | some c => exact inFlight_turn_le
  | work n =>
      rw [Speculation.after]
      split
      case h_1 ino claims share op ops _ =>
        refine Nat.le_trans ?_ (Nat.le_max_left ..)
        change (s.perform op).1.inFlight ≤ s.inFlight
        rw [inFlight_perform]
        exact Nat.sub_le ..
      case h_2 => exact Nat.le_max_left ..
  | revoke key =>
      obtain ⟨resolved, hafter⟩ := s.after_revoke key
      rw [hafter]
      exact Nat.le_max_left ..
  | prefetch | evict | unlist => exact Nat.le_max_left ..
  | read ino b =>
      rw [Speculation.after, claimInflight_eq]
      split_ifs <;> exact Nat.le_max_left ..
  | poll | answer | fail | abort =>
      rw [Speculation.after]
      split <;> exact Nat.le_max_left ..

/-! ### Runs -/

/-- A run is through: its download is, or it was dropped for want of budget and so were its
guards. -/
def RunEnded (s : Speculation) (c : SpawnCall) (run : List InflightGuard) : Prop :=
  (∃ f ∈ s.fetches, f.claims = run ∧ f.Ended) ∨
    (∀ f ∈ s.fetches, f.claims ≠ run) ∧ c.ops = []

/-- The claim was given back once, and it was its own. If it was said to be published, the block
was inserted. -/
def GivenBack (s : Speculation) (g : InflightGuard) : Prop :=
  (s.log.map (·.guard)).count g = 1 ∧
    ∀ r ∈ s.log, r.guard = g → r.taken = some g.slot ∧ (r.outcome = .published → g ∈ s.inserted)

theorem Sound.logged_of_ended (h : s.Sound) (hc : c ∈ s.calls) (hrun : run ∈ c.runs)
    (hended : s.RunEnded c run) (hg : g ∈ run) : s.Logged g := by
  rcases hended with ⟨f, hf, rfl, hstage⟩ | ⟨hnone, hops⟩
  · refine ((h.fetches f hf).kept g hg).resolve_left ?_
    rw [Fetch.guards, hstage]
    rintro ⟨⟩
  · rcases (h.calls c hc).kept run hrun with ⟨f, hf, rfl⟩ | hdropped
    · exact absurd rfl (hnone f hf)
    · refine (hdropped g hg).resolve_left ?_
      rw [hops]
      rintro ⟨⟩

theorem Sound.givenBack (h : s.Sound) (howned : s.Owned ino) (hino : g.ino = ino)
    (hlogged : s.Logged g) : s.GivenBack g := by
  refine ⟨?_, fun r hr hguard => ⟨?_, ?_⟩⟩
  · have hnodup : (s.log.map (·.guard)).Nodup := by
      refine List.Nodup.of_map (·.slot) ?_
      rw [List.map_map]
      exact (List.nodup_append.mp h.custody.nodup).2.1
    obtain ⟨r, hr, rfl⟩ := hlogged
    exact List.count_eq_one_of_mem hnodup (List.mem_map_of_mem hr)
  · rw [← hguard]
    exact howned.logged r hr (hguard ▸ hino)
  · exact fun hpublished => hguard ▸ h.log r hr hpublished

theorem sound_events (blockSize : ℕ) (events : List SpecEvent) :
    (events.foldl Speculation.after (initial blockSize)).Sound := by
  have hrun : Reaches _ unrestricted _ (events.foldl Speculation.after (initial blockSize)) :=
    Reaches.start.events (everyStep_unrestricted Speculation.after _ events)
  refine hrun.invariant (sound_initial blockSize) ?_
  rintro s e t hs - rfl
  exact hs.after e

theorem owned_events {blockSize : ℕ}
    (h : EveryStep Speculation.after (fun _ (e : SpecEvent) => e.Spares ino) (initial blockSize)
      events) :
    (events.foldl Speculation.after (initial blockSize)).Owned ino := by
  have hrun : Reaches _ (fun _ (e : SpecEvent) => e.Spares ino) _
      (events.foldl Speculation.after (initial blockSize)) := Reaches.start.events h
  refine (hrun.invariant (P := fun s => s.Sound ∧ s.Owned ino)
    ⟨sound_initial blockSize, nofun, nofun⟩ ?_).2
  rintro s e t ⟨hs, howned⟩ hspares rfl
  exact ⟨hs.after e, howned.after hs hspares⟩

/-- Read-ahead of a file that is not invalidated meanwhile, whatever else goes on. -/
theorem accounts_for_every_block (blockSize ino : ℕ) (events : List SpecEvent)
    (h : EveryStep Speculation.after (fun _ (e : SpecEvent) => e.Spares ino) (initial blockSize)
      events) :
    let s := events.foldl Speculation.after (initial blockSize)
    (∀ c ∈ s.calls, c.CutIntoRuns) ∧
      (∀ c ∈ s.calls, c.ino = ino → ∀ run ∈ c.runs, s.RunEnded c run → ∀ g ∈ run, s.GivenBack g) ∧
      (∀ e, (s.after e).inFlight ≤ max s.inFlight (s.limitOf e)) ∧
      ((∀ f ∈ s.fetches, f.Ended) → s.inFlight = 0) := by
  intro s
  have hs : s.Sound := sound_events blockSize events
  have howned : s.Owned ino := owned_events h
  refine ⟨fun c hc => (hs.calls c hc).cutIntoRuns, ?_, s.inFlight_after_le, fun hended => ?_⟩
  · intro c hc hino run hrun hended g hg
    have hclaimed : g ∈ c.claimed := by
      rw [← (hs.calls c hc).cut, List.append_assoc]
      exact List.mem_append_left _ (List.mem_flatten.mpr ⟨run, hrun, hg⟩)
    exact hs.givenBack howned (((hs.calls c hc).ino g hclaimed).trans hino)
      (hs.logged_of_ended hc hrun hended hg)
  · rw [hs.budget]
    refine List.sum_eq_zero fun owed howed => ?_
    obtain ⟨f, hf, rfl⟩ := List.mem_map.mp howed
    rw [Fetch.owed, hended f hf]
    rfl

/-- Two blocks and a response that is shorter than they are. -/
def shortResponse : List SpecEvent :=
  [.prefetch 1 [3, 4] 1] ++ List.replicate 7 (.turn 0) ++ [.poll 0, .answer 0 [7, 7, 7]] ++
    List.replicate 9 (.work 0)

theorem shortResponse_accounted :
    let s := shortResponse.foldl Speculation.after (initial 2)
    s.GivenBack ⟨1, 3, 0⟩ ∧ s.GivenBack ⟨1, 4, 1⟩ ∧ s.inFlight = 0 := by
  intro s
  obtain ⟨-, hback, -, hzero⟩ :=
    accounts_for_every_block 2 1 shortResponse (by decide)
  have hcalls : s.calls = [⟨1, 1, [3, 4], [], .returned, [], [], [⟨1, 3, 0⟩, ⟨1, 4, 1⟩],
      [[⟨1, 3, 0⟩, ⟨1, 4, 1⟩]]⟩] := rfl
  have hfetches : s.fetches = [⟨1, [⟨1, 3, 0⟩, ⟨1, 4, 1⟩], 2, .finishing []⟩] := rfl
  have hended : ∀ f ∈ s.fetches, f.Ended := by
    rw [hfetches]
    exact List.forall_mem_singleton.mpr rfl
  have hmem : (⟨1, [⟨1, 3, 0⟩, ⟨1, 4, 1⟩], 2, .finishing []⟩ : Fetch) ∈ s.fetches :=
    hfetches ▸ List.mem_singleton_self _
  have hrun := hback _ (hcalls ▸ List.mem_singleton_self _) rfl _ (List.mem_singleton_self _)
    (.inl ⟨_, hmem, rfl, hended _ hmem⟩)
  exact ⟨hrun _ (by decide), hrun _ (by decide), hzero hended⟩

/-- A call that is asked for a block twice. The download of the first run fails before the call
comes to the block again. -/
def askedTwice : List SpecEvent :=
  [.prefetch 1 [5, 7, 5] 1] ++ List.replicate 6 (.turn 0) ++ [.poll 0, .fail 0] ++
    List.replicate 3 (.work 0) ++ List.replicate 4 (.turn 0)

theorem block_in_two_runs : ¬ ∀ (blockSize : ℕ) (events : List SpecEvent),
    ∀ c ∈ (events.foldl Speculation.after (initial blockSize)).calls,
      (c.runs.flatten.map (·.block)).Nodup := by
  intro h
  have hblocks := h 2 askedTwice ⟨1, 1, [5, 7, 5], [], .returned, [], [],
    [⟨1, 5, 0⟩, ⟨1, 7, 1⟩, ⟨1, 5, 2⟩], [[⟨1, 5, 0⟩], [⟨1, 7, 1⟩], [⟨1, 5, 2⟩]]⟩ (.head _)
  revert hblocks
  decide

end Speculation

end SynologyFilestation.Fuse
