import SynologyFilestation.Fuse.Speculation
import Mathlib.Algebra.Order.BigOperators.Group.List

/-!
What read-ahead does with its claims.

`Sound` says of every call and every download that what it claimed is in its hands or was given
back, how the runs are cut, and what the budget is. Each step keeps it (`Sound.after`). What a
step may do with claims is said once, by `Handled`.
-/

namespace SynologyFilestation.Fuse

open Function Library SynologyFS

/-- Blocks that follow each other. -/
def Consecutive (run : List InflightGuard) : Prop :=
  run.IsChain fun g g' => g.block + 1 = g'.block

theorem Consecutive.block_eq {run : List InflightGuard} (h : Consecutive run) {n : ℕ}
    {first g : InflightGuard} (hfirst : run.head? = some first) (hn : run[n]? = some g) :
    first.block + n.toUInt64 = g.block := by
  induction n generalizing g with
  | zero =>
      rw [List.head?_eq_getElem?, hn] at hfirst
      cases hfirst
      exact UInt64.add_zero _
  | succ n ih =>
      obtain ⟨hlt, rfl⟩ := List.getElem?_eq_some_iff.mp hn
      have hprev := ih (List.getElem?_eq_getElem (by omega))
      have hnext := List.isChain_iff_getElem.mp h n hlt
      rw [← hnext, ← hprev, UInt64.add_assoc]
      congr 1
      exact UInt64.ofNat_add n 1

/-- A run as `spawn_run` is given it. -/
structure WellCut (run : List InflightGuard) : Prop where
  consecutive : Consecutive run
  span : run.length ≤ maxPrefetchSpan

structure SpawnCall.Fits (s : Speculation) (c : SpawnCall) : Prop where
  ops : ∀ op ∈ c.ops, op.blocks = 0 ∧ op.Fits s.inserted
  run : WellCut c.run
  runs : ∀ run ∈ c.runs, WellCut run
  /-- The runs are what was claimed, in order. -/
  cut : c.runs.flatten ++ c.run ++ c.stage.guards = c.claimed
  /-- A run was given to a download, or its guards were or are being dropped. -/
  kept : ∀ run ∈ c.runs, (∃ f ∈ s.fetches, f.claims = run) ∨
    ∀ g ∈ run, g ∈ opsGuards c.ops ∨ s.Logged g
  ino : ∀ g ∈ c.claimed, g.ino = c.ino
  slots : (c.claimed.map (·.slot)).Pairwise (· < ·)
  made : ∀ g ∈ c.claimed, g.slot < s.cache.slots
  asked : (c.claimed.map (·.block) ++ c.stage.pending ++ c.blocks).Sublist c.asked
  ours : ∀ b g, c.stage = .asked b (some g) → g.block = b
  returned : c.stage = .returned → c.run = []

structure Fetch.Fits (s : Speculation) (f : Fetch) : Prop where
  ops : ∀ op ∈ f.stage.ops, op.Fits s.inserted
  consecutive : Consecutive f.claims
  ino : ∀ g ∈ f.claims, g.ino = f.ino
  kept : ∀ g ∈ f.claims, g ∈ f.guards ∨ s.Logged g

section Fits

variable {s t : Speculation} {c : SpawnCall} {f : Fetch}

theorem SpawnCall.Fits.mono (h : c.Fits s) (hgrows : s.Grows t) : c.Fits t := by
  refine { h with ops := ?_, kept := ?_, made := ?_ }
  · exact fun op hop => ⟨(h.ops op hop).1, (h.ops op hop).2.mono hgrows.inserted⟩
  · intro run hrun
    rcases h.kept run hrun with ⟨f, hf, rfl⟩ | hdropped
    · exact .inl (hgrows.claims f hf)
    · exact .inr fun g hg => (hdropped g hg).imp_right (hgrows.logged g)
  · exact fun g hg => Nat.lt_of_lt_of_le (h.made g hg) hgrows.slots

theorem Fetch.Fits.mono (h : f.Fits s) (hgrows : s.Grows t) : f.Fits t :=
  { h with
    ops := fun op hop => (h.ops op hop).mono hgrows.inserted
    kept := fun g hg => (h.kept g hg).imp_right (hgrows.logged g) }

/-- Whatever becomes of the run, the rest of the call is kept. -/
theorem SpawnCall.Fits.spawnRun {stage : CallStage} {next : List InflightGuard}
    {runs : List (List InflightGuard)} {ops : List GuardOp} (hfits : c.Fits s)
    (hgrows : s.Grows t) (hnext : c.stage.guards = next) (hcut : WellCut next)
    (hnone : stage.guards = []) (hpending : c.stage.pending = []) (hpending' : stage.pending = [])
    (hreturned : stage = .returned → next = []) (hruns : ∀ run ∈ runs, WellCut run)
    (hflatten : runs.flatten = c.runs.flatten ++ c.run)
    (hall : ∀ op ∈ ops, op.blocks = 0 ∧ op.Fits s.inserted)
    (hkept : ∀ run ∈ runs, (∃ f ∈ t.fetches, f.claims = run) ∨
      ∀ g ∈ run, g ∈ opsGuards ops ∨ t.Logged g) :
    SpawnCall.Fits t { c with stage := stage, run := next, ops := ops, runs := runs } := by
  refine { hfits.mono hgrows with
    ops := fun op hop => ⟨(hall op hop).1, (hall op hop).2.mono hgrows.inserted⟩
    run := hcut, runs := hruns, kept := hkept, cut := ?_, asked := ?_, ours := ?_,
    returned := hreturned }
  · dsimp only
    rw [hflatten, hnone, List.append_nil, ← hnext]
    exact hfits.cut
  · dsimp only
    rw [hpending', ← hpending]
    exact hfits.asked
  · rintro b g rfl
    cases hnone

end Fits

namespace Speculation

variable {s t : Speculation} {n : ℕ} {c c' : SpawnCall} {f f' : Fetch} {new : List Fetch}
  {g : InflightGuard} {op : GuardOp}

structure Sound (s : Speculation) : Prop where
  custody : Custody s.cache.slots (s.guards.map (·.slot)) (s.log.map (·.guard.slot))
  calls : ∀ c ∈ s.calls, c.Fits s
  fetches : ∀ f ∈ s.fetches, f.Fits s
  log : s.LogFits
  budget : s.inFlight = (s.fetches.map Fetch.owed).sum

theorem sound_initial (blockSize : ℕ) : (initial blockSize).Sound :=
  ⟨.start, nofun, nofun, nofun, rfl⟩

/-- What a task does with what it has in hand leaves each claim in one hand. -/
theorem Handled.custody (h : Handled s t s.guards t.guards)
    (hs : Custody s.cache.slots (s.guards.map (·.slot)) (s.log.map (·.guard.slot))) :
    Custody t.cache.slots (t.guards.map (·.slot)) (t.log.map (·.guard.slot)) := by
  cases h with
  | pass hguards hlog _ hslots =>
      rw [hlog, hslots]
      exact hs.pass (hguards.map _)
  | claim g hslot _ hguards hlog _ hslots =>
      rw [hlog, hslots]
      rw [← hslot] at hs ⊢
      exact hs.make.pass (hguards.map _)
  | resolve g _ hguards hlog _ hslots =>
      rw [hlog, hslots]
      exact (hs.pass (hguards.map _).symm).giveBack

/-- A call that goes on, and the downloads it starts. -/
theorem guards_call (hc : s.calls[n]? = some c) :
    ∃ rest, s.guards.Perm (c.guards ++ rest) ∧
      ∀ (t : Speculation) c' new, t.calls = s.calls.set n c' → t.fetches = s.fetches ++ new →
        t.guards.Perm (c'.guards ++ new.flatMap Fetch.guards ++ rest) := by
  obtain ⟨others, hothers, hset⟩ := exists_flatMap_set SpawnCall.guards hc
  refine ⟨others ++ s.fetches.flatMap Fetch.guards, ?_, fun t c' new hcalls hfetches => ?_⟩
  · rw [guards, ← List.append_assoc]
    exact hothers.append_right _
  · rw [guards, hcalls, hfetches, List.flatMap_append]
    refine ((hset c').append_right _).trans ?_
    rw [List.perm_iff_count]
    intro g
    simp only [List.count_append]
    omega

theorem guards_fetch (hf : s.fetches[n]? = some f) :
    ∃ rest, s.guards.Perm (f.guards ++ rest) ∧ ∀ (t : Speculation) f', t.calls = s.calls →
      t.fetches = s.fetches.set n f' → t.guards.Perm (f'.guards ++ rest) := by
  obtain ⟨others, hothers, hset⟩ := exists_flatMap_set Fetch.guards hf
  refine ⟨s.calls.flatMap SpawnCall.guards ++ others, ?_, fun t f' hcalls hfetches => ?_⟩
  · rw [guards]
    exact (hothers.append_left _).trans (List.perm_append_comm_assoc ..)
  · rw [guards, hcalls, hfetches]
    exact ((hset f').append_left _).trans (List.perm_append_comm_assoc ..)

/-- One step of somebody. -/
structure Goes (s t : Speculation) : Prop where
  sound : t.Sound
  handled : Handled s t s.guards t.guards

theorem Sound.goes_call (h : s.Sound) (hc : s.calls[n]? = some c) (c' : SpawnCall)
    (new : List Fetch)
    (hcalls : t.calls = s.calls.set n c') (hfetches : t.fetches = s.fetches ++ new)
    (hgrows : Grows s t) (hlog : t.LogFits)
    (hhandled : Handled s t c.guards (c'.guards ++ new.flatMap Fetch.guards))
    (hfits : c'.Fits t) (hnew : ∀ f ∈ new, f.Fits t)
    (hbudget : t.inFlight = s.inFlight + (new.map Fetch.owed).sum) : Goes s t := by
  obtain ⟨rest, hbefore, hnow⟩ := guards_call hc
  have hall : Handled s t s.guards t.guards :=
    hhandled.frame rest hbefore (hnow t c' new hcalls hfetches)
  refine ⟨⟨hall.custody h.custody, fun d hd => ?_, fun f hf => ?_, hlog, ?_⟩, hall⟩
  · rw [hcalls] at hd
    rcases List.mem_or_eq_of_mem_set hd with hd | rfl
    · exact (h.calls d hd).mono hgrows
    · exact hfits
  · rw [hfetches] at hf
    rcases List.mem_append.mp hf with hf | hf
    · exact (h.fetches f hf).mono hgrows
    · exact hnew f hf
  · rw [hbudget, hfetches, List.map_append, List.sum_append, h.budget]

theorem Sound.goes_fetch (h : s.Sound) (hf : s.fetches[n]? = some f) (f' : Fetch)
    (hcalls : t.calls = s.calls) (hfetches : t.fetches = s.fetches.set n f') (hgrows : Grows s t)
    (hlog : t.LogFits) (hhandled : Handled s t f.guards f'.guards) (hfits : f'.Fits t)
    (hbudget : t.inFlight + f.owed = s.inFlight + f'.owed) : Goes s t := by
  obtain ⟨rest, hbefore, hnow⟩ := guards_fetch hf
  have hall : Handled s t s.guards t.guards :=
    hhandled.frame rest hbefore (hnow t f' hcalls hfetches)
  refine ⟨⟨hall.custody h.custody, fun c hc => ?_, fun d hd => ?_, hlog, ?_⟩, hall⟩
  · exact (h.calls c (hcalls ▸ hc)).mono hgrows
  · rw [hfetches] at hd
    rcases List.mem_or_eq_of_mem_set hd with hd | rfl
    · exact (h.fetches d hd).mono hgrows
    · exact hfits
  · have hsum := sum_map_set Fetch.owed hf f'
    rw [hfetches]
    have := h.budget
    omega

/-- What is left to do with claims keeps them or gives them back. -/
theorem kept_ops {ops : List GuardOp} (h : g ∈ opsGuards (op :: ops) ∨ s.Logged g) :
    g ∈ opsGuards ((s.perform op).2 ++ ops) ∨ (s.perform op).1.Logged g := by
  rw [opsGuards_cons, List.mem_append] at h
  rw [opsGuards_append, List.mem_append]
  rcases h with (hop | hops) | hlogged
  · exact (kept_perform hop).imp_left .inl
  · exact .inl (.inr hops)
  · exact .inr (grows_perform.logged g hlogged)

theorem Grows.refl (s : Speculation) : Grows s s :=
  ⟨List.Subset.refl _, fun _ => id, fun f hf => ⟨f, hf, rfl⟩, Nat.le_refl _⟩

theorem grows_setCall : Grows s (s.setCall n c) :=
  ⟨List.Subset.refl _, fun _ => id, fun f hf => ⟨f, hf, rfl⟩, Nat.le_refl _⟩

/-- A call goes on, and nothing but the call changes. -/
theorem Sound.goes_setCall (h : s.Sound) (hc : s.calls[n]? = some c)
    (hguards : c'.guards.Perm c.guards) (hfits : c'.Fits s) : Goes s (s.setCall n c') :=
  h.goes_call hc c' [] rfl (List.append_nil _).symm grows_setCall h.log
    (.pass (by simpa using hguards) rfl rfl rfl) (hfits.mono grows_setCall) nofun rfl

/-- A call drops the guards of a run. -/
theorem Sound.goes_op (h : s.Sound) (hc : s.calls[n]? = some c) {ops : List GuardOp}
    (hops : c.ops = op :: ops) :
    Goes s ((s.perform op).1.setCall n { c with ops := (s.perform op).2 ++ ops }) := by
  have hfits := h.calls c (List.mem_of_getElem? hc)
  obtain ⟨hblocks, hop⟩ := hfits.ops op (hops ▸ List.mem_cons_self ..)
  have hgrows : Grows s ((s.perform op).1.setCall n { c with ops := (s.perform op).2 ++ ops }) :=
    ⟨grows_perform.inserted, grows_perform.logged, grows_perform.claims, grows_perform.slots⟩
  refine h.goes_call hc { c with ops := (s.perform op).2 ++ ops } []
    (by rw [setCall, calls_perform]) (by rw [setCall, fetches_perform, List.append_nil]) hgrows
    (h.log.perform hop) ?_ ?_ nofun ?_
  · have hhandled : Handled s
        ((s.perform op).1.setCall n { c with ops := (s.perform op).2 ++ ops }) op.guards
        (opsGuards (s.perform op).2) := (handled_perform hop).of_same rfl rfl
    refine hhandled.frame (c.run ++ c.stage.guards ++ opsGuards ops) ?_ ?_
    · rw [SpawnCall.guards, hops, opsGuards_cons, List.perm_iff_count]
      intro g
      simp only [List.count_append]
      omega
    · rw [SpawnCall.guards, opsGuards_append, List.perm_iff_count]
      intro g
      simp only [List.count_append, List.flatMap_nil, List.count_nil]
      omega
  · refine { hfits.mono hgrows with ops := fun op' hop' => ?_, kept := fun run hrun => ?_ }
    · rcases List.mem_append.mp hop' with hop' | hop'
      · exact ⟨blocks_of_mem_perform hop', fits_perform hop op' hop'⟩
      · obtain ⟨hzero, hfit⟩ := hfits.ops op' (hops ▸ List.mem_cons_of_mem _ hop')
        exact ⟨hzero, hfit.mono hgrows.inserted⟩
    · rcases hfits.kept run hrun with ⟨f, hf, rfl⟩ | hdropped
      · exact .inl (hgrows.claims f hf)
      · exact .inr fun g hg => kept_ops (hops ▸ hdropped g hg)
  · have hzero := inFlight_perform s op
    rw [hblocks] at hzero
    exact hzero

/-- A run of no block, or of one, is no worse than any other. -/
theorem wellCut_toList (ours : Option InflightGuard) : WellCut ours.toList := by
  cases ours with
  | none => exact ⟨.nil, Nat.zero_le _⟩
  | some g => exact ⟨.singleton g, by simp [maxPrefetchSpan]⟩

theorem tryClaim_eq_some {blocks limit : ℕ} (h : s.tryClaim blocks limit = some t) :
    s.inFlight + blocks ≤ limit ∧ t = { s with inFlight := s.inFlight + blocks } := by
  unfold tryClaim at h
  dsimp only at h
  split at h
  case isTrue hfits => exact ⟨hfits.2, (Option.some.inj h).symm⟩
  case isFalse => cases h

/-- A call gives the run to `spawn_run`, and goes on with the next. -/
theorem Sound.goes_spawnRun (h : s.Sound) (hc : s.calls[n]? = some c) (hops : c.ops = [])
    {stage : CallStage} {next : List InflightGuard} (hnext : c.stage.guards = next)
    (hcut : WellCut next) (hnone : stage.guards = []) (hpending : c.stage.pending = [])
    (hpending' : stage.pending = []) (hreturned : stage = .returned → next = []) :
    Goes s (s.spawnRun n { c with stage := stage, run := next } c.run) := by
  have hfits := h.calls c (List.mem_of_getElem? hc)
  have hkept : ∀ run ∈ c.runs, (∃ f ∈ s.fetches, f.claims = run) ∨ ∀ g ∈ run, s.Logged g :=
    fun run hrun => (hfits.kept run hrun).imp_right fun hdropped g hg =>
      (hdropped g hg).resolve_left (by rw [hops]; nofun)
  have hcuts : ∀ run ∈ c.runs ++ [c.run], WellCut run := fun run hrun => by
    rcases List.mem_append.mp hrun with hrun | hrun
    · exact hfits.runs run hrun
    · exact List.mem_singleton.mp hrun ▸ hfits.run
  have hflatten : (c.runs ++ [c.run]).flatten = c.runs.flatten ++ c.run := by
    rw [List.flatten_append, List.flatten_singleton]
  unfold spawnRun
  split
  case isTrue hrun =>
    refine h.goes_setCall hc ?_ ?_
    · rw [SpawnCall.guards, SpawnCall.guards, hrun, hnone, hnext, List.nil_append,
        List.append_nil]
    · exact hfits.spawnRun (.refl s) hnext hcut hnone hpending hpending' hreturned hfits.runs
        (by rw [hrun, List.append_nil]) hfits.ops hfits.kept
  case isFalse hrun =>
    dsimp only
    cases htry : s.tryClaim c.run.length (budgetLimit c.connections) with
    | none =>
        refine h.goes_setCall hc ?_ ?_
        · rw [SpawnCall.guards, SpawnCall.guards, opsGuards_drop, hnone, hnext, hops,
            List.append_nil, opsGuards_nil, List.append_nil]
          exact List.perm_append_comm
        · refine hfits.spawnRun (.refl s) hnext hcut hnone hpending hpending' hreturned hcuts
            hflatten ?_ ?_
          · intro op hop
            obtain ⟨g, -, rfl⟩ := List.mem_map.mp hop
            exact ⟨rfl, GuardOp.fits_drop _ g⟩
          · intro run hrun
            rcases List.mem_append.mp hrun with hrun | hrun
            · exact (hkept run hrun).imp_right fun hlogged g hg => .inr (hlogged g hg)
            · obtain rfl := List.mem_singleton.mp hrun
              exact .inr fun g hg => .inl (by rwa [opsGuards_drop])
    | some s' =>
        obtain ⟨-, rfl⟩ := tryClaim_eq_some htry
        have hgrows : ∀ new calls inFlight,
            Grows s { s with inFlight := inFlight, calls := calls, fetches := s.fetches ++ new } :=
          fun new _ _ => ⟨List.Subset.refl _, fun _ => id,
            fun f hf => ⟨f, List.mem_append_left new hf, rfl⟩, Nat.le_refl _⟩
        refine h.goes_call hc
          { c with stage := stage, run := next, runs := c.runs ++ [c.run] }
          [⟨c.ino, c.run, c.run.length, .spawned⟩] rfl rfl (hgrows ..) h.log
          (.pass ?_ rfl rfl rfl) ?_ ?_ rfl
        · rw [SpawnCall.guards, SpawnCall.guards, hnone, hnext, hops, List.append_nil,
            opsGuards_nil, List.append_nil, List.append_nil]
          change (next ++ (c.run ++ [])).Perm (c.run ++ next)
          rw [List.append_nil]
          exact List.perm_append_comm
        · refine hfits.spawnRun (hgrows ..) hnext hcut hnone hpending hpending' hreturned hcuts
            hflatten hfits.ops fun run hrun => ?_
          rcases List.mem_append.mp hrun with hrun | hrun
          · rcases hkept run hrun with ⟨f, hf, rfl⟩ | hlogged
            · exact .inl ⟨f, List.mem_append_left _ hf, rfl⟩
            · exact .inr fun g hg => .inr (hlogged g hg)
          · obtain rfl := List.mem_singleton.mp hrun
            exact .inl ⟨_, List.mem_append_right _ (List.mem_singleton_self _), rfl⟩
        · intro f hf
          obtain rfl := List.mem_singleton.mp hf
          have hclaimed : ∀ g ∈ c.run, g ∈ c.claimed := fun g hg => by
            rw [← hfits.cut]
            exact List.mem_append_left _ (List.mem_append_right _ hg)
          exact ⟨nofun, hfits.run.consecutive, fun g hg => hfits.ino g (hclaimed g hg),
            fun g hg => .inl hg⟩

theorem Sound.goes_refl (h : s.Sound) : Goes s s := ⟨h, .pass (.refl _) rfl rfl rfl⟩

/-- A call comes to the next block. -/
theorem Sound.goes_next (h : s.Sound) (hc : s.calls[n]? = some c) (hstage : c.stage = .turning)
    {b : UInt64} {blocks : List UInt64} (hblocks : c.blocks = b :: blocks) {stage : CallStage}
    (hnew : stage = .asked b none ∨ stage = .missed b) :
    Goes s (s.setCall n { c with blocks := blocks, stage := stage }) := by
  have hfits := h.calls c (List.mem_of_getElem? hc)
  have hguards : stage.guards = c.stage.guards := by
    rcases hnew with rfl | rfl <;> rw [hstage] <;> rfl
  have hsublist : (stage.pending ++ blocks).Sublist (c.stage.pending ++ c.blocks) := by
    rw [hstage, hblocks]
    rcases hnew with rfl | rfl
    · exact List.sublist_cons_self b blocks
    · exact .refl _
  refine h.goes_setCall hc ?_ { hfits with cut := ?_, asked := ?_, ours := ?_, returned := ?_ }
  · rw [SpawnCall.guards, SpawnCall.guards, hguards]
  · exact hguards ▸ hfits.cut
  · have hasked := hfits.asked
    rw [List.append_assoc] at hasked ⊢
    exact (hsublist.append_left _).trans hasked
  · rcases hnew with rfl | rfl <;> nofun
  · rcases hnew with rfl | rfl <;> nofun

/-- The tables once a free block is claimed. -/
def claimedCache (s : Speculation) (key : BlockKey) : ReadCache :=
  { s.cache with
    inFlight := update s.cache.inFlight key (some s.cache.slots)
    slots := s.cache.slots + 1 }

theorem claimInflight_eq (s : Speculation) (key : BlockKey) :
    s.cache.claimInflight key =
      if s.cache.inFlight key = none then (true, s.claimedCache key) else (false, s.cache) := by
  unfold ReadCache.claimInflight
  split
  case h_1 slot hslot => rw [hslot, if_neg nofun]
  case h_2 hfree => rw [hfree, if_pos rfl]; rfl

/-- A call claims the block it has come to. -/
theorem Sound.goes_won (h : s.Sound) (hc : s.calls[n]? = some c) {b : UInt64}
    (hstage : c.stage = .missed b) (hfree : s.cache.inFlight (c.ino, b.toNat) = none)
    {g : InflightGuard} (hg : g = ⟨c.ino, b, s.cache.slots⟩) :
    Goes s ({ s with cache := s.claimedCache (c.ino, b.toNat) }.setCall n
      { c with stage := .asked b (some g), claimed := c.claimed ++ [g] }) := by
  have hfits := h.calls c (List.mem_of_getElem? hc)
  have hasked := hfits.asked
  have hcut := hfits.cut
  rw [hstage] at hasked hcut
  have hgrows : Grows s ({ s with cache := s.claimedCache (c.ino, b.toNat) }.setCall n
      { c with stage := .asked b (some g), claimed := c.claimed ++ [g] }) :=
    ⟨List.Subset.refl _, fun _ => id, fun f hf => ⟨f, hf, rfl⟩, Nat.le_succ _⟩
  have hslot : g.slot = s.cache.slots := hg ▸ rfl
  refine h.goes_call hc _ [] rfl (List.append_nil _).symm hgrows h.log
    (.claim g hslot (hg ▸ hfree) ?_ rfl ?_ rfl)
    { hfits.mono hgrows with
      cut := ?_, ino := ?_, slots := ?_, made := ?_, asked := ?_, ours := ?_, returned := nofun }
    nofun rfl
  · rw [SpawnCall.guards, SpawnCall.guards, hstage, List.perm_iff_count]
    intro g'
    simp only [CallStage.guards, Option.toList_some, List.flatMap_nil, List.count_append,
      List.count_cons, List.count_nil]
    omega
  · rw [hg]
    rfl
  · dsimp only
    rw [← hcut]
    simp [CallStage.guards]
  · intro g' hg'
    rcases List.mem_append.mp hg' with hg' | hg'
    · exact hfits.ino g' hg'
    · rw [List.mem_singleton.mp hg', hg]
  · dsimp only
    rw [List.map_append]
    refine List.pairwise_append.mpr
      ⟨hfits.slots, List.pairwise_singleton .., fun slot hold slot' hnew => ?_⟩
    obtain ⟨g', hg', rfl⟩ := List.mem_map.mp hold
    obtain rfl := List.mem_singleton.mp hnew
    exact Nat.lt_of_lt_of_eq (hfits.made g' hg') hslot.symm
  · intro g' hg'
    rcases List.mem_append.mp hg' with hg' | hg'
    · exact Nat.lt_succ_of_lt (hfits.made g' hg')
    · rw [List.mem_singleton.mp hg', hslot]
      exact Nat.lt_succ_self _
  · dsimp only
    rw [List.map_append, CallStage.pending_asked, List.append_nil, hg]
    exact hasked
  · rintro b' g' ⟨⟩
    rw [hg]

/-- Or finds that another has claimed it. -/
theorem Sound.goes_lost (h : s.Sound) (hc : s.calls[n]? = some c) {b : UInt64}
    (hstage : c.stage = .missed b) : Goes s (s.setCall n { c with stage := .asked b none }) := by
  have hfits := h.calls c (List.mem_of_getElem? hc)
  have hasked := hfits.asked
  have hcut := hfits.cut
  rw [hstage] at hasked hcut
  refine h.goes_setCall hc ?_
    { hfits with cut := hcut, asked := ?_, ours := nofun, returned := nofun }
  · rw [SpawnCall.guards, SpawnCall.guards, hstage]
    exact .refl _
  · rw [List.append_assoc] at hasked ⊢
    exact ((List.sublist_append_right [b] c.blocks).append_left _).trans hasked

/-- A call adds what it won to the run, or gives the run away first. -/
theorem Sound.goes_asked (h : s.Sound) (hc : s.calls[n]? = some c) (hops : c.ops = []) {b : UInt64}
    {ours : Option InflightGuard} (hstage : c.stage = .asked b ours) :
    Goes s (if ours.isNone || !c.continues b then
        s.spawnRun n { c with stage := .turning, run := ours.toList } c.run
      else s.setCall n { c with stage := .turning, run := c.run ++ ours.toList }) := by
  have hfits := h.calls c (List.mem_of_getElem? hc)
  have hguards : c.stage.guards = ours.toList := by rw [hstage]; rfl
  split
  case isTrue =>
    exact h.goes_spawnRun hc hops hguards (wellCut_toList ours) rfl (by rw [hstage]; rfl) rfl nofun
  case isFalse hcontinues =>
    cases ours with
    | none => exact absurd rfl hcontinues
    | some g =>
        obtain ⟨hlast, hspan⟩ : c.run.getLast?.any (·.block + 1 == b) = true ∧
            c.run.length < maxPrefetchSpan := by
          simpa [SpawnCall.continues] using hcontinues
        refine h.goes_setCall hc ?_
          { hfits with run := ⟨?_, ?_⟩, cut := ?_, asked := ?_, ours := nofun, returned := nofun }
        · rw [SpawnCall.guards, SpawnCall.guards, hguards]
          simp [CallStage.guards]
        · refine List.isChain_append.mpr
            ⟨hfits.run.consecutive, .singleton g, fun last hmem g' hg' => ?_⟩
          obtain rfl := Option.some.inj hg'
          rw [hfits.ours b g hstage]
          rw [Option.mem_def.mp hmem] at hlast
          exact beq_iff_eq.mp hlast
        · dsimp only
          rw [List.length_append]
          exact hspan
        · dsimp only
          rw [← hfits.cut, hguards]
          simp [CallStage.guards]
        · have hasked := hfits.asked
          rw [hstage] at hasked
          exact hasked

theorem Sound.goes_turn (h : s.Sound) (hc : s.calls[n]? = some c) : Goes s (s.turn n c) := by
  unfold turn
  split
  case h_1 op ops hops => exact h.goes_op hc hops
  case h_2 hops =>
    split
    case h_1 hstage =>
      split
      case h_1 hblocks =>
        exact h.goes_spawnRun hc hops (by rw [hstage]; rfl) (wellCut_toList none) rfl
          (by rw [hstage]; rfl) rfl fun _ => rfl
      case h_2 b blocks hblocks =>
        refine h.goes_next hc hstage hblocks ?_
        split
        · exact .inl rfl
        · exact .inr rfl
    case h_2 b hstage =>
      rw [claimInflight_eq]
      split_ifs with hfree
      · exact h.goes_won hc hstage hfree rfl
      · exact h.goes_lost hc hstage
    case h_3 b ours hstage => exact h.goes_asked hc hops hstage
    case h_4 => exact h.goes_refl

/-- Of every download there is one with its claims when one has gone on. -/
theorem exists_claims_set (hf : s.fetches[n]? = some f) (hclaims : f'.claims = f.claims) :
    ∀ d ∈ s.fetches, ∃ d' ∈ s.fetches.set n f', d'.claims = d.claims := by
  intro d hd
  obtain ⟨hlt, hget⟩ := List.getElem?_eq_some_iff.mp hf
  obtain ⟨i, hi⟩ := List.mem_iff_getElem?.mp hd
  rcases eq_or_ne n i with rfl | hne
  · rw [hf] at hi
    cases hi
    exact ⟨f', List.mem_set hlt f', hclaims⟩
  · exact ⟨d, List.mem_iff_getElem?.mpr ⟨i, (List.getElem?_set_ne hne).trans hi⟩, rfl⟩

theorem grows_setFetch (hf : s.fetches[n]? = some f) (hclaims : f'.claims = f.claims) :
    Grows s (s.setFetch n f') :=
  ⟨List.Subset.refl _, fun _ => id, exists_claims_set hf hclaims, Nat.le_refl _⟩

/-- A download comes to another stage, and nothing else changes. -/
theorem Sound.goes_stage (h : s.Sound) (hf : s.fetches[n]? = some f) {stage : FetchStage}
    (hops : ∀ op ∈ stage.ops, op.Fits s.inserted) (hguards : stage.guards f.claims = f.guards)
    (howed : stage.owed f.share = f.owed) : Goes s (s.setFetch n { f with stage := stage }) := by
  have hfits := h.fetches f (List.mem_of_getElem? hf)
  have hgrows : Grows s (s.setFetch n { f with stage := stage }) := grows_setFetch hf rfl
  refine h.goes_fetch hf _ rfl rfl hgrows h.log (.pass ?_ rfl rfl rfl)
    (Fetch.Fits.mono ?_ hgrows) ?_
  · rw [Fetch.guards, hguards]
  · refine { hfits with ops := hops, kept := fun g hg => ?_ }
    rw [Fetch.guards, hguards]
    exact hfits.kept g hg
  · exact congrArg (s.inFlight + ·) howed.symm

/-- The outcome of a download is known, and with it what is left to do. -/
theorem Sound.goes_finish (h : s.Sound) (hf : s.fetches[n]? = some f) {ops : List GuardOp}
    (hguards : f.guards = f.claims) (howed : f.owed = f.share)
    (hops : ∀ op ∈ ops, op.Fits s.inserted) (hclaims : opsGuards ops = f.claims)
    (hblocks : (ops.map GuardOp.blocks).sum = f.share) : Goes s (s.finish n f ops) :=
  h.goes_stage hf hops (hclaims.trans hguards.symm) (hblocks.trans howed.symm)

/-- A download goes on with what is left to do. -/
theorem Sound.goes_work (h : s.Sound) (hf : s.fetches[n]? = some f) {ops : List GuardOp}
    (hstage : f.stage = .finishing (op :: ops)) :
    Goes s ((s.perform op).1.setFetch n
      { f with stage := .finishing ((s.perform op).2 ++ ops) }) := by
  have hfits := h.fetches f (List.mem_of_getElem? hf)
  have hall : ∀ op' ∈ op :: ops, op'.Fits s.inserted := by
    have := hfits.ops
    rwa [hstage] at this
  have hop : op.Fits s.inserted := hall op (List.mem_cons_self ..)
  have hgrows : Grows s ((s.perform op).1.setFetch n
      { f with stage := .finishing ((s.perform op).2 ++ ops) }) := by
    refine ⟨grows_perform.inserted, grows_perform.logged, ?_, grows_perform.slots⟩
    rw [setFetch, fetches_perform]
    exact exists_claims_set hf rfl
  refine h.goes_fetch hf { f with stage := .finishing ((s.perform op).2 ++ ops) }
    (by rw [setFetch, calls_perform]) (by rw [setFetch, fetches_perform]) hgrows
    (h.log.perform hop) ?_ ?_ ?_
  · have hhandled : Handled s
        ((s.perform op).1.setFetch n { f with stage := .finishing ((s.perform op).2 ++ ops) })
        op.guards (opsGuards (s.perform op).2) := (handled_perform hop).of_same rfl rfl
    refine hhandled.frame (opsGuards ops) ?_ ?_
    · rw [Fetch.guards, hstage]
      exact .refl _
    · rw [Fetch.guards, FetchStage.guards, opsGuards_append]
  · refine { hfits.mono hgrows with ops := fun op' hop' => ?_, kept := fun g hg => ?_ }
    · rcases List.mem_append.mp hop' with hop' | hop'
      · exact fits_perform hop op' hop'
      · exact (hall op' (List.mem_cons_of_mem _ hop')).mono hgrows.inserted
    · have hkept := hfits.kept g hg
      rw [Fetch.guards, hstage] at hkept
      exact kept_ops hkept
  · have howed : f.owed = op.blocks + (ops.map GuardOp.blocks).sum := by
      rw [Fetch.owed, hstage]
      rfl
    have hle : f.owed ≤ s.inFlight :=
      h.budget ▸ List.le_sum_of_mem (List.mem_map_of_mem (List.mem_of_getElem? hf))
    have howed' : ({ f with stage := .finishing ((s.perform op).2 ++ ops) } : Fetch).owed =
        (ops.map GuardOp.blocks).sum := by
      rw [Fetch.owed, FetchStage.owed, List.map_append, List.sum_append, blocks_perform,
        Nat.zero_add]
    have hperform := inFlight_perform s op
    rw [howed']
    change (s.perform op).1.inFlight + f.owed = _
    omega

/-- Somebody new, or nobody. -/
theorem Sound.goes_new (h : s.Sound) (calls : List SpawnCall) (new : List Fetch)
    (hcalls : t.calls = s.calls ++ calls)
    (hfetches : t.fetches = s.fetches ++ new) (hgrows : Grows s t) (hlog : t.LogFits)
    (hhandled : Handled s t [] (calls.flatMap SpawnCall.guards ++ new.flatMap Fetch.guards))
    (hfits : ∀ c ∈ calls, c.Fits t) (hnew : ∀ f ∈ new, f.Fits t)
    (hbudget : t.inFlight = s.inFlight + (new.map Fetch.owed).sum) : Goes s t := by
  have hall : Handled s t s.guards t.guards := by
    refine hhandled.frame s.guards (.refl _) ?_
    rw [guards, guards, hcalls, hfetches, List.flatMap_append, List.flatMap_append,
      List.perm_iff_count]
    intro g
    simp only [List.count_append]
    omega
  refine ⟨⟨hall.custody h.custody, fun c hc => ?_, fun f hf => ?_, hlog, ?_⟩, hall⟩
  · rw [hcalls] at hc
    rcases List.mem_append.mp hc with hc | hc
    · exact (h.calls c hc).mono hgrows
    · exact hfits c hc
  · rw [hfetches] at hf
    rcases List.mem_append.mp hf with hf | hf
    · exact (h.fetches f hf).mono hgrows
    · exact hnew f hf
  · rw [hbudget, hfetches, List.map_append, List.sum_append, h.budget]

theorem fits_start (ino : ℕ) (blocks : List UInt64) (connections : ℕ) :
    (SpawnCall.start ino blocks connections).Fits s where
  ops := nofun
  run := wellCut_toList none
  runs := nofun
  cut := rfl
  kept := nofun
  ino := nofun
  slots := .nil
  made := nofun
  asked := .refl _
  ours := nofun
  returned := fun _ => rfl

theorem opsGuards_mapIdx {op : ℕ → InflightGuard → GuardOp} (hop : ∀ i g, (op i g).guards = [g])
    (gs : List InflightGuard) : opsGuards (gs.mapIdx op) = gs := by
  induction gs generalizing op with
  | nil => rfl
  | cons g gs ih =>
      rw [List.mapIdx_cons, opsGuards_cons, hop, ih fun i => hop (i + 1)]
      rfl

theorem blocks_mapIdx {op : ℕ → InflightGuard → GuardOp} (hop : ∀ i g, (op i g).blocks = 0)
    (gs : List InflightGuard) : ((gs.mapIdx op).map GuardOp.blocks).sum = 0 := by
  induction gs generalizing op with
  | nil => rfl
  | cons g gs ih =>
      rw [List.mapIdx_cons, List.map_cons, List.sum_cons, hop, ih fun i => hop (i + 1)]

/-- Each piece goes under the name of the block that was claimed for it. -/
theorem fits_publish (h : f.Fits s) (blockSize : ℕ) (data : List UInt8) :
    ∀ op ∈ f.publish blockSize data, op.Fits s.inserted := by
  intro op hop
  obtain ⟨i, hi, rfl⟩ := List.mem_mapIdx.mp hop
  have hmem := List.getElem_mem hi
  obtain ⟨first, hfirst⟩ : ∃ first, f.claims.head? = some first :=
    Option.isSome_iff_exists.mp (List.isSome_head?.mpr (List.ne_nil_of_mem hmem))
  have hblock := h.consecutive.block_eq hfirst (List.getElem?_eq_getElem hi)
  change f.keyAt i = (f.claims[i]).key
  rw [Fetch.keyAt, InflightGuard.key, hfirst, h.ino _ hmem, ← hblock]
  rfl

theorem fits_release (f : Fetch) : ∀ op ∈ f.release, op.Fits s.inserted := by
  intro op hop
  obtain ⟨g, -, rfl⟩ := List.mem_map.mp hop
  exact GuardOp.fits_drop _ g

theorem blocks_release (f : Fetch) : (f.release.map GuardOp.blocks).sum = 0 := by
  rw [Fetch.release, List.map_map]
  exact List.sum_eq_zero fun n hn => by
    obtain ⟨g, -, rfl⟩ := List.mem_map.mp hn
    rfl

/-- What is left to do, with the share of the budget. -/
theorem fits_refund {ops : List GuardOp} (h : ∀ op ∈ ops, op.Fits s.inserted) (share : ℕ) :
    ∀ op ∈ ops ++ [.refund share], op.Fits s.inserted := by
  intro op hop
  rcases List.mem_append.mp hop with hop | hop
  · exact h op hop
  · obtain rfl := List.mem_singleton.mp hop
    trivial

theorem Sound.goes_abort (h : s.Sound) (hf : s.fetches[n]? = some f) (hguards : f.guards = f.claims)
    (howed : f.owed = f.share) (shareFirst : Bool) :
    Goes s (s.finish n f (if shareFirst then .refund f.share :: f.release
      else f.release ++ [.refund f.share])) := by
  have hrelease := fits_release (s := s) f
  have hclaims : opsGuards f.release = f.claims := opsGuards_drop f.claims
  refine h.goes_finish hf hguards howed ?_ ?_ ?_
  · split
    · exact List.forall_mem_cons.mpr ⟨trivial, hrelease⟩
    · exact fits_refund hrelease f.share
  · split
    · exact hclaims
    · rw [opsGuards_append, hclaims]
      exact List.append_nil _
  · split
    · rw [List.map_cons, List.sum_cons, blocks_release]
      rfl
    · rw [List.map_append, List.sum_append, blocks_release]
      exact Nat.zero_add _

theorem Sound.goes_after (h : s.Sound) {e : SpecEvent} (he : ∀ key, e ≠ .revoke key) :
    Goes s (s.after e) := by
  cases e with
  | prefetch ino blocks connections =>
      exact h.goes_new _ [] rfl (List.append_nil _).symm
        ⟨List.Subset.refl _, fun _ => id, fun f hf => ⟨f, hf, rfl⟩, Nat.le_refl _⟩ h.log
        (.pass (.refl _) rfl rfl rfl)
        (fun c hc => by
          obtain rfl := List.mem_singleton.mp hc
          exact fits_start ino blocks connections)
        nofun rfl
  | turn n =>
      rw [after]
      cases hc : s.calls[n]? with
      | none => exact h.goes_refl
      | some c => exact h.goes_turn hc
  | read ino b =>
      rw [after, claimInflight_eq]
      split_ifs with hfree
      · refine h.goes_new [] _ (List.append_nil _).symm rfl
          ⟨List.Subset.refl _, fun _ => id, fun f hf => ⟨f, List.mem_append_left _ hf, rfl⟩,
            Nat.le_succ _⟩ h.log
          (.claim ⟨ino, b, s.cache.slots⟩ rfl hfree (.refl _) rfl rfl rfl) nofun
          (fun f hf => ?_) rfl
        obtain rfl := List.mem_singleton.mp hf
        refine ⟨nofun, .singleton _, fun g hg => ?_, fun g hg => .inl hg⟩
        obtain rfl := List.mem_singleton.mp hg
        rfl
      · exact h.goes_refl
  | poll n =>
      rw [after]
      split
      case h_1 ino claims share hf => exact h.goes_stage hf nofun rfl rfl
      case h_2 => exact h.goes_refl
  | answer n data =>
      rw [after]
      split
      case h_1 ino claims share hf =>
        have hfits := h.fetches _ (List.mem_of_getElem? hf)
        refine h.goes_finish hf rfl rfl (fits_refund (fits_publish hfits _ _) share) ?_ ?_
        · rw [opsGuards_append, Fetch.publish, opsGuards_mapIdx fun _ _ => rfl]
          exact List.append_nil _
        · rw [List.map_append, List.sum_append, Fetch.publish, blocks_mapIdx fun _ _ => rfl]
          exact Nat.zero_add _
      case h_2 => exact h.goes_refl
  | fail n =>
      rw [after]
      split
      case h_1 ino claims share hf => exact h.goes_abort hf rfl rfl false
      case h_2 => exact h.goes_refl
  | abort n shareFirst =>
      rw [after]
      cases hf : s.fetches[n]? with
      | none => exact h.goes_refl
      | some f =>
          obtain ⟨ino, claims, share, stage⟩ := f
          cases stage with
          | spawned | downloading => exact h.goes_abort hf rfl rfl shareFirst
          | finishing ops => exact h.goes_refl
  | work n =>
      rw [after]
      split
      case h_1 ino claims share op ops hf => exact h.goes_work hf rfl
      case h_2 => exact h.goes_refl
  | evict key | unlist key =>
      exact h.goes_new [] [] (List.append_nil _).symm (List.append_nil _).symm
        ⟨List.Subset.refl _, fun _ => id, fun f hf => ⟨f, hf, rfl⟩, Nat.le_refl _⟩ h.log
        (.pass (.refl _) rfl rfl rfl) nofun nofun rfl
  | revoke key => exact absurd rfl (he key)

/-- An invalidation changes nothing but the tables. -/
theorem after_revoke (s : Speculation) (key : BlockKey) :
    ∃ resolved, s.after (.revoke key) =
      { s with cache := { s.cache with
          inFlight := update s.cache.inFlight key none
          resolved := resolved } } := by
  obtain ⟨resolved, hring⟩ := (s.cache.unclaim key).2.ring_eq (s.cache.unclaim key).1
  exact ⟨resolved, by rw [after, hring]; rfl⟩

theorem Sound.after (h : s.Sound) (e : SpecEvent) : (s.after e).Sound := by
  by_cases he : ∀ key, e ≠ .revoke key
  · exact (h.goes_after he).sound
  · obtain ⟨key, hkey⟩ := not_forall.mp he
    obtain rfl := not_not.mp hkey
    obtain ⟨resolved, hafter⟩ := s.after_revoke key
    rw [hafter]
    have hgrows : Grows s { s with
        cache := { s.cache with
          inFlight := update s.cache.inFlight key none
          resolved := resolved } } :=
      ⟨List.Subset.refl _, fun _ => id, fun f hf => ⟨f, hf, rfl⟩, Nat.le_refl _⟩
    exact ⟨h.custody, fun c hc => (h.calls c hc).mono hgrows,
      fun f hf => (h.fetches f hf).mono hgrows, h.log, h.budget⟩

end Speculation

end SynologyFilestation.Fuse
