import SynologyFilestation.Fuse.Transfers
import SynologyFilestation.Library.Custody
import Mathlib.Data.List.Chain

/-!
Read-ahead (`spawn_prefetch` and `spawn_run` in `fuse/src/fs/mod.rs`, `Budget`, `Claim` and
`InflightGuard` in `fuse/src/fs/prefetch.rs`).

A call claims the blocks it is asked for, one at a time, and cuts what it won into runs. A run is
one download, in a task of its own that may be aborted wherever it waits. Other calls, other runs
and the reads of the mount go on in between: a step is one section under a lock. What a task is
yet to do is written down in it.

Every claim has a number, its slot. A guard knows its block and not its slot, which is here to
say whose claim it is that is given back.
-/

namespace SynologyFilestation.Fuse

open Library SynologyFS

/-- The claim that an `InflightGuard` gives back. -/
structure InflightGuard where
  ino : ℕ
  block : UInt64
  slot : ℕ
  deriving DecidableEq

def InflightGuard.key (g : InflightGuard) : BlockKey := (g.ino, g.block.toNat)

inductive ClaimOutcome
  | published
  | released
  deriving DecidableEq

/-- What is left to do with a claim: `insert` in its three sections, or `cancel_inflight`. A
`Claim` of the budget is given back too. -/
inductive GuardOp
  | put (key : BlockKey) (piece : List UInt8) (guard : InflightGuard)
  | list (key : BlockKey) (guard : InflightGuard)
  | resolve (key : BlockKey) (outcome : ClaimOutcome) (guard : InflightGuard)
  | ring (slot : Option ℕ)
  | refund (blocks : ℕ)

namespace GuardOp

/-- The claims still in hand. -/
def guards : GuardOp → List InflightGuard
  | put _ _ g | list _ g | resolve _ _ g => [g]
  | ring _ | refund _ => []

def blocks : GuardOp → ℕ
  | refund n => n
  | _ => 0

/-- A guard is dropped that is armed. -/
def drop (g : InflightGuard) : GuardOp := resolve g.key .released g

end GuardOp

/-- Where `spawn_prefetch` is with the block it has come to. -/
inductive CallStage
  | turning
  /-- It is not cached. -/
  | missed (block : UInt64)
  /-- It is known whether it is `ours`. -/
  | asked (block : UInt64) (ours : Option InflightGuard)
  | returned

/-- A call of `spawn_prefetch`. -/
structure SpawnCall where
  ino : ℕ
  connections : ℕ
  /-- The blocks it was asked for, and those it has not come to. -/
  asked : List UInt64
  blocks : List UInt64
  stage : CallStage
  run : List InflightGuard
  /-- The guards of a run that was dropped. -/
  ops : List GuardOp
  /-- What it has claimed, and the runs it has cut. -/
  claimed : List InflightGuard
  runs : List (List InflightGuard)

inductive FetchStage
  | spawned
  | downloading
  | finishing (ops : List GuardOp)

/-- A download under claims: the task of a run, or of a read's own block, which has no share in
the budget. -/
structure Fetch where
  ino : ℕ
  claims : List InflightGuard
  share : ℕ
  stage : FetchStage

/-- A claim that was given back, and the claim that was there. -/
structure Resolved where
  guard : InflightGuard
  outcome : ClaimOutcome
  taken : Option ℕ
  deriving DecidableEq

structure Speculation where
  blockSize : ℕ
  cache : ReadCache
  /-- `Budget`. -/
  inFlight : ℕ
  calls : List SpawnCall
  fetches : List Fetch
  /-- The latest first. -/
  log : List Resolved
  inserted : List InflightGuard

inductive SpecEvent
  | prefetch (ino : ℕ) (blocks : List UInt64) (connections : ℕ)
  /-- A call goes on. -/
  | turn (call : ℕ)
  /-- A read, or `open`, claims a block for itself. -/
  | read (ino : ℕ) (block : UInt64)
  | poll (fetch : ℕ)
  | answer (fetch : ℕ) (data : List UInt8)
  | fail (fetch : ℕ)
  /-- The budget's share is given back before the claims, or behind them. -/
  | abort (fetch : ℕ) (shareFirst : Bool)
  /-- A download goes on with what it is yet to do. -/
  | work (fetch : ℕ)
  /-- The cache evicts, or `invalidate_block` does. -/
  | evict (key : BlockKey)
  | unlist (key : BlockKey)
  /-- An invalidation takes a claim away. -/
  | revoke (key : BlockKey)

/-- It is no invalidation of the file. -/
def SpecEvent.Spares (ino : ℕ) : SpecEvent → Prop
  | revoke key => key.1 ≠ ino
  | _ => True

instance SpecEvent.Spares.decidable (ino : ℕ) : ∀ e : SpecEvent, Decidable (e.Spares ino)
  | .revoke key => inferInstanceAs (Decidable (key.1 ≠ ino))
  | .prefetch .. | .turn _ | .read .. | .poll _ | .answer .. | .fail _ | .abort .. | .work _
  | .evict _ | .unlist _ => .isTrue trivial

def Speculation.initial (blockSize : ℕ) : Speculation :=
  { blockSize := blockSize, cache := .new, inFlight := 0, calls := [], fetches := [], log := [],
    inserted := [] }

/-- Of one word, as `usize` is. -/
def usizeMax : ℕ := 2 ^ 64 - 1

/-- `MAX_INFLIGHT_PREFETCH_BLOCKS.saturating_mul`. -/
def budgetLimit (connections : ℕ) : ℕ := min (maxInflightPrefetchBlocks * connections) usizeMax

namespace SpawnCall

/-- `Vec::new` and the loop's beginning. -/
def start (ino : ℕ) (blocks : List UInt64) (connections : ℕ) : SpawnCall :=
  { ino := ino, connections := connections, asked := blocks, blocks := blocks, stage := .turning,
    run := [], ops := [], claimed := [], runs := [] }

/-- Whether a block goes on with the run. -/
def continues (c : SpawnCall) (block : UInt64) : Bool :=
  c.run.getLast?.any (·.block + 1 == block) && decide (c.run.length < maxPrefetchSpan)

end SpawnCall

namespace Fetch

/-- The response split back into blocks. What lies past its end is empty. -/
def piece (blockSize : ℕ) (data : List UInt8) (n : ℕ) : List UInt8 :=
  let start := n * blockSize
  if start ≥ data.length then []
  else (data.drop start).take (min (start + blockSize) data.length - start)

/-- The block that the `n`th piece is stored under. -/
def keyAt (f : Fetch) (n : ℕ) : BlockKey :=
  (f.ino, ((f.claims.head?.elim 0 (·.block)) + n.toUInt64).toNat)

def publish (f : Fetch) (blockSize : ℕ) (data : List UInt8) : List GuardOp :=
  f.claims.mapIdx fun n g => .put (f.keyAt n) (piece blockSize data n) g

/-- All guards are dropped. -/
def release (f : Fetch) : List GuardOp := f.claims.map .drop

end Fetch

namespace Speculation

def setCall (s : Speculation) (n : ℕ) (c : SpawnCall) : Speculation :=
  { s with calls := s.calls.set n c }

def setFetch (s : Speculation) (n : ℕ) (f : Fetch) : Speculation :=
  { s with fetches := s.fetches.set n f }

/-- An operation, and what has to follow it. -/
def perform (s : Speculation) : GuardOp → Speculation × List GuardOp
  | .put key piece g =>
      ({ s with cache := s.cache.put key ⟨piece, 0⟩, inserted := g :: s.inserted }, [.list key g])
  | .list key g => ({ s with cache := s.cache.list key }, [.resolve key .published g])
  | .resolve key outcome g =>
      let (taken, cache) := s.cache.unclaim key
      ({ s with cache := cache, log := ⟨g, outcome, taken⟩ :: s.log }, [.ring taken])
  | .ring slot => ({ s with cache := s.cache.ring slot }, [])
  | .refund blocks => ({ s with inFlight := s.inFlight - blocks }, [])

/-- `Budget::try_claim`. -/
def tryClaim (s : Speculation) (blocks limit : ℕ) : Option Speculation :=
  let after := s.inFlight + blocks
  if after ≤ usizeMax ∧ after ≤ limit then some { s with inFlight := after } else none

/-- `spawn_run`, of a call that goes on as `c`. -/
def spawnRun (s : Speculation) (n : ℕ) (c : SpawnCall) (run : List InflightGuard) : Speculation :=
  if run = [] then s.setCall n c
  else
    let cut := { c with runs := c.runs ++ [run] }
    match s.tryClaim run.length (budgetLimit c.connections) with
    | none => s.setCall n { cut with ops := run.map .drop }
    | some s =>
        { s.setCall n cut with
          fetches := s.fetches ++
            [{ ino := c.ino, claims := run, share := run.length, stage := .spawned }] }

/-- The next step of `spawn_prefetch`. -/
def turn (s : Speculation) (n : ℕ) (c : SpawnCall) : Speculation :=
  match c.ops with
  | op :: ops => (s.perform op).1.setCall n { c with ops := (s.perform op).2 ++ ops }
  | [] =>
      match c.stage with
      | .turning =>
          match c.blocks with
          | [] => s.spawnRun n { c with stage := .returned, run := [] } c.run
          | b :: blocks =>
              let contained := (s.cache.get (c.ino, b.toNat)).isSome
              s.setCall n { c with
                blocks := blocks
                stage := if contained then .asked b none else .missed b }
      | .missed b =>
          match s.cache.claimInflight (c.ino, b.toNat) with
          | (true, cache) =>
              let g := { ino := c.ino, block := b, slot := s.cache.slots }
              { s with cache := cache }.setCall n
                { c with stage := .asked b (some g), claimed := c.claimed ++ [g] }
          | (false, _) => s.setCall n { c with stage := .asked b none }
      | .asked b ours =>
          if ours.isNone || !c.continues b then
            s.spawnRun n { c with stage := .turning, run := ours.toList } c.run
          else s.setCall n { c with stage := .turning, run := c.run ++ ours.toList }
      | .returned => s

/-- A download ends, and goes on with these. -/
def finish (s : Speculation) (n : ℕ) (f : Fetch) (ops : List GuardOp) : Speculation :=
  s.setFetch n { f with stage := .finishing ops }

def after (s : Speculation) : SpecEvent → Speculation
  | .prefetch ino blocks connections =>
      { s with calls := s.calls ++ [.start ino blocks connections] }
  | .turn n => (s.calls[n]?).elim s (s.turn n)
  | .read ino b =>
      match s.cache.claimInflight (ino, b.toNat) with
      | (true, cache) =>
          { s with
            cache := cache
            fetches := s.fetches ++ [⟨ino, [⟨ino, b, s.cache.slots⟩], 0, .downloading⟩] }
      | (false, _) => s
  | .poll n =>
      match s.fetches[n]? with
      | some ⟨ino, claims, share, .spawned⟩ => s.setFetch n ⟨ino, claims, share, .downloading⟩
      | _ => s
  | .answer n data =>
      match s.fetches[n]? with
      | some ⟨ino, claims, share, .downloading⟩ =>
          let f : Fetch := ⟨ino, claims, share, .downloading⟩
          s.finish n f (f.publish s.blockSize data ++ [.refund share])
      | _ => s
  | .fail n =>
      match s.fetches[n]? with
      | some ⟨ino, claims, share, .downloading⟩ =>
          let f : Fetch := ⟨ino, claims, share, .downloading⟩
          s.finish n f (f.release ++ [.refund share])
      | _ => s
  | .abort n shareFirst =>
      match s.fetches[n]? with
      | some ⟨_, _, _, .finishing _⟩ | none => s
      | some f =>
          s.finish n f (if shareFirst then .refund f.share :: f.release
            else f.release ++ [.refund f.share])
  | .work n =>
      match s.fetches[n]? with
      | some ⟨ino, claims, share, .finishing (op :: ops)⟩ =>
          (s.perform op).1.setFetch n ⟨ino, claims, share, .finishing ((s.perform op).2 ++ ops)⟩
      | _ => s
  | .evict key => { s with cache := s.cache.evict key }
  | .unlist key => { s with cache := s.cache.unlist key }
  | .revoke key => { s with cache := (s.cache.unclaim key).2.ring (s.cache.unclaim key).1 }

end Speculation

/-! ### What tasks have in hand -/

/-- A claim is given back under the name of its own block, and what is said to be published was
inserted. -/
def GuardOp.Fits (inserted : List InflightGuard) : GuardOp → Prop
  | put key _ g => key = g.key
  | list key g => key = g.key ∧ g ∈ inserted
  | resolve key outcome g => key = g.key ∧ (outcome = .published → g ∈ inserted)
  | ring _ | refund _ => True

theorem GuardOp.Fits.mono {inserted inserted' : List InflightGuard} {op : GuardOp}
    (h : op.Fits inserted) (hsub : inserted ⊆ inserted') : op.Fits inserted' := by
  cases op with
  | put => exact h
  | list => exact ⟨h.1, hsub h.2⟩
  | resolve => exact ⟨h.1, fun hpublished => hsub (h.2 hpublished)⟩
  | ring | refund => trivial

theorem GuardOp.fits_drop (inserted : List InflightGuard) (g : InflightGuard) :
    (GuardOp.drop g).Fits inserted := ⟨rfl, nofun⟩

def opsGuards (ops : List GuardOp) : List InflightGuard := ops.flatMap GuardOp.guards

@[simp] theorem opsGuards_nil : opsGuards [] = [] := rfl

@[simp] theorem opsGuards_cons (op : GuardOp) (ops : List GuardOp) :
    opsGuards (op :: ops) = op.guards ++ opsGuards ops := rfl

@[simp] theorem opsGuards_append (ops ops' : List GuardOp) :
    opsGuards (ops ++ ops') = opsGuards ops ++ opsGuards ops' := List.flatMap_append ..

@[simp] theorem opsGuards_drop (gs : List InflightGuard) : opsGuards (gs.map .drop) = gs := by
  induction gs with
  | nil => rfl
  | cons g gs ih => rw [List.map_cons, opsGuards_cons, ih]; rfl

namespace CallStage

def guards : CallStage → List InflightGuard
  | asked _ ours => ours.toList
  | _ => []

/-- The block it is about to claim. -/
def pending : CallStage → List UInt64
  | missed b => [b]
  | _ => []

@[simp] theorem guards_asked (b : UInt64) (ours : Option InflightGuard) :
    (asked b ours).guards = ours.toList := rfl

@[simp] theorem pending_asked (b : UInt64) (ours : Option InflightGuard) :
    (asked b ours).pending = [] := rfl

end CallStage

def SpawnCall.guards (c : SpawnCall) : List InflightGuard :=
  c.run ++ c.stage.guards ++ opsGuards c.ops

namespace FetchStage

def guards (claims : List InflightGuard) : FetchStage → List InflightGuard
  | spawned | downloading => claims
  | finishing ops => opsGuards ops

/-- The share of the budget, until that is given back. -/
def owed (share : ℕ) : FetchStage → ℕ
  | spawned | downloading => share
  | finishing ops => (ops.map GuardOp.blocks).sum

def ops : FetchStage → List GuardOp
  | spawned | downloading => []
  | finishing ops => ops

end FetchStage

namespace Fetch

def guards (f : Fetch) : List InflightGuard := f.stage.guards f.claims

def owed (f : Fetch) : ℕ := f.stage.owed f.share

/-- The task is through. -/
def Ended (f : Fetch) : Prop := f.stage = .finishing []

end Fetch

namespace Speculation

variable {s t : Speculation} {n : ℕ} {c c' : SpawnCall} {f f' : Fetch} {new : List Fetch}
  {g : InflightGuard} {op : GuardOp} {before now before' now' : List InflightGuard}

def guards (s : Speculation) : List InflightGuard :=
  s.calls.flatMap SpawnCall.guards ++ s.fetches.flatMap Fetch.guards

def Logged (s : Speculation) (g : InflightGuard) : Prop := ∃ r ∈ s.log, r.guard = g

/-- What a task has done that had these claims in hand `before` and has these now. -/
inductive Handled (s t : Speculation) (before now : List InflightGuard) : Prop
  | pass (hguards : now.Perm before) (hlog : t.log = s.log)
      (hclaims : t.cache.inFlight = s.cache.inFlight) (hslots : t.cache.slots = s.cache.slots)
  | claim (g : InflightGuard) (hslot : g.slot = s.cache.slots)
      (hfree : s.cache.inFlight g.key = none) (hguards : now.Perm (g :: before))
      (hlog : t.log = s.log)
      (hclaims : t.cache.inFlight = Function.update s.cache.inFlight g.key (some g.slot))
      (hslots : t.cache.slots = s.cache.slots + 1)
  | resolve (g : InflightGuard) (outcome : ClaimOutcome) (hguards : before.Perm (g :: now))
      (hlog : t.log = ⟨g, outcome, s.cache.inFlight g.key⟩ :: s.log)
      (hclaims : t.cache.inFlight = Function.update s.cache.inFlight g.key none)
      (hslots : t.cache.slots = s.cache.slots)

/-- What others have in hand stays with them. -/
theorem Handled.frame (rest : List InflightGuard) (h : Handled s t before now)
    (hbefore : before'.Perm (before ++ rest))
    (hnow : now'.Perm (now ++ rest)) : Handled s t before' now' := by
  cases h with
  | pass hguards hlog hclaims hslots =>
      exact .pass (hnow.trans ((hguards.append_right rest).trans hbefore.symm)) hlog hclaims hslots
  | claim g hslot hfree hguards hlog hclaims hslots =>
      exact .claim g hslot hfree
        (hnow.trans ((hguards.append_right rest).trans (hbefore.symm.cons g))) hlog hclaims hslots
  | resolve g outcome hguards hlog hclaims hslots =>
      exact .resolve g outcome
        (hbefore.trans ((hguards.append_right rest).trans (hnow.symm.cons g))) hlog hclaims hslots

/-- Claims and log are all that it is about. -/
theorem Handled.of_same {t' : Speculation} (h : Handled s t before now) (hlog : t'.log = t.log)
    (hcache : t'.cache = t.cache) : Handled s t' before now := by
  cases h with
  | pass hguards hlog' hclaims hslots =>
      exact .pass hguards (hlog.trans hlog') (hcache ▸ hclaims) (hcache ▸ hslots)
  | claim g hslot hfree hguards hlog' hclaims hslots =>
      exact .claim g hslot hfree hguards (hlog.trans hlog') (hcache ▸ hclaims) (hcache ▸ hslots)
  | resolve g outcome hguards hlog' hclaims hslots =>
      exact .resolve g outcome hguards (hlog.trans hlog') (hcache ▸ hclaims) (hcache ▸ hslots)

/-- What only ever grows. -/
structure Grows (s t : Speculation) : Prop where
  inserted : s.inserted ⊆ t.inserted
  logged : ∀ g, s.Logged g → t.Logged g
  claims : ∀ f ∈ s.fetches, ∃ f' ∈ t.fetches, f'.claims = f.claims
  slots : s.cache.slots ≤ t.cache.slots

section Perform

variable (s) (op)

@[simp] theorem calls_perform : (s.perform op).1.calls = s.calls := by
  cases op <;> rfl

@[simp] theorem fetches_perform : (s.perform op).1.fetches = s.fetches := by
  cases op <;> rfl

theorem inFlight_perform : (s.perform op).1.inFlight = s.inFlight - op.blocks := by
  cases op <;> rfl

theorem blocks_perform : ((s.perform op).2.map GuardOp.blocks).sum = 0 := by
  cases op <;> rfl

variable {s op}

theorem blocks_of_mem_perform {op' : GuardOp} (h : op' ∈ (s.perform op).2) : op'.blocks = 0 := by
  cases op with
  | put | list | resolve =>
      obtain rfl := List.mem_singleton.mp h
      rfl
  | ring | refund => cases h

theorem handled_perform (h : op.Fits s.inserted) :
    Handled s (s.perform op).1 op.guards (opsGuards (s.perform op).2) := by
  cases op with
  | put | list | refund => exact .pass (.refl _) rfl rfl rfl
  | resolve key outcome g =>
      obtain rfl : key = g.key := h.1
      exact .resolve g outcome (.refl _) rfl rfl rfl
  | ring slot => cases slot <;> exact .pass (.refl _) rfl rfl rfl

theorem fits_perform (h : op.Fits s.inserted) :
    ∀ op' ∈ (s.perform op).2, op'.Fits (s.perform op).1.inserted := by
  cases op with
  | put key piece g =>
      intro op' hop'
      obtain rfl := List.mem_singleton.mp hop'
      exact ⟨h, List.mem_cons_self ..⟩
  | list key g =>
      intro op' hop'
      obtain rfl := List.mem_singleton.mp hop'
      exact ⟨h.1, fun _ => h.2⟩
  | resolve key outcome g =>
      intro op' hop'
      obtain rfl := List.mem_singleton.mp hop'
      trivial
  | ring | refund => nofun

theorem grows_perform : Grows s (s.perform op).1 := by
  refine ⟨?_, fun g hg => ?_, fun f hf => ⟨f, by rwa [fetches_perform], rfl⟩, ?_⟩
  · cases op with
    | put => exact List.subset_cons_self ..
    | list | resolve | ring | refund => exact List.Subset.refl _
  · obtain ⟨r, hr, rfl⟩ := hg
    cases op with
    | resolve => exact ⟨r, List.mem_cons_of_mem _ hr, rfl⟩
    | put | list | ring | refund => exact ⟨r, hr, rfl⟩
  · cases op with
    | ring slot => cases slot <;> exact Nat.le_refl _
    | put | list | resolve | refund => exact Nat.le_refl _

/-- A claim that was in hand is in hand still, or was given back. -/
theorem kept_perform (hg : g ∈ op.guards) :
    g ∈ opsGuards (s.perform op).2 ∨ (s.perform op).1.Logged g := by
  cases op with
  | put | list => exact .inl hg
  | resolve =>
      obtain rfl := List.mem_singleton.mp hg
      exact .inr ⟨_, List.mem_cons_self .., rfl⟩
  | ring | refund => cases hg

/-- What the log says was published was inserted. -/
def LogFits (s : Speculation) : Prop :=
  ∀ r ∈ s.log, r.outcome = .published → r.guard ∈ s.inserted

theorem LogFits.perform (h : s.LogFits) (hop : op.Fits s.inserted) :
    (s.perform op).1.LogFits := by
  cases op with
  | put => exact fun r hr hpublished => List.mem_cons_of_mem _ (h r hr hpublished)
  | resolve =>
      intro r hr hpublished
      rcases List.mem_cons.mp hr with rfl | hr
      · exact hop.2 hpublished
      · exact h r hr hpublished
  | list | ring | refund => exact h

end Perform

end Speculation

end SynologyFilestation.Fuse
