import SynologyFilestation.Library.Transition
import SynologyFilestation.Library.Table
import Mathlib.Data.List.Basic

/-!
The read cache of the mount (`ReadCache` in `fuse/src/cache.rs`), and everything
that acts on it at once: reads, the downloads they and the prefetch claim, the
guards that give a claim back, evictions, and invalidations of a file.

The cache has three tables behind three locks, and no operation holds two of
them. So the steps here are the locked sections, not the calls: `insert` is
three of them, `resolve` two, an invalidation as many as it meets blocks. A
task is what it still has to do.

A block carries the number of invalidations of its file that had begun when its
download began, and a read the highest-numbered one that had returned when it
was asked. They are what the properties are about; no step depends on them.
-/

namespace SynologyFilestation.Fuse

open Function Library

/-- `(ino, block_idx)`. -/
abbrev BlockKey := ℕ × ℕ

structure Block where
  data : List UInt8
  /-- Invalidations of the file begun before the download was. -/
  began : ℕ

/-- The tables. A claim is a numbered slot; `resolved` is the slot's doorbell. -/
structure ReadCache where
  blocks : BlockKey → Option Block
  inoBlocks : ℕ → List ℕ
  inFlight : BlockKey → Option ℕ
  resolved : ℕ → Bool
  /-- Slots made so far. -/
  slots : ℕ

namespace ReadCache

def new : ReadCache :=
  { blocks := fun _ => none, inoBlocks := fun _ => [], inFlight := fun _ => none,
    resolved := fun _ => false, slots := 0 }

def get (c : ReadCache) (key : BlockKey) : Option Block := c.blocks key

/-- `insert`, its first half: the block. -/
def put (c : ReadCache) (key : BlockKey) (block : Block) : ReadCache :=
  { c with blocks := update c.blocks key (some block) }

/-- `insert`, its second half: the block's entry in the file's list. Its third
is `resolve`. -/
def list (c : ReadCache) (key : BlockKey) : ReadCache :=
  { c with inoBlocks := update c.inoBlocks key.1 ((c.inoBlocks key.1).insert key.2) }

/-- `claim_inflight`. -/
def claimInflight (c : ReadCache) (key : BlockKey) : Bool × ReadCache :=
  match c.inFlight key with
  | some _ => (false, c)
  | none =>
      (true, { c with inFlight := update c.inFlight key (some c.slots), slots := c.slots + 1 })

/-- `resolve`, under the lock of the claims: whatever claim is there. -/
def unclaim (c : ReadCache) (key : BlockKey) : Option ℕ × ReadCache :=
  (c.inFlight key, { c with inFlight := update c.inFlight key none })

/-- `resolve`, on the slot it took: wake whoever waits. -/
def ring (c : ReadCache) : Option ℕ → ReadCache
  | none => c
  | some slot => { c with resolved := update c.resolved slot true }

theorem ring_eq (c : ReadCache) (slot : Option ℕ) :
    ∃ resolved, c.ring slot = { c with resolved := resolved } := by
  cases slot with
  | none => exact ⟨c.resolved, rfl⟩
  | some slot => exact ⟨_, rfl⟩

/-- A block leaves: by eviction, or by `blocks.invalidate`. -/
def evict (c : ReadCache) (key : BlockKey) : ReadCache :=
  { c with blocks := update c.blocks key none }

/-- `invalidate_block`, its second half. -/
def unlist (c : ReadCache) (key : BlockKey) : ReadCache :=
  { c with inoBlocks := update c.inoBlocks key.1 ((c.inoBlocks key.1).erase key.2) }

/-- `invalidate_ino`, its first step: the file's list is taken away. -/
def takeList (c : ReadCache) (ino : ℕ) : ReadCache :=
  { c with inoBlocks := update c.inoBlocks ino [] }

end ReadCache

/-! ### The tasks -/

/-- How far a download is. What a claim's guard does when it is dropped, and
what `insert` does last, is the same `resolve`; `ok` says after which. -/
inductive Phase
  | claimed
  | downloading
  | fetched
  | put
  | listed
  | failed
  | ringing (ok : Bool) (slot : Option ℕ)
  | done (ok : Bool)
  deriving DecidableEq

/-- A claim and the download under it: one of a read's own, or one block of a
prefetched run. -/
structure Download where
  key : BlockKey
  phase : Phase
  block : Block
  /-- An invalidation took the claim away. -/
  cancelled : Bool

/-- How far a read of one block is. -/
inductive ReadPhase
  | asked
  | missed
  | owning (slot : ℕ)
  /-- The block was claimed by `slot`. -/
  | lost (slot : ℕ)
  | waiting (slot : ℕ)
  | woken (slot : ℕ) (timedOut : Bool)
  | returned (block : Block)
  /-- Told "no block" after waiting on `slot`. -/
  | refused (slot : ℕ) (timedOut : Bool)
  /-- The read's own download failed. -/
  | errored

structure Read where
  key : BlockKey
  phase : ReadPhase
  /-- The last invalidation of the file that had returned when the read was asked. -/
  since : ℕ

/-- What an invalidation still has to do. -/
inductive InvalidateOp
  | evict (idx : ℕ)
  | unclaim (idx : ℕ)
  | ring (slot : Option ℕ)
  /-- Collect the file's claims, and give each back. -/
  | collect

/-- `invalidate_ino`, from the moment it has taken the file's list on. -/
structure Invalidation where
  ino : ℕ
  number : ℕ
  ops : List InvalidateOp

/-- The blocks it took, one after the other, and then the claims. -/
def invalidateOps (taken : List ℕ) : List InvalidateOp :=
  taken.flatMap (fun idx => [.evict idx, .unclaim idx]) ++ [.collect]

/-- The cache and every task on it. Downloads are numbered by their slots. -/
structure System where
  cache : ReadCache
  downloads : ℕ → Option Download
  reads : ℕ → Option Read
  invalidations : ℕ → Option Invalidation
  /-- Invalidations of each file begun so far, and the last of them to have returned. -/
  begun : ℕ → ℕ
  settled : ℕ → ℕ

def System.initial : System :=
  { cache := .new, downloads := fun _ => none, reads := fun _ => none,
    invalidations := fun _ => none, begun := fun _ => 0, settled := fun _ => 0 }

/-- A download whose claim is not yet given back. -/
def Phase.unreleased : Phase → Bool
  | .ringing _ _ | .done _ => false
  | _ => true

/-- A download that has put its block in the cache. -/
def Phase.landed : Phase → Bool
  | .put | .listed | .ringing true _ | .done true => true
  | _ => false

/-- The guard is dropped without the block being published: the download failed,
came back empty at open, or its task was aborted. -/
def Phase.canFail : Phase → Bool
  | .claimed | .downloading | .fetched => true
  | _ => false

inductive Event
  | ask (read : ℕ) (key : BlockKey)
  | get (read : ℕ)
  | claim (read : ℕ)
  | answer (read : ℕ)
  | look (read : ℕ)
  | wake (read : ℕ)
  | timeOut (read : ℕ)
  | prefetch (key : BlockKey)
  | begin (slot : ℕ)
  | fetch (slot : ℕ)
  | fail (slot : ℕ)
  | put (slot : ℕ)
  | list (slot : ℕ)
  | unclaim (slot : ℕ)
  | ring (slot : ℕ)
  | evict (key : BlockKey)
  | unlist (key : BlockKey)
  | take (task : ℕ) (ino : ℕ)
  | invalidate (task : ℕ)
  | settle (task : ℕ)

namespace System

def setDownload (s : System) (slot : ℕ) (d : Download) : System :=
  { s with downloads := update s.downloads slot (some d) }

def setRead (s : System) (read : ℕ) (r : Read) : System :=
  { s with reads := update s.reads read (some r) }

def setInvalidation (s : System) (task : ℕ) (v : Invalidation) : System :=
  { s with invalidations := update s.invalidations task (some v) }

/-- A claim that was won: a new slot, and the download under it. -/
def startDownload (s : System) (key : BlockKey) : System :=
  { s with cache := (s.cache.claimInflight key).2 }.setDownload s.cache.slots
    { key := key, phase := .claimed, block := { data := [], began := 0 }, cancelled := false }

/-- The claim an invalidation took away. -/
def cancelDownload (s : System) : Option ℕ → System
  | none => s
  | some slot =>
      match s.downloads slot with
      | none => s
      | some d => s.setDownload slot { d with cancelled := true }

/-- Taking a claim away touches the downloads alone. -/
theorem cancelDownload_eq (s : System) (slot : Option ℕ) :
    ∃ downloads, s.cancelDownload slot = { s with downloads := downloads } := by
  unfold cancelDownload
  split
  · exact ⟨s.downloads, rfl⟩
  · split
    · exact ⟨s.downloads, rfl⟩
    · exact ⟨_, rfl⟩

end System

/-- The steps. Each is one locked section of one task. -/
inductive Step (s : System) : Event → System → Prop
  /-- `read_range` turns to a block. -/
  | ask {n key} (hnew : s.reads n = none) :
      Step s (.ask n key) (s.setRead n { key := key, phase := .asked, since := s.settled key.1 })
  /-- `read_cache.get`. -/
  | hit {n r block} (hr : s.reads n = some r) (hphase : r.phase = .asked)
      (hget : s.cache.get r.key = some block) :
      Step s (.get n) (s.setRead n { r with phase := .returned block })
  | miss {n r} (hr : s.reads n = some r) (hphase : r.phase = .asked)
      (hget : s.cache.get r.key = none) : Step s (.get n) (s.setRead n { r with phase := .missed })
  /-- `claim_inflight`, won. -/
  | win {n r} (hr : s.reads n = some r) (hphase : r.phase = .missed)
      (hclaim : s.cache.inFlight r.key = none) :
      Step s (.claim n)
        ((s.startDownload r.key).setRead n { r with phase := .owning s.cache.slots })
  /-- `claim_inflight`, lost. -/
  | lose {n r slot} (hr : s.reads n = some r) (hphase : r.phase = .missed)
      (hclaim : s.cache.inFlight r.key = some slot) :
      Step s (.claim n) (s.setRead n { r with phase := .lost slot })
  /-- The read whose own download is through returns what it downloaded. -/
  | answer {n r slot d} (hr : s.reads n = some r) (hphase : r.phase = .owning slot)
      (hd : s.downloads slot = some d) (hdone : d.phase = .done true) :
      Step s (.answer n) (s.setRead n { r with phase := .returned d.block })
  | answerError {n r slot d} (hr : s.reads n = some r) (hphase : r.phase = .owning slot)
      (hd : s.downloads slot = some d) (hdone : d.phase = .done false) :
      Step s (.answer n) (s.setRead n { r with phase := .errored })
  /-- `wait_for_block` finds a claim to wait on. -/
  | look {n r slot slot'} (hr : s.reads n = some r) (hphase : r.phase = .lost slot)
      (hclaim : s.cache.inFlight r.key = some slot') :
      Step s (.look n) (s.setRead n { r with phase := .waiting slot' })
  /-- It finds none: the claim it lost to is through. -/
  | lookNone {n r slot} (hr : s.reads n = some r) (hphase : r.phase = .lost slot)
      (hclaim : s.cache.inFlight r.key = none) :
      Step s (.look n) (s.setRead n { r with phase := .woken slot false })
  | wake {n r slot} (hr : s.reads n = some r) (hphase : r.phase = .waiting slot)
      (hresolved : s.cache.resolved slot = true) :
      Step s (.wake n) (s.setRead n { r with phase := .woken slot false })
  /-- `BLOCK_WAIT_TIMEOUT` has passed. -/
  | timeOut {n r slot} (hr : s.reads n = some r) (hphase : r.phase = .waiting slot) :
      Step s (.timeOut n) (s.setRead n { r with phase := .woken slot true })
  /-- The waiter's lookup. -/
  | wokenHit {n r slot timedOut block} (hr : s.reads n = some r)
      (hphase : r.phase = .woken slot timedOut) (hget : s.cache.get r.key = some block) :
      Step s (.get n) (s.setRead n { r with phase := .returned block })
  | wokenMiss {n r slot timedOut} (hr : s.reads n = some r)
      (hphase : r.phase = .woken slot timedOut) (hget : s.cache.get r.key = none) :
      Step s (.get n) (s.setRead n { r with phase := .refused slot timedOut })
  /-- `spawn_prefetch`, or the claim of block 0 at open. -/
  | prefetch {key} (hclaim : s.cache.inFlight key = none) :
      Step s (.prefetch key) (s.startDownload key)
  | begin {slot d} (hd : s.downloads slot = some d) (hphase : d.phase = .claimed) :
      Step s (.begin slot) (s.setDownload slot
        { d with phase := .downloading, block := { data := [], began := s.begun d.key.1 } })
  | fetch {slot d} {data : List UInt8} (hd : s.downloads slot = some d)
      (hphase : d.phase = .downloading) :
      Step s (.fetch slot) (s.setDownload slot
        { d with phase := .fetched, block := { d.block with data := data } })
  | fail {slot d} (hd : s.downloads slot = some d) (hphase : d.phase.canFail = true) :
      Step s (.fail slot) (s.setDownload slot { d with phase := .failed })
  | put {slot d} (hd : s.downloads slot = some d) (hphase : d.phase = .fetched) :
      Step s (.put slot) ({ s with cache := s.cache.put d.key d.block }.setDownload slot
        { d with phase := .put })
  | list {slot d} (hd : s.downloads slot = some d) (hphase : d.phase = .put) :
      Step s (.list slot) ({ s with cache := s.cache.list d.key }.setDownload slot
        { d with phase := .listed })
  /-- `resolve`, at the end of `insert`. -/
  | unclaim {slot d} (hd : s.downloads slot = some d) (hphase : d.phase = .listed) :
      Step s (.unclaim slot)
        ({ s with cache := (s.cache.unclaim d.key).2 }.setDownload slot
          { d with phase := .ringing true (s.cache.unclaim d.key).1 })
  /-- `resolve`, from the guard. -/
  | cancel {slot d} (hd : s.downloads slot = some d) (hphase : d.phase = .failed) :
      Step s (.unclaim slot)
        ({ s with cache := (s.cache.unclaim d.key).2 }.setDownload slot
          { d with phase := .ringing false (s.cache.unclaim d.key).1 })
  | ring {slot d ok taken} (hd : s.downloads slot = some d) (hphase : d.phase = .ringing ok taken) :
      Step s (.ring slot) ({ s with cache := s.cache.ring taken }.setDownload slot
        { d with phase := .done ok })
  /-- The cache evicts when it likes: idle too long, or full. -/
  | evict {key} : Step s (.evict key) { s with cache := s.cache.evict key }
  | unlist {key} : Step s (.unlist key) { s with cache := s.cache.unlist key }
  /-- `invalidate_ino` takes the file's list, in the order it will go through it. -/
  | take {n ino} {taken : List ℕ} (hnew : s.invalidations n = none)
      (htaken : ∀ idx, idx ∈ taken ↔ idx ∈ s.cache.inoBlocks ino) :
      Step s (.take n ino)
        ({ s with
            cache := s.cache.takeList ino
            begun := update s.begun ino (s.begun ino + 1) }.setInvalidation n
          { ino := ino, number := s.begun ino + 1, ops := invalidateOps taken })
  | invalidateEvict {n v idx ops} (hv : s.invalidations n = some v)
      (hops : v.ops = .evict idx :: ops) :
      Step s (.invalidate n)
        ({ s with cache := s.cache.evict (v.ino, idx) }.setInvalidation n { v with ops := ops })
  | invalidateUnclaim {n v idx ops} (hv : s.invalidations n = some v)
      (hops : v.ops = .unclaim idx :: ops) :
      Step s (.invalidate n)
        (({ s with cache := (s.cache.unclaim (v.ino, idx)).2 }.cancelDownload
          (s.cache.unclaim (v.ino, idx)).1).setInvalidation n
            { v with ops := .ring (s.cache.unclaim (v.ino, idx)).1 :: ops })
  | invalidateRing {n v slot ops} (hv : s.invalidations n = some v)
      (hops : v.ops = .ring slot :: ops) :
      Step s (.invalidate n)
        ({ s with cache := s.cache.ring slot }.setInvalidation n { v with ops := ops })
  | invalidateCollect {n v ops} {claimed : List ℕ} (hv : s.invalidations n = some v)
      (hops : v.ops = .collect :: ops)
      (hclaimed : ∀ idx, idx ∈ claimed ↔ (s.cache.inFlight (v.ino, idx)).isSome) :
      Step s (.invalidate n) (s.setInvalidation n { v with ops := claimed.map .unclaim ++ ops })
  /-- `invalidate_ino` returns. -/
  | settle {n v} (hv : s.invalidations n = some v) (hops : v.ops = []) :
      Step s (.settle n)
        { s with settled := update s.settled v.ino (max (s.settled v.ino) v.number) }

end SynologyFilestation.Fuse
