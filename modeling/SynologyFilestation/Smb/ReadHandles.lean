import SynologyFilestation.Library.Transition
import SynologyFilestation.Library.Table
import SynologyFilestation.Smb.HandleCache

/-!
Block reads, over the main session and the extra connections, against the
operations that change what a path names (`smb/src/transport.rs`). A handle
keeps reading the file it was opened on, so a change has to drop the handles of
its paths on every connection: it does so before it asks the server, if at all,
while a read opens its handle without a lock and puts it into the cache later.

A step is one access to a cache or to the pool, or what the server does at one
moment. A handle carries the operations that had taken effect when it was
opened, and a read those that had returned `Ok` when it started.
-/

namespace SynologyFilestation.Smb

open Function Library Core

structure Handle where
  after : List ℕ
  deriving DecidableEq

inductive Conn
  | main
  | lane (l : ℕ)
  deriving DecidableEq

/-- `sibling_path`. -/
def siblingPath (old : NasPath) (newName : String) : NasPath :=
  (trimEnd old).dropLast ++ [newName]

/-- The operations of the transport that change what a path names. -/
inductive Change
  | delete (path : NasPath)
  /-- The `delete` of `MetadataTransport`. -/
  | metadataDelete (path : NasPath)
  | rename (old : NasPath) (newName : String)
  | moveTo (source target : NasPath)
  | truncate (path : NasPath)
  | writeAtomic (path : NasPath)
  | writeFromPath (path : NasPath)
  | writeNewFromPath (path : NasPath)
  | openWrite (path : NasPath)

/-- `forget_handle` and `forget_handles_under`. -/
inductive Forget
  | handle (path : NasPath)
  | handlesUnder (top : NasPath)

def Forget.covers : Forget → NasPath → Bool
  | .handle path, key => key = path
  | .handlesUnder top, key => under key top

def Forget.run {H : Type} (c : HandleCache H) : Forget → HandleCache H
  | .handle path => c.invalidate path
  | .handlesUnder top => c.invalidateUnder top

theorem Forget.holds_run {H : Type} {c : HandleCache H} {f : Forget} {key : NasPath} {h : H}
    (hholds : (f.run c).Holds key h) : c.Holds key h ∧ f.covers key = false := by
  cases f with
  | handle path =>
      obtain ⟨hheld, hkept⟩ := HandleCache.holds_retain hholds
      exact ⟨hheld, by simpa [Forget.covers] using hkept⟩
  | handlesUnder top =>
      obtain ⟨hheld, hkept⟩ := HandleCache.holds_retain hholds
      exact ⟨hheld, by simpa [Forget.covers] using hkept⟩

namespace Change

/-- What is forgotten before the server is asked. -/
def forgets : Change → List Forget
  | .delete path => [.handlesUnder path]
  | .metadataDelete _ => []
  | .rename old _ => [.handlesUnder old]
  | .moveTo source target => [.handlesUnder source, .handlesUnder target]
  | .truncate path | .writeAtomic path | .writeFromPath path | .openWrite path => [.handle path]
  | .writeNewFromPath _ => []

/-- The paths it is an operation on. -/
def paths : Change → List NasPath
  | .delete path | .metadataDelete path | .truncate path | .writeAtomic path
  | .writeFromPath path | .writeNewFromPath path | .openWrite path => [path]
  | .rename old newName => [old, siblingPath old newName]
  | .moveTo source target => [source, target]

/-- A path of the operation, or one under it. -/
def touches (k : Change) (path : NasPath) : Bool := k.paths.any (under path)

end Change

/-- Where a read, or one piece of it, is. -/
inductive ReadPhase
  | looking (conn : Conn)
  | opening (conn : Conn)
  /-- With a handle that the cache does not have yet. -/
  | holding (conn : Conn) (h : Handle)
  | reading (conn : Conn) (h : Handle)
  | done

def ReadPhase.conn : ReadPhase → Option Conn
  | .looking conn | .opening conn | .holding conn _ | .reading conn _ => some conn
  | .done => none

structure BlockRead where
  path : NasPath
  /-- The operations that had returned `Ok` when it started. -/
  before : List ℕ
  phase : ReadPhase

inductive ChangePhase
  /-- To be forgotten on the main session; nothing left: the server is asked. -/
  | forgetting (todo : List Forget)
  | listing (f : Forget) (todo : List Forget)
  /-- To be forgotten on these lanes. -/
  | onLanes (f : Forget) (left : List ℕ) (todo : List Forget)
  | acted
  | done

/-- It has not taken effect. -/
def ChangePhase.pending : ChangePhase → Bool
  | .forgetting _ | .listing _ _ | .onLanes _ _ _ => true
  | .acted | .done => false

structure ChangeCall where
  kind : Change
  phase : ChangePhase

inductive LaneState
  | live
  /-- Taken off the list of the live, not yet on that of the draining. -/
  | retiring
  | draining
  | drained
  deriving DecidableEq

/-- A read went through a handle. -/
structure Served where
  path : NasPath
  before : List ℕ
  handle : Handle

structure SmbReads where
  caches : Conn → HandleCache Handle
  lanes : ℕ → Option LaneState
  reads : ℕ → Option BlockRead
  changes : ℕ → Option ChangeCall
  acted : List ℕ
  returned : List ℕ
  served : List Served

namespace SmbReads

def initial (capacity : ℕ) : SmbReads :=
  { caches := fun _ => .new capacity, lanes := fun _ => none, reads := fun _ => none,
    changes := fun _ => none, acted := [], returned := [], served := [] }

def setCache (s : SmbReads) (conn : Conn) (c : HandleCache Handle) : SmbReads :=
  { s with caches := update s.caches conn c }

def setRead (s : SmbReads) (m : ℕ) (r : BlockRead) : SmbReads :=
  { s with reads := update s.reads m (some r) }

def setChange (s : SmbReads) (n : ℕ) (k : ChangeCall) : SmbReads :=
  { s with changes := update s.changes n (some k) }

def setLane (s : SmbReads) (l : ℕ) (state : LaneState) : SmbReads :=
  { s with lanes := update s.lanes l (some state) }

/-- `read_at` on the handle. -/
def serve (s : SmbReads) (r : BlockRead) (h : Handle) : SmbReads :=
  { s with served := ⟨r.path, r.before, h⟩ :: s.served }

/-- A read that starts now may use the connection. -/
def Usable (s : SmbReads) : Conn → Prop
  | .main => True
  | .lane l => s.lanes l = some .live

/-- `forget_on_lanes` reaches these. -/
def Reached (s : SmbReads) (l : ℕ) : Prop :=
  s.lanes l = some .live ∨ s.lanes l = some .draining

end SmbReads

inductive ReadsEvent
  | read (m : ℕ) (path : NasPath) (conn : Conn)
  | go (m : ℕ)
  | opened (m : ℕ)
  | stop (m : ℕ)
  | drop (conn : Conn) (path : NasPath)
  | lane (l : ℕ)
  | change (n : ℕ) (kind : Change)
  | forget (n : ℕ)
  | act (n : ℕ)
  | finish (n : ℕ)

/-- The steps of the reads, the lanes and the changes. -/
inductive ReadsStep (capacity : ℕ) (s : SmbReads) : ReadsEvent → SmbReads → Prop
  /-- A piece is dealt to a connection that is up. -/
  | read {m path conn} (hnew : s.reads m = none) (hconn : s.Usable conn) :
      ReadsStep capacity s (.read m path conn) (s.setRead m ⟨path, s.returned, .looking conn⟩)
  | hit {m r conn h} (hm : s.reads m = some r) (hphase : r.phase = .looking conn)
      (hhit : ((s.caches conn).get r.path).1 = some h) :
      ReadsStep capacity s (.go m)
        (((s.setCache conn ((s.caches conn).get r.path).2).serve r h).setRead m
          { r with phase := .reading conn h })
  | miss {m r conn} (hm : s.reads m = some r) (hphase : r.phase = .looking conn)
      (hmiss : ((s.caches conn).get r.path).1 = none) :
      ReadsStep capacity s (.go m) (s.setRead m { r with phase := .opening conn })
  /-- The server opens the file. -/
  | opened {m r conn} (hm : s.reads m = some r) (hphase : r.phase = .opening conn) :
      ReadsStep capacity s (.opened m)
        (s.setRead m { r with phase := .holding conn ⟨s.acted⟩ })
  | insert {m r conn h} (hm : s.reads m = some r) (hphase : r.phase = .holding conn h) :
      ReadsStep capacity s (.go m)
        (((s.setCache conn ((s.caches conn).insertOrExisting r.path h).2).serve r
            ((s.caches conn).insertOrExisting r.path h).1).setRead m
          { r with phase := .reading conn ((s.caches conn).insertOrExisting r.path h).1 })
  /-- `read_on_lane`, failed or short: the handle goes, and the main session is asked. -/
  | fallBack {m r l} (hm : s.reads m = some r) (hphase : r.phase.conn = some (.lane l)) :
      ReadsStep capacity s (.go m)
        ((s.setCache (.lane l) ((s.caches (.lane l)).invalidate r.path)).setRead m
          { r with phase := .looking .main })
  /-- Answered, failed or dropped. -/
  | stop {m r} (hm : s.reads m = some r) :
      ReadsStep capacity s (.stop m) (s.setRead m { r with phase := .done })
  /-- A failed read forgets its handle, a session that is gone all of them. -/
  | drop {conn path} :
      ReadsStep capacity s (.drop conn path)
        (s.setCache conn ((s.caches conn).invalidate path))
  | addLane {l} (hnew : s.lanes l = none) :
      ReadsStep capacity s (.lane l)
        ((s.setCache (.lane l) (.new capacity)).setLane l .live)
  | retire {l} (hl : s.lanes l = some .live) :
      ReadsStep capacity s (.lane l) (s.setLane l .retiring)
  | drain {l} (hl : s.lanes l = some .retiring) :
      ReadsStep capacity s (.lane l) (s.setLane l .draining)
  | drained {l} (hl : s.lanes l = some .draining) :
      ReadsStep capacity s (.lane l) (s.setLane l .drained)
  | change {n kind} (hnew : s.changes n = none) :
      ReadsStep capacity s (.change n kind) (s.setChange n ⟨kind, .forgetting kind.forgets⟩)
  | forget {n k f todo} (hn : s.changes n = some k) (hphase : k.phase = .forgetting (f :: todo)) :
      ReadsStep capacity s (.forget n)
        ((s.setCache .main (f.run (s.caches .main))).setChange n
          { k with phase := .listing f todo })
  /-- `pool.all()`. -/
  | list {n k f todo ls} (hn : s.changes n = some k) (hphase : k.phase = .listing f todo)
      (hls : ∀ l, l ∈ ls ↔ s.Reached l) :
      ReadsStep capacity s (.forget n) (s.setChange n { k with phase := .onLanes f ls todo })
  | forgetOnLane {n k f l left todo} (hn : s.changes n = some k)
      (hphase : k.phase = .onLanes f (l :: left) todo) :
      ReadsStep capacity s (.forget n)
        ((s.setCache (.lane l) (f.run (s.caches (.lane l)))).setChange n
          { k with phase := .onLanes f left todo })
  | forgotten {n k f todo} (hn : s.changes n = some k) (hphase : k.phase = .onLanes f [] todo) :
      ReadsStep capacity s (.forget n) (s.setChange n { k with phase := .forgetting todo })
  /-- It takes effect on the server. -/
  | act {n k} (hn : s.changes n = some k) (hphase : k.phase = .forgetting []) :
      ReadsStep capacity s (.act n)
        ({ s with acted := n :: s.acted }.setChange n { k with phase := .acted })
  | ok {n k} (hn : s.changes n = some k) (hphase : k.phase = .acted) :
      ReadsStep capacity s (.finish n)
        ({ s with returned := n :: s.returned }.setChange n { k with phase := .done })
  /-- It failed, or was dropped. -/
  | fail {n k} (hn : s.changes n = some k) :
      ReadsStep capacity s (.finish n) (s.setChange n { k with phase := .done })

/-! ### No stale handle -/

/-- No read goes through a handle that was opened, at or under a path of an
operation, before the operation took effect, if that had returned `Ok` before
the read started. -/
def NoStaleHandle (s : SmbReads) : Prop :=
  ∀ r ∈ s.served, ∀ n ∈ r.before, ∀ k, s.changes n = some k → k.kind.touches r.path = true →
    n ∈ r.handle.after

/-- When an operation takes effect, no connection that a later read can use has
a handle at or under its paths, and no read has one in hand for its cache. -/
def Cleared (s : SmbReads) : ReadsEvent → Prop
  | .act n => ∀ k, s.changes n = some k → k.phase = .forgetting [] →
      ∀ conn, s.Usable conn →
        (∀ path h, k.kind.touches path = true → ¬(s.caches conn).Holds path h) ∧
        ∀ m r h, s.reads m = some r → k.kind.touches r.path = true → r.phase ≠ .holding conn h
  | _ => True

/-- Whatever a connection has or is about to have of the operation's paths was
opened after it took effect. -/
def Renewed (s : SmbReads) (n : ℕ) (kind : Change) (conn : Conn) : Prop :=
  (∀ path h, kind.touches path = true → (s.caches conn).Holds path h → n ∈ h.after) ∧
  ∀ m r h, s.reads m = some r → kind.touches r.path = true → r.phase = .holding conn h →
    n ∈ h.after

/-- Later reads cannot use the connection. -/
def Abandoned (s : SmbReads) (n : ℕ) (conn : Conn) : Prop :=
  ¬s.Usable conn ∧ ∀ m r, s.reads m = some r → r.phase.conn = some conn → n ∉ r.before

structure UpToDate (s : SmbReads) : Prop where
  noStaleHandle : NoStaleHandle s
  acted : ∀ n ∈ s.acted, ∃ k, s.changes n = some k ∧ k.phase.pending = false
  acting : ∀ n k, s.changes n = some k → k.phase = .acted → n ∈ s.acted
  returned : ∀ n ∈ s.returned, n ∈ s.acted
  before : ∀ m r, s.reads m = some r → ∀ n ∈ r.before, n ∈ s.acted
  served : ∀ r ∈ s.served, ∀ n ∈ r.before, n ∈ s.acted
  renewed : ∀ n ∈ s.acted, ∀ k, s.changes n = some k → ∀ conn,
    Renewed s n k.kind conn ∨ Abandoned s n conn
  placed : ∀ m r l, s.reads m = some r → r.phase.conn = some (.lane l) → s.lanes l ≠ none

section Steps

variable {capacity : ℕ} {s s' : SmbReads} {e : ReadsEvent} {m n l : ℕ} {conn : Conn}
  {r r' : BlockRead} {k : ChangeCall} {h : Handle}

theorem upToDate_initial (capacity : ℕ) : UpToDate (.initial capacity) where
  noStaleHandle := nofun
  acted := nofun
  acting := nofun
  returned := nofun
  before := nofun
  served := nofun
  renewed := nofun
  placed := nofun

/-- A handle that a connection has, or a read has for it, and that a later read
may be served through. -/
theorem UpToDate.after (hs : UpToDate s) (hm : s.reads m = some r)
    (hconn : r.phase.conn = some conn)
    (hhas : (s.caches conn).Holds r.path h ∨ r.phase = .holding conn h) :
    ∀ n ∈ r.before, ∀ k, s.changes n = some k → k.kind.touches r.path = true → n ∈ h.after := by
  intro n hn k hk htouches
  rcases hs.renewed n (hs.before m r hm n hn) k hk conn with hrenewed | habandoned
  · rcases hhas with hholds | hholding
    · exact hrenewed.1 r.path h htouches hholds
    · exact hrenewed.2 m r h hm htouches hholding
  · exact (habandoned.2 m r hm hconn hn).elim

theorem UpToDate.setRead (hs : UpToDate s) (hbefore : ∀ n ∈ r.before, n ∈ s.acted)
    (hplaced : ∀ l, r.phase.conn = some (.lane l) → s.lanes l ≠ none)
    (hholding : ∀ conn h, r.phase = .holding conn h → ∀ n ∈ s.acted, n ∈ h.after)
    (habandoned : ∀ conn n, r.phase.conn = some conn → Abandoned s n conn → n ∉ r.before) :
    UpToDate (s.setRead m r) where
  noStaleHandle := hs.noStaleHandle
  acted := hs.acted
  acting := hs.acting
  returned := hs.returned
  before m' r' hm' := by
    rcases update_eq_some hm' with ⟨_, rfl⟩ | ⟨_, hm'⟩
    · exact hbefore
    · exact hs.before m' r' hm'
  served := hs.served
  renewed n hn k hk conn := by
    rcases hs.renewed n hn k hk conn with hrenewed | hgone
    · refine .inl ⟨hrenewed.1, ?_⟩
      intro m' r' h hm' htouches hphase
      rcases update_eq_some hm' with ⟨_, rfl⟩ | ⟨_, hm'⟩
      · exact hholding conn h hphase n hn
      · exact hrenewed.2 m' r' h hm' htouches hphase
    · refine .inr ⟨hgone.1, ?_⟩
      intro m' r' hm' hconn
      rcases update_eq_some hm' with ⟨_, rfl⟩ | ⟨_, hm'⟩
      · exact habandoned conn n hconn hgone
      · exact hgone.2 m' r' hm' hconn
  placed m' r' l hm' := by
    rcases update_eq_some hm' with ⟨_, rfl⟩ | ⟨_, hm'⟩
    · exact hplaced l
    · exact hs.placed m' r' l hm'

/-- A read goes on, on its connection or to its end. -/
theorem UpToDate.move (hs : UpToDate s) (hm : s.reads m = some r) (hbefore : r'.before = r.before)
    (hconn : ∀ conn, r'.phase.conn = some conn → r.phase.conn = some conn)
    (hholding : ∀ conn h, r'.phase = .holding conn h → ∀ n ∈ s.acted, n ∈ h.after) :
    UpToDate (s.setRead m r') := by
  refine hs.setRead ?_ ?_ hholding ?_
  · rw [hbefore]
    exact hs.before m r hm
  · exact fun l h => hs.placed m r l hm (hconn _ h)
  · intro conn n h hgone
    rw [hbefore]
    exact hgone.2 m r hm (hconn conn h)

/-- What a cache holds it held, or a read had for it. -/
theorem UpToDate.setCache (hs : UpToDate s) {c : HandleCache Handle}
    (hheld : ∀ path h, c.Holds path h → (s.caches conn).Holds path h ∨
      ∃ m r, s.reads m = some r ∧ r.path = path ∧ r.phase = .holding conn h) :
    UpToDate (s.setCache conn c) := by
  refine
    { noStaleHandle := hs.noStaleHandle, acted := hs.acted, acting := hs.acting
      returned := hs.returned, before := hs.before, served := hs.served, placed := hs.placed,
      renewed := ?_ }
  intro n hn k hk conn'
  rcases hs.renewed n hn k hk conn' with hrenewed | hgone
  · refine .inl ⟨?_, hrenewed.2⟩
    intro path h htouches hholds
    rcases eq_or_ne conn' conn with rfl | hne
    · have hholds : c.Holds path h := by simpa [SmbReads.setCache] using hholds
      rcases hheld path h hholds with hold | ⟨m, r, hm, rfl, hphase⟩
      · exact hrenewed.1 path h htouches hold
      · exact hrenewed.2 m r h hm htouches hphase
    · have hholds : (s.caches conn').Holds path h := by
        simpa [SmbReads.setCache, hne] using hholds
      exact hrenewed.1 path h htouches hholds
  · exact .inr hgone

/-- Entries only leave the cache. -/
theorem UpToDate.shrink (hs : UpToDate s) {c : HandleCache Handle}
    (hheld : ∀ path h, c.Holds path h → (s.caches conn).Holds path h) :
    UpToDate (s.setCache conn c) :=
  hs.setCache fun path h hholds => .inl (hheld path h hholds)

theorem UpToDate.serve (hs : UpToDate s) (hm : s.reads m = some r)
    (hafter : ∀ n ∈ r.before, ∀ k, s.changes n = some k → k.kind.touches r.path = true →
      n ∈ h.after) : UpToDate (s.serve r h) where
  noStaleHandle r' hr' := by
    rcases List.mem_cons.mp hr' with rfl | hr'
    · exact hafter
    · exact hs.noStaleHandle r' hr'
  acted := hs.acted
  acting := hs.acting
  returned := hs.returned
  before := hs.before
  served r' hr' := by
    rcases List.mem_cons.mp hr' with rfl | hr'
    · exact hs.before m r hm
    · exact hs.served r' hr'
  renewed := hs.renewed
  placed := hs.placed

/-- A lane that is no longer live. -/
theorem UpToDate.setLane (hs : UpToDate s) {state : LaneState} (hl : s.lanes l ≠ none)
    (hstate : state ≠ .live) : UpToDate (s.setLane l state) := by
  have husable : ∀ conn, (s.setLane l state).Usable conn → s.Usable conn := by
    intro conn h
    cases conn with
    | main => trivial
    | lane l' =>
        rcases update_eq_some h with ⟨_, heq⟩ | ⟨_, h⟩
        · exact (hstate heq.symm).elim
        · exact h
  refine
    { noStaleHandle := hs.noStaleHandle, acted := hs.acted, acting := hs.acting
      returned := hs.returned, before := hs.before, served := hs.served, renewed := ?_,
      placed := ?_ }
  · intro n hn k hk conn
    rcases hs.renewed n hn k hk conn with hrenewed | hgone
    · exact .inl hrenewed
    · exact .inr ⟨fun h => hgone.1 (husable conn h), hgone.2⟩
  · intro m r l' hm hconn
    rcases eq_or_ne l' l with rfl | hne
    · simp [SmbReads.setLane]
    · simpa [SmbReads.setLane, hne] using hs.placed m r l' hm hconn

/-- A lane that was not there has no handles, and no read is on it. -/
theorem UpToDate.addLane (hs : UpToDate s) (hnew : s.lanes l = none) :
    UpToDate ((s.setCache (.lane l) (.new capacity)).setLane l .live) := by
  refine
    { noStaleHandle := hs.noStaleHandle, acted := hs.acted, acting := hs.acting
      returned := hs.returned, before := hs.before, served := hs.served, renewed := ?_,
      placed := ?_ }
  · intro n hn k hk conn
    rcases eq_or_ne conn (.lane l) with rfl | hne
    · refine .inl ⟨?_, ?_⟩
      · intro path h _ hholds
        have hholds : (HandleCache.new capacity : HandleCache Handle).Holds path h := by
          simpa [SmbReads.setCache, SmbReads.setLane] using hholds
        exact (HandleCache.not_holds_new hholds).elim
      · intro m r h hm _ hphase
        exact (hs.placed m r l hm (by rw [hphase]; rfl) hnew).elim
    · rcases hs.renewed n hn k hk conn with hrenewed | hgone
      · refine .inl ⟨?_, hrenewed.2⟩
        intro path h htouches hholds
        refine hrenewed.1 path h htouches ?_
        simpa [SmbReads.setCache, SmbReads.setLane, hne] using hholds
      · refine .inr ⟨?_, hgone.2⟩
        cases conn with
        | main => exact (hgone.1 trivial).elim
        | lane l' =>
            have hlane : l' ≠ l := fun h => hne (congrArg Conn.lane h)
            intro h
            refine hgone.1 ?_
            simpa [SmbReads.Usable, SmbReads.setLane, SmbReads.setCache, hlane] using h
  · intro m r l' hm hconn
    rcases eq_or_ne l' l with rfl | hne
    · simp [SmbReads.setLane]
    · simpa [SmbReads.setLane, SmbReads.setCache, hne] using hs.placed m r l' hm hconn

/-- A change stays what it is. -/
theorem kind_of_setChange (hn : s.changes n = some k) {phase : ChangePhase} {n' : ℕ}
    {k' : ChangeCall}
    (hk' : (s.setChange n { k with phase := phase }).changes n' = some k') :
    ∃ k₀, s.changes n' = some k₀ ∧ k₀.kind = k'.kind := by
  rcases update_eq_some hk' with ⟨rfl, rfl⟩ | ⟨_, hk'⟩
  · exact ⟨k, hn, rfl⟩
  · exact ⟨k', hk', rfl⟩

/-- A change goes on, or ends. -/
theorem UpToDate.setChange (hs : UpToDate s) (hn : s.changes n = some k) {phase : ChangePhase}
    (hpending : phase.pending = true → k.phase.pending = true) (hacted : phase ≠ .acted) :
    UpToDate (s.setChange n { k with phase := phase }) := by
  refine
    { noStaleHandle := ?_, acted := ?_, acting := ?_, returned := hs.returned
      before := hs.before, served := hs.served, renewed := ?_, placed := hs.placed }
  · intro r hr n' hn' k' hk' htouches
    obtain ⟨k₀, hk₀, heq⟩ := kind_of_setChange hn hk'
    exact hs.noStaleHandle r hr n' hn' k₀ hk₀ (heq ▸ htouches)
  · intro n' hn'
    obtain ⟨k', hk', hdone⟩ := hs.acted n' hn'
    rcases eq_or_ne n' n with rfl | hne
    · obtain rfl := Option.some.inj (hn.symm.trans hk')
      refine ⟨_, update_self .., ?_⟩
      by_contra hp
      exact absurd (hpending (by simpa using hp)) (by simp [hdone])
    · exact ⟨k', (update_of_ne hne ..).trans hk', hdone⟩
  · intro n' k' hk' hphase
    rcases update_eq_some hk' with ⟨_, rfl⟩ | ⟨_, hk'⟩
    · exact (hacted hphase).elim
    · exact hs.acting n' k' hk' hphase
  · intro n' hn' k' hk' conn
    obtain ⟨k₀, hk₀, heq⟩ := kind_of_setChange hn hk'
    rw [← heq]
    exact hs.renewed n' hn' k₀ hk₀ conn

theorem UpToDate.change (hs : UpToDate s) (hnew : s.changes n = none) (hk : k.phase ≠ .acted) :
    UpToDate (s.setChange n k) := by
  have hold : ∀ n' ∈ s.acted, (s.setChange n k).changes n' = s.changes n' := by
    intro n' hn'
    obtain ⟨k', hk', _⟩ := hs.acted n' hn'
    refine update_of_ne ?_ ..
    rintro rfl
    cases hnew.symm.trans hk'
  refine
    { noStaleHandle := ?_, acted := ?_, acting := ?_, returned := hs.returned
      before := hs.before, served := hs.served, renewed := ?_, placed := hs.placed }
  · intro r hr n' hn' k' hk'
    rw [hold n' (hs.served r hr n' hn')] at hk'
    exact hs.noStaleHandle r hr n' hn' k' hk'
  · intro n' hn'
    rw [hold n' hn']
    exact hs.acted n' hn'
  · intro n' k' hk' hphase
    rcases update_eq_some hk' with ⟨_, rfl⟩ | ⟨_, hk'⟩
    · exact (hk hphase).elim
    · exact hs.acting n' k' hk' hphase
  · intro n' hn' k' hk'
    rw [hold n' hn'] at hk'
    exact hs.renewed n' hn' k' hk'

/-- It takes effect when nothing is left of what was opened before. -/
theorem UpToDate.act (hs : UpToDate s) (hn : s.changes n = some k)
    (hphase : k.phase = .forgetting []) (hcleared : Cleared s (.act n)) :
    UpToDate ({ s with acted := n :: s.acted }.setChange n { k with phase := .acted }) := by
  have hpending : n ∉ s.acted := by
    intro hacted
    obtain ⟨k', hk', hdone⟩ := hs.acted n hacted
    obtain rfl := Option.some.inj (hn.symm.trans hk')
    rw [hphase] at hdone
    cases hdone
  refine
    { noStaleHandle := ?_, acted := ?_, acting := ?_, returned := ?_, before := ?_
      served := ?_, renewed := ?_, placed := hs.placed }
  · intro r hr n' hn' k' hk' htouches
    obtain ⟨k₀, hk₀, heq⟩ := kind_of_setChange hn hk'
    exact hs.noStaleHandle r hr n' hn' k₀ hk₀ (heq ▸ htouches)
  · intro n' hn'
    rcases List.mem_cons.mp hn' with rfl | hn'
    · exact ⟨_, update_self .., rfl⟩
    · obtain ⟨k', hk', hdone⟩ := hs.acted n' hn'
      have hne : n' ≠ n := fun h => hpending (h ▸ hn')
      exact ⟨k', (update_of_ne hne ..).trans hk', hdone⟩
  · intro n' k' hk' hphase'
    rcases update_eq_some hk' with ⟨rfl, _⟩ | ⟨_, hk'⟩
    · exact .head _
    · exact .tail _ (hs.acting n' k' hk' hphase')
  · exact fun n' hn' => .tail _ (hs.returned n' hn')
  · exact fun m r hm n' hn' => .tail _ (hs.before m r hm n' hn')
  · exact fun r hr n' hn' => .tail _ (hs.served r hr n' hn')
  · intro n' hn' k' hk' conn
    obtain ⟨k₀, hk₀, heq⟩ := kind_of_setChange hn hk'
    rw [← heq]
    rcases List.mem_cons.mp hn' with rfl | hn'
    · obtain rfl := Option.some.inj (hn.symm.trans hk₀)
      by_cases husable : s.Usable conn
      · obtain ⟨hcaches, hreads⟩ := hcleared k hn hphase conn husable
        refine .inl ⟨?_, ?_⟩
        · exact fun path h htouches hholds => (hcaches path h htouches hholds).elim
        · exact fun m r h hm htouches hholding => (hreads m r h hm htouches hholding).elim
      · exact .inr ⟨husable, fun m r hm _ hbefore => hpending (hs.before m r hm _ hbefore)⟩
    · exact hs.renewed n' hn' k₀ hk₀ conn

theorem UpToDate.step (hs : UpToDate s) (hcleared : Cleared s e)
    (hstep : ReadsStep capacity s e s') : UpToDate s' := by
  cases hstep with
  | @read m path conn hnew hconn =>
      refine hs.setRead hs.returned ?_ nofun ?_
      · intro l hl
        obtain rfl := Option.some.inj hl
        exact fun hnone => nomatch hnone.symm.trans (show s.lanes l = some .live from hconn)
      · intro conn' n hconn' hgone
        obtain rfl := Option.some.inj hconn'
        exact (hgone.1 hconn).elim
  | @hit m r conn h hm hphase hhit =>
      have hheld : (s.caches conn).Holds r.path h := by
        rw [HandleCache.get_fst] at hhit
        exact HandleCache.holds_of_find hhit
      have hconn : r.phase.conn = some conn := by rw [hphase]; rfl
      have hcache : UpToDate (s.setCache conn ((s.caches conn).get r.path).2) :=
        hs.shrink fun _ _ => HandleCache.holds_get
      refine (hcache.serve hm (hs.after hm hconn (.inl hheld))).move hm rfl ?_ nofun
      intro conn' hconn'
      rw [hconn, ← hconn']
      rfl
  | @miss m r conn hm hphase hmiss =>
      refine hs.move hm rfl ?_ nofun
      intro conn' hconn'
      rw [hphase, ← hconn']
      rfl
  | @opened m r conn hm hphase =>
      refine hs.move hm rfl ?_ ?_
      · intro conn' hconn'
        rw [hphase, ← hconn']
        rfl
      · intro conn' h hholding n hn
        cases hholding
        exact hn
  | @insert m r conn h hm hphase =>
      have hconn : r.phase.conn = some conn := by rw [hphase]; rfl
      have hcache : UpToDate (s.setCache conn ((s.caches conn).insertOrExisting r.path h).2) := by
          refine hs.setCache fun path h' hholds => ?_
          rcases HandleCache.holds_insertOrExisting hholds with hold | ⟨rfl, rfl⟩
          · exact .inl hold
          · exact .inr ⟨m, r, hm, rfl, hphase⟩
      have hafter : ∀ n ∈ r.before, ∀ k, s.changes n = some k → k.kind.touches r.path = true →
          n ∈ ((s.caches conn).insertOrExisting r.path h).1.after := by
        rcases HandleCache.insertOrExisting_fst (s.caches conn) r.path h with hold | hnew
        · exact hs.after hm hconn (.inl hold)
        · rw [hnew]
          exact hs.after hm hconn (.inr hphase)
      refine (hcache.serve hm hafter).move hm rfl ?_ nofun
      intro conn' hconn'
      rw [hconn, ← hconn']
      rfl
  | @fallBack m r l hm hphase =>
      have hcache : UpToDate (s.setCache (.lane l) ((s.caches (.lane l)).invalidate r.path)) :=
        hs.shrink fun _ _ hholds => (HandleCache.holds_retain hholds).1
      refine hcache.setRead (hs.before m r hm) nofun nofun ?_
      intro conn n hconn hgone
      obtain rfl := Option.some.inj hconn
      exact (hgone.1 trivial).elim
  | stop hm => exact hs.move hm rfl nofun nofun
  | @drop conn path =>
      exact hs.shrink fun key h hholds => (HandleCache.holds_retain hholds).1
  | addLane hnew => exact hs.addLane hnew
  | retire hl | drain hl | drained hl => exact hs.setLane (by simp [hl]) nofun
  | change hnew => exact hs.change hnew nofun
  | @forget n k f todo hn hphase =>
      have hcache := hs.shrink fun key h hholds => (f.holds_run (c := s.caches .main) hholds).1
      exact hcache.setChange hn (fun _ => by rw [hphase]; rfl) nofun
  | @list n k f todo ls hn hphase hls => exact hs.setChange hn (fun _ => by rw [hphase]; rfl) nofun
  | @forgetOnLane n k f l left todo hn hphase =>
      have hcache := hs.shrink fun key h hholds => (f.holds_run (c := s.caches (.lane l)) hholds).1
      exact hcache.setChange hn (fun _ => by rw [hphase]; rfl) nofun
  | @forgotten n k f todo hn hphase => exact hs.setChange hn (fun _ => by rw [hphase]; rfl) nofun
  | act hn hphase => exact hs.act hn hphase hcleared
  | @ok n k hn hphase =>
      have hdone : UpToDate (s.setChange n { k with phase := .done }) := hs.setChange hn nofun nofun
      refine { hdone with returned := ?_ }
      intro n' hn'
      rcases List.mem_cons.mp hn' with rfl | hn'
      · exact hs.acting n' k hn hphase
      · exact hs.returned n' hn'
  | fail hn => exact hs.setChange hn nofun nofun

variable (s)

/-- Where nothing of a path is left when it changes, no read is served stale. -/
theorem noStaleHandle_of_cleared (h : Reaches (ReadsStep capacity) Cleared (.initial capacity) s) :
    NoStaleHandle s :=
  (h.invariant (upToDate_initial capacity) fun hs hcleared hstep =>
    hs.step hcleared hstep).noStaleHandle

end Steps

/-! ### What the forgetting is good for -/

/-- What a change has yet to forget on a connection. -/
def ChangePhase.remaining : ChangePhase → Conn → List Forget
  | .forgetting todo, _ => todo
  | .listing _ todo, .main => todo
  | .listing f todo, .lane _ => f :: todo
  | .onLanes _ _ todo, .main => todo
  | .onLanes f left todo, .lane l => if l ∈ left then f :: todo else todo
  | .acted, _ | .done, _ => []

/-- No read of an operation's paths is under way while it forgets and until it
takes effect, and what is cached of them when it begins it forgets. -/
def Undisturbed (s : SmbReads) : ReadsEvent → Prop
  | .change _ kind =>
      (∀ m r, s.reads m = some r → r.phase ≠ .done → kind.touches r.path = false) ∧
        ∀ conn path h, s.Usable conn → (s.caches conn).Holds path h → kind.touches path = true →
          ∃ f ∈ kind.forgets, f.covers path = true
  | .read _ path _ => ∀ n k, s.changes n = some k → k.phase.pending = true →
      k.kind.touches path = false
  | _ => True

structure Prepared (s : SmbReads) : Prop where
  quiet : ∀ n k m r, s.changes n = some k → k.phase.pending = true → s.reads m = some r →
    r.phase ≠ .done → k.kind.touches r.path = false
  covered : ∀ n k conn path h, s.changes n = some k → k.phase.pending = true → s.Usable conn →
    (s.caches conn).Holds path h → k.kind.touches path = true →
      ∃ f ∈ k.phase.remaining conn, f.covers path = true

section Forgetting

variable {capacity : ℕ} {s s' : SmbReads} {e : ReadsEvent} {m n l : ℕ} {conn : Conn}
  {r r' : BlockRead} {k : ChangeCall} {h : Handle}

theorem prepared_initial (capacity : ℕ) : Prepared (.initial capacity) where
  quiet := nofun
  covered := nofun

theorem Prepared.setRead (hs : Prepared s)
    (hquiet : r.phase ≠ .done → ∀ n k, s.changes n = some k → k.phase.pending = true →
      k.kind.touches r.path = false) : Prepared (s.setRead m r) where
  quiet n k m' r' hk hpending hm' hphase := by
    rcases update_eq_some hm' with ⟨_, rfl⟩ | ⟨_, hm'⟩
    · exact hquiet hphase n k hk hpending
    · exact hs.quiet n k m' r' hk hpending hm' hphase
  covered := hs.covered

theorem Prepared.move (hs : Prepared s) (hm : s.reads m = some r) (hphase : r.phase ≠ .done)
    (hpath : r'.path = r.path) : Prepared (s.setRead m r') := by
  refine hs.setRead fun _ n k hk hpending => ?_
  rw [hpath]
  exact hs.quiet n k m r hk hpending hm hphase

/-- What a cache holds it held, or it is of a path that is being read. -/
theorem Prepared.setCache (hs : Prepared s) {c : HandleCache Handle}
    (hheld : ∀ path h, c.Holds path h → (s.caches conn).Holds path h ∨
      ∃ m r, s.reads m = some r ∧ r.path = path ∧ r.phase ≠ .done) :
    Prepared (s.setCache conn c) where
  quiet := hs.quiet
  covered n k conn' path h hk hpending husable hholds htouches := by
    rcases eq_or_ne conn' conn with rfl | hne
    · have hholds : c.Holds path h := by simpa [SmbReads.setCache] using hholds
      rcases hheld path h hholds with hold | ⟨m, r, hm, rfl, hphase⟩
      · exact hs.covered n k conn' path h hk hpending husable hold htouches
      · exact absurd (hs.quiet n k m r hk hpending hm hphase) (by simp [htouches])
    · have hholds : (s.caches conn').Holds path h := by
        simpa [SmbReads.setCache, hne] using hholds
      exact hs.covered n k conn' path h hk hpending husable hholds htouches

theorem Prepared.shrink (hs : Prepared s) {c : HandleCache Handle}
    (hheld : ∀ path h, c.Holds path h → (s.caches conn).Holds path h) :
    Prepared (s.setCache conn c) :=
  hs.setCache fun path h hholds => .inl (hheld path h hholds)

theorem Prepared.serve (hs : Prepared s) : Prepared (s.serve r h) :=
  ⟨hs.quiet, hs.covered⟩

theorem Prepared.setLane (hs : Prepared s) {state : LaneState} (hstate : state ≠ .live) :
    Prepared (s.setLane l state) where
  quiet := hs.quiet
  covered n k conn path h hk hpending husable := by
    apply hs.covered n k conn path h hk hpending
    cases conn with
    | main => trivial
    | lane l' =>
        rcases update_eq_some husable with ⟨_, heq⟩ | ⟨_, husable⟩
        · exact (hstate heq.symm).elim
        · exact husable

theorem Prepared.addLane (hs : Prepared s) :
    Prepared ((s.setCache (.lane l) (.new capacity)).setLane l .live) where
  quiet := hs.quiet
  covered n k conn path h hk hpending husable hholds := by
    rcases eq_or_ne conn (.lane l) with rfl | hne
    · have hholds : (HandleCache.new capacity : HandleCache Handle).Holds path h := by
        simpa [SmbReads.setCache, SmbReads.setLane] using hholds
      exact (HandleCache.not_holds_new hholds).elim
    · refine hs.covered n k conn path h hk hpending ?_ ?_
      · cases conn with
        | main => trivial
        | lane l' =>
            have hlane : l' ≠ l := fun h => hne (congrArg Conn.lane h)
            simpa [SmbReads.Usable, SmbReads.setLane, SmbReads.setCache, hlane] using husable
      · simpa [SmbReads.setCache, SmbReads.setLane, hne] using hholds

/-- A change goes on, with what it has yet to forget. -/
theorem Prepared.setChange (hs : Prepared s) (hn : s.changes n = some k) {phase : ChangePhase}
    (hpending : phase.pending = true → k.phase.pending = true)
    (hcovered : ∀ conn path h, phase.pending = true → s.Usable conn →
      (s.caches conn).Holds path h → k.kind.touches path = true →
        ∃ f ∈ phase.remaining conn, f.covers path = true) :
    Prepared (s.setChange n { k with phase := phase }) where
  quiet n' k' m r hk' hpending' := by
    rcases update_eq_some hk' with ⟨_, rfl⟩ | ⟨_, hk'⟩
    · exact hs.quiet n k m r hn (hpending hpending')
    · exact hs.quiet n' k' m r hk' hpending'
  covered n' k' conn path h hk' hpending' husable hholds htouches := by
    rcases update_eq_some hk' with ⟨_, rfl⟩ | ⟨_, hk'⟩
    · exact hcovered conn path h hpending' husable hholds htouches
    · exact hs.covered n' k' conn path h hk' hpending' husable hholds htouches

/-- A change forgets on one connection. -/
theorem Prepared.forget (hs : Prepared s) (hn : s.changes n = some k) {f : Forget}
    {phase : ChangePhase} (hpending : k.phase.pending = true)
    (hthere : ∀ g ∈ k.phase.remaining conn, g = f ∨ g ∈ phase.remaining conn)
    (helsewhere : ∀ conn', conn' ≠ conn → k.phase.remaining conn' = phase.remaining conn') :
    Prepared ((s.setCache conn (f.run (s.caches conn))).setChange n { k with phase := phase }) := by
  have hcache := hs.shrink fun key h hholds => (f.holds_run (c := s.caches conn) hholds).1
  refine hcache.setChange hn (fun _ => hpending) ?_
  intro conn' path h _ husable hholds htouches
  rcases eq_or_ne conn' conn with rfl | hne
  · have hholds : (f.run (s.caches conn')).Holds path h := by
      simpa [SmbReads.setCache] using hholds
    obtain ⟨hheld, huncovered⟩ := f.holds_run hholds
    obtain ⟨g, hg, hcovers⟩ := hs.covered n k conn' path h hn hpending husable hheld htouches
    rcases hthere g hg with rfl | hleft
    · cases huncovered.symm.trans hcovers
    · exact ⟨g, hleft, hcovers⟩
  · have hholds : (s.caches conn').Holds path h := by
      simpa [SmbReads.setCache, hne] using hholds
    rw [← helsewhere conn' hne]
    exact hs.covered n k conn' path h hn hpending husable hholds htouches

theorem Prepared.step (hs : Prepared s) (hundisturbed : Undisturbed s e)
    (hstep : ReadsStep capacity s e s') : Prepared s' := by
  cases hstep with
  | read hnew hconn => exact hs.setRead fun _ => hundisturbed
  | @hit m r conn h hm hphase hhit =>
      have hcache : Prepared (s.setCache conn ((s.caches conn).get r.path).2) :=
        hs.shrink fun _ _ => HandleCache.holds_get
      exact hcache.serve.move hm (by simp [hphase]) rfl
  | miss hm hphase hmiss => exact hs.move hm (by simp [hphase]) rfl
  | opened hm hphase => exact hs.move hm (by simp [hphase]) rfl
  | @insert m r conn h hm hphase =>
      have hcache : Prepared (s.setCache conn ((s.caches conn).insertOrExisting r.path h).2) := by
          refine hs.setCache fun path h' hholds => ?_
          rcases HandleCache.holds_insertOrExisting hholds with hold | ⟨rfl, rfl⟩
          · exact .inl hold
          · exact .inr ⟨m, r, hm, rfl, by simp [hphase]⟩
      exact hcache.serve.move hm (by simp [hphase]) rfl
  | @fallBack m r l hm hphase =>
      have hcache : Prepared (s.setCache (.lane l) ((s.caches (.lane l)).invalidate r.path)) :=
        hs.shrink fun _ _ hholds => (HandleCache.holds_retain hholds).1
      refine hcache.move hm ?_ rfl
      intro hdone
      rw [hdone] at hphase
      cases hphase
  | stop hm => exact hs.setRead fun hphase => (hphase rfl).elim
  | drop => exact hs.shrink fun key h hholds => (HandleCache.holds_retain hholds).1
  | addLane hnew => exact hs.addLane
  | retire hl | drain hl | drained hl => exact hs.setLane nofun
  | @change n kind hnew =>
      refine ⟨?_, ?_⟩
      · intro n' k' m r hk' hpending hm hphase
        rcases update_eq_some hk' with ⟨_, rfl⟩ | ⟨_, hk'⟩
        · exact hundisturbed.1 m r hm hphase
        · exact hs.quiet n' k' m r hk' hpending hm hphase
      · intro n' k' conn path h hk' hpending husable hholds htouches
        rcases update_eq_some hk' with ⟨_, rfl⟩ | ⟨_, hk'⟩
        · exact hundisturbed.2 conn path h husable hholds htouches
        · exact hs.covered n' k' conn path h hk' hpending husable hholds htouches
  | @forget n k f todo hn hphase =>
      refine hs.forget hn (by rw [hphase]; rfl) ?_ ?_
      · rw [hphase]
        exact fun g hg => List.mem_cons.mp hg
      · intro conn' hne
        rw [hphase]
        cases conn' with
        | main => exact (hne rfl).elim
        | lane l => rfl
  | @list n k f todo ls hn hphase hls =>
      refine hs.setChange hn (fun _ => by rw [hphase]; rfl) ?_
      intro conn path h _ husable hholds htouches
      have hcovered := hs.covered n k conn path h hn (by rw [hphase]; rfl) husable hholds htouches
      rw [hphase] at hcovered
      cases conn with
      | main => exact hcovered
      | lane l =>
          have hl : l ∈ ls := (hls l).mpr (.inl husable)
          rwa [ChangePhase.remaining, if_pos hl]
  | @forgetOnLane n k f l left todo hn hphase =>
      refine hs.forget hn (by rw [hphase]; rfl) ?_ ?_
      · rw [hphase]
        intro g hg
        simp only [ChangePhase.remaining] at hg ⊢
        split at hg
        · rcases List.mem_cons.mp hg with rfl | hg
          · exact .inl rfl
          · right
            split
            · exact .tail _ hg
            · exact hg
        · rename_i hl
          exact (hl (.head _)).elim
      · intro conn' hne
        rw [hphase]
        cases conn' with
        | main => rfl
        | lane l' =>
            have hlane : l' ≠ l := fun h => hne (congrArg Conn.lane h)
            simp [ChangePhase.remaining, hlane]
  | @forgotten n k f todo hn hphase =>
      refine hs.setChange hn (fun _ => by rw [hphase]; rfl) ?_
      intro conn path h _ husable hholds htouches
      have hcovered := hs.covered n k conn path h hn (by rw [hphase]; rfl) husable hholds htouches
      rw [hphase] at hcovered
      cases conn with
      | main => exact hcovered
      | lane l => simpa [ChangePhase.remaining] using hcovered
  | @act n k hn hphase =>
      have hmoved : Prepared (s.setChange n { k with phase := .acted }) :=
        hs.setChange hn nofun nofun
      exact ⟨hmoved.quiet, hmoved.covered⟩
  | @ok n k hn hphase =>
      have hmoved : Prepared (s.setChange n { k with phase := .done }) :=
        hs.setChange hn nofun nofun
      exact ⟨hmoved.quiet, hmoved.covered⟩
  | fail hn => exact hs.setChange hn nofun nofun

/-- An operation that forgets all that is cached of its paths, undisturbed,
leaves nothing of them. -/
theorem cleared_of_undisturbed
    (h : Reaches (ReadsStep capacity) Undisturbed (.initial capacity) s) :
    Reaches (ReadsStep capacity) Cleared (.initial capacity) s := by
  refine h.imp_meets (prepared_initial capacity) (fun hs hmeets hstep => hs.step hmeets hstep) ?_
  intro s e hs _
  cases e with
  | act n =>
      intro k hn hphase conn husable
      have hpending : k.phase.pending = true := by rw [hphase]; rfl
      refine ⟨?_, ?_⟩
      · intro path h htouches hholds
        obtain ⟨f, hf, _⟩ := hs.covered n k conn path h hn hpending husable hholds htouches
        rw [hphase] at hf
        cases hf
      · intro m r h hm htouches hholding
        have hquiet := hs.quiet n k m r hn hpending hm (by simp [hholding])
        rw [htouches] at hquiet
        cases hquiet
  | _ => trivial

variable (capacity s)

/-- **No stale read handle**, where nothing of an operation's paths is left on
any connection when it takes effect; in particular where no read of them is
under way and what is cached of them is forgotten. -/
theorem no_stale_handle :
    (Reaches (ReadsStep capacity) Cleared (.initial capacity) s → NoStaleHandle s) ∧
      (Reaches (ReadsStep capacity) Undisturbed (.initial capacity) s → NoStaleHandle s) :=
  ⟨noStaleHandle_of_cleared s, fun h => noStaleHandle_of_cleared s (cleared_of_undisturbed h)⟩

end Forgetting

/-! ### Runs of either kind -/

section Runs

def photo : NasPath := ["photo", "a.orf"]

/-- The photo is read, cut and read again. -/
theorem cut_then_read : ∃ s : SmbReads, NoStaleHandle s ∧ s.served.map (·.before) = [[1], []] := by
  have h := (Reaches.start : Reaches (ReadsStep 64) Undisturbed (.initial 64) (.initial 64))
  have h := h.next (by exact nofun) (@ReadsStep.read _ _ 0 photo .main rfl trivial)
  have h := h.next (by trivial) (@ReadsStep.miss _ _ 0 _ .main rfl rfl rfl)
  have h := h.next (by trivial) (@ReadsStep.opened _ _ 0 _ .main rfl rfl)
  have h := h.next (by trivial) (@ReadsStep.insert _ _ 0 _ .main _ rfl rfl)
  have h := h.next (by trivial) (@ReadsStep.stop _ _ 0 _ rfl)
  have h := h.next
    (by
      refine ⟨?_, ?_⟩
      · intro m r hm hphase
        rcases update_eq_some hm with ⟨rfl, rfl⟩ | ⟨hne, hm⟩
        · exact (hphase rfl).elim
        · simp [SmbReads.setRead, SmbReads.setCache, SmbReads.serve, SmbReads.initial, hne] at hm
      · intro conn path h husable hholds htouches
        cases conn with
        | main =>
            obtain ⟨rfl, rfl⟩ := Prod.mk.inj (List.mem_singleton.mp hholds)
            exact ⟨.handle photo, .head _, by simp [Forget.covers]⟩
        | lane l => cases husable)
    (@ReadsStep.change _ _ 1 (.truncate photo) rfl)
  have h := h.next (by trivial) (@ReadsStep.forget _ _ 1 _ _ _ rfl rfl)
  have h := h.next (by trivial) (@ReadsStep.list _ _ 1 _ _ _ [] rfl rfl fun l =>
    ⟨nofun, by rintro (hl | hl) <;> cases hl⟩)
  have h := h.next (by trivial) (@ReadsStep.forgotten _ _ 1 _ _ _ rfl rfl)
  have h := h.next (by trivial) (@ReadsStep.act _ _ 1 _ rfl rfl)
  have h := h.next (by trivial) (@ReadsStep.ok _ _ 1 _ rfl rfl)
  have h := h.next
    (by
      intro n k hk hpending
      rcases update_eq_some hk with ⟨rfl, rfl⟩ | ⟨hne, hk⟩
      · cases hpending
      · simp [SmbReads.setChange, SmbReads.setRead, SmbReads.setCache, SmbReads.serve,
          SmbReads.initial, hne] at hk)
    (@ReadsStep.read _ _ 2 photo .main rfl trivial)
  have h := h.next (by trivial) (@ReadsStep.miss _ _ 2 _ .main rfl rfl (by decide))
  have h := h.next (by trivial) (@ReadsStep.opened _ _ 2 _ .main rfl rfl)
  have h := h.next (by trivial) (@ReadsStep.insert _ _ 2 _ .main _ rfl rfl)
  exact ⟨_, (no_stale_handle 64 _).2 h, rfl⟩

/-- The photo is read, deleted through `MetadataTransport` and read again,
through the same handle; and it is cut while a read has just opened it. -/
theorem stale_after_change :
    (∃ s, Reaches (ReadsStep 64) unrestricted (.initial 64) s ∧ ¬NoStaleHandle s) ∧
      ∃ s, Reaches (ReadsStep 64) unrestricted (.initial 64) s ∧
        (∀ n k, s.changes n = some k → k.kind = .truncate photo) ∧ ¬NoStaleHandle s := by
  constructor
  · have h := (Reaches.start : Reaches (ReadsStep 64) unrestricted (.initial 64) (.initial 64))
    have h := h.next (by trivial) (@ReadsStep.read _ _ 0 photo .main rfl trivial)
    have h := h.next (by trivial) (@ReadsStep.miss _ _ 0 _ .main rfl rfl rfl)
    have h := h.next (by trivial) (@ReadsStep.opened _ _ 0 _ .main rfl rfl)
    have h := h.next (by trivial) (@ReadsStep.insert _ _ 0 _ .main _ rfl rfl)
    have h := h.next (by trivial) (@ReadsStep.stop _ _ 0 _ rfl)
    have h := h.next (by trivial) (@ReadsStep.change _ _ 1 (.metadataDelete photo) rfl)
    have h := h.next (by trivial) (@ReadsStep.act _ _ 1 _ rfl rfl)
    have h := h.next (by trivial) (@ReadsStep.ok _ _ 1 _ rfl rfl)
    have h := h.next (by trivial) (@ReadsStep.read _ _ 2 photo .main rfl trivial)
    have h := h.next (by trivial) (@ReadsStep.hit _ _ 2 _ .main ⟨[]⟩ rfl rfl (by decide))
    exact ⟨_, h, fun hno => nomatch hno _ (.head _) 1 (.head _) _ rfl (by decide)⟩
  · have h := (Reaches.start : Reaches (ReadsStep 64) unrestricted (.initial 64) (.initial 64))
    have h := h.next (by trivial) (@ReadsStep.read _ _ 0 photo .main rfl trivial)
    have h := h.next (by trivial) (@ReadsStep.miss _ _ 0 _ .main rfl rfl rfl)
    have h := h.next (by trivial) (@ReadsStep.change _ _ 1 (.truncate photo) rfl)
    have h := h.next (by trivial) (@ReadsStep.forget _ _ 1 _ _ _ rfl rfl)
    have h := h.next (by trivial) (@ReadsStep.list _ _ 1 _ _ _ [] rfl rfl fun l =>
      ⟨nofun, by rintro (hl | hl) <;> cases hl⟩)
    have h := h.next (by trivial) (@ReadsStep.forgotten _ _ 1 _ _ _ rfl rfl)
    have h := h.next (by trivial) (@ReadsStep.opened _ _ 0 _ .main rfl rfl)
    have h := h.next (by trivial) (@ReadsStep.act _ _ 1 _ rfl rfl)
    have h := h.next (by trivial) (@ReadsStep.ok _ _ 1 _ rfl rfl)
    have h := h.next (by trivial) (@ReadsStep.insert _ _ 0 _ .main _ rfl rfl)
    have h := h.next (by trivial) (@ReadsStep.stop _ _ 0 _ rfl)
    have h := h.next (by trivial) (@ReadsStep.read _ _ 2 photo .main rfl trivial)
    have h := h.next (by trivial) (@ReadsStep.hit _ _ 2 _ .main ⟨[]⟩ rfl rfl (by decide))
    refine ⟨_, h, ?_, fun hno => nomatch hno _ (.head _) 1 (.head _) _ rfl (by decide)⟩
    intro n k hk
    rcases update_eq_some hk with ⟨rfl, rfl⟩ | ⟨hne, hk⟩
    · rfl
    · simp [SmbReads.setChange, SmbReads.setRead, SmbReads.setCache, SmbReads.initial,
        hne] at hk

end Runs

end SynologyFilestation.Smb
