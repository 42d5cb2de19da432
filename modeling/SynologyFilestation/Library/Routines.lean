import SynologyFilestation.Library.Table
import Mathlib.Data.Nat.Notation

/-!
Tasks that share data and wait for each other.

A task runs a routine: what it does, to its end, with a branch for every answer it
may be given. Tasks look at shared data and change it, take permits at gates, and
claim keys that others may wait to see given back. A gate is a counting semaphore
that serves in turn: a permit given back is handed to whoever is first in line. A
lock is a gate with one permit.
-/

namespace SynologyFilestation.Library

open Function

/-- What a task does, to its end. Shared data is of type `σ`, gates `G`, keys `K`;
`A q` are the answers that a question `q` to the world outside may be given. -/
inductive Routine (σ G K Q : Type) (A : Q → Type)
  | done
  /-- A change of the data in one go, and a look at what it was before, and at which
  gates were free. -/
  | act (f : σ → σ) (next : (G → Bool) → σ → Routine σ G K Q A)
  | ask (q : Q) (next : A q → Routine σ G K Q A)
  | acquire (g : G) (next : Routine σ G K Q A)
  | release (g : G) (next : Routine σ G K Q A)
  /-- Whether the claim was won: one that another has is not waited for. -/
  | claim (key : K) (next : Bool → Routine σ G K Q A)
  /-- Claims are given back, whoever made them. -/
  | resolve (keys : K → Bool) (next : Routine σ G K Q A)
  /-- To wait until the claim that there is on the key is given back. -/
  | await (key : K) (next : Routine σ G K Q A)
  /-- A new task, which takes over claims. -/
  | fork (moved : List K) (task next : Routine σ G K Q A)

/-- Where a task is. -/
inductive Strand (σ G K Q : Type) (A : Q → Type)
  | running (r : Routine σ G K Q A)
  /-- In line at a gate. -/
  | queued (g : G) (r : Routine σ G K Q A)
  | listening (key : K) (bell : ℕ) (r : Routine σ G K Q A)

/-- The permits of a gate that are left, the tasks that have one, and those in line. -/
structure Gate where
  free : ℕ
  holders : List ℕ
  line : List ℕ

structure Claim where
  owner : ℕ
  /-- Tells this claim on its key from the next. -/
  bell : ℕ

/-- Tasks, by number, and all that they share. -/
structure Crew (σ G K Q : Type) (A : Q → Type) where
  data : σ
  gates : G → Gate
  claims : K → Option Claim
  /-- Claims made so far. -/
  bells : ℕ
  tasks : ℕ → Option (Strand σ G K Q A)
  /-- Tasks made so far. -/
  made : ℕ

variable {σ G K Q : Type} {A : Q → Type}

namespace Crew

/-- Nobody at work yet. -/
def idle (data : σ) (capacity : G → ℕ) : Crew σ G K Q A :=
  { data := data, gates := fun g => ⟨capacity g, [], []⟩, claims := fun _ => none, bells := 0,
    tasks := fun _ => none, made := 0 }

def isFree (s : Crew σ G K Q A) (g : G) : Bool := decide (0 < (s.gates g).free)

def put (s : Crew σ G K Q A) (t : ℕ) (x : Strand σ G K Q A) : Crew σ G K Q A :=
  { s with tasks := update s.tasks t (some x) }

/-- A task of the next number. -/
def start (s : Crew σ G K Q A) (r : Routine σ G K Q A) : Crew σ G K Q A :=
  { s.put s.made (.running r) with made := s.made + 1 }

variable [DecidableEq G] [DecidableEq K]

def setGate (s : Crew σ G K Q A) (g : G) (gate : Gate) : Crew σ G K Q A :=
  { s with gates := update s.gates g gate }

def setClaim (s : Crew σ G K Q A) (key : K) (owner : ℕ) : Crew σ G K Q A :=
  { s with claims := update s.claims key (some ⟨owner, s.bells⟩), bells := s.bells + 1 }

def dropClaims (s : Crew σ G K Q A) (keys : K → Bool) : Crew σ G K Q A :=
  { s with claims := fun key => if keys key then none else s.claims key }

/-- What a task had claimed of the keys is another's. -/
def moveClaims (s : Crew σ G K Q A) (keys : List K) (t u : ℕ) : Crew σ G K Q A :=
  { s with claims := fun key => (s.claims key).map fun c =>
      if c.owner = t ∧ key ∈ keys then { c with owner := u } else c }

end Crew

/-- What a task can do next. -/
inductive Turn [DecidableEq G] [DecidableEq K] (s : Crew σ G K Q A) (t : ℕ) :
    Crew σ G K Q A → Prop
  | act {f next} (ht : s.tasks t = some (.running (.act f next))) :
      Turn s t ({ s with data := f s.data }.put t (.running (next s.isFree s.data)))
  /-- Every question is answered some time, and any answer may be the one. -/
  | ask {q next} (ht : s.tasks t = some (.running (.ask q next))) (a : A q) :
      Turn s t (s.put t (.running (next a)))
  | take {g next} (ht : s.tasks t = some (.running (.acquire g next)))
      (hfree : 0 < (s.gates g).free) :
      Turn s t ((s.setGate g { s.gates g with
        free := (s.gates g).free - 1, holders := t :: (s.gates g).holders }).put t (.running next))
  | lineUp {g next} (ht : s.tasks t = some (.running (.acquire g next)))
      (hfull : (s.gates g).free = 0) :
      Turn s t ((s.setGate g { s.gates g with line := (s.gates g).line ++ [t] }).put t
        (.queued g next))
  /-- The permit goes to the first in line. -/
  | handOver {g next u line r} (ht : s.tasks t = some (.running (.release g next)))
      (hline : (s.gates g).line = u :: line) (hu : s.tasks u = some (.queued g r)) :
      Turn s t (((s.setGate g { s.gates g with
        holders := u :: (s.gates g).holders.erase t, line := line }).put u (.running r)).put t
          (.running next))
  | giveBack {g next} (ht : s.tasks t = some (.running (.release g next)))
      (hline : (s.gates g).line = []) :
      Turn s t ((s.setGate g { s.gates g with
        free := (s.gates g).free + 1, holders := (s.gates g).holders.erase t }).put t
          (.running next))
  | win {key next} (ht : s.tasks t = some (.running (.claim key next)))
      (hkey : s.claims key = none) :
      Turn s t ((s.setClaim key t).put t (.running (next true)))
  | lose {key next c} (ht : s.tasks t = some (.running (.claim key next)))
      (hkey : s.claims key = some c) :
      Turn s t (s.put t (.running (next false)))
  | resolve {keys next} (ht : s.tasks t = some (.running (.resolve keys next))) :
      Turn s t ((s.dropClaims keys).put t (.running next))
  | pass {key next} (ht : s.tasks t = some (.running (.await key next)))
      (hkey : s.claims key = none) :
      Turn s t (s.put t (.running next))
  | listen {key next c} (ht : s.tasks t = some (.running (.await key next)))
      (hkey : s.claims key = some c) :
      Turn s t (s.put t (.listening key c.bell next))
  | hear {key bell next} (ht : s.tasks t = some (.listening key bell next))
      (hkey : ∀ c, s.claims key = some c → c.bell ≠ bell) :
      Turn s t (s.put t (.running next))
  | fork {moved task next} (ht : s.tasks t = some (.running (.fork moved task next))) :
      Turn s t (((s.moveClaims moved t s.made).start task).put t (.running next))

/-- Whose doing a step is. -/
inductive Stirring
  | start
  | turn (t : ℕ)
  /-- A task has listened for too long. -/
  | timeout (t : ℕ)

/-- The steps of tasks that run routines of `programs`, which may start at any time. -/
inductive CrewStep [DecidableEq G] [DecidableEq K] (programs : Routine σ G K Q A → Prop)
    (s : Crew σ G K Q A) : Stirring → Crew σ G K Q A → Prop
  | start {r} (hr : programs r) : CrewStep programs s .start (s.start r)
  | turn {t s'} (h : Turn s t s') : CrewStep programs s (.turn t) s'
  | timeout {t key bell next} (ht : s.tasks t = some (.listening key bell next)) :
      CrewStep programs s (.timeout t) (s.put t (.running next))

end SynologyFilestation.Library
