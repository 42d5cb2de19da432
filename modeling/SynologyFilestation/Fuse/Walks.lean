import SynologyFilestation.Library.Alternating
import SynologyFilestation.Library.OrderedMap
import Mathlib.Data.Nat.Basic

/-!
Processes that walk the whole mount (`fuse/src/walks.rs`): what its calls do under the
lock, and what they find there to be logged later.

Times are in nanoseconds, and how long ago a time was is nothing if it is yet to come.
The texts that are only shown (command lines, paths) are left out.
-/

namespace SynologyFilestation.Fuse.Walks

open Function Library

def second : ℕ := 10 ^ 9

def walkFor : ℕ := 10 * 60 * second
def walkDirs : ℕ := 5000
def heldDirs : ℕ := 1000
def quiet : ℕ := 5 * 60 * second
def resolveEvery : ℕ := 60 * second
def pruneEvery : ℕ := second

/-- One process, told apart from any later process given the same id. -/
@[ext]
structure Process where
  pid : ℕ
  started : ℕ
  deriving DecidableEq, Repr

/-- A process that walks the mount, as it is listed. -/
structure Walker where
  pid : ℕ
  walkingSecs : ℕ
  dirsOpened : ℕ
  dirsOpen : ℕ
  deriving DecidableEq, Repr

structure Track where
  started : ℕ
  /-- When the current run of opens began, and when the latest was. -/
  first : ℕ
  last : ℕ
  /-- Opens in the current run. -/
  opened : ℕ
  /-- Handles open now. -/
  dirsOpen : ℕ
  reported : Bool
  deriving DecidableEq, Repr

namespace Track

def held (t : Track) : Bool := heldDirs ≤ t.dirsOpen

def walking (now : ℕ) (t : Track) : Bool :=
  t.held || (now - t.last < quiet && walkDirs ≤ t.opened && walkFor ≤ now - t.first)

def finished (now : ℕ) (t : Track) : Bool := t.dirsOpen = 0 && quiet ≤ now - t.last

def new (started now : ℕ) : Track :=
  { started := started, first := now, last := now, opened := 0, dirsOpen := 0, reported := false }

/-- A pause ends a run of opens, but not a walk held open. -/
def rested (now : ℕ) (t : Track) : Track :=
  if quiet ≤ now - t.last && !t.held then { t with first := now, opened := 0, reported := false }
  else t

def counted (now : ℕ) (t : Track) : Track :=
  { t with last := now, opened := t.opened + 1, dirsOpen := t.dirsOpen + 1 }

/-- Whether it walks now, if not that it does no longer. -/
def noticed (now : ℕ) (t : Track) : Track :=
  { t with reported := t.reported || t.walking now }

def settled (now : ℕ) (t : Track) : Track := { t with reported := t.walking now }

def walker (pid now : ℕ) (t : Track) : Walker :=
  { pid := pid, walkingSecs := (now - t.first) / second, dirsOpened := t.opened
    dirsOpen := t.dirsOpen }

end Track

/-- That a walk has started, or stopped. -/
structure Found where
  process : Process
  walks : Bool
  deriving DecidableEq, Repr

/-- What there is to say of a process that was reported, or was not, and is, or is not. -/
def news (process : Process) (before after : Bool) : List Found :=
  (change before after).map fun walks => ⟨process, walks⟩

structure Inner where
  /-- Which process each thread belongs to, and when that was found out. -/
  threads : OrderedMap ℕ (Process × ℕ)
  /-- Which process holds each open directory handle. -/
  handles : OrderedMap ℕ ℕ
  tracks : OrderedMap ℕ Track
  /-- When finished tracks were last swept out. -/
  pruned : Option ℕ

/-- What a thread is taken to belong to. -/
inductive Known
  | own
  | tracked (process : Process)
  | unknown

/-- Where a call is while it does not hold the lock. -/
inductive Phase
  | idle
  /-- An open that asks which process its thread belongs to. -/
  | identifying (fh tid now : ℕ)
  | announcing
  /-- It has looked the walk up and is to log that it started. -/
  | saying (process : Process)
  /-- A stop that asks the process to exit. -/
  | stopping (process : Process)
  deriving DecidableEq

@[simp] theorem Track.settled_finished (now : ℕ) (t : Track) :
    (t.settled now).finished now = t.finished now := rfl

@[simp] theorem Track.settled_reported (now : ℕ) (t : Track) :
    (t.settled now).reported = t.walking now := rfl

@[simp] theorem Track.settled_started (now : ℕ) (t : Track) :
    (t.settled now).started = t.started := rfl

@[simp] theorem Track.rested_started (now : ℕ) (t : Track) :
    (t.rested now).started = t.started := by
  rw [Track.rested]
  split_ifs <;> rfl

@[simp] theorem Track.counted_started (now : ℕ) (t : Track) :
    (t.counted now).started = t.started := rfl

@[simp] theorem Track.noticed_started (now : ℕ) (t : Track) :
    (t.noticed now).started = t.started := rfl

namespace Inner

def empty : Inner := ⟨.empty, .empty, .empty, none⟩

/-- The process's track, if the track of its id is its own. -/
def track (inner : Inner) (process : Process) : Option Track :=
  (inner.tracks.get? process.pid).filter (·.started = process.started)

def prune (now : ℕ) (force : Bool) (inner : Inner) : Inner × List Found :=
  if !force && inner.pruned.any (now - · < pruneEvery) then (inner, [])
  else
    ({ inner with
        pruned := some now
        tracks := (inner.tracks.mapValues fun _ t => t.settled now).retain
          fun _ t => !t.finished now
        threads := inner.threads.retain fun _ known => now - known.2 < resolveEvery },
      inner.tracks.entries.flatMap fun (pid, t) =>
        news ⟨pid, t.started⟩ t.reported (t.walking now))

/-- The process has exited, and its handles went with it. -/
def remove (pid : ℕ) (inner : Inner) : Inner × List Found :=
  match inner.tracks.get? pid with
  | none => (inner, [])
  | some t =>
      ({ inner with
          tracks := inner.tracks.erase pid
          handles := inner.handles.retain fun _ holder => holder ≠ pid },
        news ⟨pid, t.started⟩ t.reported false)

/-- The id may have been given to a new process. -/
def replace (process : Process) (inner : Inner) : Inner × List Found :=
  if (inner.tracks.get? process.pid).any (·.started ≠ process.started) then
    inner.remove process.pid
  else (inner, [])

/-- Count an open in the process's track, or in a new one. -/
def count (process : Process) (fh now : ℕ) (inner : Inner) : Inner × List Found :=
  let t := (inner.tracks.get? process.pid).getD (.new process.started now)
  let rested := t.rested now
  let after := (rested.counted now).noticed now
  ({ inner with
      handles := inner.handles.insert fh process.pid
      tracks := inner.tracks.insert process.pid after },
    news process t.reported rested.reported ++ news process rested.reported after.reported)

def record (process : Process) (fh now : ℕ) (inner : Inner) : Inner × List Found :=
  let (inner, ended) := inner.replace process
  let (inner, found) := inner.count process fh now
  (inner, ended ++ found)

def known (own tid now : ℕ) (inner : Inner) : Known :=
  match (inner.threads.get? tid).filter (now - ·.2 < resolveEvery) with
  | none => .unknown
  | some (process, _) =>
      if process.pid = own then .own
      else if (inner.track process).isSome then .tracked process
      else .unknown

/-- `opened_at`, to where it lets go of the lock. -/
def opened (own fh tid now : ℕ) (inner : Inner) : (Inner × List Found) × Phase :=
  if tid = 0 then ((inner, []), .announcing)
  else
    let (inner, found) := inner.prune now false
    match inner.known own tid now with
    | .own => ((inner, found), .announcing)
    | .tracked process =>
        let (inner, more) := inner.record process fh now
        ((inner, found ++ more), .announcing)
    | .unknown => ((inner, found), .identifying fh tid now)

/-- The rest of it, once the thread is identified. -/
def identified (own fh tid now : ℕ) (process : Option Process) (inner : Inner) :
    Inner × List Found :=
  match process with
  | none => (inner, [])
  | some process =>
      let inner := { inner with threads := inner.threads.insert tid (process, now) }
      if process.pid = own then (inner, []) else inner.record process fh now

def released (fh : ℕ) (inner : Inner) : Inner :=
  match inner.handles.get? fh with
  | none => inner
  | some pid =>
      { inner with
        handles := inner.handles.erase fh
        tracks := inner.tracks.modify pid fun t => { t with dirsOpen := t.dirsOpen - 1 } }

def walkersAt (now : ℕ) (inner : Inner) : List Walker :=
  (inner.tracks.entries.filter fun (_, t) => t.reported && t.walking now).map
    fun (pid, t) => t.walker pid now

/-- The process that a stop is to end, if it walks. -/
def toStop (pid now : ℕ) (inner : Inner) : Option Process :=
  ((inner.tracks.get? pid).filter fun t => t.reported && t.walking now).map
    fun t => ⟨pid, t.started⟩

/-- It had exited on its own. -/
def gone (process : Process) (inner : Inner) : Inner × List Found :=
  if (inner.track process).isSome then inner.remove process.pid else (inner, [])

end Inner

/-! ### What is found -/

/-- What is found of a process: for each of its turns, whether it walks from then on. -/
def about (p : Process) (found : List Found) : List Bool :=
  (found.filter (·.process = p)).map (·.walks)

def Inner.reported (inner : Inner) (p : Process) : Bool := (inner.track p).any (·.reported)

/-- What a step under the lock finds is what it changes. -/
def Tells (inner : Inner) (result : Inner × List Found) : Prop :=
  ∀ p, Alternates (inner.reported p) (about p result.2) ∧
    turned (inner.reported p) (about p result.2) = result.1.reported p

section Tells

variable {inner inner' inner'' : Inner} {found found' : List Found} {p process : Process}
  {own pid fh tid now : ℕ}

@[simp] theorem about_nil : about p [] = [] := rfl

@[simp] theorem about_append : about p (found ++ found') = about p found ++ about p found' := by
  simp [about]

@[simp] theorem about_news {before after : Bool} :
    about p (news process before after) = if process = p then change before after else [] := by
  by_cases h : process = p <;> simp [about, news, List.filter_map, Function.comp_def, h]

theorem Tells.nothing (h : ∀ p, inner'.reported p = inner.reported p) : Tells inner (inner', []) :=
  fun p => ⟨trivial, (h p).symm⟩

theorem Tells.trans (h : Tells inner (inner', found)) (h' : Tells inner' (inner'', found')) :
    Tells inner (inner'', found ++ found') := by
  intro p
  obtain ⟨halternates, hturned⟩ := h p
  obtain ⟨halternates', hturned'⟩ := h' p
  rw [about_append, alternates_append, turned_append, hturned]
  exact ⟨⟨halternates, halternates'⟩, hturned'⟩

/-- It is enough that what is found of each process is the change of it. -/
theorem Tells.of_change
    (h : ∀ p, about p found = change (inner.reported p) (inner'.reported p)) :
    Tells inner (inner', found) := by
  intro p
  rw [h p]
  exact ⟨change_alternates .., turned_change ..⟩

@[simp] theorem change_self (b : Bool) : change b b = [] := by simp [change]

theorem reported_eq (inner : Inner) (p : Process) : inner.reported p =
    (inner.tracks.get? p.pid).any fun t => t.started = p.started && t.reported := by
  rw [Inner.reported, Inner.track]
  cases inner.tracks.get? p.pid with
  | none => rfl
  | some t => by_cases hstarted : t.started = p.started <;> simp [Option.filter, hstarted]

theorem not_walking_of_finished {t : Track} (h : t.finished now = true) :
    t.walking now = false := by
  simp only [Track.finished, Bool.and_eq_true, decide_eq_true_eq] at h
  have hquiet : ¬now - t.last < quiet := by omega
  simp [Track.walking, Track.held, h.1, heldDirs, hquiet]

/-- Of a process is found what is found of the track of its id. -/
theorem about_entries (f : ℕ × Track → List Found) (tracks : OrderedMap ℕ Track)
    (h : ∀ e, e.1 ≠ p.pid → about p (f e) = []) :
    about p (tracks.entries.flatMap f) =
      (tracks.get? p.pid).elim [] fun t => about p (f (p.pid, t)) := by
  have hflat : ∀ entries : List (ℕ × Track), about p (entries.flatMap f) =
      (entries.filter (·.1 = p.pid)).flatMap fun e => about p (f e) := by
    intro entries
    induction entries with
    | nil => rfl
    | cons e entries ih =>
        by_cases he : e.1 = p.pid
        · simp [he, ih]
        · simp [he, ih, h e he]
  rw [hflat, tracks.filter_key]
  cases tracks.get? p.pid <;> simp

theorem prune_tells (now : ℕ) (force : Bool) (inner : Inner) :
    Tells inner (inner.prune now force) := by
  rw [Inner.prune]
  split_ifs
  · exact .nothing fun _ => rfl
  · refine .of_change fun p => ?_
    rw [about_entries _ _ fun e he => ?_]
    · rw [reported_eq, reported_eq, OrderedMap.get?_retain, OrderedMap.get?_mapValues]
      cases inner.tracks.get? p.pid with
      | none => rfl
      | some t =>
          have hsettled : ((some (t.settled now)).filter fun t => !t.finished now).any
              (fun t => t.started = p.started && t.reported) =
                (decide (t.started = p.started) && t.walking now) := by
            by_cases hfinished : t.finished now
            · have hnot := not_walking_of_finished hfinished
              simp [Option.filter, hfinished, hnot]
            · have hkept : ((some (t.settled now)).filter fun t => !t.finished now) =
                  some (t.settled now) := by simp [Option.filter, hfinished]
              rw [hkept]
              rfl
          rw [Option.map_some, hsettled]
          by_cases hstarted : t.started = p.started
          · simp [hstarted]
          · have hne : (⟨p.pid, t.started⟩ : Process) ≠ p := fun heq => hstarted (heq ▸ rfl)
            simp [hstarted, hne]
    · rw [about_news, if_neg]
      rintro rfl
      exact he rfl

theorem remove_tells (pid : ℕ) (inner : Inner) : Tells inner (inner.remove pid) := by
  rw [Inner.remove]
  cases hget : inner.tracks.get? pid with
  | none => exact .nothing fun _ => rfl
  | some t =>
      refine .of_change fun p => ?_
      rw [about_news, reported_eq, reported_eq, OrderedMap.get?_erase]
      by_cases hpid : p.pid = pid
      · subst hpid
        by_cases hstarted : t.started = p.started
        · simp [hget, hstarted]
        · have hne : (⟨p.pid, t.started⟩ : Process) ≠ p := fun heq => hstarted (heq ▸ rfl)
          simp [hne, hget, hstarted]
      · have hne : (⟨pid, t.started⟩ : Process) ≠ p := fun heq => hpid (heq ▸ rfl)
        simp [hne, hpid]

theorem replace_tells (process : Process) (inner : Inner) :
    Tells inner (inner.replace process) := by
  rw [Inner.replace]
  split_ifs
  · exact remove_tells _ _
  · exact .nothing fun _ => rfl

theorem gone_tells (process : Process) (inner : Inner) : Tells inner (inner.gone process) := by
  rw [Inner.gone]
  split_ifs
  · exact remove_tells _ _
  · exact .nothing fun _ => rfl

/-- Once the id's earlier process is out of the way. -/
theorem replace_started {t : Track}
    (h : (inner.replace process).1.tracks.get? process.pid = some t) :
    t.started = process.started := by
  rw [Inner.replace] at h
  split_ifs at h with hany
  · rw [Inner.remove] at h
    cases hget : inner.tracks.get? process.pid with
    | none => simp [hget] at h
    | some old => simp [hget, OrderedMap.get?_erase] at h
  · simpa [h] using hany

theorem count_tells (fh now : ℕ)
    (h : ∀ t, inner.tracks.get? process.pid = some t → t.started = process.started) :
    Tells inner (inner.count process fh now) := by
  intro p
  rw [Inner.count, about_append, about_news, about_news, reported_eq, reported_eq,
    OrderedMap.get?_insert]
  have hstarted : ((inner.tracks.get? process.pid).getD (.new process.started now)).started =
      process.started := by
    cases hget : inner.tracks.get? process.pid with
    | none => rfl
    | some t => exact h t hget
  by_cases hp : process = p
  · subst hp
    have hbefore : ((inner.tracks.get? process.pid).any
        fun t => t.started = process.started && t.reported) =
          ((inner.tracks.get? process.pid).getD (.new process.started now)).reported := by
      cases hget : inner.tracks.get? process.pid with
      | none => rfl
      | some t => simp [h t hget]
    rw [hbefore, if_pos rfl, if_pos rfl, if_pos rfl, alternates_append, turned_append,
      turned_change, turned_change]
    refine ⟨⟨change_alternates .., change_alternates ..⟩, ?_⟩
    simp [hstarted]
  · rw [if_neg hp, if_neg hp]
    refine ⟨trivial, ?_⟩
    split_ifs with hpid
    · -- The track of the id is the other process's, before and after.
      have hne : process.started ≠ p.started := by
        intro heq
        exact hp (Process.ext hpid.symm heq)
      have hbefore : ((inner.tracks.get? p.pid).any
          fun t => t.started = p.started && t.reported) = false := by
        rw [hpid]
        cases hget : inner.tracks.get? process.pid with
        | none => rfl
        | some t => simp [h t hget, hne]
      rw [hbefore]
      simp [turned, hstarted, hne]
    · rfl

theorem record_tells (process : Process) (fh now : ℕ) (inner : Inner) :
    Tells inner (inner.record process fh now) :=
  (replace_tells process inner).trans (count_tells fh now fun _ => replace_started)

theorem opened_tells (own fh tid now : ℕ) (inner : Inner) :
    Tells inner (inner.opened own fh tid now).1 := by
  have hprune := prune_tells now false inner
  rw [Inner.opened]
  split_ifs
  · exact .nothing fun _ => rfl
  · simp only
    split
    · exact hprune
    · exact hprune.trans (record_tells _ _ _ _)
    · exact hprune

theorem identified_tells (own fh tid now : ℕ) (answer : Option Process) (inner : Inner) :
    Tells inner (inner.identified own fh tid now answer) := by
  cases answer with
  | none => exact .nothing fun _ => rfl
  | some process =>
      -- Which thread belongs to which process says nothing of walks.
      have hrecord := record_tells process fh now
        { inner with threads := inner.threads.insert tid (process, now) }
      rw [Inner.identified]
      split_ifs
      · exact .nothing fun _ => rfl
      · exact fun p => hrecord p

theorem released_reported (fh : ℕ) (inner : Inner) (p : Process) :
    (inner.released fh).reported p = inner.reported p := by
  rw [Inner.released]
  cases inner.handles.get? fh with
  | none => rfl
  | some pid =>
      rw [reported_eq, reported_eq, OrderedMap.get?_modify]
      split_ifs with hpid
      · rw [hpid]
        cases inner.tracks.get? pid <;> rfl
      · rfl

end Tells

/-! ### What is open -/

/-- A track counts the handles that its process holds, and without a track there are none. -/
def Inner.Counted (inner : Inner) : Prop :=
  ∀ pid, inner.handles.entries.countP (·.2 = pid) =
    (inner.tracks.get? pid).elim 0 (·.dirsOpen)

section Counts

variable {inner : Inner} {process : Process} {own pid fh fh' tid now : ℕ}

@[simp] theorem Track.settled_dirsOpen (now : ℕ) (t : Track) :
    (t.settled now).dirsOpen = t.dirsOpen := rfl

@[simp] theorem Track.rested_dirsOpen (now : ℕ) (t : Track) :
    (t.rested now).dirsOpen = t.dirsOpen := by
  rw [Track.rested]
  split_ifs <;> rfl

theorem Track.noticed_counted_dirsOpen (now : ℕ) (t : Track) :
    ((t.counted now).noticed now).dirsOpen = t.dirsOpen + 1 := rfl

theorem prune_counted (now : ℕ) (force : Bool) (h : inner.Counted) :
    (inner.prune now force).1.Counted := by
  rw [Inner.prune]
  split_ifs
  · exact h
  · intro pid
    show inner.handles.entries.countP (·.2 = pid) = _
    rw [h pid, OrderedMap.get?_retain, OrderedMap.get?_mapValues]
    cases inner.tracks.get? pid with
    | none => rfl
    | some t =>
        by_cases hfinished : t.finished now
        · have hzero : t.dirsOpen = 0 := by
            simp only [Track.finished, Bool.and_eq_true, decide_eq_true_eq] at hfinished
            exact hfinished.1
          simp [Option.filter, hzero, hfinished]
        · simp [Option.filter, hfinished]

theorem remove_counted (pid : ℕ) (h : inner.Counted) : (inner.remove pid).1.Counted := by
  rw [Inner.remove]
  cases inner.tracks.get? pid with
  | none => exact h
  | some t =>
      intro pid'
      show (inner.handles.entries.filter _).countP _ = ((inner.tracks.erase pid).get? pid').elim _ _
      rw [List.countP_filter, OrderedMap.get?_erase]
      split_ifs with hpid
      · rw [Option.elim_none, List.countP_eq_zero]
        simp [hpid]
      · rw [← h pid']
        refine List.countP_congr fun e _ => ?_
        simp only [Bool.and_eq_true, decide_eq_true_eq, and_iff_left_iff_imp]
        rintro rfl
        exact hpid

theorem replace_counted (process : Process) (h : inner.Counted) :
    (inner.replace process).1.Counted := by
  rw [Inner.replace]
  split_ifs
  · exact remove_counted _ h
  · exact h

theorem gone_counted (process : Process) (h : inner.Counted) : (inner.gone process).1.Counted := by
  rw [Inner.gone]
  split_ifs
  · exact remove_counted _ h
  · exact h

theorem count_counted (process : Process) (now : ℕ) (hnew : inner.handles.get? fh = none)
    (h : inner.Counted) : (inner.count process fh now).1.Counted := by
  intro pid
  have herase : (inner.handles.erase fh).entries.countP (·.2 = pid) =
      inner.handles.entries.countP (·.2 = pid) := by
    rw [← inner.handles.countP_erase_add fh, hnew]
    rfl
  rw [Inner.count, OrderedMap.countP_insert, OrderedMap.get?_insert, herase, h pid]
  by_cases hpid : pid = process.pid
  · subst hpid
    simp only [decide_true, if_true, Option.elim_some, Track.noticed_counted_dirsOpen,
      Track.rested_dirsOpen]
    cases inner.tracks.get? process.pid <;> rfl
  · simp [hpid, Ne.symm hpid]

theorem remove_handles (pid : ℕ) (hnew : inner.handles.get? fh = none) :
    (inner.remove pid).1.handles.get? fh = none := by
  rw [Inner.remove]
  cases inner.tracks.get? pid with
  | none => exact hnew
  | some t =>
      rw [OrderedMap.get?_retain, hnew]
      rfl

theorem replace_handles (process : Process) (hnew : inner.handles.get? fh = none) :
    (inner.replace process).1.handles.get? fh = none := by
  rw [Inner.replace]
  split_ifs
  · exact remove_handles _ hnew
  · exact hnew

theorem record_counted (process : Process) (now : ℕ) (hnew : inner.handles.get? fh = none)
    (h : inner.Counted) : (inner.record process fh now).1.Counted :=
  count_counted process now (replace_handles process hnew) (replace_counted process h)

theorem record_handles (process : Process) (now : ℕ) (hne : fh' ≠ fh)
    (hnew : inner.handles.get? fh' = none) :
    (inner.record process fh now).1.handles.get? fh' = none := by
  show ((inner.replace process).1.handles.insert fh process.pid).get? fh' = none
  rw [OrderedMap.get?_insert, if_neg hne]
  exact replace_handles process hnew

theorem released_counted (fh : ℕ) (h : inner.Counted) : (inner.released fh).Counted := by
  rw [Inner.released]
  cases hget : inner.handles.get? fh with
  | none => exact h
  | some holder =>
      intro pid
      have herase := inner.handles.countP_erase_add fh (q := (·.2 = pid))
      rw [hget, h pid] at herase
      show (inner.handles.erase fh).entries.countP _ = _
      rw [OrderedMap.get?_modify]
      split_ifs with hpid
      · subst hpid
        cases htrack : inner.tracks.get? pid with
        | none => simp [htrack] at herase
        | some t =>
            rw [htrack] at herase
            have hmore : (inner.handles.erase fh).entries.countP (·.2 = pid) + 1 =
                t.dirsOpen := by
              simpa using herase
            show _ = t.dirsOpen - 1
            omega
      · simpa [Ne.symm hpid] using herase

@[simp] theorem prune_handles (now : ℕ) (force : Bool) (inner : Inner) :
    (inner.prune now force).1.handles = inner.handles := by
  rw [Inner.prune]
  split_ifs <;> rfl

theorem opened_counted (own tid now : ℕ) (hnew : inner.handles.get? fh = none)
    (h : inner.Counted) : (inner.opened own fh tid now).1.1.Counted := by
  have hprune := prune_counted now false h
  rw [Inner.opened]
  split_ifs
  · exact h
  · simp only
    split
    · exact hprune
    · exact record_counted _ now (by rwa [prune_handles]) hprune
    · exact hprune

theorem opened_handles (own tid now : ℕ) (hne : fh' ≠ fh)
    (hnew : inner.handles.get? fh' = none) :
    (inner.opened own fh tid now).1.1.handles.get? fh' = none := by
  rw [Inner.opened]
  split_ifs
  · exact hnew
  · simp only
    split
    · rwa [prune_handles]
    · exact record_handles _ now hne (by rwa [prune_handles])
    · rwa [prune_handles]

theorem opened_identifying {tid' now' : ℕ}
    (h : (inner.opened own fh tid now).2 = .identifying fh' tid' now') :
    fh' = fh ∧ (inner.opened own fh tid now).1.1.handles = inner.handles := by
  rw [Inner.opened] at h ⊢
  split_ifs at h ⊢
  simp only at h ⊢
  split at h
  · cases h
  · cases h
  next =>
    cases h
    exact ⟨rfl, prune_handles ..⟩

theorem identified_counted (own tid now : ℕ) (answer : Option Process)
    (hnew : inner.handles.get? fh = none) (h : inner.Counted) :
    (inner.identified own fh tid now answer).1.Counted := by
  cases answer with
  | none => exact h
  | some process =>
      rw [Inner.identified]
      split_ifs
      · exact h
      · exact record_counted process now hnew h

theorem identified_handles (own tid now : ℕ) (answer : Option Process) (hne : fh' ≠ fh)
    (hnew : inner.handles.get? fh' = none) :
    (inner.identified own fh tid now answer).1.handles.get? fh' = none := by
  cases answer with
  | none => exact hnew
  | some process =>
      rw [Inner.identified]
      split_ifs
      · exact hnew
      · exact record_handles process now hne hnew

theorem released_handles (fh : ℕ) (hnew : inner.handles.get? fh' = none) :
    (inner.released fh).handles.get? fh' = none := by
  rw [Inner.released]
  cases inner.handles.get? fh with
  | none => exact hnew
  | some holder =>
      rw [OrderedMap.get?_erase, hnew]
      exact ite_self none

end Counts

end SynologyFilestation.Fuse.Walks
