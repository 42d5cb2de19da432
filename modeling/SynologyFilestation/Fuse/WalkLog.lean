import SynologyFilestation.Fuse.Walks
import SynologyFilestation.Library.Transition

/-!
The log of walks (`fuse/src/walks.rs`), over any order of the calls' steps.

What a call finds under the lock it logs once the lock is let go: first the walks that
have stopped, then those that have started, each after it has read the process's
command and looked the walk up again. What all the calls have found and not yet logged
stands in the order in which it was found.
-/

namespace SynologyFilestation.Fuse.Walks

open Function Library

inductive LogLine
  | isWalking (process : Process)
  | hasStopped (process : Process)
  /-- A stop has made it exit. -/
  | stopped (process : Process)
  deriving DecidableEq

def LogLine.found : LogLine → Option Found
  | .isWalking process => some ⟨process, true⟩
  | .hasStopped process => some ⟨process, false⟩
  | .stopped _ => none

structure State where
  inner : Inner
  calls : ℕ → Phase
  /-- What each call has found and not yet logged, in the order it was found. -/
  waiting : List (ℕ × Found)
  log : List LogLine

namespace State

def start : State := ⟨.empty, fun _ => .idle, [], []⟩

/-- A call lets go of the lock. -/
def leave (s : State) (call : ℕ) (phase : Phase) (result : Inner × List Found) : State :=
  { s with
    inner := result.1
    calls := update s.calls call phase
    waiting := s.waiting ++ result.2.map (call, ·) }

def goes (s : State) (call : ℕ) (phase : Phase) : State :=
  { s with calls := update s.calls call phase }

/-- A call that has logged what it found, or that finds there is nothing to log. -/
def drop (s : State) (call : ℕ) (found : Found) : State :=
  { s with waiting := s.waiting.erase (call, found) }

def say (s : State) (line : LogLine) : State := { s with log := s.log ++ [line] }

def next (s : State) (call : ℕ) (walks : Bool) : Option Found :=
  (s.waiting.find? fun w => w.1 = call && w.2.walks = walks).map Prod.snd

@[simp] theorem leave_calls (s : State) (call : ℕ) (phase : Phase) (result : Inner × List Found) :
    (s.leave call phase result).calls call = phase := update_self ..

@[simp] theorem goes_calls (s : State) (call : ℕ) (phase : Phase) :
    (s.goes call phase).calls call = phase := update_self ..

/-- No call is opening the handle. -/
def Settled (s : State) (fh : ℕ) : Prop := ∀ call tid now, s.calls call ≠ .identifying fh tid now

end State

/-- How the signal went. -/
inductive Terminated
  | ok
  | notFound
  | io
  deriving DecidableEq

inductive Event
  | opened (call fh tid now : ℕ)
  | identified (call : ℕ) (process : Option Process)
  | released (fh : ℕ)
  | tick (call now : ℕ) (force : Bool)
  | stop (call pid now : ℕ)
  | terminated (call : ℕ) (answer : Terminated)
  | logStopped (call : ℕ)
  /-- The command is read, and the walk looked up again. -/
  | command (call : ℕ)
  | logWalking (call : ℕ)
  | returns (call : ℕ)

/-- Calls take their steps in any order. A handle is not in use when it is opened, and it
is released once it has been opened. -/
inductive Step (own : ℕ) (s : State) : Event → State → Prop
  | opened {call fh tid now : ℕ} (hidle : s.calls call = .idle)
      (hnew : s.inner.handles.get? fh = none) (hsettled : s.Settled fh) :
      Step own s (.opened call fh tid now)
        (s.leave call (s.inner.opened own fh tid now).2 (s.inner.opened own fh tid now).1)
  | identified {call fh tid now : ℕ} {process : Option Process}
      (hphase : s.calls call = .identifying fh tid now) :
      Step own s (.identified call process)
        (s.leave call .announcing (s.inner.identified own fh tid now process))
  | released {fh : ℕ} (hsettled : s.Settled fh) :
      Step own s (.released fh) { s with inner := s.inner.released fh }
  | tick {call now : ℕ} {force : Bool} (hidle : s.calls call = .idle) :
      Step own s (.tick call now force) (s.leave call .announcing (s.inner.prune now force))
  | notWalking {call pid now : ℕ} (hidle : s.calls call = .idle)
      (hnone : s.inner.toStop pid now = none) : Step own s (.stop call pid now) s
  | stop {call pid now : ℕ} {process : Process} (hidle : s.calls call = .idle)
      (hstop : s.inner.toStop pid now = some process) :
      Step own s (.stop call pid now) (s.goes call (.stopping process))
  | ended {call : ℕ} {process : Process} (hphase : s.calls call = .stopping process) :
      Step own s (.terminated call .ok) ((s.goes call .idle).say (.stopped process))
  | gone {call : ℕ} {process : Process} (hphase : s.calls call = .stopping process) :
      Step own s (.terminated call .notFound)
        (s.leave call .announcing (s.inner.gone process))
  | failed {call : ℕ} {process : Process} (hphase : s.calls call = .stopping process) :
      Step own s (.terminated call .io) (s.goes call .idle)
  | logStopped {call : ℕ} {found : Found} (hphase : s.calls call = .announcing)
      (hnext : s.next call false = some found) :
      Step own s (.logStopped call) ((s.drop call found).say (.hasStopped found.process))
  | command {call : ℕ} {found : Found} {t : Track} (hphase : s.calls call = .announcing)
      (hnone : s.next call false = none) (hnext : s.next call true = some found)
      (htrack : s.inner.track found.process = some t) :
      Step own s (.command call) (s.goes call (.saying found.process))
  | commandGone {call : ℕ} {found : Found} (hphase : s.calls call = .announcing)
      (hnone : s.next call false = none) (hnext : s.next call true = some found)
      (htrack : s.inner.track found.process = none) :
      Step own s (.command call) (s.drop call found)
  | logWalking {call : ℕ} {process : Process} (hphase : s.calls call = .saying process) :
      Step own s (.logWalking call)
        (((s.drop call ⟨process, true⟩).goes call .announcing).say (.isWalking process))
  | returns {call : ℕ} (hphase : s.calls call = .announcing)
      (hnone : s.next call false = none) (hnone' : s.next call true = none) :
      Step own s (.returns call) (s.goes call .idle)

/-! ### What is logged -/

section Logs

variable {own call : ℕ} {s t : State} {found : Found} {line : LogLine} {p : Process}

def logged (p : Process) (log : List LogLine) : List Bool := about p (log.filterMap LogLine.found)

/-- What is logged of a process, and then what is yet to be. -/
def State.story (s : State) (p : Process) : List Bool :=
  logged p s.log ++ about p (s.waiting.map Prod.snd)

/-- What is logged and what is to be, one after the other, is what happened. -/
def Told (s : State) : Prop :=
  ∀ p, Alternates false (s.story p) ∧ turned false (s.story p) = s.inner.reported p

/-- Nothing that was found of the process before is yet to be logged. -/
def State.First (s : State) (call : ℕ) (found : Found) : Prop :=
  s.waiting.find? (·.2.process = found.process) = some (call, found)

/-- What is found of a process is logged in the order in which it was found, and the walk
of a start is there when its command has been read. -/
def InOrder (s : State) : Event → Prop
  | .logStopped call => ∀ found, s.next call false = some found → s.First call found
  | .logWalking call =>
      ∀ process, s.calls call = .saying process → s.First call ⟨process, true⟩
  | .command call =>
      ∀ found, s.next call true = some found → (s.inner.track found.process).isSome
  | _ => True

theorem Told.leave {phase : Phase} {result : Inner × List Found} (h : Told s)
    (hresult : Tells s.inner result) : Told (s.leave call phase result) := by
  intro p
  obtain ⟨halternates, hturned⟩ := h p
  obtain ⟨halternates', hturned'⟩ := hresult p
  have hstory : (s.leave call phase result).story p = s.story p ++ about p result.2 := by
    simp [State.story, State.leave, Function.comp_def]
  rw [hstory, alternates_append, turned_append, hturned]
  exact ⟨⟨halternates, halternates'⟩, hturned'⟩

theorem about_eq_nil {waiting : List (ℕ × Found)} (h : ∀ w ∈ waiting, w.2.process ≠ p) :
    about p (waiting.map Prod.snd) = [] := by
  simp only [about, List.map_eq_nil_iff, List.filter_eq_nil_iff, List.mem_map]
  rintro _ ⟨w, hmem, rfl⟩
  simpa using h w hmem

theorem about_erase {waiting : List (ℕ × Found)}
    (hfirst : waiting.find? (·.2.process = found.process) = some (call, found)) (p : Process) :
    about p (waiting.map Prod.snd) =
      about p [found] ++ about p ((waiting.erase (call, found)).map Prod.snd) := by
  obtain ⟨_, before, after, rfl, hbefore⟩ := List.find?_eq_some_iff_append.mp hfirst
  have hnot : (call, found) ∉ before := fun hmem => by simpa using hbefore _ hmem
  rw [List.erase_append_right _ hnot, List.erase_cons_head]
  by_cases hp : found.process = p
  · have hnone : about p (before.map Prod.snd) = [] := by
      refine about_eq_nil fun w hmem => ?_
      simpa [hp] using hbefore w hmem
    simp only [List.map_append, List.map_cons, about_append, hnone, List.nil_append]
    rw [← about_append, List.singleton_append]
  · have hnone : about p [found] = [] := by simp [about, hp]
    simp only [List.map_append, List.map_cons, about_append, hnone, List.nil_append]
    rw [← List.singleton_append, about_append, hnone, List.nil_append]

theorem next_walks {walks : Bool} (h : s.next call walks = some found) : found.walks = walks := by
  obtain ⟨w, hfind, rfl⟩ := Option.map_eq_some_iff.mp h
  have hw := List.find?_some hfind
  simp only [Bool.and_eq_true, decide_eq_true_eq] at hw
  exact hw.2

/-- What is logged first of what is to be logged of a process. -/
theorem story_say (hfirst : s.First call found) (hline : line.found = some found) :
    ((s.drop call found).say line).story p = s.story p := by
  rw [State.story, State.story, about_erase hfirst p]
  simp [State.say, State.drop, logged, hline]

theorem Told.say (h : Told s) (hfirst : s.First call found) (hline : line.found = some found) :
    Told ((s.drop call found).say line) := by
  intro p
  rw [story_say hfirst hline]
  exact h p

theorem Told.step {e : Event} (h : Told s) (hmeets : InOrder s e) (hstep : Step own s e t) :
    Told t := by
  cases hstep with
  | opened => exact h.leave (opened_tells _ _ _ _ _)
  | identified => exact h.leave (identified_tells _ _ _ _ _ _)
  | released =>
      intro p
      show Alternates false (s.story p) ∧ _ = (s.inner.released _).reported p
      rw [released_reported]
      exact h p
  | tick => exact h.leave (prune_tells _ _ _)
  | notWalking => exact h
  | stop => exact h
  | ended =>
      intro p
      have hstory : ∀ s : State, ∀ process, (s.say (.stopped process)).story p = s.story p := by
        intro s process
        simp [State.story, State.say, logged, LogLine.found, List.filterMap_cons]
      rw [hstory]
      exact h p
  | gone => exact h.leave (gone_tells _ _)
  | failed => exact h
  | logStopped hphase hnext =>
      refine h.say (hmeets _ hnext) ?_
      rw [LogLine.found, ← next_walks hnext]
  | command => exact h
  | commandGone hphase hnone hnext htrack =>
      have hsome := hmeets _ hnext
      simp [htrack] at hsome
  | logWalking hphase => exact h.say (hmeets _ hphase) rfl
  | returns => exact h

end Logs

section Runs

variable {own : ℕ} {s t : State} {e : Event}

/-- A handle that is being opened is not held yet, and one call opens it. -/
structure Sound (s : State) : Prop where
  counted : s.inner.Counted
  fresh : ∀ call fh tid now, s.calls call = .identifying fh tid now →
    s.inner.handles.get? fh = none
  apart : ∀ call call' fh tid now tid' now', s.calls call = .identifying fh tid now →
    s.calls call' = .identifying fh tid' now' → call = call'

/-- A step that has no more handles to open. -/
theorem Sound.quiet (h : Sound s) (hcounted : t.inner.Counted)
    (hcalls : ∀ call fh tid now, t.calls call = .identifying fh tid now →
      s.calls call = .identifying fh tid now ∧ t.inner.handles.get? fh = none) : Sound t where
  counted := hcounted
  fresh call fh tid now hcall := (hcalls call fh tid now hcall).2
  apart call call' fh tid now tid' now' hcall hcall' :=
    h.apart call call' fh tid now tid' now' (hcalls _ _ _ _ hcall).1 (hcalls _ _ _ _ hcall').1

theorem Sound.start : Sound .start where
  counted _ := rfl
  fresh _ _ _ _ hcall := nomatch hcall
  apart _ _ _ _ _ _ _ hcall := nomatch hcall

/-- A call that is opening a handle. -/
def Phase.opens : Phase → Bool
  | .identifying .. => true
  | _ => false

/-- What other calls are opening, once a call is elsewhere. -/
theorem of_update {calls : ℕ → Phase} {call call' fh tid now : ℕ} {phase : Phase}
    (h : update calls call phase call' = .identifying fh tid now)
    (hphase : phase.opens = false) : call' ≠ call ∧ calls call' = .identifying fh tid now := by
  rcases eq_or_ne call' call with rfl | hne
  · rw [update_self] at h
    rw [h] at hphase
    cases hphase
  · rw [update_of_ne hne] at h
    exact ⟨hne, h⟩

/-- Another call goes on, with none of the handles that are being opened. -/
theorem Sound.goes (h : Sound s) {call : ℕ} {phase : Phase} (hcounted : t.inner.Counted)
    (hcalls : t.calls = update s.calls call phase) (hphase : phase.opens = false)
    (hhandles : ∀ call' fh tid now, call' ≠ call → s.calls call' = .identifying fh tid now →
      t.inner.handles.get? fh = none) : Sound t := by
  refine h.quiet hcounted fun call' fh tid now hcall => ?_
  rw [hcalls] at hcall
  obtain ⟨hne, hbefore⟩ := of_update hcall hphase
  exact ⟨hbefore, hhandles call' fh tid now hne hbefore⟩

/-- A call goes on, and the table of processes is as it was. -/
theorem Sound.stays (h : Sound s) {call : ℕ} {phase : Phase} (hinner : t.inner = s.inner)
    (hcalls : t.calls = update s.calls call phase) (hphase : phase.opens = false) : Sound t := by
  refine h.goes (by rw [hinner]; exact h.counted) hcalls hphase ?_
  intro call' fh tid now _ hcall
  rw [hinner]
  exact h.fresh call' fh tid now hcall

theorem Sound.opened {call fh tid now : ℕ} (h : Sound s)
    (hnew : s.inner.handles.get? fh = none) (hsettled : s.Settled fh) :
    Sound (s.leave call (s.inner.opened own fh tid now).2 (s.inner.opened own fh tid now).1) := by
  have hother : ∀ {call' fh' tid' now'}, call' ≠ call →
      update s.calls call (s.inner.opened own fh tid now).2 call' = .identifying fh' tid' now' →
      s.calls call' = .identifying fh' tid' now' ∧ fh' ≠ fh := by
    intro call' fh' tid' now' hne hcall
    rw [update_of_ne hne] at hcall
    refine ⟨hcall, ?_⟩
    rintro rfl
    exact hsettled _ _ _ hcall
  have hself : ∀ {fh' tid' now'},
      update s.calls call (s.inner.opened own fh tid now).2 call = .identifying fh' tid' now' →
      fh' = fh ∧ (s.inner.opened own fh tid now).1.1.handles = s.inner.handles := by
    intro fh' tid' now' hcall
    rw [update_self] at hcall
    exact opened_identifying hcall
  constructor
  · exact opened_counted _ _ _ hnew h.counted
  · intro call' fh' tid' now' hcall
    rcases eq_or_ne call' call with rfl | hne
    · obtain ⟨rfl, hhandles⟩ := hself hcall
      show (s.inner.opened own fh' tid now).1.1.handles.get? fh' = none
      rwa [hhandles]
    · obtain ⟨hbefore, hfh⟩ := hother hne hcall
      exact opened_handles _ _ _ hfh (h.fresh _ _ _ _ hbefore)
  · intro call₁ call₂ fh' tid₁ now₁ tid₂ now₂ hcall₁ hcall₂
    rcases eq_or_ne call₁ call with heq₁ | hne₁ <;> rcases eq_or_ne call₂ call with heq₂ | hne₂
    · exact heq₁.trans heq₂.symm
    · subst heq₁
      exact absurd (hself hcall₁).1 (hother hne₂ hcall₂).2
    · subst heq₂
      exact absurd (hself hcall₂).1 (hother hne₁ hcall₁).2
    · exact h.apart _ _ _ _ _ _ _ (hother hne₁ hcall₁).1 (hother hne₂ hcall₂).1

theorem Sound.step (h : Sound s) (hstep : Step own s e t) : Sound t := by
  cases hstep with
  | opened hidle hnew hsettled => exact h.opened hnew hsettled
  | identified hphase =>
      refine h.goes (identified_counted _ _ _ _ (h.fresh _ _ _ _ hphase) h.counted) rfl rfl ?_
      intro call' fh' tid' now' hne hcall
      refine identified_handles _ _ _ _ ?_ (h.fresh _ _ _ _ hcall)
      rintro rfl
      exact hne (h.apart _ _ _ _ _ _ _ hcall hphase)
  | released hsettled =>
      exact h.quiet (released_counted _ h.counted) fun _ _ _ _ hcall =>
        ⟨hcall, released_handles _ (h.fresh _ _ _ _ hcall)⟩
  | tick =>
      refine h.goes (prune_counted _ _ h.counted) rfl rfl fun _ _ _ _ _ hcall => ?_
      show (s.inner.prune _ _).1.handles.get? _ = none
      rw [prune_handles]
      exact h.fresh _ _ _ _ hcall
  | gone =>
      refine h.goes (gone_counted _ h.counted) rfl rfl fun _ _ _ _ _ hcall => ?_
      show (s.inner.gone _).1.handles.get? _ = none
      rw [Inner.gone]
      split_ifs
      · exact remove_handles _ (h.fresh _ _ _ _ hcall)
      · exact h.fresh _ _ _ _ hcall
  | notWalking => exact h
  | stop | ended | failed | command | logWalking | returns => exact h.stays rfl rfl rfl
  | logStopped | commandGone =>
      exact h.quiet h.counted fun _ _ _ _ hcall => ⟨hcall, h.fresh _ _ _ _ hcall⟩

/-- The log, the counts and the list agree on what processes do. -/
structure Balanced (s : State) : Prop where
  counted : ∀ pid t, s.inner.tracks.get? pid = some t →
    t.dirsOpen = s.inner.handles.entries.countP (·.2 = pid)
  alternates : ∀ p, Alternates false (logged p s.log)
  listed : ∀ now w, w ∈ s.inner.walkersAt now ↔ ∃ t, s.inner.tracks.get? w.pid = some t ∧
    t.reported = true ∧ t.walking now = true ∧ w = t.walker w.pid now

theorem walkersAt_iff (now : ℕ) (w : Walker) (inner : Inner) : w ∈ inner.walkersAt now ↔
    ∃ t, inner.tracks.get? w.pid = some t ∧ t.reported = true ∧ t.walking now = true ∧
      w = t.walker w.pid now := by
  simp only [Inner.walkersAt, List.mem_map, List.mem_filter, Bool.and_eq_true, Prod.exists,
    OrderedMap.get?_eq_some]
  constructor
  · rintro ⟨pid, t, ⟨hmem, hreported, hwalking⟩, rfl⟩
    exact ⟨t, hmem, hreported, hwalking, rfl⟩
  · rintro ⟨t, hmem, hreported, hwalking, hw⟩
    exact ⟨w.pid, t, ⟨hmem, hreported, hwalking⟩, hw.symm⟩

/-- Counts and list are right in every run. -/
theorem tracks_count {meets : State → Event → Prop}
    (h : Reaches (Step own) meets .start s) (pid : ℕ) (t : Track)
    (hget : s.inner.tracks.get? pid = some t) :
    t.dirsOpen = s.inner.handles.entries.countP (·.2 = pid) := by
  have hsound : Sound s := h.invariant .start fun hs _ hstep => hs.step hstep
  rw [hsound.counted pid, hget]
  rfl

theorem Told.start : Told .start := fun _ => ⟨trivial, rfl⟩

/-- Where nothing of a process waits to be logged, the log says whether it is reported. -/
theorem logged_reported (h : Reaches (Step own) InOrder .start s) {p : Process}
    (hnone : ∀ w ∈ s.waiting, w.2.process ≠ p) :
    turned false (logged p s.log) = s.inner.reported p := by
  have htold : Told s := h.invariant .start fun hs hmeets hstep => hs.step hmeets hstep
  rw [← (htold p).2, State.story, about_eq_nil hnone, List.append_nil]

/-- In a run in which what is found is logged in that order, all of it is balanced. -/
theorem walks_balanced (h : Reaches (Step own) InOrder .start s) : Balanced s where
  counted := tracks_count h
  alternates p := by
    have htold : Told s := h.invariant .start fun hs hmeets hstep => hs.step hmeets hstep
    exact (alternates_append.mp (htold p).1).1
  listed now w := walkersAt_iff now w s.inner

end Runs

section Examples

/-- A process that opens one directory after the other at one time, and holds them all. -/
def finder : Process := ⟨7, 1⟩

/-- It holds so many, which no call has noticed. -/
structure Holding (n : ℕ) (s : State) : Prop where
  track : s.inner.tracks.get? 7 = some ⟨1, 0, 0, n, n, false⟩
  known : s.inner.threads.get? 7 = some (finder, 0)
  pruned : s.inner.pruned = some 0
  free : ∀ fh, n ≤ fh → s.inner.handles.get? fh = none
  idle : s.calls = fun _ => .idle
  waiting : s.waiting = []
  log : s.log = []

/-- The next open. -/
theorem Holding.opened {n : ℕ} {s : State} (h : Holding n s) :
    s.inner.opened 1 n 7 0 =
      ((⟨s.inner.threads, s.inner.handles.insert n 7,
          s.inner.tracks.insert 7 ⟨1, 0, 0, n + 1, n + 1, decide (heldDirs ≤ n + 1)⟩, some 0⟩,
        news finder false (heldDirs ≤ n + 1)), .announcing) := by
  have hprune : s.inner.prune 0 false = (s.inner, []) := by
    simp [Inner.prune, h.pruned, pruneEvery, second]
  have hknown : s.inner.known 1 7 0 = .tracked finder := by
    rw [Inner.known, h.known]
    simp [Option.filter, Inner.track, h.track, finder, resolveEvery, second]
  have hreplace : s.inner.replace finder = (s.inner, []) := by
    simp [Inner.replace, h.track, finder]
  have hcount : s.inner.count finder n 0 =
      (⟨s.inner.threads, s.inner.handles.insert n 7,
          s.inner.tracks.insert 7 ⟨1, 0, 0, n + 1, n + 1, decide (heldDirs ≤ n + 1)⟩, some 0⟩,
        news finder false (heldDirs ≤ n + 1)) := by
    have hrested : (Track.mk 1 0 0 n n false).rested 0 = ⟨1, 0, 0, n, n, false⟩ := by
      simp [Track.rested, quiet, second]
    have hnoticed : ((Track.mk 1 0 0 n n false).counted 0).noticed 0 =
        ⟨1, 0, 0, n + 1, n + 1, decide (heldDirs ≤ n + 1)⟩ := by
      simp [Track.counted, Track.noticed, Track.walking, Track.held, walkFor, second]
      rfl
    rw [Inner.count, show finder.pid = 7 from rfl, h.track, Option.getD_some, hrested, hnoticed,
      h.pruned]
    simp [news]
  rw [Inner.opened, if_neg (by omega), hprune]
  simp only [hknown, Inner.record, hreplace, hcount, List.nil_append]

theorem Holding.settled {n : ℕ} {s : State} (h : Holding n s) (fh : ℕ) : s.Settled fh := by
  intro call tid now
  simp [h.idle]

/-- The state that the next open leaves. -/
def openedOnce (n : ℕ) (s : State) : State :=
  { s with
    inner := ⟨s.inner.threads, s.inner.handles.insert n 7,
      s.inner.tracks.insert 7 ⟨1, 0, 0, n + 1, n + 1, decide (heldDirs ≤ n + 1)⟩, some 0⟩
    calls := update s.calls 0 .announcing
    waiting := (news finder false (heldDirs ≤ n + 1)).map (0, ·) }

theorem Holding.step {n : ℕ} {s : State} (h : Holding n s) :
    Step 1 s (.opened 0 n 7 0) (openedOnce n s) := by
  have hstep : Step 1 s (.opened 0 n 7 0)
      (s.leave 0 (s.inner.opened 1 n 7 0).2 (s.inner.opened 1 n 7 0).1) :=
    .opened (by simp [h.idle]) (h.free n le_rfl) (h.settled n)
  rw [h.opened] at hstep
  simpa [openedOnce, State.leave, h.waiting] using hstep

theorem Holding.next {n : ℕ} {s : State} (h : Holding n s) (hn : n + 1 < heldDirs) :
    Step 1 (openedOnce n s) (.returns 0) ((openedOnce n s).goes 0 .idle) ∧
      Holding (n + 1) ((openedOnce n s).goes 0 .idle) := by
  have hnot : decide (heldDirs ≤ n + 1) = false := decide_eq_false (by omega)
  have hwaiting : (openedOnce n s).waiting = [] := by simp [openedOnce, hnot, news]
  constructor
  · refine .returns (update_self 0 _ s.calls) ?_ ?_ <;> simp [State.next, hwaiting]
  · refine ⟨?_, h.known, rfl, fun fh hfh => ?_, ?_, hwaiting, h.log⟩
    · show ((s.inner.tracks.insert 7 _).get? 7) = _
      rw [OrderedMap.get?_insert, if_pos rfl, hnot]
    · show ((s.inner.handles.insert n 7).get? fh) = none
      rw [OrderedMap.get?_insert, if_neg (by omega)]
      exact h.free fh (by omega)
    · show update (update s.calls 0 .announcing) 0 .idle = _
      rw [h.idle, update_idem, update_eq_self_iff]

/-- Its first open is by a thread not seen before. -/
theorem holding_one : ∃ s, Reaches (Step 1) InOrder .start s ∧ Holding 1 s := by
  have hopened : Step 1 .start (.opened 0 0 7 0)
      (State.start.leave 0 (.identifying 0 7 0) (⟨.empty, .empty, .empty, some 0⟩, [])) :=
    .opened rfl rfl nofun
  let s := State.start.leave 0 (.identifying 0 7 0) (⟨.empty, .empty, .empty, some 0⟩, [])
  let t := s.leave 0 .announcing (s.inner.identified 1 0 7 0 (some finder))
  have hidentified : Step 1 s (.identified 0 (some finder)) t := .identified rfl
  have hreturns : Step 1 t (.returns 0) (t.goes 0 .idle) := .returns rfl (by decide) (by decide)
  refine ⟨t.goes 0 .idle, ?_, ?_⟩
  · refine .next (e := .returns 0) (.next (e := .identified 0 (some finder)) ?_ trivial hidentified)
      trivial hreturns
    exact .next (e := .opened 0 0 7 0) .start trivial hopened
  · refine ⟨by decide, by decide, by decide, fun fh hfh => ?_, ?_, by decide, by decide⟩
    · show ((OrderedMap.empty : OrderedMap ℕ ℕ).insert 0 7).get? fh = none
      rw [OrderedMap.get?_insert, if_neg (by omega)]
      rfl
    · simp [t, s, State.goes, State.leave, State.start]

theorem holding_reached {n : ℕ} (hpos : 0 < n) (hn : n < heldDirs) :
    ∃ s, Reaches (Step 1) InOrder .start s ∧ Holding n s := by
  induction n, hpos using Nat.le_induction with
  | base => exact holding_one
  | succ n hpos ih =>
      obtain ⟨s, hreached, hs⟩ := ih (by omega)
      obtain ⟨hstep, hnext⟩ := hs.next hn
      refine ⟨_, .next (e := .returns 0) ?_ trivial hstep, hnext⟩
      exact hreached.next (e := .opened 0 n 7 0) trivial hs.step

/-- A call has noticed that it walks and has not said so. -/
structure Noticed (s : State) : Prop where
  track : s.inner.tracks.get? 7 = some ⟨1, 0, 0, 1000, 1000, true⟩
  calls : s.calls = update (fun _ => .idle) 0 .announcing
  waiting : s.waiting = [(0, ⟨finder, true⟩)]
  log : s.log = []

theorem noticed_reached : ∃ s, Reaches (Step 1) InOrder .start s ∧ Noticed s := by
  obtain ⟨s, hreached, hs⟩ : ∃ s, Reaches (Step 1) InOrder .start s ∧ Holding 999 s :=
    holding_reached (by decide) (by decide)
  refine ⟨_, hreached.next (e := .opened 0 999 7 0) trivial hs.step, ?_, ?_, rfl, hs.log⟩
  · show (s.inner.tracks.insert 7 _).get? 7 = _
    rw [OrderedMap.get?_insert, if_pos rfl]
    rfl
  · show update s.calls 0 .announcing = _
    rw [hs.idle]

/-- The state after a stop that finds the process gone. -/
def stopped (s : State) : State :=
  (s.goes 1 (.stopping finder)).leave 1 .announcing (s.inner.gone finder)

variable {meets : State → Event → Prop} {s : State}

theorem stop_reached (hreached : Reaches (Step 1) meets .start s)
    (hmeets : ∀ s call pid now answer, meets s (.stop call pid now) ∧
      meets s (.terminated call answer))
    (htrack : s.inner.tracks.get? 7 = some ⟨1, 0, 0, 1000, 1000, true⟩)
    (hidle : s.calls 1 = .idle) :
    Reaches (Step 1) meets .start (stopped s) ∧
      (stopped s).waiting = s.waiting ++ [(1, ⟨finder, false⟩)] := by
  have hstop : s.inner.toStop 7 0 = some finder := by
    simp [Inner.toStop, htrack, Option.filter, Track.walking, Track.held, heldDirs, finder]
  have hgone : (s.inner.gone finder).2 = [⟨finder, false⟩] := by
    have hsome : (s.inner.track finder).isSome := by
      simp [Inner.track, htrack, Option.filter, finder]
    rw [Inner.gone, if_pos hsome, Inner.remove, show finder.pid = 7 from rfl, htrack]
    rfl
  constructor
  · refine .next (e := .terminated 1 .notFound) ?_ (hmeets _ 1 7 0 _).2
      (.gone (State.goes_calls ..))
    exact hreached.next (e := .stop 1 7 0) (hmeets _ 1 7 0 .ok).1 (.stop hidle hstop)
  · simp [stopped, State.leave, State.goes, hgone]

/-- It exits, and is found to have, while the call that noticed reads its command. -/
theorem stopped_unannounced :
    ¬∀ own s, Reaches (Step own) unrestricted .start s → Balanced s := by
  intro hall
  obtain ⟨s, hreached, hs⟩ := noticed_reached
  have hreached : Reaches (Step 1) unrestricted .start s :=
    hreached.imp_meets (P := fun _ => True) trivial (fun _ _ _ => trivial) fun _ _ => trivial
  obtain ⟨hstopped, hwaiting⟩ := stop_reached hreached (fun _ _ _ _ _ => ⟨trivial, trivial⟩)
    hs.track (by simp [hs.calls])
  rw [hs.waiting] at hwaiting
  have hnext : (stopped s).next 1 false = some ⟨finder, false⟩ := by
    rw [State.next, hwaiting]
    decide
  have hlog := hstopped.next (e := .logStopped 1) trivial (.logStopped (State.leave_calls ..) hnext)
  have halternates : Alternates false (logged finder ((stopped s).log ++ [.hasStopped finder])) :=
    (hall 1 _ hlog).alternates finder
  rw [show (stopped s).log = [] from hs.log] at halternates
  exact absurd halternates.1 (by decide)

/-- So it goes where the start is logged first. -/
theorem stopped_announced : ∃ s, Reaches (Step 1) InOrder .start s ∧
    s.log = [.isWalking finder, .hasStopped finder] ∧ Balanced s := by
  obtain ⟨s, hreached, hs⟩ := noticed_reached
  have hnext : s.next 0 false = none ∧ s.next 0 true = some ⟨finder, true⟩ := by
    rw [State.next, State.next, hs.waiting]
    decide
  have htrack : s.inner.track finder = some ⟨1, 0, 0, 1000, 1000, true⟩ := by
    simp [Inner.track, hs.track, Option.filter, finder]
  let looked := s.goes 0 (.saying finder)
  let said := ((looked.drop 0 ⟨finder, true⟩).goes 0 .announcing).say (.isWalking finder)
  have hlooked : Reaches (Step 1) InOrder .start looked := by
    refine hreached.next (e := .command 0) (fun found hfound => ?_)
      (.command (by simp [hs.calls]) hnext.1 hnext.2 htrack)
    cases hnext.2.symm.trans hfound
    simp [htrack]
  have hsaid : Reaches (Step 1) InOrder .start said := by
    refine hlooked.next (e := .logWalking 0) (fun process hprocess => ?_)
      (.logWalking (State.goes_calls ..))
    cases (State.goes_calls s 0 (.saying finder)).symm.trans hprocess
    rw [State.First, show looked.waiting = [(0, ⟨finder, true⟩)] from hs.waiting]
    decide
  have hnone : said.waiting = [] := by
    show s.waiting.erase _ = []
    rw [hs.waiting]
    decide
  obtain ⟨hstopped, hwaiting⟩ := stop_reached hsaid (fun _ _ _ _ _ => ⟨trivial, trivial⟩)
    hs.track (by simp [said, looked, State.goes, State.drop, State.say, hs.calls])
  rw [hnone, List.nil_append] at hwaiting
  have hnext' : (stopped said).next 1 false = some ⟨finder, false⟩ := by
    rw [State.next, hwaiting]
    decide
  have hlog : Reaches (Step 1) InOrder .start
      (((stopped said).drop 1 ⟨finder, false⟩).say (.hasStopped finder)) := by
    refine hstopped.next (e := .logStopped 1) (fun found hfound => ?_)
      (.logStopped (State.leave_calls ..) hnext')
    cases hnext'.symm.trans hfound
    rw [State.First, hwaiting]
    decide
  refine ⟨_, hlog, ?_, walks_balanced hlog⟩
  show (s.log ++ [_]) ++ [_] = _
  rw [hs.log]
  rfl

end Examples

end SynologyFilestation.Fuse.Walks
