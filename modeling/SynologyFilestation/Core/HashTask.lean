import SynologyFilestation.Library.Transition
import Mathlib.Data.List.Basic

/-!
One `md5` call and the hash tasks it makes the NAS run (`md5_within` and what it
calls in `core/src/client/verify.rs`). A hash is started, polled and given up on
by requests of their own; each goes out up to three times (`get_text_retried`),
may be carried out with its answer lost, and carries the session of its moment.

Tasks and sessions are numbered as they come. Other operations of the client may
log in again meanwhile, and a task may end at any time.
-/

namespace SynologyFilestation.Core

open Library

inductive HashAttempt
  | first
  | second
  deriving DecidableEq

/-- Where the call is: before start request `sends` of an attempt, polling under a
guard armed on a session, waiting for a new session, giving the task up, or waiting
for a session to give it up on. `renewed` is for an attempt that the session's end
cut short, `again` for the second stop. -/
inductive HashPhase
  | starting (attempt : HashAttempt) (sends : ℕ)
  | waiting (attempt : HashAttempt) (task armed : ℕ)
  | renewing (attempt : HashAttempt) (task : ℕ)
  | stopping (attempt : HashAttempt) (task sends : ℕ) (renewed again : Bool)
  | relogging (attempt : HashAttempt) (task : ℕ) (renewed : Bool)
  | gone
  deriving DecidableEq

/-- What follows a start request without an answer. -/
def HashPhase.resend (attempt : HashAttempt) (sends : ℕ) : HashPhase :=
  if sends + 1 < 3 then .starting attempt (sends + 1) else .gone

/-- What follows `md5_stop`: the hash is started again once. -/
def HashPhase.afterStop : HashAttempt → Bool → HashPhase
  | .first, true => .starting .second 0
  | _, _ => .gone

/-- The task the call still has to account for. -/
def HashPhase.task : HashPhase → Option ℕ
  | .waiting _ t _ | .renewing _ t | .stopping _ t _ _ _ | .relogging _ t _ => some t
  | .starting _ _ | .gone => none

/-- The call, its session and the tasks: those the NAS runs, those a stop was sent
for on a session that was valid then. -/
structure HashCall where
  autoRelogin : Bool
  phase : HashPhase
  sid : ℕ
  sessions : ℕ
  expired : List ℕ
  tasks : ℕ
  running : List ℕ
  stopSent : List ℕ
  /-- No new session could be obtained when one was needed. -/
  noSession : Bool

namespace HashCall

def new (autoRelogin : Bool) : HashCall where
  autoRelogin := autoRelogin
  phase := .starting .first 0
  sid := 0
  sessions := 1
  expired := []
  tasks := 0
  running := []
  stopSent := []
  noSession := false

variable (s : HashCall)

def Valid (session : ℕ) : Prop := session ∉ s.expired

instance (session : ℕ) : Decidable (s.Valid session) :=
  inferInstanceAs (Decidable (session ∉ s.expired))

def goTo (phase : HashPhase) : HashCall := { s with phase := phase }

/-- The NAS starts a task. -/
def run : HashCall := { s with tasks := s.tasks + 1, running := s.tasks :: s.running }

/-- A task ends: it is through, or a stop has reached it. -/
def finish (task : ℕ) : HashCall := { s with running := s.running.erase task }

/-- A stop goes out on a session. -/
def sendStop (task session : ℕ) : HashCall :=
  { s with stopSent := if s.Valid session then task :: s.stopSent else s.stopSent }

/-- The client has a new session. -/
def renew : HashCall := { s with sid := s.sessions, sessions := s.sessions + 1 }

def withoutSession : HashCall := { s with noSession := true }

end HashCall

inductive HashEvent
  | startUnsent
  | started
  | startLost
  | startRefused
  | ended
  | sessionEnded
  | givenUp
  | loggedIn
  | loginFailed
  | stopUnanswered
  | stopped
  | stopRefused
  | stopExpired
  | drop (sent : Bool)
  | expire (session : ℕ)
  | finish (task : ℕ)
  | renew

open HashPhase in
inductive HashStep : HashCall → HashEvent → HashCall → Prop
  | startUnsent {s : HashCall} {a : HashAttempt} {k : ℕ} (hphase : s.phase = starting a k) :
      HashStep s .startUnsent (s.goTo (resend a k))
  | started {s : HashCall} {a : HashAttempt} {k : ℕ} (hphase : s.phase = starting a k)
      (hvalid : s.Valid s.sid) :
      HashStep s .started (s.run.goTo (waiting a s.tasks s.sid))
  -- The task runs, and the call has not read its id.
  | startLost {s : HashCall} {a : HashAttempt} {k : ℕ} (hphase : s.phase = starting a k)
      (hvalid : s.Valid s.sid) : HashStep s .startLost (s.run.goTo (resend a k))
  | startUnread {s : HashCall} {a : HashAttempt} {k : ℕ} (hphase : s.phase = starting a k)
      (hvalid : s.Valid s.sid) : HashStep s .startLost (s.run.goTo gone)
  | startRefused {s : HashCall} {a : HashAttempt} {k : ℕ} (hphase : s.phase = starting a k) :
      HashStep s .startRefused (s.goTo gone)
  | ended {s : HashCall} {a : HashAttempt} {t g : ℕ} (hphase : s.phase = waiting a t g)
      (hended : t ∉ s.running) :
      HashStep s .ended (s.goTo gone)
  | sessionEnded {s : HashCall} {a : HashAttempt} {t g : ℕ} (hphase : s.phase = waiting a t g)
      (hauto : s.autoRelogin = true) (hexpired : ¬s.Valid s.sid) :
      HashStep s .sessionEnded (s.goTo (renewing a t))
  -- The status could not be read, was an error, or the time is up.
  | givenUp {s : HashCall} {a : HashAttempt} {t g : ℕ} (hphase : s.phase = waiting a t g) :
      HashStep s .givenUp (s.goTo (stopping a t 0 false false))
  | loggedIn {s : HashCall} {a : HashAttempt} {t : ℕ} (hphase : s.phase = renewing a t) :
      HashStep s .loggedIn (s.renew.goTo (stopping a t 0 true false))
  | loginFailed {s : HashCall} {a : HashAttempt} {t : ℕ} (hphase : s.phase = renewing a t) :
      HashStep s .loginFailed (s.withoutSession.goTo gone)
  | stopUnanswered {s : HashCall} {a : HashAttempt} {t k : ℕ} {r g : Bool}
      (hphase : s.phase = stopping a t k r g) :
      HashStep s .stopUnanswered ((s.sendStop t s.sid).goTo
        (if k + 1 < 3 then stopping a t (k + 1) r g else afterStop a r))
  | stopped {s : HashCall} {a : HashAttempt} {t k : ℕ} {r g : Bool}
      (hphase : s.phase = stopping a t k r g) (hvalid : s.Valid s.sid) :
      HashStep s .stopped (((s.sendStop t s.sid).finish t).goTo (afterStop a r))
  -- Refused with another code, or the answer could not be read.
  | stopRefused {s : HashCall} {a : HashAttempt} {t k : ℕ} {r g : Bool}
      (hphase : s.phase = stopping a t k r g) :
      HashStep s .stopRefused ((s.sendStop t s.sid).goTo (afterStop a r))
  | stopExpired {s : HashCall} {a : HashAttempt} {t k : ℕ} {r : Bool}
      (hphase : s.phase = stopping a t k r false) (hexpired : ¬s.Valid s.sid)
      (hauto : s.autoRelogin = true) : HashStep s .stopExpired (s.goTo (relogging a t r))
  | stopExpiredAgain {s : HashCall} {a : HashAttempt} {t k : ℕ} {r : Bool}
      (hphase : s.phase = stopping a t k r true) (hexpired : ¬s.Valid s.sid) :
      HashStep s .stopRefused (s.goTo (afterStop a r))
  -- Nobody may log in again for it.
  | stopExpiredAlone {s : HashCall} {a : HashAttempt} {t k : ℕ} {r g : Bool}
      (hphase : s.phase = stopping a t k r g) (hexpired : ¬s.Valid s.sid)
      (hauto : s.autoRelogin = false) :
      HashStep s .stopExpired (s.withoutSession.goTo (afterStop a r))
  | loggedInAgain {s : HashCall} {a : HashAttempt} {t : ℕ} {r : Bool}
      (hphase : s.phase = relogging a t r) :
      HashStep s .loggedIn (s.renew.goTo (stopping a t 0 r true))
  | loginFailedAgain {s : HashCall} {a : HashAttempt} {t : ℕ} {r : Bool}
      (hphase : s.phase = relogging a t r) :
      HashStep s .loginFailed (s.withoutSession.goTo (afterStop a r))
  -- Dropped while a start is out, which the NAS carries out or not.
  | dropStart {s : HashCall} {a : HashAttempt} {k : ℕ} (hphase : s.phase = starting a k) :
      HashStep s (.drop false) (s.goTo gone)
  | dropStarted {s : HashCall} {a : HashAttempt} {k : ℕ} (hphase : s.phase = starting a k)
      (hvalid : s.Valid s.sid) : HashStep s .startLost (s.run.goTo gone)
  -- Dropped under the guard, which sends its stop if there is a runtime to send it on.
  | dropWait {s : HashCall} {a : HashAttempt} {t g : ℕ} (sent : Bool)
      (hphase : s.phase = waiting a t g) :
      HashStep s (.drop sent) ((if sent then s.sendStop t g else s).goTo gone)
  -- Dropped with the guard disarmed.
  | dropRest {s : HashCall} (hstarting : ∀ a k, s.phase ≠ starting a k)
      (hwaiting : ∀ a t g, s.phase ≠ waiting a t g) : HashStep s (.drop false) (s.goTo gone)
  | expire {s : HashCall} (session : ℕ) :
      HashStep s (.expire session) { s with expired := session :: s.expired }
  | finish {s : HashCall} (task : ℕ) : HashStep s (.finish task) (s.finish task)
  | renew {s : HashCall} : HashStep s .renew s.renew

/-! ### Every task accounted for -/

/-- The task has ended, or was sent a stop; or there was no session to send one on. -/
def HashCall.Accounted (s : HashCall) (task : ℕ) : Prop :=
  task ∉ s.running ∨ task ∈ s.stopSent ∨ s.noSession = true

/-- One hash at a time, two in all, and none left behind. -/
structure HashCall.Tidy (s : HashCall) : Prop where
  oneAtATime : s.running.length ≤ 1
  twice : s.tasks ≤ 2
  noneLeft : s.phase = .gone → ∀ task < s.tasks, s.Accounted task

/-- No start is carried out that the call does not hear of, and the second not while
the first task runs; and the call is done with a task, or dropped, when it has
accounted for it: with a last stop on a session that is valid, or with the guard's. -/
def Heard (s : HashCall) : HashEvent → Prop
  | .startLost => False
  | .started => s.running = []
  | .stopUnanswered => ∀ a t k r g, s.phase = .stopping a t k r g →
      k + 1 < 3 ∨ s.Valid s.sid ∨ s.Accounted t
  | .stopRefused => ∀ a t k r g, s.phase = .stopping a t k r g → s.Valid s.sid ∨ s.Accounted t
  | .drop sent => ∀ t, s.phase.task = some t → s.Accounted t ∨
      ∃ a g, s.phase = .waiting a t g ∧ sent = true ∧ s.Valid g
  | _ => True

def HashAttempt.starts : HashAttempt → ℕ
  | .first => 1
  | .second => 2

/-- How many tasks there can be by now. -/
def HashPhase.most : HashPhase → ℕ
  | .starting a _ => a.starts - 1
  | .waiting a _ _ | .renewing a _ | .stopping a _ _ _ _ | .relogging a _ _ => a.starts
  | .gone => 2

structure Held (s : HashCall) : Prop where
  oneAtATime : s.running.length ≤ 1
  known : ∀ t ∈ s.running, t < s.tasks
  most : s.tasks ≤ s.phase.most
  accounted : ∀ t < s.tasks, s.phase.task ≠ some t → s.Accounted t

section Steps

variable {s s' : HashCall} {phase : HashPhase} {a : HashAttempt} {t session : ℕ} {e : HashEvent}

theorem held_new (autoRelogin : Bool) : Held (.new autoRelogin) where
  oneAtATime := Nat.zero_le _
  known := nofun
  most := Nat.le_refl _
  accounted := nofun

theorem HashAttempt.starts_le (a : HashAttempt) : a.starts ≤ 2 := by
  cases a <;> decide

theorem HashPhase.most_le (phase : HashPhase) : phase.most ≤ 2 := by
  cases phase with
  | starting a k => exact Nat.le_trans (Nat.sub_le ..) a.starts_le
  | gone => exact Nat.le_refl _
  | _ => exact HashAttempt.starts_le _

/-- A call moves on with the task it had, or is done with it. -/
theorem Held.goTo (h : Held s) (hmost : s.tasks ≤ phase.most)
    (htask : ∀ t, s.phase.task = some t → phase.task = some t ∨ s.Accounted t) :
    Held (s.goTo phase) where
  oneAtATime := h.oneAtATime
  known := h.known
  most := hmost
  accounted t ht hne := by
    by_cases hold : s.phase.task = some t
    · exact (htask t hold).resolve_left hne
    · exact h.accounted t ht hold

/-- What only ends tasks, sends stops or is about sessions. -/
structure HashCall.Below (s s' : HashCall) : Prop where
  phase : s'.phase = s.phase
  tasks : s'.tasks = s.tasks
  running : s'.running.Sublist s.running
  accounted : ∀ t, s.Accounted t → s'.Accounted t

theorem Held.below (h : Held s) (hbelow : s.Below s') : Held s' where
  oneAtATime := Nat.le_trans hbelow.running.length_le h.oneAtATime
  known t ht := hbelow.tasks ▸ h.known t (hbelow.running.subset ht)
  most := by
    rw [hbelow.tasks, hbelow.phase]
    exact h.most
  accounted t ht hne := by
    rw [hbelow.tasks] at ht
    rw [hbelow.phase] at hne
    exact hbelow.accounted t (h.accounted t ht hne)

theorem below_sendStop (s : HashCall) (t session : ℕ) : s.Below (s.sendStop t session) where
  phase := rfl
  tasks := rfl
  running := List.Sublist.refl _
  accounted t' h := by
    rcases h with hended | hsent | hnone
    · exact .inl hended
    · refine .inr (.inl ?_)
      unfold HashCall.sendStop
      split
      · exact .tail _ hsent
      · exact hsent
    · exact .inr (.inr hnone)

theorem accounted_sendStop (hvalid : s.Valid session) : (s.sendStop t session).Accounted t := by
  refine .inr (.inl ?_)
  unfold HashCall.sendStop
  rw [if_pos hvalid]
  exact .head _

theorem below_finish (s : HashCall) (t : ℕ) : s.Below (s.finish t) where
  phase := rfl
  tasks := rfl
  running := List.erase_sublist
  accounted _ h := h.imp_left fun hended hrunning => hended (List.mem_of_mem_erase hrunning)

theorem below_renew (s : HashCall) : s.Below s.renew :=
  ⟨rfl, rfl, List.Sublist.refl _, fun _ h => h⟩

theorem below_withoutSession (s : HashCall) : s.Below s.withoutSession :=
  ⟨rfl, rfl, List.Sublist.refl _, fun _ _ => .inr (.inr rfl)⟩

theorem most_resend {k : ℕ} (h : s.tasks ≤ (HashPhase.starting a k).most) :
    s.tasks ≤ (HashPhase.resend a k).most := by
  unfold HashPhase.resend
  split
  · exact h
  · exact Nat.le_trans h (HashPhase.most_le _)

theorem most_afterStop {r : Bool} (h : s.tasks ≤ a.starts) :
    s.tasks ≤ (HashPhase.afterStop a r).most := by
  unfold HashPhase.afterStop
  split
  · exact h
  · exact Nat.le_trans h (HashAttempt.starts_le _)

/-- A call is done with its task, which is accounted for. -/
theorem Held.done (h : Held s) (ht : s.phase.task = some t) (hmost : s.tasks ≤ phase.most)
    (haccounted : s.Accounted t) : Held (s.goTo phase) := by
  refine h.goTo hmost fun t' ht' => .inr ?_
  obtain rfl := Option.some.inj (ht.symm.trans ht')
  exact haccounted

/-- A call goes on with its task. -/
theorem Held.keep (h : Held s) (hmost : s.tasks ≤ phase.most)
    (htask : s.phase.task = phase.task) : Held (s.goTo phase) :=
  h.goTo hmost fun _ ht => .inl (htask ▸ ht)

/-- A call that has no session any more has no task to account for. -/
theorem Held.loseSession (h : Held s) (hmost : s.tasks ≤ phase.most) :
    Held (s.withoutSession.goTo phase) :=
  (h.below (below_withoutSession s)).goTo hmost fun _ _ => .inr (.inr (.inr rfl))

theorem Held.most_of (h : Held s) (hphase : s.phase = phase) : s.tasks ≤ phase.most :=
  hphase ▸ h.most

theorem Held.most_two (h : Held s) : s.tasks ≤ 2 :=
  Nat.le_trans h.most (HashPhase.most_le _)

/-- The NAS starts a task, and the call has its id. -/
theorem Held.run (h : Held s) {k : ℕ} (hphase : s.phase = .starting a k)
    (hnone : s.running = []) : Held (s.run.goTo (.waiting a s.tasks s.sid)) where
  oneAtATime := by simp [HashCall.goTo, HashCall.run, hnone]
  known t ht := by
    rw [HashCall.goTo, HashCall.run, hnone] at ht
    obtain rfl := List.mem_singleton.mp ht
    exact Nat.lt_succ_self _
  most := by
    have hmost := h.most
    rw [hphase] at hmost
    have hpositive : 1 ≤ a.starts := by cases a <;> decide
    change s.tasks + 1 ≤ a.starts
    change s.tasks ≤ a.starts - 1 at hmost
    omega
  accounted t _ hne := by
    refine .inl fun ht => hne ?_
    rw [HashCall.goTo, HashCall.run, hnone] at ht
    obtain rfl := List.mem_singleton.mp ht
    rfl

theorem Held.step (h : Held s) (hmeets : Heard s e) (hstep : HashStep s e s') : Held s' := by
  cases hstep with
  | startUnsent hphase =>
      refine h.goTo (most_resend (hphase ▸ h.most)) ?_
      rw [hphase]
      nofun
  | started hphase hvalid => exact h.run hphase hmeets
  | startLost hphase hvalid => exact hmeets.elim
  | startUnread hphase hvalid => exact hmeets.elim
  | startRefused hphase =>
      refine h.goTo h.most_two ?_
      rw [hphase]
      nofun
  | ended hphase hended =>
      exact h.done (by rw [hphase]; rfl) h.most_two (.inl hended)
  | sessionEnded hphase hauto hexpired =>
      have hmost : s.tasks ≤ HashAttempt.starts _ := h.most_of hphase
      exact h.keep hmost (by rw [hphase]; rfl)
  | givenUp hphase =>
      have hmost : s.tasks ≤ HashAttempt.starts _ := h.most_of hphase
      exact h.keep hmost (by rw [hphase]; rfl)
  | @loggedIn a t hphase =>
      have hmost : s.tasks ≤ a.starts := h.most_of hphase
      exact (h.below (below_renew s)).keep hmost (by rw [HashCall.renew, hphase]; rfl)
  | loginFailed hphase =>
      exact h.loseSession h.most_two
  | @stopUnanswered a t k r g hphase =>
      have hsent := h.below (below_sendStop s t s.sid)
      have hmost : s.tasks ≤ a.starts := h.most_of hphase
      split
      case isTrue =>
        exact hsent.keep hmost (by rw [HashCall.sendStop, hphase]; rfl)
      case isFalse hlast =>
        refine hsent.done (t := t) (by rw [HashCall.sendStop, hphase]; rfl)
          (most_afterStop hmost) ?_
        rcases hmeets a t k r g hphase with hmore | hvalid | haccounted
        · exact absurd hmore hlast
        · exact accounted_sendStop hvalid
        · exact (below_sendStop s t s.sid).accounted t haccounted
  | @stopped a t k r g hphase hvalid =>
      have hfinished := (h.below (below_sendStop s t s.sid)).below (below_finish _ t)
      have hmost : s.tasks ≤ a.starts := h.most_of hphase
      refine hfinished.done (t := t) (by rw [HashCall.finish, HashCall.sendStop, hphase]; rfl)
        (most_afterStop hmost) ?_
      exact (below_finish _ t).accounted t (accounted_sendStop hvalid)
  | @stopRefused a t k r g hphase =>
      have hmost : s.tasks ≤ a.starts := h.most_of hphase
      refine (h.below (below_sendStop s t s.sid)).done (t := t)
        (by rw [HashCall.sendStop, hphase]; rfl) (most_afterStop hmost) ?_
      rcases hmeets a t k r g hphase with hvalid | haccounted
      · exact accounted_sendStop hvalid
      · exact (below_sendStop s t s.sid).accounted t haccounted
  | stopExpired hphase hexpired hauto =>
      have hmost : s.tasks ≤ HashAttempt.starts _ := h.most_of hphase
      exact h.keep hmost (by rw [hphase]; rfl)
  | @stopExpiredAgain a t k r hphase hexpired =>
      have hmost : s.tasks ≤ a.starts := h.most_of hphase
      exact h.done (by rw [hphase]; rfl) (most_afterStop hmost)
        ((hmeets a t k r true hphase).resolve_left hexpired)
  | @stopExpiredAlone a t k r g hphase hexpired hauto =>
      have hmost : s.tasks ≤ a.starts := h.most_of hphase
      exact h.loseSession (most_afterStop hmost)
  | @loggedInAgain a t r hphase =>
      have hmost : s.tasks ≤ a.starts := h.most_of hphase
      exact (h.below (below_renew s)).keep hmost (by rw [HashCall.renew, hphase]; rfl)
  | @loginFailedAgain a t r hphase =>
      have hmost : s.tasks ≤ a.starts := h.most_of hphase
      exact h.loseSession (most_afterStop hmost)
  | dropStart hphase =>
      refine h.goTo h.most_two ?_
      rw [hphase]
      nofun
  | dropStarted hphase hvalid => exact hmeets.elim
  | @dropWait a t g sent hphase =>
      have htask : s.phase.task = some t := by rw [hphase]; rfl
      have hmost : s.tasks ≤ 2 := Nat.le_trans h.most (HashPhase.most_le _)
      rcases hmeets t htask with haccounted | ⟨a', g', hwaiting, rfl, hvalid⟩
      · split
        · exact (h.below (below_sendStop s t g)).done htask hmost
            ((below_sendStop s t g).accounted t haccounted)
        · exact h.done htask hmost haccounted
      · obtain ⟨rfl, -, rfl⟩ := HashPhase.waiting.inj (hphase.symm.trans hwaiting)
        exact (h.below (below_sendStop s t g)).done htask hmost (accounted_sendStop hvalid)
  | dropRest hstarting hwaiting =>
      refine h.goTo h.most_two fun t ht => .inr ?_
      rcases hmeets t ht with haccounted | ⟨a, g, hphase, -, -⟩
      · exact haccounted
      · exact (hwaiting a t g hphase).elim
  | expire session => exact h.below ⟨rfl, rfl, List.Sublist.refl _, fun _ h => h⟩
  | finish task => exact h.below (below_finish s task)
  | renew => exact h.below (below_renew s)

variable (s)

/-- **One hash at a time, and none left behind**, where every start is heard of and
every stop that has to count goes out on a valid session. -/
theorem hash_call_tidy {autoRelogin : Bool} (h : Reaches HashStep Heard (.new autoRelogin) s) :
    s.Tidy := by
  have hs : Held s := h.invariant (held_new _) fun ht hmeets hstep => ht.step hmeets hstep
  refine ⟨hs.oneAtATime, Nat.le_trans hs.most (HashPhase.most_le _), fun hover t ht => ?_⟩
  exact hs.accounted t ht (by rw [hover]; nofun)

end Steps

/-! ### Runs of either kind -/

/-- The session ends under a long hash: it is stopped on a new one and started again. -/
theorem hashed_again :
    ∃ s : HashCall, s.Tidy ∧ s.phase = .gone ∧ s.tasks = 2 ∧ s.stopSent = [0] := by
  have h := (Reaches.start : Reaches HashStep Heard (.new true) (.new true))
  have h := h.next (by exact rfl) (@HashStep.started _ .first 0 rfl (by decide))
  have h := h.next (by trivial) (@HashStep.expire _ 0)
  have h := h.next (by trivial) (@HashStep.sessionEnded _ .first 0 0 rfl rfl (by decide))
  have h := h.next (by trivial) (@HashStep.loggedIn _ .first 0 rfl)
  have h := h.next (by trivial) (@HashStep.stopped _ .first 0 0 true false rfl (by decide))
  have h := h.next (by exact rfl) (@HashStep.started _ .second 0 rfl (by decide))
  have h := h.next (by trivial) (@HashStep.finish _ 1)
  have h := h.next (by trivial) (@HashStep.ended _ .second 1 1 rfl (by decide))
  exact ⟨_, hash_call_tidy _ h, rfl, rfl, rfl⟩

/-- The answer to the first start is lost, and it is sent again; the second task is
the one that is waited for. -/
theorem lost_start_runs_on :
    (∃ s, Reaches HashStep unrestricted (.new true) s ∧ s.running = [1, 0]) ∧
      ∃ s, Reaches HashStep unrestricted (.new true) s ∧ s.phase = .gone ∧ s.running = [0] ∧
        s.stopSent = [] ∧ s.noSession = false ∧ ¬s.Tidy := by
  have h := (Reaches.start : Reaches HashStep unrestricted (.new true) (.new true))
  have h := h.next (by trivial) (@HashStep.startLost _ .first 0 rfl (by decide))
  have h := h.next (by trivial) (@HashStep.started _ .first 1 rfl (by decide))
  refine ⟨⟨_, h, rfl⟩, ?_⟩
  have h := h.next (by trivial) (@HashStep.finish _ 1)
  have h := h.next (by trivial) (@HashStep.ended _ .first 1 0 rfl (by decide))
  refine ⟨_, h, rfl, rfl, rfl, rfl, fun htidy => ?_⟩
  rcases htidy.noneLeft rfl 0 (by decide) with hended | hsent | hnone
  · exact hended (.head _)
  · cases hsent
  · cases hnone

end SynologyFilestation.Core
