import SynologyFilestation.Library.Table
import SynologyFilestation.Library.Transition
import SynologyFilestation.Smb.HandleCache

/-!
The session of a transport under operations in flight (`session`, `adopt`,
`reader_for` and `ReconnectState` in `smb/src/transport.rs`).

Sessions are numbered as they are made. An operation takes the lock to find the
session to run on, and most then run off the lock on a clone of it: what becomes
of them, a failure or a handle, arrives when it may no longer be the current one.
The extra connections have handles of their own and are left out, as is what only
a status display reads.
-/

namespace SynologyFilestation.Smb

open Core Function Library

/-- `smb2::ErrorKind`, as far as it is told apart here. -/
inductive ErrorKind
  | connectionLost
  | timedOut
  | sessionExpired
  | other
  deriving DecidableEq, Repr

def isConnectionLost : ErrorKind → Bool
  | .connectionLost | .timedOut | .sessionExpired => true
  | .other => false

structure ReconnectState where
  needs : Bool
  possible : Bool
  refused : Option String
  deriving DecidableEq, Repr

namespace ReconnectState

def flagIfLost (r : ReconnectState) (kind : ErrorKind) : ReconnectState :=
  if r.possible && isConnectionLost kind then { r with needs := true } else r

def settled (r : ReconnectState) : ReconnectState := { r with needs := false }

/-- `reconnect_if_needed` takes the flag down before it waits. -/
def taken (r : ReconnectState) : ReconnectState := { r with needs := false }

/-- After a reconnect that failed, with what it remembers of a refused login. -/
def failed (r : ReconnectState) (kind : ErrorKind) (refusal : Option String) : ReconnectState :=
  match refusal with
  | some why => { r with needs := true, refused := some why }
  | none => ReconnectState.flagIfLost { r with needs := true } kind

@[simp] theorem possible_flagIfLost (r : ReconnectState) (kind : ErrorKind) :
    (r.flagIfLost kind).possible = r.possible := by
  unfold flagIfLost
  split <;> rfl

theorem needs_flagIfLost (r : ReconnectState) (kind : ErrorKind) :
    (r.flagIfLost kind).needs = (r.needs || (r.possible && isConnectionLost kind)) := by
  unfold flagIfLost
  split <;> simp_all

theorem needs_failed (r : ReconnectState) (kind : ErrorKind) (refusal : Option String) :
    (r.failed kind refusal).needs = true := by
  unfold failed
  split
  · rfl
  · rw [needs_flagIfLost, Bool.true_or]

end ReconnectState

/-- Where an operation is: before the lock, rebuilding the session under it, under
it on a session, off it on a clone of one, or waiting there for a file to open. -/
inductive LinkPhase
  | asking
  | reconnecting
  | locked (session : ℕ)
  | running (session : ℕ)
  | opening (session : ℕ) (path : NasPath)
  | adopting
  | gone
  deriving DecidableEq

/-- The session an operation runs on. -/
def LinkPhase.session : LinkPhase → Option ℕ
  | .locked k | .running k | .opening k _ => some k
  | _ => none

/-- The transport, and two lists of what was seen: the sessions whose failure has
shown the link dead, and at each setting of the flag whose failure it was and which
session was current. -/
structure Link where
  reconnect : ReconnectState
  current : Option ℕ
  made : ℕ
  holder : Option ℕ
  handles : HandleCache ℕ
  calls : ℕ → Option LinkPhase
  dead : List ℕ
  settings : List (ℕ × Option ℕ)

/-- A transport that was built on a session, or without one. -/
def Link.new (possible connected : Bool) (capacity : ℕ) : Link where
  reconnect := ⟨false, possible, none⟩
  current := if connected then some 0 else none
  made := 1
  holder := none
  handles := .new capacity
  calls _ := none
  dead := []
  settings := []

namespace Link

def setCall (s : Link) (n : ℕ) (phase : LinkPhase) : Link :=
  { s with calls := update s.calls n (some phase) }

/-- `mark_and_map`, of a failure of session `k`. -/
def mark (s : Link) (k : ℕ) (kind : ErrorKind) : Link :=
  { s with
    reconnect := s.reconnect.flagIfLost kind
    dead := if isConnectionLost kind then k :: s.dead else s.dead
    settings := if s.reconnect.possible && isConnectionLost kind then (k, s.current) :: s.settings
      else s.settings }

/-- A fresh session takes the place of the current one, and its handles with it. -/
def change (s : Link) : Link :=
  { s with current := some s.made, made := s.made + 1, handles := s.handles.clear }

/-- The lock is let go of, if `n` has it. -/
def unlock (s : Link) (n : ℕ) : Link :=
  { s with holder := if s.holder = some n then none else s.holder }

end Link

inductive LinkEvent
  | start (n : ℕ)
  | cached (n : ℕ) (path : NasPath)
  | enter (n : ℕ)
  | reconnected (n : ℕ)
  | reconnectFailed (n : ℕ)
  | cancel (n : ℕ)
  | detach (n : ℕ)
  | fail (n : ℕ) (kind : ErrorKind)
  | opened (n : ℕ)
  | leave (n : ℕ)
  | forget (keeps : NasPath → Bool)
  | adopt (n : ℕ)
  | swap (n : ℕ)
  | adoptFailed (n : ℕ)

open LinkPhase in
inductive LinkStep : Link → LinkEvent → Link → Prop
  | start {s : Link} (n : ℕ) (hn : s.calls n = none) :
      LinkStep s (.start n) (s.setCall n asking)
  -- A read that finds a handle in the cache needs no lock.
  | cached {s : Link} {n k : ℕ} {path : NasPath} (hn : s.calls n = some asking)
      (hfind : s.handles.find path = some k) :
      LinkStep s (.cached n path)
        ({ s with handles := (s.handles.get path).2 }.setCall n (running k))
  | declined {s : Link} {n : ℕ} (hn : s.calls n = some asking) (hfree : s.holder = none)
      (hnone : s.current = none) : LinkStep s (.enter n) (s.setCall n gone)
  | enter {s : Link} {n k : ℕ} (hn : s.calls n = some asking) (hfree : s.holder = none)
      (hcurrent : s.current = some k)
      (hneeds : (s.reconnect.possible && s.reconnect.needs) = false) :
      LinkStep s (.enter n) ({ s with holder := some n }.setCall n (locked k))
  -- The flag is taken down and put up again.
  | refused {s : Link} {n k : ℕ} {why : String} (hn : s.calls n = some asking)
      (hfree : s.holder = none) (hcurrent : s.current = some k)
      (hneeds : (s.reconnect.possible && s.reconnect.needs) = true)
      (hrefused : s.reconnect.refused = some why) : LinkStep s (.enter n) (s.setCall n gone)
  | reconnect {s : Link} {n k : ℕ} (hn : s.calls n = some asking) (hfree : s.holder = none)
      (hcurrent : s.current = some k)
      (hneeds : (s.reconnect.possible && s.reconnect.needs) = true)
      (hrefused : s.reconnect.refused = none) :
      LinkStep s (.enter n)
        ({ s with reconnect := s.reconnect.taken, holder := some n }.setCall n reconnecting)
  | reconnected {s : Link} {n : ℕ} (hn : s.calls n = some reconnecting) :
      LinkStep s (.reconnected n) (s.change.setCall n (locked s.made))
  | reconnectFailed {s : Link} {n : ℕ} (kind : ErrorKind) (refusal : Option String)
      (hn : s.calls n = some reconnecting) :
      LinkStep s (.reconnectFailed n)
        (({ s with reconnect := s.reconnect.failed kind refusal }.unlock n).setCall n gone)
  -- The operation is dropped while it waits for the new session.
  | cancel {s : Link} {n : ℕ} (hn : s.calls n = some reconnecting) :
      LinkStep s (.cancel n) ((s.unlock n).setCall n gone)
  | detach {s : Link} {n k : ℕ} (phase : LinkPhase) (hn : s.calls n = some (locked k))
      (hphase : phase = running k ∨ ∃ path, phase = opening k path) :
      LinkStep s (.detach n) ((s.unlock n).setCall n phase)
  | fail {s : Link} {n k : ℕ} {phase : LinkPhase} (kind : ErrorKind)
      (hn : s.calls n = some phase) (hk : phase.session = some k) :
      LinkStep s (.fail n kind) (s.mark k kind)
  | opened {s : Link} {n k : ℕ} {path : NasPath} (hn : s.calls n = some (opening k path)) :
      LinkStep s (.opened n)
        ({ s with handles := (s.handles.insertOrExisting path k).2 }.setCall n
          (running (s.handles.insertOrExisting path k).1))
  -- It returned, or was dropped where it waited for nothing but its own answer.
  | leave {s : Link} {n : ℕ} {phase : LinkPhase} (hn : s.calls n = some phase)
      (hphase : phase ≠ reconnecting) : LinkStep s (.leave n) ((s.unlock n).setCall n gone)
  | forget {s : Link} (keeps : NasPath → Bool) :
      LinkStep s (.forget keeps) { s with handles := s.handles.retain keeps }
  | adopt {s : Link} (n : ℕ) (hn : s.calls n = none) (hrefused : s.reconnect.refused = none) :
      LinkStep s (.adopt n) (s.setCall n adopting)
  | swap {s : Link} {n : ℕ} (hn : s.calls n = some adopting) (hfree : s.holder = none) :
      LinkStep s (.swap n) ({ s.change with reconnect := s.reconnect.settled }.setCall n gone)
  | adoptFailed {s : Link} {n : ℕ} (refusal : Option String) (hn : s.calls n = some adopting) :
      LinkStep s (.adoptFailed n)
        ({ s with reconnect := { s.reconnect with
            refused := refusal.or s.reconnect.refused } }.setCall n gone)

/-! ### Whose failure, and whose handle -/

/-- The flag was set by failures of the session that was current. -/
def Link.OwnFailures (s : Link) : Prop := ∀ set ∈ s.settings, set.2 = some set.1

/-- A dead session is flagged, or an operation has taken the flag to rebuild it. -/
def Link.StaysFlagged (s : Link) : Prop :=
  s.reconnect.possible = true → ∀ k, s.current = some k → k ∈ s.dead →
    s.reconnect.needs = true ∨ ∃ n, s.calls n = some .reconnecting

/-- No handle is an earlier session's. -/
def Link.OwnHandles (s : Link) : Prop := ∀ path k, s.handles.Holds path k → s.current = some k

/-- Nothing of an earlier session arrives late, and no reconnect is dropped: no
failure that sets the flag, and no handle that the cache would keep. -/
def InTime (s : Link) : LinkEvent → Prop
  | .fail n kind => (s.reconnect.possible && isConnectionLost kind) = true →
      ∀ phase k, s.calls n = some phase → phase.session = some k → s.current = some k
  | .cancel _ => s.reconnect.needs = true
  | .opened n => ∀ k path, s.calls n = some (.opening k path) →
      s.current = some k ∨ s.handles.find path ≠ none ∨ s.handles.capacity = 0
  | _ => True

structure Current (s : Link) : Prop where
  failures : s.OwnFailures
  flagged : s.StaysFlagged
  handles : s.OwnHandles
  currentMade : ∀ k, s.current = some k → k < s.made
  callsMade : ∀ n phase k, s.calls n = some phase → phase.session = some k → k < s.made
  deadMade : ∀ k ∈ s.dead, k < s.made

section Steps

variable {s s' : Link} {n k : ℕ} {phase : LinkPhase} {e : LinkEvent}

theorem current_new (possible connected : Bool) (capacity : ℕ) :
    Current (.new possible connected capacity) where
  failures := nofun
  flagged := nofun
  handles _ _ h := (HandleCache.not_holds_new h).elim
  currentMade k hk := by
    cases connected
    · cases hk
    · cases hk
      exact Nat.one_pos
  callsMade := nofun
  deadMade := nofun

/-- An operation moves that was not rebuilding the session. -/
theorem Current.setCall (h : Current s) (hold : s.calls n ≠ some .reconnecting)
    (hnew : ∀ k, phase.session = some k → k < s.made) : Current (s.setCall n phase) where
  failures := h.failures
  flagged hpossible k hk hdead := by
    rcases h.flagged hpossible k hk hdead with hneeds | ⟨m, hm⟩
    · exact .inl hneeds
    · have hne : m ≠ n := by
        rintro rfl
        exact hold hm
      exact .inr ⟨m, (update_of_ne hne ..).trans hm⟩
  handles := h.handles
  currentMade := h.currentMade
  callsMade m phase' k hm hk := by
    rcases update_eq_some hm with ⟨_, rfl⟩ | ⟨_, hmold⟩
    · exact hnew k hk
    · exact h.callsMade m phase' k hmold hk
  deadMade := h.deadMade

/-- Who has the lock does not matter. -/
theorem Current.unlock (h : Current s) (n : ℕ) : Current (s.unlock n) :=
  ⟨h.failures, h.flagged, h.handles, h.currentMade, h.callsMade, h.deadMade⟩

/-- The operation that was rebuilding the session is gone and the flag is up. -/
theorem Current.ended (h : Current s) (hneeds : s.reconnect.needs = true) :
    Current (s.setCall n .gone) where
  failures := h.failures
  flagged _ _ _ _ := .inl hneeds
  handles := h.handles
  currentMade := h.currentMade
  callsMade m phase' k hm hk := by
    rcases update_eq_some hm with ⟨_, rfl⟩ | ⟨_, hmold⟩
    · cases hk
    · exact h.callsMade m phase' k hmold hk
  deadMade := h.deadMade

/-- A fresh session is not dead, and has no handles. -/
theorem Current.change (h : Current s) (hnew : ∀ k, phase.session = some k → k ≤ s.made) :
    Current (s.change.setCall n phase) where
  failures := h.failures
  flagged _ k hk hdead := by
    obtain rfl := Option.some.inj hk
    exact absurd (h.deadMade _ hdead) (Nat.lt_irrefl _)
  handles _ _ hholds := (HandleCache.not_holds_clear hholds).elim
  currentMade k hk := by
    obtain rfl := Option.some.inj hk
    exact Nat.lt_succ_self _
  callsMade m phase' k hm hk := by
    rcases update_eq_some hm with ⟨_, rfl⟩ | ⟨_, hmold⟩
    · exact Nat.lt_succ_of_le (hnew k hk)
    · exact Nat.lt_succ_of_lt (h.callsMade m phase' k hmold hk)
  deadMade k hk := Nat.lt_succ_of_lt (h.deadMade k hk)

/-- A failure, of the current session where it sets the flag. -/
theorem Current.mark (h : Current s) {kind : ErrorKind} (hk : k < s.made)
    (hown : (s.reconnect.possible && isConnectionLost kind) = true → s.current = some k) :
    Current (s.mark k kind) where
  failures := by
    intro set hset
    rw [Link.mark] at hset
    dsimp only at hset
    split at hset
    case isTrue hsets =>
      rcases List.mem_cons.mp hset with rfl | hold
      · exact hown hsets
      · exact h.failures set hold
    case isFalse => exact h.failures set hset
  flagged hpossible j hj hdead := by
    rw [Link.mark, ReconnectState.possible_flagIfLost] at hpossible
    rw [Link.mark] at hdead ⊢
    dsimp only at hdead ⊢
    rw [ReconnectState.needs_flagIfLost, Bool.or_eq_true]
    by_cases hlost : isConnectionLost kind
    · exact .inl (.inr (by rw [hpossible, hlost]; rfl))
    · rw [if_neg hlost] at hdead
      rcases h.flagged hpossible j hj hdead with hneeds | hreconnecting
      · exact .inl (.inl hneeds)
      · exact .inr hreconnecting
  handles := h.handles
  currentMade := h.currentMade
  callsMade := h.callsMade
  deadMade j hj := by
    rw [Link.mark] at hj
    dsimp only at hj
    split at hj
    · rcases List.mem_cons.mp hj with rfl | hold
      · exact hk
      · exact h.deadMade j hold
    · exact h.deadMade j hj

/-- Fewer handles are kept, or one of the current session more. -/
theorem Current.withHandles (h : Current s) {handles : HandleCache ℕ}
    (hheld : ∀ path k, handles.Holds path k → s.handles.Holds path k ∨ s.current = some k) :
    Current { s with handles := handles } where
  failures := h.failures
  flagged := h.flagged
  handles path k hholds := (hheld path k hholds).elim (h.handles path k) id
  currentMade := h.currentMade
  callsMade := h.callsMade
  deadMade := h.deadMade

/-- A handle that is held is of a session that was made. -/
theorem Current.heldMade (h : Current s) {path : NasPath} (hholds : s.handles.Holds path k) :
    k < s.made :=
  h.currentMade k (h.handles path k hholds)

theorem Current.step (h : Current s) (hmeets : InTime s e) (hstep : LinkStep s e s') :
    Current s' := by
  cases hstep with
  | start n hn => exact h.setCall (by rw [hn]; nofun) nofun
  | @cached n k path hn hfind =>
      have hkept : Current { s with handles := (s.handles.get path).2 } :=
        h.withHandles fun _ _ hholds => .inl (HandleCache.holds_get hholds)
      refine hkept.setCall (by rw [hn]; nofun) ?_
      rintro j ⟨⟩
      exact h.heldMade (HandleCache.holds_of_find hfind)
  | declined hn hfree hnone => exact h.setCall (by rw [hn]; nofun) nofun
  | @enter n k hn hfree hcurrent hneeds =>
      have hlocked : Current { s with holder := some n } :=
        ⟨h.failures, h.flagged, h.handles, h.currentMade, h.callsMade, h.deadMade⟩
      refine hlocked.setCall (by rw [hn]; nofun) ?_
      rintro j ⟨⟩
      exact h.currentMade k hcurrent
  | refused hn hfree hcurrent hneeds hrefused => exact h.setCall (by rw [hn]; nofun) nofun
  | @reconnect n k hn hfree hcurrent hneeds hrefused =>
      -- The operation has the flag now.
      refine ⟨h.failures, fun _ _ _ _ => .inr ⟨n, update_self ..⟩, h.handles, h.currentMade, ?_,
        h.deadMade⟩
      intro m phase j hm hj
      rcases update_eq_some hm with ⟨_, rfl⟩ | ⟨_, hmold⟩
      · cases hj
      · exact h.callsMade m phase j hmold hj
  | reconnected hn =>
      refine h.change ?_
      rintro j ⟨⟩
      exact Nat.le_refl _
  | @reconnectFailed n kind refusal hn =>
      have hfailed : Current { s with reconnect := s.reconnect.failed kind refusal } :=
        ⟨h.failures, fun _ _ _ _ => .inl (s.reconnect.needs_failed kind refusal), h.handles,
          h.currentMade, h.callsMade, h.deadMade⟩
      exact (hfailed.unlock n).ended (s.reconnect.needs_failed kind refusal)
  | @cancel n hn => exact (h.unlock n).ended hmeets
  | @detach n k phase hn hphase =>
      refine (h.unlock n).setCall (by rw [Link.unlock, hn]; nofun) ?_
      have hk := h.callsMade n _ k hn rfl
      rcases hphase with rfl | ⟨path, rfl⟩
      · rintro j ⟨⟩
        exact hk
      · rintro j ⟨⟩
        exact hk
  | @fail n k phase kind hn hk =>
      exact h.mark (h.callsMade n phase k hn hk) fun hsets => hmeets hsets phase k hn hk
  | @opened n k path hn =>
      have hk := h.callsMade n _ k hn rfl
      have hkept : Current { s with handles := (s.handles.insertOrExisting path k).2 } := by
        refine h.withHandles fun key j hholds => ?_
        rcases hmeets k path hn with hcurrent | hkeeps
        · rcases HandleCache.holds_insertOrExisting hholds with hheld | ⟨_, rfl⟩
          · exact .inl hheld
          · exact .inr hcurrent
        · exact .inl (HandleCache.holds_insertOrExisting_of_kept hkeeps hholds)
      refine hkept.setCall (by rw [hn]; nofun) ?_
      rintro j ⟨⟩
      rcases s.handles.insertOrExisting_fst path k with hheld | hnew
      · exact h.heldMade hheld
      · rw [hnew]
        exact hk
  | @leave n phase hn hphase =>
      refine (h.unlock n).setCall ?_ nofun
      rw [Link.unlock, hn]
      exact fun heq => hphase (Option.some.inj heq)
  | forget keeps => exact h.withHandles fun _ _ hholds => .inl (HandleCache.holds_retain hholds).1
  | adopt n hn hrefused => exact h.setCall (by rw [hn]; nofun) nofun
  | @swap n hn hfree =>
      have hchanged : Current (s.change.setCall n .gone) := h.change nofun
      refine ⟨hchanged.failures, ?_, hchanged.handles, hchanged.currentMade,
        hchanged.callsMade, hchanged.deadMade⟩
      intro _ k hk hdead
      obtain rfl := Option.some.inj hk
      exact absurd (h.deadMade _ hdead) (Nat.lt_irrefl _)
  | @adoptFailed n refusal hn =>
      have hremembered : Current { s with reconnect := { s.reconnect with
          refused := refusal.or s.reconnect.refused } } :=
        ⟨h.failures, h.flagged, h.handles, h.currentMade, h.callsMade, h.deadMade⟩
      exact hremembered.setCall (by rw [hn]; nofun) nofun

variable (s)

/-- **A failure and a handle belong to their session**, where nothing of an earlier
one arrives after a change and no reconnect is dropped. -/
theorem session_keeps_its_own {possible connected : Bool} {capacity : ℕ}
    (h : Reaches LinkStep InTime (.new possible connected capacity) s) :
    s.OwnFailures ∧ s.StaysFlagged ∧ s.OwnHandles := by
  have hs : Current s :=
    h.invariant (current_new ..) fun ht hmeets hstep => ht.step hmeets hstep
  exact ⟨hs.failures, hs.flagged, hs.handles⟩

end Steps

/-! ### Runs of either kind -/

def scan : NasPath := ["data", "scan.tif"]

/-- A connected transport that can come back, with two handles' worth of cache. -/
def mounted : Link := .new true true 2

/-- The session dies under a read, and the next operation rebuilds it. -/
theorem link_rebuilt :
    ∃ s : Link, (s.OwnFailures ∧ s.StaysFlagged ∧ s.OwnHandles) ∧ s.current = some 1 ∧
      s.dead = [0] ∧ s.handles.find scan = some 1 := by
  have h := (Reaches.start : Reaches LinkStep InTime mounted mounted)
  have h := h.next (by trivial) (@LinkStep.start _ 0 rfl)
  have h := h.next (by trivial) (@LinkStep.enter _ 0 0 rfl rfl rfl rfl)
  have h := h.next (by trivial)
    (@LinkStep.detach _ 0 0 (.opening 0 scan) rfl (.inr ⟨_, rfl⟩))
  have h := h.next (by rintro k path ⟨⟩; exact .inl rfl) (@LinkStep.opened _ 0 0 scan rfl)
  have h := h.next (by rintro - phase k ⟨⟩ ⟨⟩; rfl)
    (@LinkStep.fail _ 0 0 _ .connectionLost rfl rfl)
  have h := h.next (by trivial) (@LinkStep.leave _ 0 _ rfl nofun)
  have h := h.next (by trivial) (@LinkStep.start _ 1 rfl)
  have h := h.next (by trivial) (@LinkStep.reconnect _ 1 0 rfl rfl rfl rfl rfl)
  have h := h.next (by trivial) (@LinkStep.reconnected _ 1 rfl)
  have h := h.next (by trivial)
    (@LinkStep.detach _ 1 1 (.opening 1 scan) rfl (.inr ⟨_, rfl⟩))
  have h := h.next (by rintro k path ⟨⟩; exact .inl rfl) (@LinkStep.opened _ 1 1 scan rfl)
  exact ⟨_, session_keeps_its_own _ h, rfl, rfl, rfl⟩

/-- A handle that was being opened, and a failure, arrive after the mount has moved
to another leg; and a reconnect is dropped. -/
theorem late_and_dropped :
    (∃ s, Reaches LinkStep unrestricted mounted s ∧ ¬s.OwnHandles ∧ ¬s.OwnFailures) ∧
      ∃ s, Reaches LinkStep unrestricted mounted s ∧ ¬s.StaysFlagged := by
  constructor
  · have h := (Reaches.start : Reaches LinkStep unrestricted mounted mounted)
    have h := h.next (by trivial) (@LinkStep.start _ 0 rfl)
    have h := h.next (by trivial) (@LinkStep.enter _ 0 0 rfl rfl rfl rfl)
    have h := h.next (by trivial)
      (@LinkStep.detach _ 0 0 (.opening 0 scan) rfl (.inr ⟨_, rfl⟩))
    have h := h.next (by trivial) (@LinkStep.adopt _ 1 rfl rfl)
    have h := h.next (by trivial) (@LinkStep.swap _ 1 rfl rfl)
    have h := h.next (by trivial) (@LinkStep.opened _ 0 0 scan rfl)
    have h := h.next (by trivial) (@LinkStep.fail _ 0 0 _ .connectionLost rfl rfl)
    refine ⟨_, h, fun hown => ?_, fun hown => ?_⟩
    · cases hown scan 0 (HandleCache.holds_of_find rfl)
    · cases hown (0, some 1) (.head _)
  · have h := (Reaches.start : Reaches LinkStep unrestricted mounted mounted)
    have h := h.next (by trivial) (@LinkStep.start _ 0 rfl)
    have h := h.next (by trivial) (@LinkStep.enter _ 0 0 rfl rfl rfl rfl)
    have h := h.next (by trivial) (@LinkStep.fail _ 0 0 _ .connectionLost rfl rfl)
    have h := h.next (by trivial) (@LinkStep.leave _ 0 _ rfl nofun)
    have h := h.next (by trivial) (@LinkStep.start _ 1 rfl)
    have h := h.next (by trivial) (@LinkStep.reconnect _ 1 0 rfl rfl rfl rfl rfl)
    have h := h.next (by trivial) (@LinkStep.cancel _ 1 rfl)
    refine ⟨_, h, fun hstays => ?_⟩
    rcases hstays rfl 0 rfl (.head _) with hneeds | ⟨n, hn⟩
    · cases hneeds
    · rcases eq_or_ne n 0 with rfl | hfirst
      · cases hn
      · rcases eq_or_ne n 1 with rfl | hsecond
        · cases hn
        · simp [Link.setCall, Link.unlock, Link.mark, mounted, Link.new, hfirst, hsecond] at hn

end SynologyFilestation.Smb
