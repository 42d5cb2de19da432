import SynologyFilestation.Core.Error
import SynologyFilestation.Core.Path
import SynologyFilestation.Library.Transition

/-!
How the session id travels (`core/src/client/session.rs`).

The id and the way it is carried are two cells that all tasks of a client share. Every
login writes the first, then asks DSM with the second set to the cookie, and sets it to
the query parameter when it is refused. Each access to a cell is a step of its own, and
so is each wait for an answer; DSM accepts the id as a query parameter only.
-/

namespace SynologyFilestation.Core

open Library

/-- `SESSION_AUTH_COOKIE` and `SESSION_AUTH_QUERY`. -/
inductive SessionAuth
  | cookie
  | query
  deriving DecidableEq

abbrev Sid := Bytes

/-- What a request has of the session. -/
inductive Carried
  | nothing
  | cookie (sid : Sid)
  | query (sid : Sid)
  deriving DecidableEq

namespace Carried

def sid : Carried → Option Sid
  | nothing => none
  | cookie sid | query sid => some sid

def inCookie : Carried → Bool
  | cookie _ => true
  | _ => false

def inQuery : Carried → Bool
  | query _ => true
  | _ => false

end Carried

/-- `attach_session`, when both cells have been read. -/
def attachSession (sid : Sid) (auth : SessionAuth) : Carried :=
  if sid = [] then .nothing
  else
    match auth with
    | .cookie => .cookie sid
    | .query => .query sid

theorem inCookie_attachSession (sid : Sid) (auth : SessionAuth) :
    (attachSession sid auth).inCookie = (auth = .cookie && sid ≠ []) := by
  unfold attachSession
  split
  case isTrue hempty => simp [Carried.inCookie, hempty]
  case isFalse hsid => cases auth <;> simp [Carried.inCookie, hsid]

theorem inQuery_attachSession_cookie (sid : Sid) : (attachSession sid .cookie).inQuery = false := by
  unfold attachSession
  split <;> rfl

/-! ### What DSM answers -/

/-- `SID_NOT_FOUND`. -/
def sidNotFound : ℕ := 119

/-- `SynoResponse`. -/
structure SynoResponse (α : Type) where
  success : Bool
  data : Option α
  error : Option ℕ

/-- The answer says that the session is not known. -/
def SynoResponse.refused {α : Type} (response : SynoResponse α) : Bool :=
  !response.success && response.error = some sidNotFound

/-- What DSM has for a request whose session it knows. -/
abbrev Served := { response : SynoResponse Unit // response.refused = false }

/-- The answer to a request: no id is found in a cookie. -/
def dsmAnswer (live : List Sid) (carried : Carried) (served : Served) : SynoResponse Unit :=
  match carried with
  | .query sid => if sid ∈ live then served.1 else ⟨false, none, some sidNotFound⟩
  | .nothing | .cookie _ => ⟨false, none, some sidNotFound⟩

theorem refused_of_not_inQuery (live : List Sid) {carried : Carried} (h : carried.inQuery = false)
    (served : Served) : (dsmAnswer live carried served).refused = true := by
  cases carried with
  | nothing => rfl
  | cookie => rfl
  | query => cases h

theorem not_refused_of_live {live : List Sid} {sid : Sid} (h : sid ∈ live) (served : Served) :
    (dsmAnswer live (.query sid) served).refused = false := by
  rw [dsmAnswer, if_pos h]
  exact served.2

/-- `rejected`, of the response to the probe when one could be read. -/
def rejected (response : Option (SynoResponse Unit)) : Bool :=
  ((response.filter fun envelope => !envelope.success).bind SynoResponse.error).any
    (· == sidNotFound)

theorem rejected_some (response : SynoResponse Unit) :
    rejected (some response) = response.refused := by
  obtain ⟨success, data, error⟩ := response
  cases success <;> cases error <;>
    simp [rejected, SynoResponse.refused, Option.filter, beq_eq_decide]

/-- What `login` makes of the answer. -/
def loggedIn (response : SynoResponse Sid) : Except SynoFsError Sid :=
  if response.success then
    match response.data with
    | some sid => .ok sid
    | none => .error (.io "no auth data")
  else .error (.apiError (response.error.getD 0))

/-! ### The client and its tasks -/

structure StoredCreds where
  user : String
  password : String

/-- Where a login is. -/
inductive LoginPoint
  | asking
  /-- DSM has answered, and the id is to be stored. -/
  | issued (sid : Sid)
  /-- `probe_session_transport` begins. -/
  | resetting
  /-- The cookie is stored. -/
  | reading
  | attaching (sid : Sid)
  | probing (carried : Carried)
  /-- The probe was rejected. -/
  | settling
  | keeping

/-- Where a call is. -/
inductive CallPoint
  | idle
  /-- The id is read, and how it is carried is not. -/
  | attaching (sid : Sid)
  | sent (carried : Carried)

/-- A login, behind which an operation may be run once more; an operation, which may be run
again behind a login; a logout. An operation makes any number of requests. -/
inductive SessionTask
  | login (creds : StoredCreds) (again : Bool) (point : LoginPoint)
  | call (retry : Bool) (point : CallPoint)
  | logout (point : CallPoint)
  | clearing
  | done (result : Except SynoFsError Unit)
  | dropped

namespace SessionTask

/-- The request of a call that is on its way. -/
def request : SessionTask → Option Carried
  | call _ (.sent carried) | logout (.sent carried) => some carried
  | _ => none

def inCookie (task : SessionTask) : Bool := task.request.any Carried.inCookie

/-- A login that has stored the cookie, and will be refused it. -/
def unsettled : SessionTask → Bool
  | login _ _ .reading | login _ _ (.attaching _) | login _ _ .settling => true
  | login _ _ (.probing carried) => !carried.inQuery
  | _ => false

end SessionTask

/-- What the tasks share, and the sessions that DSM considers live. That a probe has settled
on the query parameter is not in the source. -/
structure SessionClient where
  autoRelogin : Bool
  sid : Option Sid
  sessionAuth : SessionAuth
  creds : Option StoredCreds
  tasks : List SessionTask
  live : List Sid
  settled : Bool

/-- What a task does next, or what comes to it, and what DSM does with sessions. No answer
is one that is lost, or is not an envelope. -/
inductive SessionEvent
  | login (creds : StoredCreds)
  | call (retry : Bool)
  | logout
  | posted (i : ℕ) (answer : Except SynoFsError (SynoResponse Sid))
  | advance (i : ℕ)
  | request (i : ℕ)
  | reply (i : ℕ) (served : Option Served)
  | finish (i : ℕ) (result : Except SynoFsError Unit)
  | drop (i : ℕ)
  | opened (sid : Sid)
  | expired (sid : Sid)

namespace SessionClient

/-- `new`, or `with_auto_relogin`. -/
def new (autoRelogin : Bool) : SessionClient where
  autoRelogin := autoRelogin
  sid := none
  sessionAuth := .cookie
  creds := none
  tasks := []
  live := []
  settled := false

variable (s : SessionClient)

/-- `sid`. -/
def currentSid : Sid := s.sid.getD []

def spawn (task : SessionTask) : SessionClient := { s with tasks := s.tasks ++ [task] }

def goTo (i : ℕ) (task : SessionTask) : SessionClient := { s with tasks := s.tasks.set i task }

/-- The POST is answered. -/
def posted (i : ℕ) (answer : Except SynoFsError (SynoResponse Sid)) : SessionTask → SessionClient
  | .login creds again .asking =>
      match answer >>= loggedIn with
      | .ok sid => { s with live := sid :: s.live }.goTo i (.login creds again (.issued sid))
      | .error e => s.goTo i (.done (.error (if again then .loginFailed e else e)))
  | _ => s

/-- Up to the next access to a cell. -/
def advance (i : ℕ) : SessionTask → SessionClient
  | .login creds again (.issued sid) =>
      { s with sid := some sid }.goTo i (.login creds again .resetting)
  | .login creds again .resetting =>
      { s with sessionAuth := .cookie }.goTo i (.login creds again .reading)
  | .login creds again .reading => s.goTo i (.login creds again (.attaching s.currentSid))
  | .login creds again (.attaching sid) =>
      s.goTo i (.login creds again (.probing (attachSession sid s.sessionAuth)))
  | .login creds again .settling =>
      { s with sessionAuth := .query, settled := true }.goTo i (.login creds again .keeping)
  | .login creds again .keeping =>
      { s with creds := if s.autoRelogin then some creds else s.creds }.goTo i
        (if again then .call false .idle else .done (.ok ()))
  | .call retry (.attaching sid) =>
      s.goTo i (.call retry (.sent (attachSession sid s.sessionAuth)))
  | .logout (.attaching sid) => s.goTo i (.logout (.sent (attachSession sid s.sessionAuth)))
  | .clearing => { s with sid := none }.goTo i (.done (.ok ()))
  | _ => s

/-- A call makes a request. -/
def request (i : ℕ) : SessionTask → SessionClient
  | .call retry .idle => s.goTo i (.call retry (.attaching s.currentSid))
  | .logout .idle => s.goTo i (.logout (.attaching s.currentSid))
  | _ => s

/-- A request is answered, or will not be. What a logout is answered is not looked at. -/
def reply (i : ℕ) (served : Option Served) : SessionTask → SessionClient
  | .login creds again (.probing carried) =>
      if rejected (served.map (dsmAnswer s.live carried)) then
        s.goTo i (.login creds again .settling)
      else s.goTo i (.login creds again .keeping)
  | .call retry (.sent _) => s.goTo i (.call retry .idle)
  | .logout (.sent _) => s.goTo i .clearing
  | _ => s

/-- `relogin`: what is logged in with. -/
def relogin : Except SynoFsError StoredCreds :=
  if !s.autoRelogin then .error .notSupported
  else
    match s.creds with
    | some creds => .ok creds
    | none => .error .notSupported

/-- The operation is over (`with_relogin_retry`). -/
def finish (i : ℕ) (result : Except SynoFsError Unit) : SessionTask → SessionClient
  | .call retry .idle =>
      if retry && result = .error (.apiError sidNotFound) && s.autoRelogin then
        match s.relogin with
        | .ok creds => s.goTo i (.login creds true .asking)
        | .error e => s.goTo i (.done (.error (.loginFailed e)))
      else s.goTo i (.done result)
  | _ => s

/-- A task is given up where it waits. -/
def drop (i : ℕ) : SessionTask → SessionClient
  | .login _ _ .asking | .login _ _ (.probing _) | .call _ .idle | .call _ (.sent _)
  | .logout (.sent _) => s.goTo i .dropped
  | _ => s

def onTask (i : ℕ) (f : SessionTask → SessionClient) : SessionClient :=
  match s.tasks[i]? with
  | some task => f task
  | none => s

def after : SessionEvent → SessionClient
  | .login creds => s.spawn (.login creds false .asking)
  | .call retry => s.spawn (.call retry .idle)
  | .logout => s.spawn (.logout .idle)
  | .posted i answer => s.onTask i (s.posted i answer)
  | .advance i => s.onTask i (s.advance i)
  | .request i => s.onTask i (s.request i)
  | .reply i served => s.onTask i (s.reply i served)
  | .finish i result => s.onTask i (s.finish i result)
  | .drop i => s.onTask i (s.drop i)
  | .opened sid => { s with live := sid :: s.live }
  | .expired sid => { s with live := s.live.filter (· ≠ sid) }

def Step (s : SessionClient) (event : SessionEvent) (t : SessionClient) : Prop := t = s.after event

/-! ### Calls on a DSM that does not take the cookie -/

/-- A login will set the query parameter. -/
def unsettled : Bool := s.tasks.any SessionTask.unsettled

/-- A call is about to carry the session as a cookie, and a login is finding out that it
is refused. -/
def overtaken : SessionTask → Bool
  | .call _ (.attaching sid) | .logout (.attaching sid) =>
      s.settled && s.unsettled && s.sessionAuth = .cookie && sid ≠ []
  | _ => false

/-- The first probe settles, and a call has gone before it as a cookie. -/
def outrun : SessionTask → Bool
  | .login _ _ .settling => !s.settled && s.tasks.any SessionTask.inCookie
  | _ => false

/-- With this login, whose probe is on its way, goes the last that would set the query
parameter, and the cookie is stored. -/
def forsaken (i : ℕ) : SessionTask → Bool
  | .login _ _ (.probing _) =>
      s.settled && s.sessionAuth = .cookie && !(s.goTo i .dropped).unsettled
  | _ => false

/-- Calls wait for the logins, and the probes are answered. -/
def Orderly (s : SessionClient) : SessionEvent → Prop
  | .advance i => s.tasks[i]?.any (fun task => s.overtaken task || s.outrun task) = false
  | .reply i none | .drop i => s.tasks[i]?.any (s.forsaken i) = false
  | _ => True

/-- Once a probe has settled, the cookie is stored only while a login is there that will be
refused it, and no call has gone as a cookie. -/
structure Sound (s : SessionClient) : Prop where
  owned : s.settled = true → s.sessionAuth = .cookie → s.unsettled = true
  sent : s.settled = true → ∀ task ∈ s.tasks, task.inCookie = false

variable {s} {t : SessionClient} {i : ℕ} {task task' : SessionTask}

theorem sound_new (autoRelogin : Bool) : (new autoRelogin).Sound where
  owned := nofun
  sent := nofun

theorem goTo_self (htask : s.tasks[i]? = some task) : s.goTo i task = s := by
  obtain ⟨hi, rfl⟩ := List.getElem?_eq_some_iff.mp htask
  rw [SessionClient.goTo, List.set_getElem_self]

/-- One that has to settle may be replaced by another. -/
theorem unsettled_goTo (hkeep : task.unsettled = true → task'.unsettled = true)
    (h : (s.goTo i task).unsettled = true) : (s.goTo i task').unsettled = true := by
  rw [unsettled, SessionClient.goTo] at h ⊢
  dsimp only at h ⊢
  generalize s.tasks = tasks at h ⊢
  induction tasks generalizing i with
  | nil => exact h
  | cons first rest ih =>
      cases i with
      | zero =>
          rw [List.set_cons_zero, List.any_cons, Bool.or_eq_true] at h ⊢
          exact h.imp_left hkeep
      | succ i =>
          rw [List.set_cons_succ, List.any_cons, Bool.or_eq_true] at h ⊢
          exact h.imp_right ih

/-- A task goes on, and has not made a request that carries the session as a cookie. -/
theorem inCookie_goTo (h : ∀ other ∈ s.tasks, other.inCookie = false)
    (hnew : task'.inCookie = false) : ∀ other ∈ (s.goTo i task').tasks, other.inCookie = false := by
  intro other hother
  rcases List.mem_or_eq_of_mem_set hother with hold | rfl
  · exact h other hold
  · exact hnew

theorem Sound.goTo (h : s.Sound) (htask : s.tasks[i]? = some task)
    (hkeep : s.sessionAuth = .cookie → task.unsettled = true → task'.unsettled = true)
    (hsent : s.settled = true → task'.inCookie = false) : (s.goTo i task').Sound where
  owned hsettled hcookie := by
    refine unsettled_goTo (hkeep hcookie) ?_
    rw [goTo_self htask]
    exact h.owned hsettled hcookie
  sent hsettled := inCookie_goTo (h.sent hsettled) (hsent hsettled)

theorem Sound.spawn (h : s.Sound) (hsent : task.inCookie = false) : (s.spawn task).Sound where
  owned hsettled hcookie := by
    rw [unsettled, SessionClient.spawn, List.any_append, Bool.or_eq_true]
    exact Or.inl (h.owned hsettled hcookie)
  sent hsettled other hother := by
    rcases List.mem_append.mp hother with hold | hnew
    · exact h.sent hsettled other hold
    · rw [List.mem_singleton.mp hnew]
      exact hsent

/-- What DSM knows and what the client keeps of logins is not looked at. -/
theorem Sound.of_same (h : s.Sound) (hauth : t.sessionAuth = s.sessionAuth)
    (htasks : t.tasks = s.tasks) (hsettled : t.settled = s.settled) : t.Sound where
  owned := by
    rw [unsettled, hauth, htasks, hsettled]
    exact h.owned
  sent := by
    rw [htasks, hsettled]
    exact h.sent

theorem Sound.posted (h : s.Sound) (htask : s.tasks[i]? = some task)
    (answer : Except SynoFsError (SynoResponse Sid)) : (s.posted i answer task).Sound := by
  unfold SessionClient.posted
  split
  case h_1 =>
    split
    case h_1 sid _ =>
      have hlive : Sound { s with live := sid :: s.live } := h.of_same rfl rfl rfl
      exact hlive.goTo htask (fun _ => nofun) (fun _ => rfl)
    case h_2 => exact h.goTo htask (fun _ => nofun) (fun _ => rfl)
  case h_2 => exact h

/-- A call that does not overtake a login finds the query parameter. -/
theorem Sound.attach (h : s.Sound) {sid : Sid}
    (hcalm : (s.settled && s.unsettled && s.sessionAuth = .cookie && sid ≠ []) = false)
    (hsettled : s.settled = true) : (attachSession sid s.sessionAuth).inCookie = false := by
  rw [inCookie_attachSession]
  by_cases hcookie : s.sessionAuth = .cookie
  · have howned : s.unsettled = true := h.owned hsettled hcookie
    rw [hsettled, howned, Bool.and_self, Bool.true_and] at hcalm
    exact hcalm
  · rw [decide_eq_false hcookie, Bool.false_and]

theorem Sound.advance (h : s.Sound) (htask : s.tasks[i]? = some task)
    (hcalm : s.overtaken task = false) (hbehind : s.outrun task = false) :
    (s.advance i task).Sound := by
  have hmem : i < s.tasks.length := (List.getElem?_eq_some_iff.mp htask).1
  cases task with
  | login creds again point =>
      cases point with
      | asking => exact h
      | issued sid =>
          have hstored : Sound { s with sid := some sid } := h.of_same rfl rfl rfl
          exact hstored.goTo htask (fun _ => nofun) (fun _ => rfl)
      | resetting =>
          -- The cookie is stored by a login that is there to settle.
          refine ⟨fun _ _ => ?_, fun hsettled => inCookie_goTo (h.sent hsettled) rfl⟩
          exact List.any_eq_true.mpr ⟨_, List.mem_set hmem _, rfl⟩
      | reading => exact h.goTo htask (fun _ _ => rfl) (fun _ => rfl)
      | attaching sid =>
          refine h.goTo htask (fun hcookie _ => ?_) (fun _ => rfl)
          rw [SessionTask.unsettled, hcookie, inQuery_attachSession_cookie]
          rfl
      | probing carried => exact h
      | settling =>
          have hsent : ∀ other ∈ s.tasks, other.inCookie = false := by
            intro other hother
            cases hsettled : s.settled with
            | true => exact h.sent hsettled other hother
            | false =>
                rw [outrun, hsettled, Bool.not_false, Bool.true_and, List.any_eq_false] at hbehind
                exact Bool.eq_false_iff.mpr (hbehind other hother)
          exact ⟨fun _ => nofun, fun _ => inCookie_goTo hsent rfl⟩
      | keeping =>
          have hkept : Sound { s with creds := if s.autoRelogin then some creds else s.creds } :=
            h.of_same rfl rfl rfl
          refine hkept.goTo htask (fun _ => nofun) (fun _ => ?_)
          cases again <;> rfl
  | call retry point =>
      cases point with
      | attaching sid => exact h.goTo htask (fun _ => nofun) (h.attach hcalm)
      | idle => exact h
      | sent carried => exact h
  | logout point =>
      cases point with
      | attaching sid => exact h.goTo htask (fun _ => nofun) (h.attach hcalm)
      | idle => exact h
      | sent carried => exact h
  | clearing =>
      have hcleared : Sound { s with sid := none } := h.of_same rfl rfl rfl
      exact hcleared.goTo htask (fun _ => nofun) (fun _ => rfl)
  | done result => exact h
  | dropped => exact h

theorem Sound.request (h : s.Sound) (htask : s.tasks[i]? = some task) :
    (s.request i task).Sound := by
  unfold SessionClient.request
  split
  · exact h.goTo htask (fun _ => nofun) (fun _ => rfl)
  · exact h.goTo htask (fun _ => nofun) (fun _ => rfl)
  · exact h

/-- A login ends, and is not the last one that would set the query parameter. -/
theorem Sound.leave (h : s.Sound)
    (hkept : (s.settled && s.sessionAuth = .cookie && !(s.goTo i .dropped).unsettled) = false)
    (hnew : task'.inCookie = false) : (s.goTo i task').Sound := by
  refine ⟨fun hsettled hcookie => ?_, fun hsettled => inCookie_goTo (h.sent hsettled) hnew⟩
  have hsettled' : s.settled = true := hsettled
  have hcookie' : s.sessionAuth = .cookie := hcookie
  rw [hsettled', decide_eq_true hcookie', Bool.and_self, Bool.true_and, Bool.not_eq_false'] at hkept
  have hdropped (h : SessionTask.dropped.unsettled = true) : task'.unsettled = true := by cases h
  exact unsettled_goTo hdropped hkept

theorem Sound.unanswered (h : s.Sound) (htask : s.tasks[i]? = some task)
    (hkept : s.forsaken i task = false) : (s.reply i none task).Sound := by
  unfold SessionClient.reply
  split
  case h_1 => exact h.leave hkept rfl
  case h_2 => exact h.goTo htask (fun _ => nofun) (fun _ => rfl)
  case h_3 => exact h.goTo htask (fun _ => nofun) (fun _ => rfl)
  case h_4 => exact h

/-- A probe that carries the session as a cookie is rejected, so that its login settles. -/
theorem Sound.answered (h : s.Sound) (htask : s.tasks[i]? = some task) (served : Served) :
    (s.reply i (some served) task).Sound := by
  unfold SessionClient.reply
  split
  case h_1 creds again carried =>
    rw [Option.map_some, rejected_some]
    split
    case isTrue => exact h.goTo htask (fun _ _ => rfl) (fun _ => rfl)
    case isFalse hserved =>
      refine h.goTo htask (fun _ hunsettled => ?_) (fun _ => rfl)
      have hquery : carried.inQuery = false := Bool.not_eq_true' _ |>.mp hunsettled
      exact absurd (refused_of_not_inQuery s.live hquery served) hserved
  case h_2 => exact h.goTo htask (fun _ => nofun) (fun _ => rfl)
  case h_3 => exact h.goTo htask (fun _ => nofun) (fun _ => rfl)
  case h_4 => exact h

theorem Sound.finish (h : s.Sound) (htask : s.tasks[i]? = some task)
    (result : Except SynoFsError Unit) : (s.finish i result task).Sound := by
  unfold SessionClient.finish
  split
  case h_1 =>
    split
    case isTrue =>
      split
      · exact h.goTo htask (fun _ => nofun) (fun _ => rfl)
      · exact h.goTo htask (fun _ => nofun) (fun _ => rfl)
    case isFalse => exact h.goTo htask (fun _ => nofun) (fun _ => rfl)
  case h_2 => exact h

theorem Sound.drop (h : s.Sound) (htask : s.tasks[i]? = some task)
    (hkept : s.forsaken i task = false) : (s.drop i task).Sound := by
  unfold SessionClient.drop
  split
  · exact h.goTo htask (fun _ => nofun) (fun _ => rfl)
  · exact h.leave hkept rfl
  · exact h.goTo htask (fun _ => nofun) (fun _ => rfl)
  · exact h.goTo htask (fun _ => nofun) (fun _ => rfl)
  · exact h.goTo htask (fun _ => nofun) (fun _ => rfl)
  · exact h

theorem Sound.onTask (h : s.Sound) {f : SessionTask → SessionClient}
    (hf : ∀ task, s.tasks[i]? = some task → (f task).Sound) : (s.onTask i f).Sound := by
  unfold SessionClient.onTask
  split
  case h_1 task htask => exact hf task htask
  case h_2 => exact h

theorem Sound.step (h : s.Sound) {event : SessionEvent} (horderly : s.Orderly event)
    (hstep : s.Step event t) : t.Sound := by
  subst hstep
  cases event with
  | login creds => exact h.spawn rfl
  | call retry => exact h.spawn rfl
  | logout => exact h.spawn rfl
  | posted i answer => exact h.onTask fun task htask => h.posted htask answer
  | advance i =>
      refine h.onTask fun task htask => ?_
      rw [Orderly, htask, Option.any_some, Bool.or_eq_false_iff] at horderly
      exact h.advance htask horderly.1 horderly.2
  | request i => exact h.onTask fun task htask => h.request htask
  | reply i served =>
      refine h.onTask fun task htask => ?_
      cases served with
      | none =>
          rw [Orderly, htask, Option.any_some] at horderly
          exact h.unanswered htask horderly
      | some served => exact h.answered htask served
  | finish i result => exact h.onTask fun task htask => h.finish htask result
  | drop i =>
      refine h.onTask fun task htask => ?_
      rw [Orderly, htask, Option.any_some] at horderly
      exact h.drop htask horderly
  | opened sid => exact h.of_same rfl rfl rfl
  | expired sid => exact h.of_same rfl rfl rfl

theorem sound_of_reaches {autoRelogin : Bool} (h : Reaches Step Orderly (new autoRelogin) s) :
    s.Sound :=
  h.invariant (sound_new autoRelogin) fun hs horderly hstep => hs.step horderly hstep

/-- **A live session is not refused because of how it travels**, while calls wait for the
logins and the probes are answered: once a probe has settled, no request that carries a
session DSM considers live is answered that the session is not known. -/
theorem live_session_served {autoRelogin : Bool} (h : Reaches Step Orderly (new autoRelogin) s)
    (hsettled : s.settled = true) {carried : Carried} {sid : Sid}
    (htask : s.tasks[i]? = some task) (hrequest : task.request = some carried)
    (hsid : carried.sid = some sid) (hlive : sid ∈ s.live) (served : Served) :
    (dsmAnswer s.live carried served).refused = false := by
  have hquery : task.inCookie = false :=
    (sound_of_reaches h).sent hsettled task (List.mem_of_getElem? htask)
  rw [SessionTask.inCookie, hrequest, Option.any_some] at hquery
  cases carried with
  | nothing => cases hsid
  | cookie => cases hquery
  | query carriedSid =>
      obtain rfl := Option.some.inj hsid
      exact not_refused_of_live hlive served

/-- The conditions are needed: a call that overtakes a login goes as a cookie, with which
no session is known. -/
theorem overtaken_refused (htask : s.tasks[i]? = some task) (h : s.overtaken task = true) :
    ∃ sid task', (s.after (.advance i)).tasks[i]? = some task' ∧
      task'.request = some (.cookie sid) ∧
        ∀ served, (dsmAnswer s.live (.cookie sid) served).refused = true := by
  have hi : i < s.tasks.length := (List.getElem?_eq_some_iff.mp htask).1
  have hcarried {sid : Sid} (hovertaken : (s.settled && s.unsettled && s.sessionAuth = .cookie &&
      sid ≠ []) = true) : attachSession sid s.sessionAuth = .cookie sid := by
    simp only [Bool.and_eq_true, decide_eq_true_eq] at hovertaken
    obtain ⟨⟨-, hcookie⟩, hsid⟩ := hovertaken
    rw [hcookie, attachSession, if_neg hsid]
  rw [after, SessionClient.onTask, htask]
  unfold overtaken at h
  split at h
  case h_1 retry sid =>
    exact ⟨sid, _, List.getElem?_set_self hi, congrArg some (hcarried h), fun served => rfl⟩
  case h_2 sid =>
    exact ⟨sid, _, List.getElem?_set_self hi, congrArg some (hcarried h), fun served => rfl⟩
  case h_3 => cases h

/-- And a probe that leaves the cookie behind leaves it to all calls that follow. -/
theorem forsaken_cookie (htask : s.tasks[i]? = some task) (h : s.forsaken i task = true) :
    (s.after (.drop i)).settled = true ∧ (s.after (.drop i)).sessionAuth = .cookie ∧
      (s.after (.drop i)).unsettled = false := by
  rw [after, SessionClient.onTask, htask]
  dsimp only
  unfold forsaken at h
  split at h
  case h_1 =>
    simp only [Bool.and_eq_true, decide_eq_true_eq, Bool.not_eq_true'] at h
    exact ⟨h.1.1, h.1.2, h.2⟩
  case h_2 => cases h

/-! ### Two logins -/

instance decidableOrderly (s : SessionClient) : ∀ event, Decidable (s.Orderly event)
  | .advance i => inferInstanceAs
      (Decidable (s.tasks[i]?.any (fun task => s.overtaken task || s.outrun task) = false))
  | .reply i none | .drop i => inferInstanceAs (Decidable (s.tasks[i]?.any (s.forsaken i) = false))
  | .reply _ (some _) | .login _ | .call _ | .logout | .posted .. | .request _ | .finish ..
  | .opened _ | .expired _ => .isTrue trivial

def someCreds : StoredCreds := ⟨"alice", "secret"⟩

def emptyListing : Served := ⟨⟨true, some (), none⟩, rfl⟩

/-- A login up to its probe. -/
def loginRun (i : ℕ) (sid : Sid) : List SessionEvent :=
  [.login someCreds, .posted i (.ok ⟨true, some sid, none⟩), .advance i, .advance i]

/-- The probe is sent, and answered, and the login is over. -/
def probeRun (i : ℕ) : List SessionEvent :=
  [.advance i, .advance i, .reply i (some emptyListing), .advance i, .advance i]

/-- A call makes its request. -/
def callRun (i : ℕ) : List SessionEvent := [.call true, .request i, .advance i]

/-- A call behind a login. -/
def calledBehind : SessionClient :=
  (loginRun 0 [7] ++ probeRun 0 ++ callRun 1).foldl after (new true)

theorem call_behind_login_served :
    calledBehind.settled = true ∧ calledBehind.tasks[1]? = some (.call true (.sent (.query [7]))) ∧
      (dsmAnswer calledBehind.live (.query [7]) emptyListing).refused = false := by
  have hrun : EveryStep after Orderly (new true) (loginRun 0 [7] ++ probeRun 0 ++ callRun 1) := by
    decide
  have hreached : Reaches Step Orderly (new true) calledBehind := Reaches.start.events hrun
  exact ⟨rfl, rfl, live_session_served (i := 1) hreached rfl rfl rfl rfl (by decide) emptyListing⟩

/-- A call while the second login asks. -/
theorem call_beside_login_refused :
    ¬∀ s : SessionClient, Reaches Step unrestricted (new true) s → s.settled = true →
      ∀ (i : ℕ) (task : SessionTask) (carried : Carried) (sid : Sid), s.tasks[i]? = some task →
        task.request = some carried → carried.sid = some sid → sid ∈ s.live →
          ∀ served, (dsmAnswer s.live carried served).refused = false := by
  intro h
  have hreached : Reaches Step unrestricted (new true)
      ((loginRun 0 [7] ++ probeRun 0 ++ loginRun 1 [8] ++ callRun 2).foldl after (new true)) :=
    Reaches.start.events (everyStep_unrestricted _ _ _)
  have hserved := h _ hreached rfl 2 _ (.cookie [8]) [8] rfl rfl rfl (by decide) emptyListing
  cases hserved

end SessionClient

end SynologyFilestation.Core
