import SynologyFilestation.Library.Transition
import SynologyFilestation.Library.Table
import Mathlib.Data.List.Basic
import Mathlib.Data.Nat.Notation

/-!
The chain of legs to the NAS (`connect/src/lib.rs`): which way SMB is reached,
how long the answer is remembered, and when the tunnel may be asked.

Nothing holds a lock across a wait, and each lock is taken for one reading or
one writing. So a step here is one access to what the chain remembers, one
question put to the prober or the tunnel, or one answer of theirs; the steps of
different calls come in any order. `log` is no part of the chain: it lists,
newest first, what was asked and answered.
-/

namespace SynologyFilestation.Connect

open Function Library

/-- What is carrying the data, worst first. -/
inductive Transport
  | https
  | smbOverVpn
  | smbDirect
  deriving DecidableEq

def Transport.rank : Transport → ℕ
  | .https => 0
  | .smbOverVpn => 1
  | .smbDirect => 2

def Transport.isBest (t : Transport) : Bool := t == .smbDirect

structure TransportPolicy where
  smb : Bool
  vpn : Bool
  https : Bool

structure Endpoints where
  publicHost : String
  tunnelHost : Option String

structure Route where
  transport : Transport
  smbHost : Option String
  deriving DecidableEq

inductive TunnelUnavailable
  | transient (why : String)
  | refused (why : String)

inductive SmbRoute
  | direct (host : String)
  | tunnelled (host : String)
  | unavailable

structure Decision where
  route : Route
  /-- Never, for the best leg. -/
  expiresAt : Option ℕ

/-- What a chain is built with. -/
structure Setup where
  policy : TransportPolicy
  endpoints : Endpoints
  recheck : ℕ
  tunnelRecheck : ℕ

/-- The two calls that decide. -/
inductive Decider
  | route
  | reachSmb

/-- Whom the prober is asked for, and `raise_tunnel`. -/
inductive Purpose
  | deciding (d : Decider)
  | betterThan (current : Transport)

/-- The three ways to `Tunnel::open`. -/
inductive Way
  | raised (p : Purpose)
  /-- `reach_smb`, on the leg it remembers. -/
  | remembered (cached : Route)
  | beside

inductive Entry
  | decide (d : Decider)
  | betterThan (current : Transport)
  | anotherSmbConnection
  | settle (route : Route)
  | tunnelCarriedNothing
  | reconsider

inductive Answer
  | route (r : Route)
  | noTransport
  | reached (r : SmbRoute)
  | better (r : Option SmbRoute)
  | failed (e : TunnelUnavailable)
  | unit
  /-- The caller gave up waiting. -/
  | dropped

/-- Where a call is. -/
inductive Phase
  | called (entry : Entry)
  | probe (p : Purpose) (mayOpen : Bool)
  | probing (p : Purpose) (mayOpen : Bool)
  | checkRefused (p : Purpose) (inside : String)
  | checkFailed (p : Purpose) (inside : String)
  | asking (way : Way) (host : String)
  | waiting (way : Way) (host : String)
  /-- `raise_tunnel`, with a connection. -/
  | opened (p : Purpose) (inside : String)
  /-- With a failure that is yet to be written down. -/
  | failing (p : Purpose) (e : TunnelUnavailable)
  | failingRemembered (cached : Route) (e : TunnelUnavailable)
  | forgetting (cached : Route)
  | remembering (d : Decider) (route : Route)
  | clearRefused
  | clearFailed
  | done (answer : Answer)

/-- What was asked, answered and said. -/
inductive Note
  | asked (time : ℕ)
  | opened
  | refused
  | failed (time : ℕ)
  /-- The failure of an `another_smb_connection`. -/
  | failedBeside (time : ℕ)
  | refusalLifted
  | quietLifted
  /-- Call `n` puts the first or another of its questions. -/
  | judging (n : ℕ)
  | remembered (n : ℕ)
  /-- `settle` or `reconsider` is called. -/
  | said (n : ℕ)
  /-- It returns. -/
  | heard (n : ℕ)
  deriving DecidableEq

structure Chain where
  now : ℕ
  decision : Option Decision
  refused : Option String
  tunnelFailedAt : Option ℕ
  calls : ℕ → Option Phase
  log : List Note

namespace Chain

def new : Chain :=
  { now := 0, decision := none, refused := none, tunnelFailedAt := none, calls := fun _ => none,
    log := [] }

def cached (c : Chain) : Option Route :=
  match c.decision with
  | none => none
  | some d =>
      match d.expiresAt with
      | none => some d.route
      | some at_ => if c.now < at_ then some d.route else none

def current (c : Chain) : Option Route := c.decision.map Decision.route

def remember (s : Setup) (c : Chain) (route : Route) : Chain :=
  { c with
    decision := some
      { route := route
        expiresAt := if route.transport.isBest then none else some (c.now + s.recheck) } }

def forget (c : Chain) (actedOn : Route) : Chain :=
  if c.current = some actedOn then { c with decision := none } else c

def tunnelFailed (c : Chain) : TunnelUnavailable → Chain
  | .refused why => { c with refused := some why }
  | .transient _ => { c with tunnelFailedAt := some c.now }

/-- The tunnel failed so recently that it is left alone. -/
def FailedRecently (s : Setup) (c : Chain) : Prop :=
  ∃ at_, c.tunnelFailedAt = some at_ ∧ c.now < at_ + s.tunnelRecheck

def setCall (c : Chain) (n : ℕ) (phase : Phase) : Chain :=
  { c with calls := update c.calls n (some phase) }

def note (c : Chain) (what : Note) : Chain := { c with log := what :: c.log }

theorem of_setCall {c : Chain} {n m : ℕ} {ph ph' : Phase}
    (h : (c.setCall n ph).calls m = some ph') : m = n ∧ ph' = ph ∨ m ≠ n ∧ c.calls m = some ph' :=
  update_eq_some h

@[simp] theorem tunnelFailed_calls (c : Chain) (e : TunnelUnavailable) :
    (c.tunnelFailed e).calls = c.calls := by
  cases e <;> rfl

@[simp] theorem tunnelFailed_log (c : Chain) (e : TunnelUnavailable) :
    (c.tunnelFailed e).log = c.log := by
  cases e <;> rfl

@[simp] theorem forget_calls (c : Chain) (actedOn : Route) :
    (c.forget actedOn).calls = c.calls := by
  unfold forget
  split <;> rfl

@[simp] theorem forget_log (c : Chain) (actedOn : Route) : (c.forget actedOn).log = c.log := by
  unfold forget
  split <;> rfl

end Chain

/-! ### What a call does next

Between two steps a call computes, from what it has just read or heard. -/

section Next

variable (s : Setup)

/-- `decide_with_tunnel`, past the SMB legs. -/
def fallBack (d : Decider) : Phase :=
  if s.policy.https then .remembering d ⟨.https, none⟩ else .done .noTransport

def decideWithTunnel (d : Decider) (mayOpen : Bool) : Phase :=
  if s.policy.smb then .probe (.deciding d) mayOpen else fallBack s d

/-- `raise_tunnel` has no connection to give. -/
def notRaised : Purpose → Phase
  | .deciding d => fallBack s d
  | .betterThan _ => .done (.better none)

/-- It has one. -/
def raised (inside : String) : Purpose → Phase
  | .deciding d => .remembering d ⟨.smbOverVpn, some inside⟩
  | .betterThan _ => .done (.better (some (.tunnelled inside)))

def raiseTunnel (p : Purpose) (inside : String) : Phase :=
  if s.policy.vpn then .checkRefused p inside else notRaised s p

/-- The prober's answer is in. -/
def probed : Purpose → Bool → Bool → Phase
  | .deciding d, _, true => .remembering d ⟨.smbDirect, some s.endpoints.publicHost⟩
  | .deciding d, mayOpen, false =>
      match s.policy.vpn, s.endpoints.tunnelHost, mayOpen with
      | true, some inside, true => raiseTunnel s (.deciding d) inside
      | _, _, _ => fallBack s d
  | .betterThan _, _, true => .done (.better (some (.direct s.endpoints.publicHost)))
  | .betterThan current, _, false =>
      if Transport.smbOverVpn.rank ≤ current.rank then .done (.better none)
      else
        match s.endpoints.tunnelHost with
        | none => .done (.better none)
        | some inside => raiseTunnel s (.betterThan current) inside

/-- `route` and `reach_smb`, with what is remembered. -/
def consult : Decider → Option Route → Phase
  | .route, some r => .done (.route r)
  | .reachSmb, some ⟨.smbDirect, some host⟩ => .done (.reached (.direct host))
  | .reachSmb, some ⟨.https, _⟩ => .done (.reached .unavailable)
  | .reachSmb, some ⟨.smbOverVpn, some host⟩ =>
      .asking (.remembered ⟨.smbOverVpn, some host⟩) host
  | d, _ => decideWithTunnel s d true

def betterThan (current : Transport) : Phase :=
  if current.isBest || !s.policy.smb then .done (.better none)
  else .probe (.betterThan current) true

def anotherSmbConnection : Option Route → Phase
  | some ⟨.smbDirect, some host⟩ => .done (.reached (.direct host))
  | some ⟨.smbOverVpn, some host⟩ => .asking .beside host
  | _ => .done (.reached .unavailable)

/-- What the caller is told of a decision. The connection, where there is one,
goes with it. -/
def answer : Decider → Route → Answer
  | .route, r => .route r
  | .reachSmb, ⟨.smbDirect, some host⟩ => .reached (.direct host)
  | .reachSmb, ⟨.smbOverVpn, some host⟩ => .reached (.tunnelled host)
  | .reachSmb, _ => .reached .unavailable

/-- An open that worked. -/
def answered (host : String) : Way → Phase
  | .raised p => .opened p host
  | .remembered _ => .done (.reached (.tunnelled host))
  | .beside => .done (.reached (.tunnelled host))

/-- One that did not. -/
def unanswered (e : TunnelUnavailable) : Way → Phase
  | .raised p => .failing p e
  | .remembered cached => .failingRemembered cached e
  | .beside => .done (.failed e)

/-- What the log has of it. -/
def failureNote (now : ℕ) : Way → TunnelUnavailable → Note
  | _, .refused _ => .refused
  | .beside, .transient _ => .failedBeside now
  | _, .transient _ => .failed now

end Next

/-- The log has a `settle` or a `reconsider` from its call on. -/
def Chain.said (c : Chain) (n : ℕ) : Entry → Chain
  | .settle _ | .reconsider => c.note (.said n)
  | _ => c

inductive ChainEvent
  | tick
  | call (n : ℕ) (entry : Entry)
  | go (n : ℕ)
  | ask (n : ℕ)
  | probed (n : ℕ) (ok : Bool)
  | opened (n : ℕ)
  | failed (n : ℕ) (e : TunnelUnavailable)
  | clear (n : ℕ)
  | settle (n : ℕ)
  | lift (n : ℕ)
  | drop (n : ℕ)

/-- The steps of the calls, and the clock's. -/
inductive ChainStep (s : Setup) (c : Chain) : ChainEvent → Chain → Prop
  | tick : ChainStep s c .tick { c with now := c.now + 1 }
  | call {n entry} (hnew : c.calls n = none) :
      ChainStep s c (.call n entry) ((c.said n entry).setCall n (.called entry))
  | consult {n d} (hn : c.calls n = some (.called (.decide d))) :
      ChainStep s c (.go n) (c.setCall n (consult s d c.cached))
  | betterThan {n current} (hn : c.calls n = some (.called (.betterThan current))) :
      ChainStep s c (.go n) (c.setCall n (betterThan s current))
  | another {n} (hn : c.calls n = some (.called .anotherSmbConnection)) :
      ChainStep s c (.go n) (c.setCall n (anotherSmbConnection c.current))
  | settle {n route} (hn : c.calls n = some (.called (.settle route))) :
      ChainStep s c (.settle n)
        (((Chain.remember s c route).note (.heard n)).setCall n (.done .unit))
  | carriedNothing {n} (hn : c.calls n = some (.called .tunnelCarriedNothing)) :
      ChainStep s c (.go n)
        (((c.tunnelFailed (.transient "it opened, but carried no session")).note
          (.failed c.now)).setCall n (.done .unit))
  /-- `reconsider` clears one thing after another. -/
  | clearDecision {n} (hn : c.calls n = some (.called .reconsider)) :
      ChainStep s c (.go n) ({ c with decision := none }.setCall n .clearRefused)
  | clearRefused {n} (hn : c.calls n = some .clearRefused) :
      ChainStep s c (.go n)
        (({ c with refused := none }.note .refusalLifted).setCall n .clearFailed)
  | clearFailed {n} (hn : c.calls n = some .clearFailed) :
      ChainStep s c (.lift n)
        ((({ c with tunnelFailedAt := none }.note .quietLifted).note (.heard n)).setCall n
          (.done .unit))
  | probe {n p mayOpen} (hn : c.calls n = some (.probe p mayOpen)) :
      ChainStep s c (.go n) ((c.note (.judging n)).setCall n (.probing p mayOpen))
  | probed {n p mayOpen ok} (hn : c.calls n = some (.probing p mayOpen)) :
      ChainStep s c (.probed n ok) (c.setCall n (probed s p mayOpen ok))
  | wasRefused {n p inside} (hn : c.calls n = some (.checkRefused p inside))
      (hrefused : c.refused ≠ none) : ChainStep s c (.go n) (c.setCall n (notRaised s p))
  | notRefused {n p inside} (hn : c.calls n = some (.checkRefused p inside))
      (hrefused : c.refused = none) :
      ChainStep s c (.go n) (c.setCall n (.checkFailed p inside))
  | failedRecently {n p inside} (hn : c.calls n = some (.checkFailed p inside))
      (hfailed : c.FailedRecently s) : ChainStep s c (.go n) (c.setCall n (notRaised s p))
  | notFailed {n p inside} (hn : c.calls n = some (.checkFailed p inside))
      (hfailed : ¬c.FailedRecently s) :
      ChainStep s c (.go n) (c.setCall n (.asking (.raised p) inside))
  /-- `Tunnel::open` is called. -/
  | ask {n way host} (hn : c.calls n = some (.asking way host)) :
      ChainStep s c (.ask n)
        (((c.note (.judging n)).note (.asked c.now)).setCall n (.waiting way host))
  | opened {n way host} (hn : c.calls n = some (.waiting way host)) :
      ChainStep s c (.opened n) ((c.note .opened).setCall n (answered host way))
  | failed {n way host e} (hn : c.calls n = some (.waiting way host)) :
      ChainStep s c (.failed n e) ((c.note (failureNote c.now way e)).setCall n (unanswered e way))
  | clear {n p inside} (hn : c.calls n = some (.opened p inside)) :
      ChainStep s c (.clear n) ({ c with tunnelFailedAt := none }.setCall n (raised inside p))
  | write {n p e} (hn : c.calls n = some (.failing p e)) :
      ChainStep s c (.go n) ((c.tunnelFailed e).setCall n (notRaised s p))
  | writeRemembered {n cached e} (hn : c.calls n = some (.failingRemembered cached e)) :
      ChainStep s c (.go n) ((c.tunnelFailed e).setCall n (.forgetting cached))
  | forget {n cached} (hn : c.calls n = some (.forgetting cached)) :
      ChainStep s c (.go n) ((c.forget cached).setCall n (decideWithTunnel s .reachSmb false))
  | remember {n d route} (hn : c.calls n = some (.remembering d route)) :
      ChainStep s c (.go n)
        (((Chain.remember s c route).note (.remembered n)).setCall n (.done (answer d route)))
  | dropProbe {n p mayOpen} (hn : c.calls n = some (.probing p mayOpen)) :
      ChainStep s c (.drop n) (c.setCall n (.done .dropped))
  | dropOpen {n way host} (hn : c.calls n = some (.waiting way host)) :
      ChainStep s c (.drop n) (c.setCall n (.done .dropped))

end SynologyFilestation.Connect
