import SynologyFilestation.Connect.Reconsider

/-!
Which leg a mount is on (`Legs` in `fuse/src/legs.rs`), over the chain that decides
(`connect/src/lib.rs`) and the SMB transport that has the session (`adopt` and `session`
in `smb/src/transport.rs`). A move looks for a better leg, builds a session on it, swaps
it in under the transport's lock and then tells the chain; a redial, under the same lock
from its beginning to its end, asks the chain for a route and rebuilds the session on
what comes back (`reopen_through` in `fuse/src/lib.rs`).

Between two steps the other steps come in any order, the chain's own among them. A move or
a redial may be dropped where it waits.
-/

namespace SynologyFilestation.Fuse

open Function Library Connect

/-- A leg that carries SMB, and the server's name on it. -/
inductive Leg
  | direct (host : String)
  | tunnelled (host : String)
  deriving DecidableEq

namespace Leg

def transport : Leg → Transport
  | .direct _ => .smbDirect
  | .tunnelled _ => .smbOverVpn

def host : Leg → String
  | .direct host | .tunnelled host => host

/-- What the chain is told to remember of it. -/
def route (leg : Leg) : Route := ⟨leg.transport, some leg.host⟩

end Leg

def legOf : SmbRoute → Option Leg
  | .direct host => some (.direct host)
  | .tunnelled host => some (.tunnelled host)
  | .unavailable => none

inductive Redial
  /-- Flagged, and at the gate of logins. -/
  | gated
  /-- `reach_smb` is called. -/
  | asking (n : ℕ)
  /-- Building a session on a leg, of which it may have the stream. -/
  | building (leg : Leg)

inductive Move
  /-- `better_than` is called. -/
  | looking (n : ℕ)
  /-- `take`: the session is built beside the one in use. -/
  | taking (leg : Leg)
  /-- It is in use; what the old one had open is closed. -/
  | swapped (leg : Leg)
  /-- `settle` is called. -/
  | settling (n : ℕ) (leg : Leg)
  /-- `tunnel_carried_nothing` is called. -/
  | blaming (n : ℕ)

structure MountLegs where
  chain : Chain
  /-- The leg that the session's connection runs on. -/
  client : Option Leg
  /-- The transport's configuration names the server by it. -/
  host : String
  needs : Bool
  refused : Option String
  /-- The redial that has the transport's lock. -/
  redial : Option Redial
  moves : ℕ → Option Move

namespace MountLegs

/-- Attached without a session. -/
def unconnected (host : String) : MountLegs :=
  { chain := .new, client := none, host, needs := false, refused := none, redial := none,
    moves := fun _ => none }

def isLive (g : MountLegs) : Bool := g.client.isSome && !g.needs

/-- `Legs::current`. -/
def current (g : MountLegs) : Transport :=
  if g.isLive then
    match g.chain.current with
    | some r => r.transport
    | none => .https
  else .https

def setMove (g : MountLegs) (k : ℕ) (move : Option Move) : MountLegs :=
  { g with moves := update g.moves k move }

/-- A call of the chain begins. -/
def call (g : MountLegs) (n : ℕ) (entry : Entry) : MountLegs :=
  { g with chain := (g.chain.said n entry).setCall n (.called entry) }

/-- The caller is gone, and the call with it. -/
def dropCall (g : MountLegs) (n : ℕ) : MountLegs :=
  { g with chain := g.chain.setCall n (.done .dropped) }

/-- The redial failed: the link stays flagged. -/
def redialFailed (g : MountLegs) (refused : Option String) : MountLegs :=
  { g with redial := none, needs := true, refused := refused }

end MountLegs

/-- What the chain does by itself once it is called. -/
def ownStep : ChainEvent → Bool
  | .call .. | .drop _ => false
  | _ => true

inductive LegEvent
  | chain (e : ChainEvent)
  | another (n : ℕ)
  | lost
  | redial
  | consult (n : ℕ)
  | reached
  | redialFailed
  | landed
  | dropRedial
  | look (k : ℕ)
  | nothing (k : ℕ)
  | take (k : ℕ)
  | swap (k : ℕ)
  | takeFailed (k : ℕ)
  | settle (k : ℕ)
  | moved (k : ℕ)
  | dropMove (k : ℕ)

/-- The steps of the moves, of the redial, and of the chain that they call. A login may be
refused wherever a session is built. -/
inductive LegStep (s : Setup) (g : MountLegs) : LegEvent → MountLegs → Prop
  | chain {e c} (howns : ownStep e = true) (h : ChainStep s g.chain e c) :
      LegStep s g (.chain e) { g with chain := c }
  /-- One more connection to read over is opened. -/
  | another {n} (hnew : g.chain.calls n = none) :
      LegStep s g (.another n) (g.call n .anotherSmbConnection)
  /-- An operation finds the link dead. -/
  | lost {leg} (hclient : g.client = some leg) : LegStep s g .lost { g with needs := true }
  /-- An operation finds the link flagged, and takes the lock and the flag. -/
  | redial {leg} (hclient : g.client = some leg) (hneeds : g.needs = true)
      (hrefused : g.refused = none) (hfree : g.redial = none) :
      LegStep s g .redial { g with needs := false, redial := some .gated }
  | consult {n} (hredial : g.redial = some .gated) (hnew : g.chain.calls n = none) :
      LegStep s g (.consult n)
        ({ g with redial := some (.asking n) }.call n (.decide .reachSmb))
  | reached {n r leg} (hredial : g.redial = some (.asking n))
      (hn : g.chain.calls n = some (.done (.reached r))) (hleg : legOf r = some leg) :
      LegStep s g .reached { g with redial := some (.building leg) }
  /-- The gate turned it away. -/
  | turnedAway {refused} (hredial : g.redial = some .gated) :
      LegStep s g .redialFailed (g.redialFailed refused)
  /-- No leg reaches the NAS. -/
  | unreachable {n} (hredial : g.redial = some (.asking n))
      (hn : g.chain.calls n = some (.done .noTransport) ∨
        g.chain.calls n = some (.done (.reached .unavailable))) :
      LegStep s g .redialFailed (g.redialFailed g.refused)
  /-- The dial or the session on it failed. -/
  | redialFailed {leg refused} (hredial : g.redial = some (.building leg)) :
      LegStep s g .redialFailed (g.redialFailed refused)
  | landed {leg} (hredial : g.redial = some (.building leg)) :
      LegStep s g .landed { g with client := some leg, redial := none }
  | dropRedial {r} (hredial : g.redial = some r) (hnot : ∀ n, r ≠ .asking n) :
      LegStep s g .dropRedial { g with redial := none }
  | dropAsking {n} (hredial : g.redial = some (.asking n)) :
      LegStep s g .dropRedial ({ g with redial := none }.dropCall n)
  /-- `step`, of a transport whose login was not refused. -/
  | look {k n} (hnew : g.moves k = none) (hrefused : g.refused = none)
      (hn : g.chain.calls n = none) :
      LegStep s g (.look k) ((g.call n (.betterThan g.current)).setMove k (some (.looking n)))
  | nothing {k n a} (hk : g.moves k = some (.looking n))
      (hn : g.chain.calls n = some (.done (.better a))) (ha : a.bind legOf = none) :
      LegStep s g (.nothing k) (g.setMove k none)
  | take {k n r leg} (hk : g.moves k = some (.looking n))
      (hn : g.chain.calls n = some (.done (.better (some r)))) (hleg : legOf r = some leg) :
      LegStep s g (.take k) (g.setMove k (some (.taking leg)))
  /-- `adopt`, with the lock. -/
  | swap {k leg} (hk : g.moves k = some (.taking leg)) (hfree : g.redial = none) :
      LegStep s g (.swap k)
        ({ g with client := some leg, host := leg.host, needs := false }.setMove k
          (some (.swapped leg)))
  | takeFailed {k leg refused} (hk : g.moves k = some (.taking leg))
      (hquiet : refused ≠ none ∨ leg.transport ≠ .smbOverVpn) :
      LegStep s g (.takeFailed k) ({ g with refused := refused }.setMove k none)
  | blame {k leg n} (hk : g.moves k = some (.taking leg)) (hleg : leg.transport = .smbOverVpn)
      (hn : g.chain.calls n = none) :
      LegStep s g (.takeFailed k)
        ((g.call n .tunnelCarriedNothing).setMove k (some (.blaming n)))
  | settle {k leg n} (hk : g.moves k = some (.swapped leg)) (hn : g.chain.calls n = none) :
      LegStep s g (.settle k)
        ((g.call n (.settle leg.route)).setMove k (some (.settling n leg)))
  | settled {k n leg} (hk : g.moves k = some (.settling n leg))
      (hn : g.chain.calls n = some (.done .unit)) : LegStep s g (.moved k) (g.setMove k none)
  | blamed {k n} (hk : g.moves k = some (.blaming n))
      (hn : g.chain.calls n = some (.done .unit)) : LegStep s g (.moved k) (g.setMove k none)
  | dropLooking {k n} (hk : g.moves k = some (.looking n)) :
      LegStep s g (.dropMove k) ((g.dropCall n).setMove k none)
  | dropMove {k leg} (hk : g.moves k = some (.taking leg) ∨ g.moves k = some (.swapped leg)) :
      LegStep s g (.dropMove k) (g.setMove k none)

/-! ### What the chain does by itself -/

/-- The leg that a `reach_smb` comes back with from here, if the tunnel opens. -/
def promised : Phase → Option Leg
  | .asking (.remembered _) host | .waiting (.remembered _) host => some (.tunnelled host)
  | .done (.reached r) => legOf r
  | _ => none

def isCalled : Phase → Bool
  | .called _ => true
  | _ => false

/-- The call is not over, and is none that settles a route. -/
def goesOn : Phase → Bool
  | .called (.settle _) | .done _ => false
  | _ => true

/-- What comes next in a call: it goes on deciding, or is done, if it decides. -/
structure Follows (decided : Bool) (ph : Phase) : Prop where
  uncalled : ∀ entry, ph ≠ .called entry
  decides : ph.decides = true → decided = true
  keeps : decided = true → ph.decides = true ∨ ∃ a, ph = .done a

/-- A call goes from one phase to another. The decision is another one after it if the call
decides or settles, and what it promises is what is remembered then. -/
structure CallMoved (c c' : Chain) (ph ph' : Phase) : Prop where
  going : ∀ a, ph ≠ .done a
  follows : Follows ph.decides ph'
  decision : c'.decision = c.decision ∨ ph.decides = true ∨ ∃ r, ph = .called (.settle r)
  settles : ∀ r, ph = .called (.settle r) → c'.current = some r
  promised : ph.decides = true → ∀ leg, promised ph' = some leg →
    c'.current = some leg.route ∨ promised ph = some leg ∧ c'.decision = c.decision

section Chain

variable {s : Setup} {c c' : Chain} {e : ChainEvent} {n : ℕ} {ph ph' : Phase}

theorem current_of_cached {r : Route} (h : c.cached = some r) : c.current = some r := by
  unfold Chain.cached at h
  unfold Chain.current
  split at h
  · cases h
  · next d hd =>
    rw [hd]
    split at h
    · exact h
    · split at h
      · exact h
      · cases h

theorem promised_fallBack (d : Decider) : promised (fallBack s d) = none := by
  unfold fallBack
  split <;> rfl

theorem promised_decideWithTunnel (d : Decider) (mayOpen : Bool) :
    promised (decideWithTunnel s d mayOpen) = none := by
  unfold decideWithTunnel
  split
  · rfl
  · exact promised_fallBack d

/-- What is remembered is what a `reach_smb` begins with. -/
theorem promised_consult {d : Decider} {leg : Leg}
    (h : promised (consult s d c.cached) = some leg) : c.current = some leg.route := by
  cases hcached : c.cached with
  | none =>
      rw [hcached] at h
      cases d <;> exact nomatch (promised_decideWithTunnel ..).symm.trans h
  | some r =>
      rw [current_of_cached hcached]
      rw [hcached] at h
      obtain ⟨transport, host⟩ := r
      cases d with
      | route => cases h
      | reachSmb =>
          cases transport with
          | https => cases h
          | smbOverVpn =>
              cases host with
              | none => exact nomatch (promised_decideWithTunnel ..).symm.trans h
              | some host =>
                  cases h
                  rfl
          | smbDirect =>
              cases host with
              | none => exact nomatch (promised_decideWithTunnel ..).symm.trans h
              | some host =>
                  cases h
                  rfl

/-- What it tells of a decision is what it remembers. -/
theorem promised_answer {d : Decider} {route : Route} {leg : Leg}
    (h : promised (.done (answer d route)) = some leg) : route = leg.route := by
  obtain ⟨transport, host⟩ := route
  cases d with
  | route => cases h
  | reachSmb =>
      cases transport <;> cases host <;> cases h
      · rfl
      · rfl

theorem follows_done (a : Answer) (decided : Bool) : Follows decided (.done a) :=
  ⟨nofun, nofun, fun _ => .inr ⟨a, rfl⟩⟩

theorem follows_of_decides {decided : Bool} (hdecided : ph.decides = decided)
    (huncalled : isCalled ph = false) : Follows decided ph where
  uncalled := by
    rintro entry rfl
    cases huncalled
  decides h := hdecided ▸ h
  keeps h := .inl (hdecided ▸ h)

theorem follows_fallBack (d : Decider) : Follows true (fallBack s d) := by
  unfold fallBack
  split
  · exact follows_of_decides rfl rfl
  · exact follows_done _ _

theorem follows_decideWithTunnel (d : Decider) (mayOpen : Bool) :
    Follows true (decideWithTunnel s d mayOpen) := by
  unfold decideWithTunnel
  split
  · exact follows_of_decides rfl rfl
  · exact follows_fallBack d

theorem follows_notRaised (p : Purpose) : Follows p.decides (notRaised s p) := by
  cases p with
  | deciding d => exact follows_fallBack d
  | betterThan current => exact follows_done _ _

theorem follows_raised (p : Purpose) (inside : String) : Follows p.decides (raised inside p) := by
  cases p with
  | deciding d => exact follows_of_decides rfl rfl
  | betterThan current => exact follows_done _ _

theorem follows_raiseTunnel (p : Purpose) (inside : String) :
    Follows p.decides (raiseTunnel s p inside) := by
  unfold raiseTunnel
  split
  · exact follows_of_decides rfl rfl
  · exact follows_notRaised p

theorem follows_probed (p : Purpose) (mayOpen ok : Bool) :
    Follows p.decides (probed s p mayOpen ok) := by
  cases p with
  | deciding d =>
      cases ok with
      | true => exact follows_of_decides rfl rfl
      | false =>
          simp only [probed]
          split
          · exact follows_raiseTunnel ..
          · exact follows_fallBack d
  | betterThan current =>
      cases ok with
      | true => exact follows_done _ _
      | false =>
          simp only [probed]
          split
          · exact follows_done _ _
          · split
            · exact follows_done _ _
            · exact follows_raiseTunnel ..

theorem follows_answered (way : Way) (host : String) : Follows way.decides (answered host way) := by
  cases way with
  | raised p => exact follows_of_decides rfl rfl
  | remembered cached | beside => exact follows_done _ _

theorem follows_unanswered (way : Way) (e : TunnelUnavailable) :
    Follows way.decides (unanswered e way) := by
  cases way with
  | raised p | remembered cached => exact follows_of_decides rfl rfl
  | beside => exact follows_done _ _

theorem follows_consult (d : Decider) (r : Option Route) : Follows true (consult s d r) := by
  unfold consult
  split
  · exact follows_done _ _
  · exact follows_done _ _
  · exact follows_done _ _
  · exact follows_of_decides rfl rfl
  · exact follows_decideWithTunnel ..

theorem follows_betterThan (current : Transport) : Follows false (betterThan s current) := by
  unfold betterThan
  split
  · exact follows_done _ _
  · exact follows_of_decides rfl rfl

theorem follows_anotherSmbConnection (r : Option Route) :
    Follows false (anotherSmbConnection r) := by
  unfold anotherSmbConnection
  split
  · exact follows_done _ _
  · exact follows_of_decides rfl rfl
  · exact follows_done _ _

/-! A call that decides promises nothing while it finds out. -/

theorem promised_notRaised {p : Purpose} (hp : p.decides = true) :
    promised (notRaised s p) = none := by
  cases p with
  | deciding d => exact promised_fallBack d
  | betterThan current => cases hp

theorem promised_raised {p : Purpose} {inside : String} (hp : p.decides = true) :
    promised (raised inside p) = none := by
  cases p with
  | deciding d => rfl
  | betterThan current => cases hp

theorem promised_raiseTunnel {p : Purpose} {inside : String} (hp : p.decides = true) :
    promised (raiseTunnel s p inside) = none := by
  unfold raiseTunnel
  split
  · rfl
  · exact promised_notRaised hp

theorem promised_probed {p : Purpose} {mayOpen ok : Bool} (hp : p.decides = true) :
    promised (probed s p mayOpen ok) = none := by
  cases p with
  | betterThan current => cases hp
  | deciding d =>
      cases ok with
      | true => rfl
      | false =>
          simp only [probed]
          split
          · exact promised_raiseTunnel rfl
          · exact promised_fallBack d

theorem callMoved_of_goesOn (hgoing : goesOn ph = true) (hfollows : Follows ph.decides ph')
    (hdecision : c'.decision = c.decision ∨ ph.decides = true)
    (hpromised : ph.decides = true → ∀ leg, promised ph' = some leg →
      c'.current = some leg.route ∨ promised ph = some leg ∧ c'.decision = c.decision) :
    CallMoved c c' ph ph' where
  going := by
    rintro a rfl
    cases hgoing
  follows := hfollows
  decision := hdecision.imp_right .inl
  settles := by
    rintro r rfl
    cases hgoing
  promised := hpromised

/-- A phase that promises nothing has no more to say of the decision. -/
theorem callMoved_of_same (hgoing : goesOn ph = true) (hfollows : Follows ph.decides ph')
    (hdecision : c'.decision = c.decision)
    (hpromised : ph.decides = true → ∀ leg, promised ph' = some leg → promised ph = some leg) :
    CallMoved c c' ph ph' :=
  callMoved_of_goesOn hgoing hfollows (.inl hdecision) fun hdecides leg hleg =>
    .inr ⟨hpromised hdecides leg hleg, hdecision⟩

/-- Nor has one of a call that does not decide. -/
theorem callMoved_of_undecided (hgoing : goesOn ph = true) (hdecides : ph.decides = false)
    (hfollows : Follows ph.decides ph') (hdecision : c'.decision = c.decision) :
    CallMoved c c' ph ph' := by
  refine callMoved_of_same hgoing hfollows hdecision fun hdecided => ?_
  rw [hdecides] at hdecided
  cases hdecided

theorem tunnelFailed_decision (c : Chain) (e : TunnelUnavailable) :
    (c.tunnelFailed e).decision = c.decision := by
  cases e <;> rfl

/-- One call moves by a step of the chain's own, if any does. -/
theorem moved_of_step (h : ChainStep s c e c') (howns : ownStep e = true)
    (hno : ∀ n, c.calls n ≠ some (.called .reconsider)) :
    (c'.calls = c.calls ∧ c'.decision = c.decision) ∨ ∃ n ph ph', c.calls n = some ph ∧
      c'.calls = update c.calls n (some ph') ∧ CallMoved c c' ph ph' := by
  have hnone {ph ph' : Phase} (hph' : promised ph' = none) (leg : Leg)
      (hleg : promised ph' = some leg) : promised ph = some leg := by
    rw [hph'] at hleg
    cases hleg
  cases h with
  | tick => exact .inl ⟨rfl, rfl⟩
  | call => cases howns
  | dropProbe | dropOpen => cases howns
  | @clearDecision n hn => exact (hno n hn).elim
  | @consult n d hn =>
      refine .inr ⟨n, _, _, hn, rfl,
        callMoved_of_goesOn rfl (follows_consult d _) (.inl rfl) fun _ leg hleg => ?_⟩
      exact .inl (promised_consult hleg)
  | @betterThan n current hn =>
      exact .inr ⟨n, _, _, hn, rfl, callMoved_of_undecided rfl rfl (follows_betterThan _) rfl⟩
  | @another n hn =>
      exact .inr ⟨n, _, _, hn, rfl,
        callMoved_of_undecided rfl rfl (follows_anotherSmbConnection _) rfl⟩
  | @settle n route hn =>
      refine .inr ⟨n, _, _, hn, rfl, by rintro _ ⟨⟩, follows_done _ _, .inr (.inr ⟨route, rfl⟩), ?_,
        by rintro ⟨⟩⟩
      rintro _ ⟨⟩
      rfl
  | @carriedNothing n hn =>
      exact .inr ⟨n, _, _, hn, rfl, callMoved_of_undecided rfl rfl (follows_done _ _) rfl⟩
  | @clearRefused n hn =>
      exact .inr ⟨n, _, _, hn, rfl,
        callMoved_of_undecided rfl rfl (follows_of_decides rfl rfl) rfl⟩
  | @clearFailed n hn =>
      exact .inr ⟨n, _, _, hn, rfl, callMoved_of_undecided rfl rfl (follows_done _ _) rfl⟩
  | @probe n p mayOpen hn =>
      exact .inr ⟨n, _, _, hn, rfl,
        callMoved_of_same rfl (follows_of_decides rfl rfl) rfl fun _ => hnone rfl⟩
  | @probed n p mayOpen ok hn =>
      exact .inr ⟨n, _, _, hn, rfl, callMoved_of_same rfl (follows_probed ..) rfl
        fun hp => hnone (promised_probed hp)⟩
  | @wasRefused n p inside hn =>
      exact .inr ⟨n, _, _, hn, rfl, callMoved_of_same rfl (follows_notRaised p) rfl
        fun hp => hnone (promised_notRaised hp)⟩
  | @notRefused n p inside hn =>
      exact .inr ⟨n, _, _, hn, rfl,
        callMoved_of_same rfl (follows_of_decides rfl rfl) rfl fun _ => hnone rfl⟩
  | @failedRecently n p inside hn =>
      exact .inr ⟨n, _, _, hn, rfl, callMoved_of_same rfl (follows_notRaised p) rfl
        fun hp => hnone (promised_notRaised hp)⟩
  | @notFailed n p inside hn =>
      exact .inr ⟨n, _, _, hn, rfl,
        callMoved_of_same rfl (follows_of_decides rfl rfl) rfl fun _ => hnone rfl⟩
  | @ask n way host hn =>
      refine .inr ⟨n, _, _, hn, rfl,
        callMoved_of_same rfl (follows_of_decides rfl rfl) rfl fun _ leg hleg => ?_⟩
      cases way <;> exact hleg
  | @opened n way host hn =>
      refine .inr ⟨n, _, _, hn, rfl,
        callMoved_of_same rfl (follows_answered way host) rfl fun hdecides leg hleg => ?_⟩
      cases way with
      | raised p => cases hleg
      | remembered cached => exact hleg
      | beside => cases hdecides
  | @failed n way host e hn =>
      refine .inr ⟨n, _, _, hn, rfl,
        callMoved_of_same rfl (follows_unanswered way e) rfl fun hdecides leg hleg => ?_⟩
      cases way with
      | raised p | remembered cached => cases hleg
      | beside => cases hdecides
  | @clear n p inside hn =>
      exact .inr ⟨n, _, _, hn, rfl, callMoved_of_same rfl (follows_raised p inside) rfl
        fun hp => hnone (promised_raised hp)⟩
  | @write n p e hn =>
      refine .inr ⟨n, _, notRaised s p, hn, ?_,
        callMoved_of_same rfl (follows_notRaised p) ?_
        fun hp => hnone (promised_notRaised hp)⟩
      · simp [Chain.setCall]
      · exact tunnelFailed_decision c e
  | @writeRemembered n cached e hn =>
      refine .inr ⟨n, _, .forgetting cached, hn, ?_,
        callMoved_of_same rfl (follows_of_decides rfl rfl) ?_ fun _ => hnone rfl⟩
      · simp [Chain.setCall]
      · exact tunnelFailed_decision c e
  | @forget n cached hn =>
      refine .inr ⟨n, _, decideWithTunnel s .reachSmb false, hn, ?_,
        callMoved_of_goesOn rfl (follows_decideWithTunnel ..) (.inr rfl) fun _ leg hleg => ?_⟩
      · simp [Chain.setCall]
      · rw [promised_decideWithTunnel] at hleg
        cases hleg
  | @remember n d route hn =>
      refine .inr ⟨n, _, _, hn, rfl,
        callMoved_of_goesOn rfl (follows_done _ _) (.inr rfl) fun _ leg hleg => ?_⟩
      rw [← promised_answer hleg]
      exact .inl rfl

end Chain

end SynologyFilestation.Fuse
