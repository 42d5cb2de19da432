import Mathlib.Order.Interval.Finset.Nat
import SynologyFilestation.Core.Path
import SynologyFilestation.Library.Rotation
import SynologyFilestation.Library.Table
import SynologyFilestation.Library.Transition

/-!
The connections that share a tunnel, and their ports (`openvpn/src/mux.rs`).

A connection has a port while its route is in the table. The route goes when its stack has gone,
which is seen when another port is claimed or a packet comes for it, or when the connection was not
made, and then it is by the port that the route is looked up.
-/

namespace SynologyFilestation.Openvpn

open Core Library
open Function (update update_self update_of_ne)

/-! ### Ports -/

/-- `FIRST_PORT`. -/
def firstPort : ℕ := 49152

/-- `PORTS`. -/
def ports : ℕ := 16000

/-- `PortCursor`. All that it adds up to is less than 2 ^ 16. -/
structure PortCursor where
  port : ℕ
  first_le : firstPort ≤ port
  lt_last : port < firstPort + ports

namespace PortCursor

def new (random : ℕ) : PortCursor where
  port := firstPort + random % ports
  first_le := Nat.le_add_right ..
  lt_last := Nat.add_lt_add_left (Nat.mod_lt _ (by decide)) _

/-- Where `take` leaves the cursor. -/
def next (cursor : PortCursor) : PortCursor :=
  if h : firstPort + ports - 1 ≤ cursor.port then ⟨firstPort, Nat.le_refl _, by decide⟩
  else ⟨cursor.port + 1, Nat.le_succ_of_le cursor.first_le, by omega⟩

end PortCursor

/-- The port of the cursor at each turn. -/
def portAt (start turn : ℕ) : ℕ := firstPort + rotation ports start turn

/-- `destination_port`. -/
def destinationPort (packet : Bytes) : Option ℕ := do
  let first : UInt8 ← packet[0]?
  if first >>> 4 ≠ 4 then none
  else
    let header := (first &&& 0x0f).toNat * 4
    if header < 20 ∨ packet.length < header + 4 ∨ packet[9]? ≠ some 6 then none
    else
      let word (i : ℕ) := (packet[i]?.getD 0).toNat * 256 + (packet[i + 1]?.getD 0).toNat
      if word 6 &&& 0x1fff ≠ 0 then none else some (word (header + 2))

/-! ### The connections -/

/-- How far `connect` is with a connection. -/
inductive ConnectStage
  | connecting
  | up
  | failed
  deriving DecidableEq

/-- A connection: its port, and the channel that its route leads to. At which turn of the cursor
it was given the port is not in the source. -/
structure SharedConnection where
  port : ℕ
  turn : ℕ
  stage : ConnectStage
  /-- Its stack has gone, and with it the receiver. -/
  isClosed : Bool
  queue : List Bytes
  deriving DecidableEq

/-- The stack runs, and nobody has been told that the connection was not made. -/
def SharedConnection.isLive (conn : SharedConnection) : Bool :=
  !conn.isClosed && conn.stage ≠ .failed

/-- `Shared`, with the connections that were ever made. The ports that the cursor has given, which
were handed out or passed over, are not in the source. -/
structure Mux where
  cursor : PortCursor
  /-- The connection that a port leads to. -/
  routes : ℕ → Option ℕ
  conns : List SharedConnection
  /-- `demux` is there. -/
  isRunning : Bool
  taken : List ℕ

inductive MuxEvent
  | claim
  | connected (c : ℕ)
  /-- The stack of a connection goes. -/
  | ended (c : ℕ)
  /-- `connect` did not make the connection. -/
  | cleanup (c : ℕ)
  | packet (bytes : Bytes)
  /-- A stack takes a packet. -/
  | read (c : ℕ)
  | linkEnded

namespace Mux

/-- `QUEUE_DEPTH`. -/
def queueDepth : ℕ := 64

def new (random : ℕ) : Mux where
  cursor := .new random
  routes _ := none
  conns := []
  isRunning := true
  taken := []

/-- The loop of `claim_port`, in so many turns at most: the ports that it passes over, and the
cursor at a port that is vacant. -/
def findVacant (routes : ℕ → Option ℕ) : ℕ → PortCursor → Option (List ℕ × PortCursor)
  | 0, _ => none
  | turns + 1, cursor =>
      if routes cursor.port = none then some ([], cursor)
      else (findVacant routes turns cursor.next).map fun (passed, vacant) =>
        (cursor.port :: passed, vacant)

variable (s : Mux)

/-- The sender for this connection is not closed. -/
def isOpen (c : ℕ) : Bool :=
  match s.conns[c]? with
  | some conn => !conn.isClosed
  | none => false

/-- `retain`. -/
def retained : ℕ → Option ℕ := fun port => (s.routes port).filter s.isOpen

/-- `claim_port`. -/
def claimPort (turns : ℕ) : Option Mux :=
  (findVacant s.retained turns s.cursor).map fun (passed, vacant) => { s with
    cursor := vacant.next
    routes := update s.retained vacant.port (some s.conns.length)
    conns := s.conns ++ [{
      port := vacant.port
      turn := s.taken.length + passed.length
      stage := .connecting
      isClosed := false
      queue := [] }]
    taken := s.taken ++ passed ++ [vacant.port] }

def withConn (c : ℕ) (conn : SharedConnection) : Mux := { s with conns := s.conns.set c conn }

/-- What `connect` does about a connection that was not made. -/
def cleanup (c : ℕ) (conn : SharedConnection) : Mux :=
  { s.withConn c { conn with stage := .failed } with routes := update s.routes conn.port none }

/-- `demux`, with one packet. -/
def demux (packet : Bytes) : Mux :=
  match destinationPort packet with
  | none => s
  | some port =>
      match s.routes port with
      | none => s
      | some c =>
          match s.conns[c]? with
          | none => s
          | some conn =>
              if conn.isClosed then { s with routes := update s.routes port none }
              else if conn.queue.length < queueDepth then
                s.withConn c { conn with queue := conn.queue ++ [packet] }
              else s

inductive Step : Mux → MuxEvent → Mux → Prop
  | claim {s t : Mux} {turns : ℕ} (h : s.claimPort turns = some t) : Step s .claim t
  | connected {s : Mux} {c : ℕ} {conn : SharedConnection} (h : s.conns[c]? = some conn)
      (hstage : conn.stage = .connecting) :
      Step s (.connected c) (s.withConn c { conn with stage := .up })
  | ended {s : Mux} {c : ℕ} {conn : SharedConnection} (h : s.conns[c]? = some conn) :
      Step s (.ended c) (s.withConn c { conn with isClosed := true, queue := [] })
  | cleanup {s : Mux} {c : ℕ} {conn : SharedConnection} (h : s.conns[c]? = some conn)
      (hstage : conn.stage = .connecting) : Step s (.cleanup c) (s.cleanup c conn)
  | packet {s : Mux} {bytes : Bytes} (hrunning : s.isRunning = true) :
      Step s (.packet bytes) (s.demux bytes)
  | read {s : Mux} {c : ℕ} {conn : SharedConnection} (h : s.conns[c]? = some conn) :
      Step s (.read c) (s.withConn c { conn with queue := conn.queue.tail })
  | linkEnded {s : Mux} : Step s .linkEnded { s with routes := fun _ => none, isRunning := false }

/-- The ports of the connections that are there. -/
def livePorts : Finset ℕ :=
  ((s.conns.filter SharedConnection.isLive).map SharedConnection.port).toFinset

/-- Of the ports one is free when another is claimed, and the cursor has not gone round between a
claim and its cleanup. -/
def Spaced (s : Mux) : MuxEvent → Prop
  | .claim => s.livePorts.card < ports
  | .cleanup c => ∀ conn, s.conns[c]? = some conn → s.taken.length - (conn.turn + 1) < ports
  | _ => True

/-- The connection is live, and the port is its own. -/
def Owns (c port : ℕ) : Prop :=
  ∃ conn, s.conns[c]? = some conn ∧ conn.isLive = true ∧ conn.port = port

variable {s} {t : Mux} {start c d port turn : ℕ} {conn other : SharedConnection}

/-! ### The cursor -/

theorem portAt_range (start turn : ℕ) :
    firstPort ≤ portAt start turn ∧ portAt start turn < firstPort + ports :=
  ⟨Nat.le_add_right .., Nat.add_lt_add_left (rotation_lt (by decide) turn) _⟩

theorem exists_portAt_eq (start turn : ℕ) (hfirst : firstPort ≤ port)
    (hlast : port < firstPort + ports) : ∃ i < ports, portAt start (turn + i) = port := by
  have hplace : port - firstPort < ports := by omega
  obtain ⟨i, hi, heq⟩ := exists_rotation_eq start turn hplace
  exact ⟨i, hi, by rw [portAt, heq]; omega⟩

theorem round_of_portAt_eq {i j : ℕ} (h : portAt start i = portAt start j) (hlt : i < j) :
    i + ports ≤ j :=
  round_of_rotation_eq (Nat.add_left_cancel h) hlt

theorem next_portAt {cursor : PortCursor} (h : cursor.port = portAt start turn) :
    cursor.next.port = portAt start (turn + 1) := by
  rw [portAt, rotation_succ]
  have hplace : rotation ports start turn < ports := rotation_lt (by decide) turn
  have hport : cursor.port = firstPort + rotation ports start turn := h
  have hpos : 0 < ports := by decide
  unfold PortCursor.next
  split
  case isTrue hlast =>
    have hround : rotation ports start turn + 1 = ports := by omega
    rw [hround, Nat.mod_self]
    rfl
  case isFalse hlast =>
    have hless : rotation ports start turn + 1 < ports := by omega
    rw [Nat.mod_eq_of_lt hless]
    dsimp only
    omega

/-- The ports that the cursor gave from this turn on. -/
def Given (start turn : ℕ) (given : List ℕ) : Prop :=
  ∀ i port, given[i]? = some port → port = portAt start (turn + i)

theorem Given.append {given more : List ℕ} (h : Given start turn given)
    (hmore : Given start (turn + given.length) more) : Given start turn (given ++ more) := by
  intro i port hi
  rcases Nat.lt_or_ge i given.length with hlt | hge
  · rw [List.getElem?_append_left hlt] at hi
    exact h i port hi
  · rw [List.getElem?_append_right hge] at hi
    rw [hmore _ port hi]
    congr 1
    omega

theorem Given.cons {given : List ℕ} (h : Given start (turn + 1) given) :
    Given start turn (portAt start turn :: given) := by
  intro i port hi
  cases i with
  | zero => exact (Option.some.inj hi).symm
  | succ i =>
      rw [h i port hi]
      congr 1
      omega

/-- What the loop of `claim_port` finds, if it ends. -/
theorem findVacant_spec {routes : ℕ → Option ℕ} {turns : ℕ} {cursor vacant : PortCursor}
    {passed : List ℕ} (hcursor : cursor.port = portAt start turn)
    (h : findVacant routes turns cursor = some (passed, vacant)) :
    Given start turn passed ∧ vacant.port = portAt start (turn + passed.length) ∧
      routes vacant.port = none := by
  induction turns generalizing cursor turn passed with
  | zero => cases h
  | succ turns ih =>
      rw [findVacant] at h
      split at h
      case isTrue hvacant =>
        cases h
        exact ⟨nofun, hcursor, hvacant⟩
      case isFalse =>
        obtain ⟨⟨behind, found⟩, hfound, heq⟩ := Option.map_eq_some_iff.mp h
        cases heq
        obtain ⟨hgiven, hport, hvacant⟩ := ih (next_portAt hcursor) hfound
        refine ⟨hcursor ▸ hgiven.cons, ?_, hvacant⟩
        rw [hport, List.length_cons]
        congr 1
        omega

/-- It ends when it comes to a vacant port. -/
theorem findVacant_isSome {routes : ℕ → Option ℕ} {turns i : ℕ} {cursor : PortCursor}
    (hcursor : cursor.port = portAt start turn) (hi : i < turns)
    (hvacant : routes (portAt start (turn + i)) = none) :
    ∃ found, findVacant routes turns cursor = some found := by
  induction turns generalizing cursor turn i with
  | zero => cases hi
  | succ turns ih =>
      rw [findVacant]
      split
      case isTrue => exact ⟨_, rfl⟩
      case isFalse htaken =>
        cases i with
        | zero => exact absurd (hcursor ▸ hvacant) htaken
        | succ i =>
            have hbehind : routes (portAt start (turn + 1 + i)) = none := by
              rw [← hvacant]
              congr 2
              omega
            obtain ⟨found, hfound⟩ :=
              ih (next_portAt hcursor) (Nat.lt_of_succ_lt_succ hi) hbehind
            exact ⟨_, Option.map_eq_some_iff.mpr ⟨found, hfound, rfl⟩⟩

/-! ### The routes -/

/-- What holds in every state. A route leads to the connection that was given the port last, and
while the link runs there is one to each connection that is live. -/
structure Sound (start : ℕ) (s : Mux) : Prop where
  given : Given start 0 s.taken
  cursor : s.cursor.port = portAt start s.taken.length
  turns : ∀ (c : ℕ) (conn : SharedConnection), s.conns[c]? = some conn →
    conn.turn < s.taken.length ∧ conn.port = portAt start conn.turn
  distinct : ∀ (c d : ℕ) (conn other : SharedConnection), s.conns[c]? = some conn →
    s.conns[d]? = some other → conn.turn = other.turn → c = d
  routed : ∀ port c, s.routes port = some c → ∃ conn : SharedConnection, s.conns[c]? = some conn ∧
    conn.port = port ∧ conn.stage ≠ .failed ∧
      ∀ (d : ℕ) (other : SharedConnection), s.conns[d]? = some other → other.port = port →
        other.turn ≤ conn.turn
  live : s.isRunning = true → ∀ (c : ℕ) (conn : SharedConnection), s.conns[c]? = some conn →
    conn.isLive = true → s.routes conn.port = some c

theorem sound_new (random : ℕ) : (new random).Sound random where
  given := nofun
  cursor := rfl
  turns := nofun
  distinct := nofun
  routed := nofun
  live := nofun

theorem withConn_self (h : s.conns[c]? = some conn) :
    (s.withConn c other).conns[c]? = some other := by
  have hlt : c < s.conns.length := (List.getElem?_eq_some_iff.mp h).1
  exact List.getElem?_set_self hlt

theorem withConn_of_ne (hne : d ≠ c) : (s.withConn c other).conns[d]? = s.conns[d]? :=
  List.getElem?_set_ne hne.symm

/-- Each connection is as it was, but for the one that is written. -/
theorem withConn_cases {x : SharedConnection} (h : s.conns[c]? = some conn)
    (hd : (s.withConn c other).conns[d]? = some x) :
    d = c ∧ x = other ∨ d ≠ c ∧ s.conns[d]? = some x := by
  rcases eq_or_ne d c with rfl | hne
  · exact .inl ⟨rfl, Option.some.inj (hd.symm.trans (withConn_self h))⟩
  · exact .inr ⟨hne, (withConn_of_ne hne).symm.trans hd⟩

/-- A connection that changes keeps its port, and does not come back. -/
structure Keeps (conn other : SharedConnection) : Prop where
  port : other.port = conn.port
  turn : other.turn = conn.turn
  live : other.isLive = true → conn.isLive = true

/-- What was said of the connections before. -/
theorem Keeps.exists_before {x : SharedConnection} (hkeeps : Keeps conn other)
    (h : s.conns[c]? = some conn) (hd : (s.withConn c other).conns[d]? = some x) :
    ∃ y, s.conns[d]? = some y ∧ Keeps y x := by
  rcases withConn_cases h hd with ⟨rfl, rfl⟩ | ⟨-, hd⟩
  · exact ⟨conn, h, hkeeps⟩
  · exact ⟨x, hd, rfl, rfl, id⟩

/-- A connection changes, and of the routes there are at most fewer. -/
theorem Sound.withConn_routes {routes : ℕ → Option ℕ} (h : s.Sound start)
    (hc : s.conns[c]? = some conn) (hkeeps : Keeps conn other)
    (hfewer : ∀ port d, routes port = some d → s.routes port = some d)
    (hfailed : conn.stage ≠ .failed → other.stage = .failed → routes conn.port ≠ some c)
    (hlive : s.isRunning = true → ∀ (d : ℕ) (x : SharedConnection), x.isLive = true →
      (s.withConn c other).conns[d]? = some x → s.routes x.port = some d →
        routes x.port = some d) :
    Sound start { s.withConn c other with routes := routes } where
  given := h.given
  cursor := h.cursor
  turns d x hd := by
    obtain ⟨y, hy, hsame⟩ := hkeeps.exists_before hc hd
    rw [hsame.turn, hsame.port]
    exact h.turns d y hy
  distinct d e x x' hd he heq := by
    obtain ⟨y, hy, hsame⟩ := hkeeps.exists_before hc hd
    obtain ⟨y', hy', hsame'⟩ := hkeeps.exists_before hc he
    rw [hsame.turn, hsame'.turn] at heq
    exact h.distinct d e y y' hy hy' heq
  routed port d hroute := by
    obtain ⟨x, hx, rfl, hstage, hlast⟩ := h.routed port d (hfewer port d hroute)
    have hlater (turn : ℕ) (hturn : turn = x.turn) (e : ℕ) (x' : SharedConnection)
        (he : (s.withConn c other).conns[e]? = some x') (heq : x'.port = x.port) :
        x'.turn ≤ turn := by
      obtain ⟨y, hy, hsame⟩ := hkeeps.exists_before hc he
      rw [hsame.turn, hturn]
      exact hlast e y hy (hsame.port ▸ heq)
    rcases eq_or_ne d c with rfl | hne
    · obtain rfl := Option.some.inj (hc.symm.trans hx)
      exact ⟨other, withConn_self hc, hkeeps.port, fun hother => hfailed hstage hother hroute,
        hlater _ hkeeps.turn⟩
    · exact ⟨x, (withConn_of_ne hne).trans hx, rfl, hstage, hlater _ rfl⟩
  live hrunning d x hd hxlive := by
    refine hlive hrunning d x hxlive hd ?_
    obtain ⟨y, hy, hsame⟩ := hkeeps.exists_before hc hd
    rw [hsame.port]
    exact h.live hrunning d y hy (hsame.live hxlive)

theorem Sound.withConn (h : s.Sound start) (hc : s.conns[c]? = some conn)
    (hkeeps : Keeps conn other) (hfailed : conn.stage ≠ .failed → other.stage ≠ .failed) :
    (s.withConn c other).Sound start :=
  h.withConn_routes hc hkeeps (fun _ _ => id)
    (fun hstage hother => absurd hother (hfailed hstage)) fun _ _ _ _ _ => id

/-- A route goes that leads to no connection that is live. -/
theorem Sound.unroute (h : s.Sound start) (hdead : s.isRunning = true →
      ∀ (d : ℕ) (x : SharedConnection), s.conns[d]? = some x → x.isLive = true → x.port ≠ port) :
    Sound start { s with routes := update s.routes port none } where
  given := h.given
  cursor := h.cursor
  turns := h.turns
  distinct := h.distinct
  routed p d hroute := h.routed p d (update_none_eq_some hroute).2
  live hrunning d x hd hlive :=
    (update_of_ne (hdead hrunning d x hd hlive) ..).trans (h.live hrunning d x hd hlive)

/-- The route of a port leads to the connection that was given it, unless the cursor has come to
that port again. -/
theorem Sound.route_eq (h : s.Sound start) (hc : s.conns[c]? = some conn)
    (hspaced : s.taken.length - (conn.turn + 1) < ports)
    (hroute : s.routes conn.port = some d) : d = c := by
  obtain ⟨other, hd, hport, -, hlast⟩ := h.routed _ d hroute
  obtain ⟨hturn, hat⟩ := h.turns d other hd
  have hle : conn.turn ≤ other.turn := hlast c conn hc rfl
  rcases Nat.eq_or_lt_of_le hle with heq | hlt
  · exact h.distinct d c other conn hd hc heq.symm
  · have hsame : portAt start conn.turn = portAt start other.turn := by
      rw [← hat, hport, (h.turns c conn hc).2]
    have hround := round_of_portAt_eq hsame hlt
    omega

theorem Sound.cleanup (h : s.Sound start) (hc : s.conns[c]? = some conn)
    (hspaced : s.taken.length - (conn.turn + 1) < ports) : (s.cleanup c conn).Sound start := by
  have hkeeps : Keeps conn { conn with stage := .failed } :=
    ⟨rfl, rfl, fun hlive => by simp [SharedConnection.isLive] at hlive⟩
  refine h.withConn_routes hc hkeeps ?_ ?_ ?_
  · exact fun port d hroute => (update_none_eq_some hroute).2
  · intro _ _ hroute
    rw [update_self] at hroute
    cases hroute
  · intro _ d x hlive hd hroute
    rcases withConn_cases hc hd with ⟨-, rfl⟩ | ⟨hne, -⟩
    · simp [SharedConnection.isLive] at hlive
    · refine (update_of_ne (fun hport => hne ?_) ..).trans hroute
      exact h.route_eq hc hspaced (hport ▸ hroute)

theorem Sound.eq_of_owns (h : s.Sound start) (hrunning : s.isRunning = true)
    (hc : s.Owns c port) (hd : s.Owns d port) : c = d := by
  obtain ⟨conn, hc, hlive, rfl⟩ := hc
  obtain ⟨other, hd, hlive', hport⟩ := hd
  have hroute := h.live hrunning d other hd hlive'
  rw [hport, h.live hrunning c conn hc hlive] at hroute
  exact Option.some.inj hroute

/-! ### Claims -/

/-- A route that is retained is there, and its connection is not closed. -/
theorem retained_eq_some (h : s.retained port = some c) :
    s.routes port = some c ∧ s.isOpen c = true := by
  obtain ⟨hroute, hopen⟩ := Option.filter_eq_some_iff.mp h
  exact ⟨hroute, hopen⟩

theorem retained_of_isLive (hroute : s.routes port = some c) (hc : s.conns[c]? = some conn)
    (hlive : conn.isLive = true) : s.retained port = some c := by
  have hopen : s.isOpen c = true := by
    rw [isOpen, hc]
    exact ((Bool.and_eq_true ..).mp hlive).1
  exact Option.filter_eq_some_iff.mpr ⟨hroute, hopen⟩

theorem mem_livePorts : port ∈ s.livePorts ↔ ∃ c, s.Owns c port := by
  simp only [livePorts, List.mem_toFinset, List.mem_map, List.mem_filter]
  constructor
  · rintro ⟨conn, ⟨hmem, hlive⟩, hport⟩
    obtain ⟨c, hc⟩ := List.mem_iff_getElem?.mp hmem
    exact ⟨c, conn, hc, hlive, hport⟩
  · rintro ⟨c, conn, hc, hlive, hport⟩
    exact ⟨conn, ⟨List.mem_of_getElem? hc, hlive⟩, hport⟩

/-- What is retained is of live connections. -/
theorem Sound.mem_livePorts (h : s.Sound start) (hroute : s.retained port = some c) :
    port ∈ s.livePorts := by
  obtain ⟨hroute, hopen⟩ := retained_eq_some hroute
  obtain ⟨conn, hc, hport, hstage, -⟩ := h.routed port c hroute
  refine Mux.mem_livePorts.mpr ⟨c, conn, hc, ?_, hport⟩
  have hclosed : (!conn.isClosed) = true := by
    rw [isOpen, hc] at hopen
    exact hopen
  rw [SharedConnection.isLive, hclosed, Bool.true_and]
  exact decide_eq_true hstage

/-- A claim that ends. -/
structure Claims (start : ℕ) (s t : Mux) (passed : List ℕ) (vacant : PortCursor) : Prop where
  given : Given start s.taken.length passed
  port : vacant.port = portAt start (s.taken.length + passed.length)
  free : s.retained vacant.port = none
  cursor : t.cursor = vacant.next
  routes : t.routes = update s.retained vacant.port (some s.conns.length)
  conns : t.conns = s.conns ++
    [⟨vacant.port, s.taken.length + passed.length, .connecting, false, []⟩]
  isRunning : t.isRunning = s.isRunning
  taken : t.taken = s.taken ++ passed ++ [vacant.port]

theorem Sound.claims (h : s.Sound start) (ht : Step s .claim t) :
    ∃ passed vacant, Claims start s t passed vacant := by
  obtain ⟨ht⟩ := ht
  obtain ⟨⟨passed, vacant⟩, hfound, heq⟩ := Option.map_eq_some_iff.mp ht
  subst heq
  obtain ⟨hgiven, hport, hvacant⟩ := findVacant_spec h.cursor hfound
  exact ⟨passed, vacant, hgiven, hport, hvacant, rfl, rfl, rfl, rfl, rfl⟩

section Claim

variable {passed : List ℕ} {vacant : PortCursor} (hclaims : Claims start s t passed vacant)
include hclaims

/-- A connection is the new one, or one of those before. -/
theorem Claims.conn_cases (hd : t.conns[d]? = some other) :
    s.conns[d]? = some other ∨ d = s.conns.length ∧
      other = ⟨vacant.port, s.taken.length + passed.length, .connecting, false, []⟩ := by
  rw [hclaims.conns] at hd
  rcases Nat.lt_or_ge d s.conns.length with hlt | hge
  · rw [List.getElem?_append_left hlt] at hd
    exact .inl hd
  · rw [List.getElem?_append_right hge, List.getElem?_singleton] at hd
    split at hd
    case isTrue hzero => exact .inr ⟨by omega, (Option.some.inj hd).symm⟩
    case isFalse => cases hd

theorem Claims.conn_old (hd : s.conns[d]? = some other) : t.conns[d]? = some other := by
  have hlt : d < s.conns.length := (List.getElem?_eq_some_iff.mp hd).1
  rw [hclaims.conns, List.getElem?_append_left hlt]
  exact hd

theorem Claims.conn_new : t.conns[s.conns.length]? =
    some ⟨vacant.port, s.taken.length + passed.length, .connecting, false, []⟩ := by
  rw [hclaims.conns, List.getElem?_append_right (Nat.le_refl _), Nat.sub_self]
  rfl

theorem Claims.length_taken : t.taken.length = s.taken.length + passed.length + 1 := by
  rw [hclaims.taken, List.length_append, List.length_append]
  rfl

theorem Sound.claim (h : s.Sound start) : t.Sound start where
  given := by
    rw [hclaims.taken]
    have hpassed : Given start (0 + s.taken.length) passed :=
      (Nat.zero_add s.taken.length).symm ▸ hclaims.given
    refine (h.given.append hpassed).append ?_
    intro i port hi
    have hzero : i = 0 ∧ vacant.port = port := by simpa [List.getElem?_singleton] using hi
    rw [hzero.1, ← hzero.2, hclaims.port, List.length_append]
    congr 1
    omega
  cursor := by
    rw [hclaims.cursor, next_portAt hclaims.port, hclaims.length_taken]
  turns d x hd := by
    rw [hclaims.length_taken]
    rcases hclaims.conn_cases hd with hd | ⟨-, rfl⟩
    · have hbefore := h.turns d x hd
      exact ⟨by omega, hbefore.2⟩
    · exact ⟨Nat.lt_succ_self _, hclaims.port⟩
  distinct d e x x' hd he heq := by
    rcases hclaims.conn_cases hd with hd | ⟨rfl, rfl⟩ <;>
      rcases hclaims.conn_cases he with he | ⟨rfl, rfl⟩
    · exact h.distinct d e x x' hd he heq
    · have hbefore := (h.turns d x hd).1
      dsimp only at heq
      omega
    · have hbefore := (h.turns e x' he).1
      dsimp only at heq
      omega
    · rfl
  routed port d hroute := by
    rw [hclaims.routes] at hroute
    rcases update_eq_some hroute with ⟨rfl, rfl⟩ | ⟨hne, hroute⟩
    · refine ⟨_, hclaims.conn_new, rfl, nofun, fun e x he _ => ?_⟩
      rcases hclaims.conn_cases he with he | ⟨-, rfl⟩
      · have hbefore := (h.turns e x he).1
        dsimp only
        omega
      · exact Nat.le_refl _
    · obtain ⟨x, hx, hport, hstage, hlast⟩ := h.routed port d (retained_eq_some hroute).1
      refine ⟨x, hclaims.conn_old hx, hport, hstage, fun e x' he heq => ?_⟩
      rcases hclaims.conn_cases he with he | ⟨-, rfl⟩
      · exact hlast e x' he heq
      · exact absurd heq.symm hne
  live hrunning d x hd hlive := by
    rw [hclaims.isRunning] at hrunning
    rw [hclaims.routes]
    rcases hclaims.conn_cases hd with hd | ⟨rfl, rfl⟩
    · have hroute := retained_of_isLive (h.live hrunning d x hd hlive) hd hlive
      refine (update_of_ne (fun hport => ?_) ..).trans hroute
      cases (hport ▸ hroute).symm.trans hclaims.free
    · exact update_self ..

theorem Claims.not_mem_livePorts (h : s.Sound start) (hrunning : s.isRunning = true) :
    vacant.port ∉ s.livePorts := fun hmem => by
  obtain ⟨c, conn, hc, hlive, hport⟩ := mem_livePorts.mp hmem
  have hroute := retained_of_isLive (h.live hrunning c conn hc hlive) hc hlive
  cases (hport ▸ hroute).symm.trans hclaims.free

/-- Since a port was given before, every other has been. -/
theorem Claims.exists_between (h : s.Sound start) (hd : s.conns[d]? = some other)
    (hsame : other.port = vacant.port) (hfirst : firstPort ≤ port)
    (hlast : port < firstPort + ports) (hne : port ≠ vacant.port) :
    ∃ turn, other.turn < turn ∧ turn < s.taken.length + passed.length ∧
      t.taken[turn]? = some port := by
  obtain ⟨hturn, hport⟩ := h.turns d other hd
  have hround : other.turn + ports ≤ s.taken.length + passed.length :=
    round_of_portAt_eq (by rw [← hport, hsame, hclaims.port]) (by omega)
  obtain ⟨i, hi, heq⟩ := exists_portAt_eq start other.turn hfirst hlast
  have hpos : i ≠ 0 := by
    rintro rfl
    exact hne (heq.symm.trans (hport.symm.trans hsame))
  refine ⟨other.turn + i, by omega, by omega, ?_⟩
  have hlt : other.turn + i < t.taken.length := by
    rw [hclaims.length_taken]
    omega
  rw [List.getElem?_eq_getElem hlt,
    (h.claim hclaims).given _ _ (List.getElem?_eq_getElem hlt), Nat.zero_add, heq]

end Claim

/-- Of fewer live ports than there are, a claim finds one that is not. -/
theorem Sound.exists_claim (h : s.Sound start) (hfew : s.livePorts.card < ports) :
    ∃ t, Step s .claim t := by
  have hcard : s.livePorts.card < (Finset.Ico firstPort (firstPort + ports)).card := by
    rw [Nat.card_Ico]
    omega
  obtain ⟨port, hmem, hfree⟩ := Finset.exists_mem_notMem_of_card_lt_card hcard
  obtain ⟨hfirst, hlast⟩ := Finset.mem_Ico.mp hmem
  have hvacant : s.retained port = none := by
    rw [Option.eq_none_iff_forall_ne_some]
    exact fun c hc => hfree (h.mem_livePorts hc)
  obtain ⟨i, hi, heq⟩ := exists_portAt_eq start s.taken.length hfirst hlast
  obtain ⟨found, hfound⟩ := findVacant_isSome h.cursor hi (heq ▸ hvacant)
  exact ⟨_, .claim (Option.map_eq_some_iff.mpr ⟨found, hfound, rfl⟩)⟩

/-! ### Packets -/

/-- What a packet does. -/
inductive Delivery (s : Mux) (packet : Bytes) : Mux → Prop
  | dropped : Delivery s packet s
  /-- The stack of the connection has gone. -/
  | gone {port c : ℕ} {conn : SharedConnection} (hroute : s.routes port = some c)
      (hc : s.conns[c]? = some conn) (hclosed : conn.isClosed = true) :
      Delivery s packet { s with routes := update s.routes port none }
  | queued {port c : ℕ} {conn : SharedConnection} (hport : destinationPort packet = some port)
      (hroute : s.routes port = some c) (hc : s.conns[c]? = some conn)
      (hopen : conn.isClosed = false) :
      Delivery s packet (s.withConn c { conn with queue := conn.queue ++ [packet] })

theorem delivery_demux (s : Mux) (packet : Bytes) : Delivery s packet (s.demux packet) := by
  unfold demux
  split
  case h_1 => exact .dropped
  case h_2 port hport =>
    split
    case h_1 => exact .dropped
    case h_2 c hroute =>
      split
      case h_1 => exact .dropped
      case h_2 conn hc =>
        split
        case isTrue hclosed => exact .gone hroute hc hclosed
        case isFalse hopen =>
          split
          case isTrue => exact .queued hport hroute hc (Bool.eq_false_iff.mpr hopen)
          case isFalse => exact .dropped

theorem Sound.demux (h : s.Sound start) (packet : Bytes) : (s.demux packet).Sound start := by
  have hdelivery := delivery_demux s packet
  generalize s.demux packet = t at hdelivery ⊢
  cases hdelivery with
  | dropped => exact h
  | @gone port c conn hroute hc hclosed =>
      refine h.unroute fun hrunning d x hd hlive hport => ?_
      obtain rfl := Option.some.inj ((hport ▸ h.live hrunning d x hd hlive).symm.trans hroute)
      obtain rfl := Option.some.inj (hd.symm.trans hc)
      simp [SharedConnection.isLive, hclosed] at hlive
  | queued _ _ hc _ => exact h.withConn hc ⟨rfl, rfl, id⟩ id

/-! ### Runs -/

theorem Sound.after {event : MuxEvent} (h : s.Sound start) (hmeets : s.Spaced event)
    (hstep : Step s event t) : t.Sound start := by
  cases hstep with
  | claim ht =>
      obtain ⟨passed, vacant, hclaims⟩ := h.claims (.claim ht)
      exact h.claim hclaims
  | connected hc hstage =>
      refine h.withConn hc ⟨rfl, rfl, fun hlive => ?_⟩ fun _ => nofun
      rw [SharedConnection.isLive, hstage]
      exact hlive
  | ended hc => exact h.withConn hc ⟨rfl, rfl, nofun⟩ id
  | cleanup hc hstage => exact h.cleanup hc (hmeets _ hc)
  | packet => exact h.demux _
  | read hc => exact h.withConn hc ⟨rfl, rfl, id⟩ id
  | linkEnded =>
      exact { h with
        routed := nofun
        live := nofun }

theorem sound_of_reaches (hs : Reaches Step Spaced (new start) s) : s.Sound start :=
  hs.invariant (sound_new start) fun h hmeets hstep => h.after hmeets hstep

/-- **Ports have one owner.** With a port free at each claim, and fewer ports given by the cursor
between a claim and its cleanup than there are: a claim ends, with a port that is not live while
the link runs, and not one that was had before unless every other has come round; a packet is
queued for the owner of its port; and a cleanup cuts nobody else off. -/
theorem one_owner (hs : Reaches Step Spaced (new start) s) :
    (s.livePorts.card < ports → ∃ t, Step s .claim t) ∧
    (∀ t, Step s .claim t → ∃ conn, t.conns = s.conns ++ [conn] ∧ conn.isLive = true ∧
      t.routes conn.port = some s.conns.length ∧ t.taken[conn.turn]? = some conn.port ∧
      (firstPort ≤ conn.port ∧ conn.port < firstPort + ports) ∧
      (s.isRunning = true → conn.port ∉ s.livePorts) ∧
      ∀ (d : ℕ) (other : SharedConnection), s.conns[d]? = some other → other.port = conn.port →
        ∀ port, firstPort ≤ port → port < firstPort + ports → port ≠ conn.port →
          ∃ turn, other.turn < turn ∧ turn < conn.turn ∧ t.taken[turn]? = some port) ∧
    (s.isRunning = true → ∀ c d port, s.Owns c port → s.Owns d port → c = d) ∧
    (∀ packet t, Step s (.packet packet) t → ∀ (c : ℕ) (conn other : SharedConnection),
      s.conns[c]? = some conn → t.conns[c]? = some other → other.queue ≠ conn.queue →
        other.queue = conn.queue ++ [packet] ∧
          ∃ port, destinationPort packet = some port ∧ s.Owns c port) ∧
    (∀ c t, s.Spaced (.cleanup c) → Step s (.cleanup c) t → ∀ port d, d ≠ c →
      s.routes port = some d → t.routes port = some d) := by
  have h := sound_of_reaches hs
  refine ⟨h.exists_claim, fun t ht => ?_, fun hrunning c d port hc hd => ?_, ?_, ?_⟩
  · obtain ⟨passed, vacant, hclaims⟩ := h.claims ht
    refine ⟨_, hclaims.conns, rfl, ?_, ?_, ⟨vacant.first_le, vacant.lt_last⟩,
      hclaims.not_mem_livePorts h, ?_⟩
    · rw [hclaims.routes]
      exact update_self ..
    · rw [hclaims.taken, ← List.length_append]
      exact List.getElem?_concat_length
    · exact fun d other hd hsame port hfirst hlast hne =>
        hclaims.exists_between h hd hsame hfirst hlast hne
  · exact h.eq_of_owns hrunning hc hd
  · intro packet t ht c conn other hc hother hchanged
    cases ht with
    | packet hrunning =>
      have hdelivery := delivery_demux s packet
      generalize s.demux packet = t at hdelivery hother
      cases hdelivery with
      | dropped | gone =>
          obtain rfl := Option.some.inj (hc.symm.trans hother)
          exact absurd rfl hchanged
      | @queued port d x hport hroute hd hopen =>
          rcases withConn_cases hd hother with ⟨rfl, rfl⟩ | ⟨-, hsame⟩
          · obtain rfl := Option.some.inj (hc.symm.trans hd)
            obtain ⟨y, hy, hyport, hstage, -⟩ := h.routed port c hroute
            obtain rfl := Option.some.inj (hc.symm.trans hy)
            refine ⟨rfl, port, hport, conn, hc, ?_, hyport⟩
            simp [SharedConnection.isLive, hopen, hstage]
          · obtain rfl := Option.some.inj (hc.symm.trans hsame)
            exact absurd rfl hchanged
  · intro c t hspaced ht port d hne hroute
    cases ht with
    | @cleanup _ conn hc hstage =>
      refine (update_of_ne (fun hport => hne ?_) ..).trans hroute
      exact h.route_eq hc (hspaced conn hc) (hport ▸ hroute)

def oneConnection : Mux := ((new 0).claimPort 1).getD (new 0)

/-- Two connections, of which the first is not made. -/
def twoConnections : Mux := (oneConnection.claimPort 1).getD oneConnection

theorem second_keeps_port :
    Reaches Step Spaced (new 0) twoConnections ∧ twoConnections.routes 49153 = some 1 ∧
      ∀ t, Step twoConnections (.cleanup 0) t → t.routes 49153 = some 1 := by
  have hfirst : (new 0).livePorts.card < ports := by decide
  have hsecond : oneConnection.livePorts.card < ports := by decide
  have hone : (new 0).claimPort 1 = some oneConnection := rfl
  have htwo : oneConnection.claimPort 1 = some twoConnections := rfl
  have hreached : Reaches Step Spaced (new 0) twoConnections :=
    (Reaches.start.next (e := .claim) hfirst (Step.claim hone)).next (e := .claim) hsecond
      (Step.claim htwo)
  have hspaced : twoConnections.Spaced (.cleanup 0) := by
    intro conn hc
    obtain rfl := Option.some.inj hc
    decide
  have hroute : twoConnections.routes 49153 = some 1 := by decide
  exact ⟨hreached, hroute, fun t ht =>
    (one_owner hreached).2.2.2.2 0 t hspaced ht 49153 1 (by decide) hroute⟩

/-! ### The count of claims -/

/-- A port is free at each claim, and between a claim and its cleanup there are fewer claims than
ports. -/
def Claimed (s : Mux) : MuxEvent → Prop
  | .claim => s.livePorts.card < ports
  | .cleanup c => s.conns.length - (c + 1) < ports
  | _ => True

theorem livePorts_append (ht : t.conns = s.conns ++ [conn]) (hlive : conn.isLive = true) :
    t.livePorts = insert conn.port s.livePorts := by
  rw [livePorts, ht, List.filter_append, List.map_append, List.toFinset_append, livePorts]
  simp [hlive, Finset.union_comm]

theorem Sound.livePorts_subset (h : s.Sound start) :
    s.livePorts ⊆ Finset.Ico firstPort (firstPort + ports) := by
  intro port hmem
  obtain ⟨c, conn, hc, -, rfl⟩ := Mux.mem_livePorts.mp hmem
  rw [(h.turns c conn hc).2]
  exact Finset.mem_Ico.mpr (portAt_range start conn.turn)

/-- Every port can be live. -/
theorem exists_full {n : ℕ} (hn : n ≤ ports) : ∃ s, Reaches Step Claimed (new 0) s ∧
    s.Sound 0 ∧ s.isRunning = true ∧ s.conns.length = n ∧ s.livePorts.card = n ∧
      ∀ conn ∈ s.conns, conn.isClosed = false ∧ conn.stage = .connecting := by
  induction n with
  | zero => exact ⟨_, .start, sound_new 0, rfl, rfl, rfl, nofun⟩
  | succ n ih =>
      obtain ⟨s, hs, h, hrunning, hlength, hcard, hfresh⟩ := ih (Nat.le_of_succ_le hn)
      have hfew : s.livePorts.card < ports := hcard ▸ hn
      obtain ⟨t, ht⟩ := h.exists_claim hfew
      obtain ⟨passed, vacant, hclaims⟩ := h.claims ht
      refine ⟨t, hs.next (e := .claim) hfew ht, h.claim hclaims,
        hclaims.isRunning.trans hrunning, ?_, ?_, fun conn hmem => ?_⟩
      · rw [hclaims.conns, List.length_append, hlength]
        rfl
      · rw [livePorts_append hclaims.conns rfl,
          Finset.card_insert_of_notMem (hclaims.not_mem_livePorts h hrunning), hcard]
      · rw [hclaims.conns] at hmem
        rcases List.mem_append.mp hmem with hmem | hmem
        · exact hfresh conn hmem
        · obtain rfl := List.mem_singleton.mp hmem
          exact ⟨rfl, rfl⟩

/-- A connection that goes leaves the others what they own, and owns nothing. -/
theorem owns_of_ended (hc : s.conns[c]? = some conn) :
    (s.withConn c { conn with isClosed := true, queue := [] }).Owns d port ↔
      d ≠ c ∧ s.Owns d port := by
  constructor
  · rintro ⟨other, hd, hlive, hport⟩
    rcases withConn_cases hc hd with ⟨-, rfl⟩ | ⟨hne, hd⟩
    · cases hlive
    · exact ⟨hne, other, hd, hlive, hport⟩
  · rintro ⟨hne, other, hd, hlive, hport⟩
    exact ⟨other, (withConn_of_ne hne).trans hd, hlive, hport⟩

section Full

variable (h : s.Sound start) (hrunning : s.isRunning = true) (hc : s.conns[c]? = some conn)
include h hrunning hc

/-- The port of a connection that has gone is free. -/
theorem card_livePorts_of_ended (hlive : conn.isLive = true) :
    (s.withConn c { conn with isClosed := true, queue := [] }).livePorts.card < ports := by
  have howns : s.Owns c conn.port := ⟨conn, hc, hlive, rfl⟩
  have hfree : conn.port ∉
      (s.withConn c { conn with isClosed := true, queue := [] }).livePorts := fun hmem => by
    obtain ⟨d, hd⟩ := mem_livePorts.mp hmem
    obtain ⟨hne, hd⟩ := (owns_of_ended hc).mp hd
    exact hne (h.eq_of_owns hrunning hd howns)
  have hkeeps : Keeps conn { conn with isClosed := true, queue := [] } := ⟨rfl, rfl, nofun⟩
  have hsound := h.withConn hc hkeeps id
  have hmem := h.livePorts_subset (mem_livePorts.mpr ⟨c, howns⟩)
  have hless := (Finset.ssubset_iff_of_subset hsound.livePorts_subset).mpr ⟨_, hmem, hfree⟩
  have hcard := Finset.card_lt_card hless
  rw [Nat.card_Ico] at hcard
  omega

/-- It is the only one, where all ports were live. -/
theorem Claims.port_of_full {passed : List ℕ} {vacant : PortCursor}
    (hclaims : Claims start (s.withConn c { conn with isClosed := true, queue := [] }) t passed
      vacant) (hcard : s.livePorts.card = ports) : vacant.port = conn.port := by
  have hkeeps : Keeps conn { conn with isClosed := true, queue := [] } := ⟨rfl, rfl, nofun⟩
  have hsound := h.withConn hc hkeeps id
  have hall : s.livePorts = Finset.Ico firstPort (firstPort + ports) := by
    refine Finset.eq_of_subset_of_card_le h.livePorts_subset ?_
    rw [hcard, Nat.card_Ico]
    omega
  have hmem : vacant.port ∈ s.livePorts :=
    hall ▸ Finset.mem_Ico.mpr ⟨vacant.first_le, vacant.lt_last⟩
  obtain ⟨d, hd⟩ := mem_livePorts.mp hmem
  rcases eq_or_ne d c with rfl | hne
  · obtain ⟨other, hother, -, hport⟩ := hd
    obtain rfl := Option.some.inj (hc.symm.trans hother)
    exact hport.symm
  · exact absurd (mem_livePorts.mpr ⟨d, (owns_of_ended hc).mpr ⟨hne, hd⟩⟩)
      (hclaims.not_mem_livePorts hsound hrunning)

end Full

/-- All ports are live, the last connection goes, and its port is claimed before it is cleaned up:
that takes the route of the new connection. -/
theorem cleanup_cuts_other_off :
    ¬∀ random s, Reaches Step Claimed (new random) s → ∀ c t, s.Claimed (.cleanup c) →
      Step s (.cleanup c) t → ∀ port d, d ≠ c → s.routes port = some d →
        t.routes port = some d := by
  intro hall
  obtain ⟨full, hfull, h, hrunning, hlength, hcard, hfresh⟩ := exists_full (Nat.le_refl ports)
  have hlast : ports - 1 < full.conns.length := by
    rw [hlength]
    decide
  obtain ⟨conn, hc⟩ : ∃ conn, full.conns[ports - 1]? = some conn :=
    ⟨_, List.getElem?_eq_getElem hlast⟩
  obtain ⟨hopen, hstage⟩ := hfresh conn (List.mem_of_getElem? hc)
  have hlive : conn.isLive = true := by simp [SharedConnection.isLive, hopen, hstage]
  have hgoes := Step.ended hc
  have hends : full.Claimed (.ended (ports - 1)) := trivial
  have hspaced : full.Spaced (.ended (ports - 1)) := trivial
  have hsound := h.after hspaced hgoes
  have hfew := card_livePorts_of_ended h hrunning hc hlive
  obtain ⟨t, ht⟩ := hsound.exists_claim hfew
  obtain ⟨passed, vacant, hclaims⟩ := hsound.claims ht
  have hsame := hclaims.port_of_full h hrunning hc hcard
  have hgone := hclaims.conn_old (withConn_self hc)
  have hcount : (full.withConn (ports - 1) { conn with isClosed := true, queue := [] }).conns.length
      = ports := (List.length_set ..).trans hlength
  have hroute : t.routes conn.port = some ports := by
    rw [hclaims.routes, hsame, hcount]
    exact update_self ..
  have hclaimed : t.Claimed (.cleanup (ports - 1)) := by
    change t.conns.length - (ports - 1 + 1) < ports
    rw [hclaims.conns, List.length_append, hcount, List.length_singleton]
    decide
  have hreached := (hfull.next hends hgoes).next (e := MuxEvent.claim) hfew ht
  have hkept := hall 0 t hreached (ports - 1) _ hclaimed (Step.cleanup hgone hstage) conn.port
    ports (by decide) hroute
  have hcut : (t.cleanup (ports - 1)
      { conn with isClosed := true, queue := [] }).routes conn.port = none := update_self ..
  cases hcut.symm.trans hkept

end Mux

end SynologyFilestation.Openvpn
