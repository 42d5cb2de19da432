import SynologyFilestation.Fuse.Legs

/-!
The leg that a mount remembers against the leg it is on. The chain decides for the redial
alone; a move settles what it swapped in. Neither looks what the other has done meanwhile,
and a redial does not tell the transport's configuration where it landed.
-/

namespace SynologyFilestation.Fuse

open Function Library Connect

/-- The chain and the configuration name the leg of a live session, whenever no move and no
redial is under way. -/
def LegRemembered (g : MountLegs) : Prop :=
  g.redial = none → (∀ k, g.moves k = none) → g.needs = false → ∀ leg, g.client = some leg →
    g.chain.current = some leg.route ∧ g.host = leg.host

/-- The chain names the leg that the session runs on. -/
def Named (g : MountLegs) : Prop := ∀ leg, g.client = some leg → g.chain.current = some leg.route

/-- A redial lands on the leg it left, moves settle one at a time, and none of either is
dropped while the chain does not name the leg in use. -/
def StaysOnLeg (g : MountLegs) : LegEvent → Prop
  | .landed => ∀ leg, g.redial = some (.building leg) → g.client = some leg
  | .swap k => ∀ j, j ≠ k → (∀ leg, g.moves j ≠ some (.swapped leg)) ∧
      ∀ n leg, g.moves j = some (.settling n leg) →
        ∀ r, g.chain.calls n ≠ some (.called (.settle r))
  | .dropRedial => Named g
  | .dropMove k => ∀ leg, g.moves k = some (.swapped leg) → Named g
  | _ => True

/-! ### What is known in every run -/

/-- A move has swapped its session in, and the chain has not heard of it yet. -/
def Unsettled (g : MountLegs) (leg : Leg) : Prop :=
  ∃ k, g.moves k = some (.swapped leg) ∨
    ∃ n r, g.moves k = some (.settling n leg) ∧ g.chain.calls n = some (.called (.settle r))

/-- The leg that the redial comes back with, as far as that is known. -/
def RedialLeg (g : MountLegs) (leg : Leg) : Prop :=
  g.redial = some (.building leg) ∨
    ∃ n ph, g.redial = some (.asking n) ∧ g.chain.calls n = some ph ∧ promised ph = some leg

structure OnLeg (g : MountLegs) : Prop where
  unasked : ∀ n, g.chain.calls n ≠ some (.called .reconsider)
  /-- The redial alone decides. -/
  deciding {n ph} : g.chain.calls n = some ph → ph.decides = true → g.redial = some (.asking n)
  asking {n} : g.redial = some (.asking n) → ∃ ph, g.chain.calls n = some ph ∧
    (ph.decides = true ∨ ∃ a, ph = .done a)
  settle {n r} : g.chain.calls n = some (.called (.settle r)) →
    ∃ k leg, g.moves k = some (.settling n leg) ∧ r = leg.route
  looking {k n} : g.moves k = some (.looking n) → ∃ ph, g.chain.calls n = some ph ∧
    ∀ r, ph ≠ .called (.settle r)
  begun {k n leg} : g.moves k = some (.settling n leg) → ∃ ph, g.chain.calls n = some ph
  host {leg} : g.client = some leg → g.host = leg.host
  /-- Who has swapped and not settled has the session in use. -/
  unsettled {leg} : Unsettled g leg → g.client = some leg
  connected : g.redial ≠ none → ∃ leg, g.client = some leg
  /-- The chain names the leg that the redial is to come back with, or the one in use. -/
  promised {leg} : RedialLeg g leg → g.chain.current = some leg.route ∨ Named g
  named : g.needs = false → g.redial = none → Named g ∨ ∃ leg, Unsettled g leg

section Steps

variable {s : Setup} {g g' : MountLegs} {e : LegEvent} {k n : ℕ} {leg : Leg}

theorem onLeg_unconnected (host : String) : OnLeg (.unconnected host) where
  unasked := nofun
  deciding := nofun
  asking := nofun
  settle := nofun
  looking := nofun
  begun := nofun
  host := nofun
  unsettled := by
    rintro leg ⟨k, hk | ⟨n, r, hk, _⟩⟩ <;> cases hk
  connected h := (h rfl).elim
  promised := by
    rintro leg (h | ⟨n, ph, h, _⟩) <;> cases h
  named _ _ := .inl nofun

theorem Named.congr {c : Chain} (h : Named g) (hdecision : c.decision = g.chain.decision) :
    Named { g with chain := c } := by
  intro leg hleg
  exact (congrArg (Option.map Decision.route) hdecision).trans (h leg hleg)

/-- What a move settles is the leg in use. -/
theorem OnLeg.named_of_settle (h : OnLeg g) {c : Chain} {r : Route}
    (hn : g.chain.calls n = some (.called (.settle r))) (hcurrent : c.current = some r) :
    Named { g with chain := c } := by
  obtain ⟨k, leg, hk, rfl⟩ := h.settle hn
  have hclient := h.unsettled ⟨k, .inr ⟨n, _, hk, hn⟩⟩
  intro leg' hleg'
  obtain rfl : leg = leg' := Option.some.inj (hclient.symm.trans hleg')
  exact hcurrent

theorem OnLeg.congr (h : OnLeg g) {c : Chain} (hcalls : c.calls = g.chain.calls)
    (hdecision : c.decision = g.chain.decision) : OnLeg { g with chain := c } := by
  have hcurrent : c.current = g.chain.current := congrArg (Option.map Decision.route) hdecision
  have hcall (n : ℕ) : c.calls n = g.chain.calls n := congrFun hcalls n
  constructor
  case unasked => exact fun n hn => h.unasked n ((hcall n).symm.trans hn)
  case deciding => exact fun hn => h.deciding ((hcall _).symm.trans hn)
  case asking =>
    intro n hredial
    obtain ⟨ph, hn, hgoes⟩ := h.asking hredial
    exact ⟨ph, (hcall n).trans hn, hgoes⟩
  case settle => exact fun hn => h.settle ((hcall _).symm.trans hn)
  case looking =>
    intro k n hk
    obtain ⟨ph, hn, hnot⟩ := h.looking hk
    exact ⟨ph, (hcall n).trans hn, hnot⟩
  case begun =>
    intro k n leg hk
    obtain ⟨ph, hn⟩ := h.begun hk
    exact ⟨ph, (hcall n).trans hn⟩
  case host => exact h.host
  case unsettled =>
    rintro leg ⟨k, hk | ⟨n, r, hk, hn⟩⟩
    · exact h.unsettled ⟨k, .inl hk⟩
    · exact h.unsettled ⟨k, .inr ⟨n, r, hk, (hcall n).symm.trans hn⟩⟩
  case connected => exact h.connected
  case promised =>
    rintro leg (hredial | ⟨n, ph, hredial, hn, hpromised⟩)
    · exact (h.promised (.inl hredial)).imp hcurrent.trans (Named.congr · hdecision)
    · have hold : RedialLeg g leg := .inr ⟨n, ph, hredial, (hcall n).symm.trans hn, hpromised⟩
      exact (h.promised hold).imp hcurrent.trans (Named.congr · hdecision)
  case named =>
    intro hneeds hredial
    rcases h.named hneeds hredial with hnamed | ⟨leg, k, hk | ⟨n, r, hk, hn⟩⟩
    · exact .inl (hnamed.congr hdecision)
    · exact .inr ⟨leg, k, .inl hk⟩
    · exact .inr ⟨leg, k, .inr ⟨n, r, hk, (hcall n).trans hn⟩⟩

/-- A move that has not settled still has not, when a call that settles nothing changes. -/
theorem Unsettled.keep {c : Chain} {ph' : Phase} (h : Unsettled g leg)
    (hcalls : c.calls = update g.chain.calls n (some ph'))
    (hn : ∀ r, g.chain.calls n ≠ some (.called (.settle r))) :
    Unsettled { g with chain := c } leg := by
  obtain ⟨k, hk | ⟨m, r, hk, hm⟩⟩ := h
  · exact ⟨k, .inl hk⟩
  · have hne : m ≠ n := by
      rintro rfl
      exact hn r hm
    refine ⟨k, .inr ⟨m, r, hk, ?_⟩⟩
    show c.calls m = _
    rw [hcalls, update_of_ne hne]
    exact hm

/-- One call of the chain changes or begins, and is none to look again nor one that settles
then. What the chain names then is left to show. -/
theorem OnLeg.replaceCall (h : OnLeg g) {c : Chain} {ph' : Phase}
    (hcalls : c.calls = update g.chain.calls n (some ph'))
    (hunasked : ph' ≠ .called .reconsider) (hsettle : ∀ r, ph' ≠ .called (.settle r))
    (hdeciding : ph'.decides = true → g.redial = some (.asking n))
    (hasking : g.redial = some (.asking n) → ph'.decides = true ∨ ∃ a, ph' = .done a)
    (hpromised : ∀ leg, RedialLeg { g with chain := c } leg →
      c.current = some leg.route ∨ Named { g with chain := c })
    (hnamed : g.needs = false → g.redial = none →
      Named { g with chain := c } ∨ ∃ leg, Unsettled { g with chain := c } leg) :
    OnLeg { g with chain := c } := by
  -- of the other calls nothing changes
  have hother {m phm} (hphm : c.calls m = some phm) :
      m = n ∧ phm = ph' ∨ m ≠ n ∧ g.chain.calls m = some phm := by
    rw [hcalls] at hphm
    exact update_eq_some hphm
  have hsettles {m r} (hphm : c.calls m = some (.called (.settle r))) :
      g.chain.calls m = some (.called (.settle r)) := by
    rcases hother hphm with ⟨_, heq⟩ | ⟨_, hold⟩
    · exact (hsettle r heq.symm).elim
    · exact hold
  have hkeep {m phm} (hphm : g.chain.calls m = some phm) (hne : m ≠ n) :
      c.calls m = some phm := by
    rw [hcalls]
    exact (update_of_ne hne ..).trans hphm
  have hself : c.calls n = some ph' := by
    rw [hcalls]
    exact update_self ..
  constructor
  case unasked =>
    intro m hm
    rcases hother hm with ⟨_, heq⟩ | ⟨_, hold⟩
    · exact hunasked heq.symm
    · exact h.unasked m hold
  case deciding =>
    intro m phm hphm hdecides
    rcases hother hphm with ⟨rfl, rfl⟩ | ⟨_, hold⟩
    · exact hdeciding hdecides
    · exact h.deciding hold hdecides
  case asking =>
    intro m hredial
    obtain ⟨phm, hphm, hgoes⟩ := h.asking hredial
    rcases eq_or_ne m n with rfl | hne
    · exact ⟨ph', hself, hasking hredial⟩
    · exact ⟨phm, hkeep hphm hne, hgoes⟩
  case settle => exact fun hcalled => h.settle (hsettles hcalled)
  case looking =>
    intro k m hk
    obtain ⟨phm, hphm, hnot⟩ := h.looking hk
    rcases eq_or_ne m n with rfl | hne
    · exact ⟨ph', hself, hsettle⟩
    · exact ⟨phm, hkeep hphm hne, hnot⟩
  case begun =>
    intro k m leg hk
    obtain ⟨phm, hphm⟩ := h.begun hk
    rcases eq_or_ne m n with rfl | hne
    · exact ⟨ph', hself⟩
    · exact ⟨phm, hkeep hphm hne⟩
  case host => exact h.host
  case unsettled =>
    rintro leg ⟨k, hk | ⟨m, r, hk, hphm⟩⟩
    · exact h.unsettled ⟨k, .inl hk⟩
    · exact h.unsettled ⟨k, .inr ⟨m, r, hk, hsettles hphm⟩⟩
  case connected => exact h.connected
  case promised => exact hpromised _
  case named => exact hnamed

/-- A step of the chain's own. -/
theorem OnLeg.chain (h : OnLeg g) {c : Chain} {ev : ChainEvent} (howns : ownStep ev = true)
    (hstep : ChainStep s g.chain ev c) : OnLeg { g with chain := c } := by
  rcases moved_of_step hstep howns h.unasked with ⟨hcalls, hdecision⟩ | ⟨n, ph, ph', hn, hcalls, hm⟩
  · exact h.congr hcalls hdecision
  · have hgoes (hredial : g.redial = some (.asking n)) : ph.decides = true := by
      obtain ⟨ph₀, hph₀, hgoes⟩ := h.asking hredial
      obtain rfl := Option.some.inj (hn.symm.trans hph₀)
      rcases hgoes with hdecides | ⟨a, hdone⟩
      · exact hdecides
      · exact (hm.going a hdone).elim
    refine h.replaceCall hcalls (hm.follows.uncalled _) (fun r => hm.follows.uncalled _)
      (fun hdecides => h.deciding hn (hm.follows.decides hdecides))
      (fun hredial => hm.follows.keeps (hgoes hredial)) ?_ ?_
    · intro leg hleg
      -- what was named before, where the decision is the same
      have hsame (hdecision : c.decision = g.chain.decision) (hold : RedialLeg g leg) :
          c.current = some leg.route ∨ Named { g with chain := c } := by
        rcases h.promised hold with hcurrent | hnamed
        · exact .inl ((congrArg (Option.map Decision.route) hdecision).trans hcurrent)
        · exact .inr (hnamed.congr hdecision)
      have hstays (hold : RedialLeg g leg) (hnot : ph.decides = false) :
          c.current = some leg.route ∨ Named { g with chain := c } := by
        rcases hm.decision with hdecision | hdecides | ⟨r, rfl⟩
        · exact hsame hdecision hold
        · cases hnot.symm.trans hdecides
        · exact .inr (h.named_of_settle hn (hm.settles r rfl))
      rcases hleg with hredial | ⟨m, phm, hredial, hphm, hpromised⟩
      · refine hstays (.inl hredial) (Bool.eq_false_iff.mpr fun hdecides => ?_)
        cases hredial.symm.trans (h.deciding hn hdecides)
      · rcases update_eq_some (hcalls ▸ hphm) with ⟨rfl, rfl⟩ | ⟨hne, hold⟩
        · rcases hm.promised (hgoes hredial) leg hpromised with hcurrent | ⟨hold, hdecision⟩
          · exact .inl hcurrent
          · exact hsame hdecision (.inr ⟨m, ph, hredial, hn, hold⟩)
        · refine hstays (.inr ⟨m, phm, hredial, hold, hpromised⟩)
            (Bool.eq_false_iff.mpr fun hdecides => ?_)
          cases hredial.symm.trans (h.deciding hn hdecides)
          exact hne rfl
    · intro hneeds hredial
      rcases hm.decision with hdecision | hdecides | ⟨r, rfl⟩
      · by_cases hsettles : ∃ r, ph = .called (.settle r)
        · obtain ⟨r, rfl⟩ := hsettles
          exact .inl (h.named_of_settle hn (hm.settles r rfl))
        rcases h.named hneeds hredial with hnamed | ⟨leg, hleg⟩
        · exact .inl (hnamed.congr hdecision)
        · refine .inr ⟨leg, hleg.keep hcalls fun r hr => ?_⟩
          exact hsettles ⟨r, Option.some.inj (hn.symm.trans hr)⟩
      · cases hredial.symm.trans (h.deciding hn hdecides)
      · exact .inl (h.named_of_settle hn (hm.settles r rfl))

theorem calls_call {entry : Entry} :
    (g.call n entry).chain.calls = update g.chain.calls n (some (.called entry)) := by
  cases entry <;> rfl

theorem of_call {entry : Entry} {m : ℕ} {ph : Phase}
    (h : (g.call n entry).chain.calls m = some ph) :
    m = n ∧ ph = .called entry ∨ m ≠ n ∧ g.chain.calls m = some ph := by
  rw [calls_call] at h
  exact update_eq_some h

theorem call_current {entry : Entry} : (g.call n entry).chain.current = g.chain.current := by
  cases entry <;> rfl

/-- A call that neither decides nor settles begins. -/
theorem OnLeg.call (h : OnLeg g) {entry : Entry} (hnew : g.chain.calls n = none)
    (hdecides : (Phase.called entry).decides = false) (hreconsider : entry ≠ .reconsider)
    (hsettle : ∀ r, entry ≠ .settle r) : OnLeg (g.call n entry) := by
  have hcurrent : (g.call n entry).chain.current = g.chain.current := call_current
  refine h.replaceCall calls_call (fun heq => hreconsider (Phase.called.inj heq))
    (fun r heq => hsettle r (Phase.called.inj heq)) (fun hph => ?_) (fun hredial => ?_) ?_ ?_
  · cases hdecides.symm.trans hph
  · obtain ⟨ph, hm, _⟩ := h.asking hredial
    cases hnew.symm.trans hm
  · intro leg hleg
    show (g.call n entry).chain.current = _ ∨ ∀ leg, _ → (g.call n entry).chain.current = _
    rw [hcurrent]
    rcases hleg with hredial | ⟨m, ph, hredial, hm, hpromised⟩
    · exact h.promised (.inl hredial)
    · rcases of_call hm with ⟨_, rfl⟩ | ⟨_, hold⟩
      · cases hpromised
      · exact h.promised (.inr ⟨m, ph, hredial, hold, hpromised⟩)
  · intro hneeds hredial
    rcases h.named hneeds hredial with hnamed | ⟨leg, hleg⟩
    · exact .inl fun leg hleg => hcurrent.trans (hnamed leg hleg)
    · exact .inr ⟨leg, hleg.keep calls_call fun r hr => nomatch hnew.symm.trans hr⟩

/-- The move has swapped nothing in that it has to settle. -/
def Quiet : Option Move → Prop
  | some (.swapped _) | some (.settling _ _) => False
  | _ => True

/-- A move goes on that has nothing to settle, before and after; or the chain names the leg. -/
theorem OnLeg.setMove (h : OnLeg g) {q : Option Move}
    (hsettling : ∀ n leg, g.moves k = some (.settling n leg) →
      ∀ r, g.chain.calls n ≠ some (.called (.settle r)))
    (hswapped : (∀ leg, g.moves k ≠ some (.swapped leg)) ∨ Named g)
    (hq : Quiet q)
    (hlooking : ∀ n, q = some (.looking n) → ∃ ph, g.chain.calls n = some ph ∧
      ∀ r, ph ≠ .called (.settle r)) : OnLeg (g.setMove k q) := by
  have hother {j m} (hj : (g.setMove k q).moves j = some m) :
      j = k ∧ q = some m ∨ g.moves j = some m := by
    change update g.moves k q j = some m at hj
    rcases eq_or_ne j k with rfl | hne
    · rw [update_self] at hj
      exact .inl ⟨rfl, hj⟩
    · rw [update_of_ne hne] at hj
      exact .inr hj
  constructor
  case unasked => exact h.unasked
  case deciding => exact h.deciding
  case asking => exact h.asking
  case settle =>
    intro n r hn
    obtain ⟨j, leg, hj, hr⟩ := h.settle hn
    have hne : j ≠ k := by
      rintro rfl
      exact hsettling n leg hj r hn
    exact ⟨j, leg, (update_of_ne hne ..).trans hj, hr⟩
  case looking =>
    intro j n hj
    rcases hother hj with ⟨_, hq'⟩ | hold
    · exact hlooking n hq'
    · exact h.looking hold
  case begun =>
    intro j n leg hj
    rcases hother hj with ⟨_, hq'⟩ | hold
    · rw [hq'] at hq
      exact hq.elim
    · exact h.begun hold
  case host => exact h.host
  case unsettled =>
    rintro leg ⟨j, hj | ⟨n, r, hj, hn⟩⟩
    · rcases hother hj with ⟨_, hq'⟩ | hold
      · rw [hq'] at hq
        exact hq.elim
      · exact h.unsettled ⟨j, .inl hold⟩
    · rcases hother hj with ⟨_, hq'⟩ | hold
      · rw [hq'] at hq
        exact hq.elim
      · exact h.unsettled ⟨j, .inr ⟨n, r, hold, hn⟩⟩
  case connected => exact h.connected
  case promised => exact h.promised
  case named =>
    intro hneeds hredial
    rcases hswapped with hnot | hnamed
    · rcases h.named hneeds hredial with hnamed | ⟨leg, j, hj | ⟨n, r, hj, hn⟩⟩
      · exact .inl hnamed
      · have hne : j ≠ k := by
          rintro rfl
          exact hnot leg hj
        exact .inr ⟨leg, j, .inl ((update_of_ne hne ..).trans hj)⟩
      · have hne : j ≠ k := by
          rintro rfl
          exact hsettling n leg hj r hn
        exact .inr ⟨leg, j, .inr ⟨n, r, (update_of_ne hne ..).trans hj, hn⟩⟩
    · exact .inl hnamed

theorem OnLeg.setQuiet (h : OnLeg g) {q : Option Move} (hk : Quiet (g.moves k)) (hq : Quiet q)
    (hlooking : ∀ n, q = some (.looking n) → ∃ ph, g.chain.calls n = some ph ∧
      ∀ r, ph ≠ .called (.settle r)) : OnLeg (g.setMove k q) := by
  refine h.setMove (fun n leg hold => ?_) (.inl fun leg hold => ?_) hq hlooking
  · rw [hold] at hk
    exact hk.elim
  · rw [hold] at hk
    exact hk.elim

/-- The redial is over, and no call of the chain decides. -/
theorem OnLeg.freed (h : OnLeg g) {needs : Bool} {refused : Option String}
    (hidle : ∀ n ph, g.chain.calls n = some ph → ph.decides = false)
    (hnamed : needs = false → Named g ∨ ∃ leg, Unsettled g leg) :
    OnLeg { g with redial := none, needs, refused } where
  unasked := h.unasked
  deciding hn hdecides := by cases (hidle _ _ hn).symm.trans hdecides
  asking := nofun
  settle := h.settle
  looking := h.looking
  begun := h.begun
  host := h.host
  unsettled := h.unsettled
  connected hredial := (hredial rfl).elim
  promised := by
    rintro leg (hredial | ⟨n, ph, hredial, _⟩) <;> cases hredial
  named hneeds _ := hnamed hneeds

/-- While the redial does not wait for the chain no call decides. -/
theorem OnLeg.idle (h : OnLeg g)
    (hdone : ∀ n, g.redial = some (.asking n) → ∃ a, g.chain.calls n = some (.done a)) {ph : Phase}
    (hn : g.chain.calls n = some ph) : ph.decides = false := by
  refine Bool.eq_false_iff.mpr fun hdecides => ?_
  obtain ⟨a, ha⟩ := hdone n (h.deciding hn hdecides)
  cases hn.symm.trans ha
  cases hdecides

/-- The redial goes on, and does not wait for the chain. -/
theorem OnLeg.redial (h : OnLeg g) {needs : Bool} {r : Redial}
    (hidle : ∀ n ph, g.chain.calls n = some ph → ph.decides = false)
    (hclient : ∃ leg, g.client = some leg) (hnot : ∀ n, r ≠ .asking n)
    (hpromised : ∀ leg, r = .building leg → RedialLeg g leg) :
    OnLeg { g with needs, redial := some r } where
  unasked := h.unasked
  deciding hn hdecides := by cases (hidle _ _ hn).symm.trans hdecides
  asking hredial := (hnot _ (Option.some.inj hredial)).elim
  settle := h.settle
  looking := h.looking
  begun := h.begun
  host := h.host
  unsettled := h.unsettled
  connected _ := hclient
  promised := by
    rintro leg (hredial | ⟨n, ph, hredial, _⟩)
    · exact h.promised (hpromised leg (Option.some.inj hredial))
    · exact (hnot n (Option.some.inj hredial)).elim
  named _ hredial := nomatch hredial

/-- `reach_smb` is called. -/
theorem OnLeg.consult (h : OnLeg g) (hredial : g.redial = some .gated)
    (hnew : g.chain.calls n = none) :
    OnLeg ({ g with redial := some (.asking n) }.call n (.decide .reachSmb)) := by
  have hidle {m ph} : g.chain.calls m = some ph → ph.decides = false :=
    h.idle fun m hasking => nomatch hredial.symm.trans hasking
  have hne {m ph} (hm : g.chain.calls m = some ph) : m ≠ n := by
    rintro rfl
    cases hnew.symm.trans hm
  have hother {m ph} (hm : (g.call n (.decide .reachSmb)).chain.calls m = some ph) :
      m = n ∧ ph = .called (.decide .reachSmb) ∨ m ≠ n ∧ g.chain.calls m = some ph := of_call hm
  have hsettles {m r}
      (hm : (g.call n (.decide .reachSmb)).chain.calls m = some (.called (.settle r))) :
      g.chain.calls m = some (.called (.settle r)) := by
    rcases hother hm with ⟨_, heq⟩ | ⟨_, hold⟩
    · cases heq
    · exact hold
  constructor
  case unasked =>
    intro m hm
    rcases hother hm with ⟨_, heq⟩ | ⟨_, hold⟩
    · cases heq
    · exact h.unasked m hold
  case deciding =>
    intro m ph hm hdecides
    rcases hother hm with ⟨rfl, _⟩ | ⟨_, hold⟩
    · rfl
    · cases (hidle hold).symm.trans hdecides
  case asking =>
    rintro m ⟨⟩
    exact ⟨_, update_self .., .inl rfl⟩
  case settle => exact fun hm => h.settle (hsettles hm)
  case looking =>
    intro k m hk
    obtain ⟨ph, hm, hnot⟩ := h.looking hk
    exact ⟨ph, (update_of_ne (hne hm) ..).trans hm, hnot⟩
  case begun =>
    intro k m leg hk
    obtain ⟨ph, hm⟩ := h.begun hk
    exact ⟨ph, (update_of_ne (hne hm) ..).trans hm⟩
  case host => exact h.host
  case unsettled =>
    rintro leg ⟨k, hk | ⟨m, r, hk, hm⟩⟩
    · exact h.unsettled ⟨k, .inl hk⟩
    · exact h.unsettled ⟨k, .inr ⟨m, r, hk, hsettles hm⟩⟩
  case connected => exact fun _ => h.connected (by rw [hredial]; exact nofun)
  case promised =>
    rintro leg (hbuilding | ⟨m, ph, hasking, hm, hpromised⟩)
    · cases hbuilding
    · cases hasking
      rcases hother hm with ⟨_, rfl⟩ | ⟨hne, _⟩
      · cases hpromised
      · exact (hne rfl).elim
  case named => exact fun _ hnone => nomatch hnone

/-- The redial is back on the leg it left. -/
theorem OnLeg.landed (h : OnLeg g) (hredial : g.redial = some (.building leg))
    (hback : g.client = some leg) : OnLeg { g with redial := none } := by
  refine h.freed (fun m ph => h.idle fun m hasking => nomatch hredial.symm.trans hasking) ?_
  intro _
  rcases h.promised (.inl hredial) with hcurrent | hnamed
  · left
    intro leg' hleg'
    rw [← Option.some.inj (hback.symm.trans hleg')]
    exact hcurrent
  · exact .inl hnamed

/-- A call is dropped that neither settles nor waits for anybody's decision. -/
theorem OnLeg.dropCall (h : OnLeg g) {ph : Phase} (hn : g.chain.calls n = some ph)
    (hsettle : ∀ r, ph ≠ .called (.settle r)) : OnLeg (g.dropCall n) := by
  refine h.replaceCall rfl nofun nofun nofun (fun _ => .inr ⟨_, rfl⟩) ?_ ?_
  · rintro leg (hredial | ⟨m, phm, hredial, hm, hpromised⟩)
    · exact h.promised (.inl hredial)
    · rcases update_eq_some hm with ⟨_, rfl⟩ | ⟨_, hold⟩
      · cases hpromised
      · exact h.promised (.inr ⟨m, phm, hredial, hold, hpromised⟩)
  · intro hneeds hredial
    rcases h.named hneeds hredial with hnamed | ⟨leg, hleg⟩
    · exact .inl hnamed
    · refine .inr ⟨leg, hleg.keep rfl fun r hr => ?_⟩
      exact hsettle r (Option.some.inj (hn.symm.trans hr))

/-- A session is swapped in, and no other move has one to settle. -/
theorem OnLeg.swap (h : OnLeg g) (hk : g.moves k = some (.taking leg)) (hfree : g.redial = none)
    (hfirst : ∀ j, j ≠ k → (∀ leg, g.moves j ≠ some (.swapped leg)) ∧
      ∀ n leg, g.moves j = some (.settling n leg) →
        ∀ r, g.chain.calls n ≠ some (.called (.settle r))) :
    OnLeg ({ g with client := some leg, host := leg.host, needs := false }.setMove k
      (some (.swapped leg))) := by
  have hother {j m} (hj : update g.moves k (some (.swapped leg)) j = some m) :
      j = k ∧ m = .swapped leg ∨ j ≠ k ∧ g.moves j = some m := update_eq_some hj
  constructor
  case unasked => exact h.unasked
  case deciding => exact h.deciding
  case asking => exact h.asking
  case settle =>
    intro n r hn
    obtain ⟨j, leg', hj, hr⟩ := h.settle hn
    have hne : j ≠ k := by
      rintro rfl
      cases hk.symm.trans hj
    exact ⟨j, leg', (update_of_ne hne ..).trans hj, hr⟩
  case looking =>
    intro j n hj
    rcases hother hj with ⟨_, heq⟩ | ⟨_, hold⟩
    · cases heq
    · exact h.looking hold
  case begun =>
    intro j n leg' hj
    rcases hother hj with ⟨_, heq⟩ | ⟨_, hold⟩
    · cases heq
    · exact h.begun hold
  case host =>
    rintro _ ⟨⟩
    rfl
  case unsettled =>
    rintro leg' ⟨j, hj | ⟨n, r, hj, hn⟩⟩
    · rcases hother hj with ⟨_, heq⟩ | ⟨hne, hold⟩
      · cases heq
        rfl
      · exact ((hfirst j hne).1 leg' hold).elim
    · rcases hother hj with ⟨_, heq⟩ | ⟨hne, hold⟩
      · cases heq
      · exact ((hfirst j hne).2 n leg' hold r hn).elim
  case connected => exact fun hredial => (hredial hfree).elim
  case promised =>
    rintro leg' (hredial | ⟨n, ph, hredial, _⟩) <;> cases hfree.symm.trans hredial
  case named => exact fun _ _ => .inr ⟨leg, k, .inl (update_self ..)⟩

/-- `settle` is called. -/
theorem OnLeg.settles (h : OnLeg g) (hk : g.moves k = some (.swapped leg))
    (hnew : g.chain.calls n = none) :
    OnLeg ((g.call n (.settle leg.route)).setMove k (some (.settling n leg))) := by
  have hne {m ph} (hm : g.chain.calls m = some ph) : m ≠ n := by
    rintro rfl
    cases hnew.symm.trans hm
  have hcall {m ph} (hm : (g.call n (.settle leg.route)).chain.calls m = some ph) :
      m = n ∧ ph = .called (.settle leg.route) ∨ m ≠ n ∧ g.chain.calls m = some ph := of_call hm
  have hmove {j m} (hj : update g.moves k (some (.settling n leg)) j = some m) :
      j = k ∧ m = .settling n leg ∨ j ≠ k ∧ g.moves j = some m := update_eq_some hj
  have hclient := h.unsettled ⟨k, .inl hk⟩
  constructor
  case unasked =>
    intro m hm
    rcases hcall hm with ⟨_, heq⟩ | ⟨_, hold⟩
    · cases heq
    · exact h.unasked m hold
  case deciding =>
    intro m ph hm hdecides
    rcases hcall hm with ⟨_, rfl⟩ | ⟨_, hold⟩
    · cases hdecides
    · exact h.deciding hold hdecides
  case asking =>
    intro m hredial
    obtain ⟨ph, hm, hgoes⟩ := h.asking hredial
    exact ⟨ph, (update_of_ne (hne hm) ..).trans hm, hgoes⟩
  case settle =>
    intro m r hm
    rcases hcall hm with ⟨rfl, heq⟩ | ⟨_, hold⟩
    · cases heq
      exact ⟨k, leg, update_self .., rfl⟩
    · obtain ⟨j, leg', hj, hr⟩ := h.settle hold
      have hjk : j ≠ k := by
        rintro rfl
        cases hk.symm.trans hj
      exact ⟨j, leg', (update_of_ne hjk ..).trans hj, hr⟩
  case looking =>
    intro j m hj
    rcases hmove hj with ⟨_, heq⟩ | ⟨_, hold⟩
    · cases heq
    · obtain ⟨ph, hm, hnot⟩ := h.looking hold
      exact ⟨ph, (update_of_ne (hne hm) ..).trans hm, hnot⟩
  case begun =>
    intro j m leg' hj
    rcases hmove hj with ⟨_, heq⟩ | ⟨_, hold⟩
    · cases heq
      exact ⟨_, update_self ..⟩
    · obtain ⟨ph, hm⟩ := h.begun hold
      exact ⟨ph, (update_of_ne (hne hm) ..).trans hm⟩
  case host => exact h.host
  case unsettled =>
    rintro leg' ⟨j, hj | ⟨m, r, hj, hm⟩⟩
    · rcases hmove hj with ⟨_, heq⟩ | ⟨_, hold⟩
      · cases heq
      · exact h.unsettled ⟨j, .inl hold⟩
    · rcases hmove hj with ⟨_, heq⟩ | ⟨_, hold⟩
      · cases heq
        exact hclient
      · rcases hcall hm with ⟨rfl, _⟩ | ⟨_, holdm⟩
        · obtain ⟨ph, hbegun⟩ := h.begun hold
          exact (hne hbegun rfl).elim
        · exact h.unsettled ⟨j, .inr ⟨m, r, hold, holdm⟩⟩
  case connected => exact h.connected
  case promised =>
    rintro leg' (hredial | ⟨m, ph, hredial, hm, hpromised⟩)
    · exact h.promised (.inl hredial)
    · rcases hcall hm with ⟨_, rfl⟩ | ⟨_, hold⟩
      · cases hpromised
      · exact h.promised (.inr ⟨m, ph, hredial, hold, hpromised⟩)
  case named => exact fun _ _ => .inr ⟨leg, k, .inr ⟨n, _, update_self .., update_self ..⟩⟩

/-- A session that is lost, or a login that is refused. -/
theorem OnLeg.flag (h : OnLeg g) {needs : Bool} (hneeds : needs = false → g.needs = false)
    (refused : Option String) : OnLeg { g with needs, refused } where
  unasked := h.unasked
  deciding := h.deciding
  asking := h.asking
  settle := h.settle
  looking := h.looking
  begun := h.begun
  host := h.host
  unsettled := h.unsettled
  connected := h.connected
  promised := h.promised
  named hnot hredial := h.named (hneeds hnot) hredial

theorem OnLeg.step (h : OnLeg g) (hmeets : StaysOnLeg g e) (hstep : LegStep s g e g') :
    OnLeg g' := by
  cases hstep with
  | chain howns hchain => exact h.chain howns hchain
  | another hnew => exact h.call hnew rfl nofun nofun
  | lost => exact h.flag (by exact nofun) g.refused
  | redial hclient _ _ hfree =>
      exact h.redial (fun _ _ => h.idle fun n hasking => nomatch hfree.symm.trans hasking)
        ⟨_, hclient⟩ nofun nofun
  | consult hredial hnew => exact h.consult hredial hnew
  | @reached n r leg hredial hn hleg =>
      refine h.redial ?_ (h.connected (by rw [hredial]; exact nofun)) nofun ?_
      · refine fun _ _ => h.idle fun m hasking => ?_
        cases hredial.symm.trans hasking
        exact ⟨_, hn⟩
      · rintro _ ⟨⟩
        exact .inr ⟨n, _, hredial, hn, hleg⟩
  | turnedAway hredial | redialFailed hredial =>
      exact h.freed (fun _ _ => h.idle fun n hasking => nomatch hredial.symm.trans hasking) nofun
  | @unreachable n hredial hn =>
      refine h.freed (fun _ _ => h.idle fun m hasking => ?_) nofun
      cases hredial.symm.trans hasking
      rcases hn with hn | hn <;> exact ⟨_, hn⟩
  | @landed leg hredial =>
      have hback := hmeets leg hredial
      have hlanded := h.landed hredial hback
      rw [← hback]
      exact hlanded
  | @dropRedial r hredial hnot =>
      refine h.freed (fun _ _ => h.idle fun n hasking => ?_) fun _ => .inl hmeets
      exact (hnot n (Option.some.inj (hredial.symm.trans hasking))).elim
  | @dropAsking n hredial =>
      obtain ⟨ph, hn, hgoes⟩ := h.asking hredial
      have hdropped : OnLeg (g.dropCall n) := by
        refine h.dropCall hn ?_
        rintro r rfl
        rcases hgoes with hdecides | ⟨a, ha⟩
        · cases hdecides
        · cases ha
      refine hdropped.freed (fun _ _ => hdropped.idle fun m hasking => ?_) fun _ => .inl hmeets
      cases hredial.symm.trans hasking
      exact ⟨_, update_self ..⟩
  | @look k n hnew _ hn =>
      have hcalled : OnLeg (g.call n (.betterThan g.current)) := h.call hn rfl nofun nofun
      refine hcalled.setQuiet (k := k) ?_ trivial ?_
      · show Quiet (g.moves k)
        rw [hnew]
        trivial
      · rintro _ ⟨⟩
        exact ⟨_, update_self .., nofun⟩
  | nothing hk | take hk | blamed hk => exact h.setQuiet (by rw [hk]; trivial) trivial nofun
  | takeFailed hk => exact (h.flag id _).setQuiet (by exact hk ▸ trivial) trivial nofun
  | swap hk hfree => exact h.swap hk hfree hmeets
  | @blame k leg n hk _ hn =>
      have hcalled : OnLeg (g.call n .tunnelCarriedNothing) := h.call hn rfl nofun nofun
      refine hcalled.setQuiet (k := k) ?_ trivial nofun
      show Quiet (g.moves k)
      rw [hk]
      trivial
  | settle hk hn => exact h.settles hk hn
  | @settled k n leg hk hn =>
      refine h.setMove (fun n' leg' hk' r hr => ?_) (.inl fun leg' hk' => ?_) trivial nofun
      · cases hk.symm.trans hk'
        cases hn.symm.trans hr
      · cases hk.symm.trans hk'
  | @dropLooking k n hk =>
      obtain ⟨ph, hn, hnot⟩ := h.looking hk
      refine (h.dropCall hn hnot).setQuiet ?_ trivial nofun
      show Quiet (g.moves k)
      rw [hk]
      trivial
  | dropMove hk =>
      rcases hk with hk | hk
      · exact h.setQuiet (by rw [hk]; trivial) trivial nofun
      · refine h.setMove (fun n leg hk' => ?_) (.inr (hmeets _ hk)) trivial nofun
        cases hk.symm.trans hk'

/-- **The remembered leg is the leg in use**, as long as each redial lands on the leg it left,
moves settle one at a time, and what is dropped leaves the chain naming the leg. -/
theorem leg_remembered (s : Setup) (host : String)
    (h : Reaches (LegStep s) StaysOnLeg (.unconnected host) g) : LegRemembered g := by
  have hg : OnLeg g :=
    h.invariant (onLeg_unconnected host) fun hg hmeets hstep => hg.step hmeets hstep
  intro hredial hmoves hneeds leg hleg
  refine ⟨?_, hg.host hleg⟩
  rcases hg.named hneeds hredial with hnamed | ⟨leg', k, hk | ⟨n, r, hk, _⟩⟩
  · exact hnamed leg hleg
  · cases (hmoves k).symm.trans hk
  · cases (hmoves k).symm.trans hk

end Steps

/-- A laptop with a tunnel home. -/
def travelling (recheck : ℕ) : Setup :=
  { policy := ⟨true, true, true⟩
    endpoints := ⟨"nas.example", some "10.0.0.1"⟩
    recheck := recheck
    tunnelRecheck := 900 }

/-- Its first move settled on the tunnel. -/
def onTunnel (recheck : ℕ) : MountLegs :=
  { chain :=
      { now := 0
        decision := some ⟨⟨.smbOverVpn, some "10.0.0.1"⟩, some (0 + recheck)⟩
        refused := none
        tunnelFailedAt := none
        calls := update (update (fun _ => none) 0
          (some (.done (.better (some (.tunnelled "10.0.0.1")))))) 1 (some (.done .unit))
        log := [.heard 1, .said 1, .opened, .asked 0, .judging 0, .judging 0] }
    client := some (.tunnelled "10.0.0.1")
    host := "10.0.0.1"
    needs := false
    refused := none
    redial := none
    moves := fun _ => none }

theorem reaches_onTunnel (meets : MountLegs → LegEvent → Prop) (recheck : ℕ)
    (hmeets : ∀ g e, StaysOnLeg g e → meets g e) :
    Reaches (LegStep (travelling recheck)) meets (.unconnected "nas.example")
      (onTunnel recheck) := by
  have h := (Reaches.start : Reaches (LegStep (travelling recheck)) meets
    (.unconnected "nas.example") (.unconnected "nas.example"))
  have h := h.next (by exact hmeets _ _ trivial) (@LegStep.look _ _ 0 0 rfl rfl rfl)
  have h := h.next (by exact hmeets _ _ trivial) (.chain rfl (@ChainStep.betterThan _ _ 0 _ rfl))
  have h := h.next (by exact hmeets _ _ trivial) (.chain rfl (@ChainStep.probe _ _ 0 _ _ rfl))
  have h := h.next (by exact hmeets _ _ trivial)
    (.chain rfl (@ChainStep.probed _ _ 0 _ _ false rfl))
  have h := h.next (by exact hmeets _ _ trivial)
    (.chain rfl (@ChainStep.notRefused _ _ 0 _ _ rfl rfl))
  have h := h.next (by exact hmeets _ _ trivial)
    (.chain rfl (@ChainStep.notFailed _ _ 0 _ _ rfl (by rintro ⟨_, hfailed, _⟩; cases hfailed)))
  have h := h.next (by exact hmeets _ _ trivial) (.chain rfl (@ChainStep.ask _ _ 0 _ _ rfl))
  have h := h.next (by exact hmeets _ _ trivial) (.chain rfl (@ChainStep.opened _ _ 0 _ _ rfl))
  have h := h.next (by exact hmeets _ _ trivial) (.chain rfl (@ChainStep.clear _ _ 0 _ _ rfl))
  have h := h.next (by exact hmeets _ _ trivial) (@LegStep.take _ _ 0 0 _ _ rfl rfl rfl)
  have h := h.next ?first (@LegStep.swap _ _ 0 _ rfl rfl)
  have h := h.next (by exact hmeets _ _ trivial) (@LegStep.settle _ _ 0 _ 1 rfl rfl)
  have h := h.next (by exact hmeets _ _ trivial) (.chain rfl (@ChainStep.settle _ _ 1 _ rfl))
  have h := h.next (by exact hmeets _ _ trivial) (@LegStep.settled _ _ 0 1 _ rfl rfl)
  · simpa [MountLegs.setMove, MountLegs.call, MountLegs.unconnected, Chain.said, Chain.setCall,
      Chain.note, Chain.remember, Chain.new, raised, onTunnel, Leg.route, Leg.transport, Leg.host,
      travelling, Transport.isBest] using h
  case first =>
    refine hmeets _ _ fun j hne => ?_
    have hnone {m} (hj : update (update (fun _ => none) 0 (some (Move.looking 0))) 0
        (some (Move.taking (.tunnelled "10.0.0.1"))) j = some m) : False := by
      rw [update_of_ne hne, update_of_ne hne] at hj
      cases hj
    exact ⟨fun leg hj => hnone hj, fun n leg hj => (hnone hj).elim⟩

/-- The session is lost and comes back through the tunnel. -/
theorem redialled_through_tunnel :
    ∃ g, LegRemembered g ∧ g.isLive = true ∧ g.current = .smbOverVpn := by
  have h := reaches_onTunnel StaysOnLeg 60 fun _ _ => id
  have h := h.next (by trivial) (@LegStep.lost _ _ (.tunnelled "10.0.0.1") rfl)
  have h := h.next (by trivial) (@LegStep.redial _ _ (.tunnelled "10.0.0.1") rfl rfl rfl rfl)
  have h := h.next (by trivial) (@LegStep.consult _ _ 2 rfl rfl)
  have h := h.next (by trivial) (.chain rfl (@ChainStep.consult _ _ 2 _ rfl))
  have h := h.next (by trivial) (.chain rfl (@ChainStep.ask _ _ 2 _ _ rfl))
  have h := h.next (by trivial) (.chain rfl (@ChainStep.opened _ _ 2 _ _ rfl))
  have h := h.next (by trivial) (@LegStep.reached _ _ 2 _ _ rfl rfl rfl)
  have h := h.next ?_ (@LegStep.landed _ _ (.tunnelled "10.0.0.1") rfl)
  · exact ⟨_, leg_remembered (travelling 60) "nas.example" h, rfl, rfl⟩
  · rintro leg ⟨⟩
    rfl

/-- Back on campus the redial lands on the direct leg: the configuration still names the
address inside the tunnel. -/
theorem redialled_directly : ∃ g, Reaches (LegStep (travelling 1)) unrestricted
    (.unconnected "nas.example") g ∧ ¬LegRemembered g := by
  have h := reaches_onTunnel unrestricted 1 fun _ _ _ => trivial
  have h := h.next trivial (.chain rfl .tick)
  have h := h.next trivial (@LegStep.lost _ _ (.tunnelled "10.0.0.1") rfl)
  have h := h.next trivial (@LegStep.redial _ _ (.tunnelled "10.0.0.1") rfl rfl rfl rfl)
  have h := h.next trivial (@LegStep.consult _ _ 2 rfl rfl)
  have h := h.next trivial (.chain rfl (@ChainStep.consult _ _ 2 _ rfl))
  have h := h.next trivial (.chain rfl (@ChainStep.probe _ _ 2 _ _ rfl))
  have h := h.next trivial (.chain rfl (@ChainStep.probed _ _ 2 _ _ true rfl))
  have h := h.next trivial (.chain rfl (@ChainStep.remember _ _ 2 _ _ rfl))
  have h := h.next trivial (@LegStep.reached _ _ 2 _ _ rfl rfl rfl)
  have h := h.next trivial (@LegStep.landed _ _ (.direct "nas.example") rfl)
  refine ⟨_, h, fun hremembered => ?_⟩
  have hhost := (hremembered rfl (fun _ => rfl) rfl (.direct "nas.example") rfl).2
  exact absurd hhost (by decide)

end SynologyFilestation.Fuse
