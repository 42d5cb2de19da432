import SynologyFilestation.Connect.Chain

/-!
The two rules of the tunnel: once it has refused it is not asked again before a
`reconsider`, and after a failure not before `tunnel_recheck` has passed, unless
an open worked in between.

`raise_tunnel` looks at both before it asks. The two calls that go past it, on
the leg the chain remembers, do not.
-/

namespace SynologyFilestation.Connect

open Function Library

/-- How the rules are read: whether a `reconsider` lifts the quiet after a
failure too, and whether a failure of `another_smb_connection` earns it. The
comments say that it does, and that it does not. -/
structure Reading where
  lifts : Bool
  beside : Bool

/-- A refusal stands, by the log. -/
def refusalStands : List Note → Bool
  | [] => false
  | .refused :: _ => true
  | .refusalLifted :: _ => false
  | _ :: earlier => refusalStands earlier

/-- The failure that still counts. -/
def failureStands (r : Reading) : List Note → Option ℕ
  | [] => none
  | .failed time :: _ => some time
  | .opened :: _ => none
  | .failedBeside time :: earlier => if r.beside then some time else failureStands r earlier
  | .quietLifted :: earlier => if r.lifts then none else failureStands r earlier
  | _ :: earlier => failureStands r earlier

/-- The tunnel was asked by the rules, each time. -/
def AskedByTheRules (r : Reading) (tunnelRecheck : ℕ) : List Note → Prop
  | [] => True
  | .asked time :: earlier =>
      (refusalStands earlier = false ∧
        ∀ failed, failureStands r earlier = some failed → failed + tunnelRecheck ≤ time) ∧
      AskedByTheRules r tunnelRecheck earlier
  | _ :: earlier => AskedByTheRules r tunnelRecheck earlier

/-- A failure that call `n` has been told of and not written down. -/
def Chain.Telling (c : Chain) (n : ℕ) (e : TunnelUnavailable) : Prop :=
  (∃ p, c.calls n = some (.failing p e)) ∨ ∃ cached, c.calls n = some (.failingRemembered cached e)

/-- Whoever asks the tunnel, the chain's record is against neither rule and
complete: every failure was written down, none by a call that does not write,
and no success late. -/
def Recorded (r : Reading) (s : Setup) (c : Chain) : ChainEvent → Prop
  | .ask _ => c.refused = none ∧ ¬c.FailedRecently s ∧ ∀ n e, ¬c.Telling n e
  | .failed n e => ∀ host, c.calls n = some (.waiting .beside host) →
      r.beside = false ∧ ∃ why, e = .transient why
  | .clear _ => failureStands r c.log = none
  | .lift _ => r.lifts = false → ∀ failed, failureStands r c.log = some failed →
      failed + s.tunnelRecheck ≤ c.now
  | _ => True

/-- What the log has against an open, the chain or a call knows. -/
structure Known (r : Reading) (s : Setup) (c : Chain) : Prop where
  asked : AskedByTheRules r s.tunnelRecheck c.log
  refusal : refusalStands c.log = true → c.refused ≠ none ∨ ∃ n why, c.Telling n (.refused why)
  failure : ∀ failed, failureStands r c.log = some failed → failed ≤ c.now ∧
    (failed + s.tunnelRecheck ≤ c.now ∨
      (∃ at_, c.tunnelFailedAt = some at_ ∧ failed ≤ at_) ∨
      ∃ n why, c.Telling n (.transient why))

section Steps

variable {r : Reading} {s : Setup} {c c' : Chain} {n : ℕ} {ph : Phase} {e : ChainEvent}

theorem known_new (r : Reading) (s : Setup) : Known r s .new where
  asked := trivial
  refusal := nofun
  failure := nofun

/-- A failure is told on while another call moves. -/
theorem telling_setCall {m : ℕ} {e : TunnelUnavailable} (hquiet : ∀ e, ¬c.Telling n e)
    (h : c.Telling m e) : (c.setCall n ph).Telling m e := by
  have hne : m ≠ n := by
    rintro rfl
    exact hquiet e h
  simpa [Chain.Telling, Chain.setCall, hne] using h

/-- A call moves that has nothing to write down. -/
theorem Known.setCall (hc : Known r s c) (hquiet : ∀ e, ¬c.Telling n e) (ph : Phase) :
    Known r s (c.setCall n ph) where
  asked := hc.asked
  refusal hstands := by
    rcases hc.refusal hstands with hknown | ⟨m, why, htelling⟩
    · exact .inl hknown
    · exact .inr ⟨m, why, telling_setCall hquiet htelling⟩
  failure failed hstands := by
    obtain ⟨hpast, hover | hknown | ⟨m, why, htelling⟩⟩ := hc.failure failed hstands
    · exact ⟨hpast, .inl hover⟩
    · exact ⟨hpast, .inr (.inl hknown)⟩
    · exact ⟨hpast, .inr (.inr ⟨m, why, telling_setCall hquiet htelling⟩)⟩

/-- What call `n` is at tells that it has nothing to write down. -/
theorem quiet_of (hn : c.calls n = some ph) (hfailing : ∀ p e, ph ≠ .failing p e)
    (hremembered : ∀ cached e, ph ≠ .failingRemembered cached e) : ∀ e, ¬c.Telling n e := by
  rintro e (⟨p, h⟩ | ⟨cached, h⟩)
  · exact hfailing p e (Option.some.inj (hn.symm.trans h))
  · exact hremembered cached e (Option.some.inj (hn.symm.trans h))

theorem telling_unique {e e' : TunnelUnavailable} (h : c.Telling n e) (h' : c.Telling n e') :
    e = e' := by
  rcases h with ⟨p, h⟩ | ⟨cached, h⟩ <;> rcases h' with ⟨p', h'⟩ | ⟨cached', h'⟩ <;>
    cases h.symm.trans h' <;> rfl

/-- A note that is about neither rule. -/
def Aside : Note → Prop
  | .judging _ | .remembered _ | .said _ | .heard _ => True
  | _ => False

theorem Known.aside (hc : Known r s c) (what : Note) (h : Aside what) :
    Known r s (c.note what) := by
  cases what <;> first | exact h.elim | exact ⟨hc.asked, hc.refusal, hc.failure⟩

theorem Known.remember (hc : Known r s c) (route : Route) :
    Known r s (Chain.remember s c route) :=
  ⟨hc.asked, hc.refusal, hc.failure⟩

/-- The chain's record is complete and against neither rule: so is the log. -/
theorem Known.ask (hc : Known r s c) (hrefused : c.refused = none)
    (hfailed : ¬c.FailedRecently s) (htelling : ∀ n e, ¬c.Telling n e) :
    Known r s (c.note (.asked c.now)) where
  asked := by
    refine ⟨⟨?_, ?_⟩, hc.asked⟩
    · rw [Bool.eq_false_iff]
      intro hstands
      rcases hc.refusal hstands with hknown | ⟨m, why, h⟩
      · exact hknown hrefused
      · exact htelling m _ h
    · intro failed hstands
      obtain ⟨_, hover | ⟨at_, hat, hle⟩ | ⟨m, why, h⟩⟩ := hc.failure failed hstands
      · exact hover
      · by_contra hlt
        exact hfailed ⟨at_, hat, by omega⟩
      · exact (htelling m _ h).elim
  refusal := hc.refusal
  failure := hc.failure

/-- An open that worked leaves nothing for the second rule. -/
theorem Known.opened (hc : Known r s c) : Known r s (c.note .opened) :=
  ⟨hc.asked, hc.refusal, nofun⟩

/-- A refusal, told to a call that will write it down. -/
theorem Known.refused (hc : Known r s c) (hquiet : ∀ e, ¬c.Telling n e) {why : String}
    (htold : (c.setCall n ph).Telling n (.refused why)) :
    Known r s ((c.note .refused).setCall n ph) :=
  have hmoved := hc.setCall hquiet ph
  ⟨hmoved.asked, fun _ => .inr ⟨n, why, htold⟩, hmoved.failure⟩

/-- Another failure. -/
theorem Known.failed (hc : Known r s c) (hquiet : ∀ e, ¬c.Telling n e) {why : String}
    (htold : (c.setCall n ph).Telling n (.transient why)) :
    Known r s ((c.note (.failed c.now)).setCall n ph) where
  asked := hc.asked
  refusal := (hc.setCall hquiet ph).refusal
  failure := by
    intro failed hstands
    obtain rfl := Option.some.inj hstands
    exact ⟨Nat.le_refl _, .inr (.inr ⟨n, why, htold⟩)⟩

/-- A failure that no call writes down does not count, or it is no refusal. -/
theorem Known.failedBeside (hc : Known r s c) (hbeside : r.beside = false) (time : ℕ) :
    Known r s (c.note (.failedBeside time)) where
  asked := hc.asked
  refusal := hc.refusal
  failure := by
    intro failed hstands
    apply hc.failure failed
    simpa [Chain.note, failureStands, hbeside] using hstands

/-- A failure is written down. -/
theorem Known.write (hc : Known r s c) {e : TunnelUnavailable} (htold : c.Telling n e) :
    Known r s ((c.tunnelFailed e).setCall n ph) := by
  have hother : ∀ m e', c.Telling m e' → ((c.tunnelFailed e).setCall n ph).Telling m e' ∨
      e' = e := by
    intro m e' h
    rcases eq_or_ne m n with rfl | hne
    · exact .inr (telling_unique h htold)
    · left
      cases e <;> simpa [Chain.Telling, Chain.setCall, Chain.tunnelFailed, hne] using h
  cases e with
  | refused why =>
      refine ⟨hc.asked, fun _ => .inl nofun, ?_⟩
      intro failed hstands
      obtain ⟨hpast, hover | hknown | ⟨m, why', h⟩⟩ := hc.failure failed hstands
      · exact ⟨hpast, .inl hover⟩
      · exact ⟨hpast, .inr (.inl hknown)⟩
      · rcases hother m _ h with h | h
        · exact ⟨hpast, .inr (.inr ⟨m, why', h⟩)⟩
        · cases h
  | transient why =>
      refine ⟨hc.asked, ?_, ?_⟩
      · intro hstands
        rcases hc.refusal hstands with hknown | ⟨m, why', h⟩
        · exact .inl hknown
        · rcases hother m _ h with h | h
          · exact .inr ⟨m, why', h⟩
          · cases h
      · intro failed hstands
        have hpast := (hc.failure failed hstands).1
        exact ⟨hpast, .inr (.inl ⟨c.now, rfl, hpast⟩)⟩

theorem Known.step (hc : Known r s c) (hrecorded : Recorded r s c e)
    (hstep : ChainStep s c e c') : Known r s c' := by
  cases hstep with
  | tick =>
      refine ⟨hc.asked, hc.refusal, fun failed hstands => ?_⟩
      obtain ⟨hpast, h⟩ := hc.failure failed hstands
      exact ⟨Nat.le_succ_of_le hpast, h.imp_left Nat.le_succ_of_le⟩
  | @call n entry hnew =>
      have hquiet : ∀ e, ¬c.Telling n e := by simp [Chain.Telling, hnew]
      have hsaid : Known r s (c.said n entry) := by
        cases entry <;> first | exact hc | exact hc.aside (.said n) trivial
      refine hsaid.setCall (fun e h => hquiet e ?_) _
      cases entry <;> exact h
  | consult hn | betterThan hn | another hn | wasRefused hn | notRefused hn | failedRecently hn
  | notFailed hn | dropProbe hn | dropOpen hn | probed hn =>
      exact hc.setCall (quiet_of hn nofun nofun) _
  | settle hn =>
      exact ((hc.remember _).aside (.heard _) trivial).setCall (quiet_of hn nofun nofun) _
  | carriedNothing hn =>
      refine Known.setCall ?_ (by exact quiet_of hn nofun nofun) _
      refine ⟨hc.asked, hc.refusal, fun failed hstands => ?_⟩
      obtain rfl := Option.some.inj hstands
      exact ⟨Nat.le_refl _, .inr (.inl ⟨_, rfl, Nat.le_refl _⟩)⟩
  | clearDecision hn =>
      refine Known.setCall ?_ (by exact quiet_of hn nofun nofun) _
      exact ⟨hc.asked, hc.refusal, hc.failure⟩
  | clearRefused hn =>
      refine Known.setCall ?_ (by exact quiet_of hn nofun nofun) _
      exact ⟨hc.asked, fun hstands => (nomatch hstands), hc.failure⟩
  | clearFailed hn =>
      refine Known.setCall (Known.aside ?_ (.heard _) trivial) (by exact quiet_of hn nofun nofun) _
      refine ⟨hc.asked, hc.refusal, fun failed hstands => ?_⟩
      cases hlifts : r.lifts with
      | true => simp [Chain.note, failureStands, hlifts] at hstands
      | false =>
          have hstands : failureStands r c.log = some failed := by
            simpa [Chain.note, failureStands, hlifts] using hstands
          exact ⟨(hc.failure failed hstands).1, .inl (hrecorded hlifts failed hstands)⟩
  | probe hn => exact (hc.aside (.judging _) trivial).setCall (quiet_of hn nofun nofun) _
  | @ask n way host hn =>
      obtain ⟨hrefused, hfailed, htelling⟩ := hrecorded
      have hasked := (hc.aside (.judging n) trivial).ask hrefused hfailed htelling
      exact hasked.setCall (quiet_of hn nofun nofun) _
  | opened hn => exact hc.opened.setCall (quiet_of hn nofun nofun) _
  | @failed n way host e hn =>
      have hquiet := quiet_of hn nofun nofun
      cases way with
      | beside =>
          obtain ⟨hbeside, why, rfl⟩ := hrecorded host hn
          exact (hc.failedBeside hbeside _).setCall hquiet _
      | raised p =>
          have htold : (c.setCall n (.failing p e)).Telling n e :=
            .inl ⟨p, by simp [Chain.setCall]⟩
          cases e with
          | refused why => exact hc.refused hquiet htold
          | transient why => exact hc.failed hquiet htold
      | remembered cached =>
          have htold : (c.setCall n (.failingRemembered cached e)).Telling n e :=
            .inr ⟨cached, by simp [Chain.setCall]⟩
          cases e with
          | refused why => exact hc.refused hquiet htold
          | transient why => exact hc.failed hquiet htold
  | clear hn =>
      refine Known.setCall ?_ (by exact quiet_of hn nofun nofun) _
      refine ⟨hc.asked, hc.refusal, fun failed hstands => ?_⟩
      cases hrecorded.symm.trans hstands
  | write hn => exact hc.write (.inl ⟨_, hn⟩)
  | writeRemembered hn => exact hc.write (.inr ⟨_, hn⟩)
  | forget hn =>
      refine Known.setCall ?_ (fun e => ?_) _
      · unfold Chain.forget
        split
        · exact ⟨hc.asked, hc.refusal, hc.failure⟩
        · exact hc
      · have hquiet := quiet_of hn nofun nofun e
        unfold Chain.forget
        split <;> exact hquiet
  | remember hn =>
      exact ((hc.remember _).aside (.remembered _) trivial).setCall (quiet_of hn nofun nofun) _

variable (r s c)

/-- **The rules of the tunnel**, where whoever asks it finds the chain's record
complete and against neither. -/
theorem tunnel_asked_by_the_rules (h : Reaches (ChainStep s) (Recorded r s) .new c) :
    AskedByTheRules r s.tunnelRecheck c.log :=
  (h.invariant (known_new r s) fun hc hrecorded hstep => hc.step hrecorded hstep).asked

end Steps

/-! ### Runs of either kind -/

/-- A NAS that is reached through the tunnel. -/
def tunnelled : Setup :=
  { policy := ⟨true, true, true⟩
    endpoints := ⟨"e4e-nas.ucsd.edu", some "10.90.24.1"⟩
    recheck := 60
    tunnelRecheck := 1 }

/-- Nobody is told anything, if the calls that move are not. -/
theorem untold_setCall {c : Chain} {n : ℕ} {ph : Phase} (hc : ∀ m e, m ≠ n → ¬c.Telling m e)
    (hfailing : ∀ p e, ph ≠ .failing p e) (hremembered : ∀ r e, ph ≠ .failingRemembered r e) :
    ∀ m e, ¬(c.setCall n ph).Telling m e := by
  rintro m e (⟨p, hm⟩ | ⟨cached, hm⟩) <;> rcases Chain.of_setCall hm with ⟨_, heq⟩ | ⟨hne, hm⟩
  · exact hfailing p e heq.symm
  · exact hc m e hne (.inl ⟨p, hm⟩)
  · exact hremembered cached e heq.symm
  · exact hc m e hne (.inr ⟨cached, hm⟩)

/-- The tunnel fails, and is asked again when its quiet is over. -/
theorem failed_then_asked : ∃ c : Chain, AskedByTheRules ⟨true, false⟩ 1 c.log ∧
    Note.asked 0 ∈ c.log ∧ Note.failed 0 ∈ c.log ∧ Note.asked 1 ∈ c.log := by
  have h := (Reaches.start :
    Reaches (ChainStep tunnelled) (Recorded ⟨true, false⟩ tunnelled) .new .new)
  have h := h.next (by trivial) (@ChainStep.call _ _ 0 (.decide .route) rfl)
  have h := h.next (by trivial) (@ChainStep.consult _ _ 0 .route rfl)
  have h := h.next (by trivial) (@ChainStep.probe _ _ 0 (.deciding .route) true rfl)
  have h := h.next (by trivial) (@ChainStep.probed _ _ 0 (.deciding .route) true false rfl)
  have h := h.next (by trivial) (@ChainStep.notRefused _ _ 0 (.deciding .route) _ rfl rfl)
  have h := h.next (by trivial) (@ChainStep.notFailed _ _ 0 (.deciding .route) _ rfl nofun)
  have h := h.next
    (by
      refine ⟨rfl, nofun, untold_setCall ?_ nofun nofun⟩
      intro m e hm
      simp [Chain.Telling, Chain.setCall, Chain.note, Chain.said, Chain.new, hm])
    (@ChainStep.ask _ _ 0 (.raised (.deciding .route)) _ rfl)
  have h := h.next (by rintro host ⟨⟩)
    (@ChainStep.failed _ _ 0 (.raised (.deciding .route)) _ (.transient "timed out") rfl)
  have h := h.next (by trivial) (@ChainStep.write _ _ 0 (.deciding .route) _ rfl)
  have h := h.next (by trivial) ChainStep.tick
  have h := h.next (by trivial) (@ChainStep.call _ _ 1 (.betterThan .https) rfl)
  have h := h.next (by trivial) (@ChainStep.betterThan _ _ 1 .https rfl)
  have h := h.next (by trivial) (@ChainStep.probe _ _ 1 (.betterThan .https) true rfl)
  have h := h.next (by trivial) (@ChainStep.probed _ _ 1 (.betterThan .https) true false rfl)
  have h := h.next (by trivial) (@ChainStep.notRefused _ _ 1 (.betterThan .https) _ rfl rfl)
  have hquiet : ∀ at_, some 0 = some at_ → ¬1 < at_ + 1 := by rintro at_ ⟨⟩; decide
  have h := h.next (by trivial) (@ChainStep.notFailed _ _ 1 (.betterThan .https) _ rfl
    fun ⟨at_, hat, hlt⟩ => hquiet at_ hat hlt)
  have h := h.next
    (by
      refine ⟨rfl, fun ⟨at_, hat, hlt⟩ => hquiet at_ hat hlt, untold_setCall ?_ nofun nofun⟩
      intro m e hm
      rcases eq_or_ne m 0 with rfl | hne
      · simp [Chain.Telling, Chain.setCall, Chain.note, Chain.said, Chain.tunnelFailed, notRaised,
          fallBack, tunnelled]
      · simp [Chain.Telling, Chain.setCall, Chain.note, Chain.said, Chain.tunnelFailed, Chain.new,
          hm, hne])
    (@ChainStep.ask _ _ 1 (.raised (.betterThan .https)) _ rfl)
  have hall := tunnel_asked_by_the_rules ⟨true, false⟩ tunnelled _ h
  refine ⟨_, hall, ?_⟩
  simp [Chain.note, Chain.setCall, Chain.said, Chain.tunnelFailed, Chain.new, failureNote]

/-- `reach_smb` on the leg it remembers asks the tunnel, whatever is written down. -/
theorem reachSmb_asks {s : Setup} {c : Chain} (h : Reaches (ChainStep s) unrestricted .new c)
    {n : ℕ} {host : String} (hcached : c.cached = some ⟨.smbOverVpn, some host⟩)
    (hnew : c.calls n = none) :
    ∃ c', Reaches (ChainStep s) unrestricted .new c' ∧
      c'.log = .asked c.now :: .judging n :: c.log := by
  have h := h.next (by trivial) (@ChainStep.call _ _ n (.decide .reachSmb) hnew)
  have h := h.next (by trivial)
    (@ChainStep.consult _ _ n .reachSmb (by simp [Chain.setCall, Chain.said]))
  have hconsult : consult s .reachSmb
      ((c.said n (.decide .reachSmb)).setCall n (.called (.decide .reachSmb))).cached =
        .asking (.remembered ⟨.smbOverVpn, some host⟩) host := by
    have hsame : ((c.said n (.decide .reachSmb)).setCall n (.called (.decide .reachSmb))).cached =
        c.cached := rfl
    rw [hsame, hcached]
    rfl
  rw [hconsult] at h
  have h := h.next (by trivial) (@ChainStep.ask _ _ n (.remembered ⟨.smbOverVpn, some host⟩) host
    (by simp [Chain.setCall]))
  exact ⟨_, h, rfl⟩

/-- The chain has settled on the tunnel. -/
theorem settles_on_the_tunnel :
    ∃ c, Reaches (ChainStep tunnelled) unrestricted .new c ∧ c.now = 0 ∧
      c.decision = some ⟨⟨.smbOverVpn, some "10.90.24.1"⟩, some 60⟩ ∧
      ∀ n, n ≠ 0 → c.calls n = none := by
  have h := (Reaches.start : Reaches (ChainStep tunnelled) unrestricted .new .new)
  have h := h.next (by trivial) (@ChainStep.call _ _ 0 (.decide .route) rfl)
  have h := h.next (by trivial) (@ChainStep.consult _ _ 0 .route rfl)
  have h := h.next (by trivial) (@ChainStep.probe _ _ 0 (.deciding .route) true rfl)
  have h := h.next (by trivial) (@ChainStep.probed _ _ 0 (.deciding .route) true false rfl)
  have h := h.next (by trivial) (@ChainStep.notRefused _ _ 0 (.deciding .route) _ rfl rfl)
  have h := h.next (by trivial) (@ChainStep.notFailed _ _ 0 (.deciding .route) _ rfl nofun)
  have h := h.next (by trivial) (@ChainStep.ask _ _ 0 (.raised (.deciding .route)) _ rfl)
  have h := h.next (by trivial) (@ChainStep.opened _ _ 0 (.raised (.deciding .route)) _ rfl)
  have h := h.next (by trivial) (@ChainStep.clear _ _ 0 (.deciding .route) _ rfl)
  have h := h.next (by trivial) (@ChainStep.remember _ _ 0 .route _ rfl)
  refine ⟨_, h, rfl, rfl, ?_⟩
  intro n hn
  simp [Chain.setCall, Chain.note, Chain.said, Chain.remember, Chain.new, hn]

/-- The tunnel opens and carries nothing, the chain is told, and the next
`reach_smb` raises it again; and it refuses an `another_smb_connection`, and the
next `reach_smb` asks it again. -/
theorem remembered_tunnel_asked_again :
    (∃ (c : Chain) (failed : ℕ), Reaches (ChainStep tunnelled) unrestricted .new c ∧ ∀ r : Reading,
      failureStands r c.log = some failed ∧ ¬AskedByTheRules r tunnelled.tunnelRecheck c.log) ∧
    ∃ c : Chain, Reaches (ChainStep tunnelled) unrestricted .new c ∧
      refusalStands c.log = true ∧
      ∀ r : Reading, ¬AskedByTheRules r tunnelled.tunnelRecheck c.log := by
  obtain ⟨c, h, hnow, hdecision, hnew⟩ := settles_on_the_tunnel
  constructor
  · have h := h.next (by trivial)
      (@ChainStep.call _ _ 1 .tunnelCarriedNothing (hnew 1 (by decide)))
    have h := h.next (by trivial) (@ChainStep.carriedNothing _ _ 1 (by simp [Chain.setCall]))
    obtain ⟨c', h, hlog⟩ := @reachSmb_asks _ _ h 2 "10.90.24.1"
      (by simp [Chain.cached, Chain.setCall, Chain.note, Chain.said, Chain.tunnelFailed,
        hdecision, hnow])
      (by simp [Chain.setCall, Chain.note, Chain.said, Chain.tunnelFailed, hnew])
    refine ⟨c', 0, h, fun r => ⟨?_, ?_⟩⟩
    · simp [hlog, Chain.setCall, Chain.note, Chain.said, Chain.tunnelFailed, failureStands, hnow]
    · rw [hlog]
      rintro ⟨⟨_, hquiet⟩, _⟩
      exact Nat.not_succ_le_self c.now (hquiet c.now rfl)
  · have h := h.next (by trivial)
      (@ChainStep.call _ _ 1 .anotherSmbConnection (hnew 1 (by decide)))
    have h := h.next (by trivial) (@ChainStep.another _ _ 1 (by simp [Chain.setCall, Chain.said]))
    have h := h.next (by trivial) (@ChainStep.ask _ _ 1 .beside "10.90.24.1"
      (by simp [Chain.setCall, Chain.said, Chain.current, anotherSmbConnection, hdecision]))
    have h := h.next (by trivial) (@ChainStep.failed _ _ 1 .beside "10.90.24.1"
      (.refused "AUTH_FAILED") (by simp [Chain.setCall]))
    obtain ⟨c', h, hlog⟩ := @reachSmb_asks _ _ h 2 "10.90.24.1"
      (by simp [Chain.cached, Chain.setCall, Chain.note, Chain.said, hdecision, hnow])
      (by simp [Chain.setCall, Chain.note, Chain.said, hnew])
    refine ⟨c', h, ?_, ?_⟩
    · rw [hlog]
      rfl
    · rw [hlog]
      rintro r ⟨⟨hstands, _⟩, _⟩
      cases hstands

end SynologyFilestation.Connect
