import SynologyFilestation.Connect.Chain

/-!
The tunnel that connections share (`SharedTunnel`, `through` and `OpenVpnTunnel::open` in
`connect/src/openvpn.rs`).

The tunnel is found by a weak handle. It is there for as long as a caller has it in hand or a
connection goes through it, and one that has stopped does not start again. The lock around the
handle is held while a tunnel is raised. A caller may be dropped wherever it is, by the deadline of
`open`.

Tunnels are numbered as they are raised. `logins` counts the times that one was begun to be raised,
each of which is a login; no step depends on it.
-/

namespace SynologyFilestation.Connect

open Function Library

/-- Where a call of `through` is. -/
inductive SharedPhase
  /-- For the lock. -/
  | waiting
  | raising
  | connecting (tunnel : ℕ) (fresh : Bool)
  /-- The connection that was returned, for as long as it is there. -/
  | connected (tunnel : ℕ) (fresh : Bool)
  | failed (e : TunnelUnavailable)

/-- The tunnel that a caller keeps up, and whether it raised it. -/
def SharedPhase.tunnel : SharedPhase → Option (ℕ × Bool)
  | .connecting t fresh | .connected t fresh => some (t, fresh)
  | .waiting | .raising | .failed _ => none

structure SharedTunnel where
  lock : Option ℕ
  /-- What the weak handle was made of. -/
  held : Option ℕ
  raised : ℕ
  /-- `Mux::is_running`. -/
  running : ℕ → Bool
  callers : ℕ → Option SharedPhase
  logins : ℕ

namespace SharedTunnel

def initial : SharedTunnel where
  lock := none
  held := none
  raised := 0
  running := fun _ => false
  callers := fun _ => none
  logins := 0

variable (s : SharedTunnel)

def setCaller (n : ℕ) (phase : SharedPhase) : SharedTunnel :=
  { s with callers := update s.callers n (some phase) }

def tunnelOf (n : ℕ) : Option (ℕ × Bool) := (s.callers n).bind SharedPhase.tunnel

/-- A weak handle of the tunnel can be upgraded. -/
def Used (t : ℕ) : Prop := ∃ n fresh, s.tunnelOf n = some (t, fresh)

/-- What `held.upgrade().filter(Mux::is_running)` finds. -/
def Carries (t : ℕ) : Prop := s.Used t ∧ s.running t = true

end SharedTunnel

inductive SharedEvent
  | ask (n : ℕ)
  | lock (n : ℕ)
  | up (n : ℕ)
  | raiseFails (n : ℕ)
  | connects (n : ℕ)
  | connectFails (n : ℕ)
  | drop (n : ℕ)
  | stops (t : ℕ)

/-- The steps of callers, and of tunnels. -/
inductive SharedStep (s : SharedTunnel) : SharedEvent → SharedTunnel → Prop
  | ask {n} (hnew : s.callers n = none) : SharedStep s (.ask n) (s.setCaller n .waiting)
  /-- The tunnel is up already. -/
  | reuse {n t} (hn : s.callers n = some .waiting) (hfree : s.lock = none)
      (hheld : s.held = some t) (hcarries : s.Carries t) :
      SharedStep s (.lock n) (s.setCaller n (.connecting t false))
  /-- It is not, and the lock is kept to raise one. -/
  | raise {n} (hn : s.callers n = some .waiting) (hfree : s.lock = none)
      (hnone : ∀ t, s.held = some t → ¬s.Carries t) :
      SharedStep s (.lock n)
        ({ s with lock := some n, logins := s.logins + 1 }.setCaller n .raising)
  | up {n} (hn : s.callers n = some .raising) :
      SharedStep s (.up n)
        ({ s with
          lock := none
          held := some s.raised
          raised := s.raised + 1
          running := update s.running s.raised true }.setCaller n (.connecting s.raised true))
  | raiseFails {n e} (hn : s.callers n = some .raising) :
      SharedStep s (.raiseFails n) ({ s with lock := none }.setCaller n (.failed e))
  | connects {n t fresh} (hn : s.callers n = some (.connecting t fresh)) :
      SharedStep s (.connects n) (s.setCaller n (.connected t fresh))
  /-- The tunnel is kept, if another caller has it. -/
  | connectFails {n t fresh e} (hn : s.callers n = some (.connecting t fresh)) :
      SharedStep s (.connectFails n) (s.setCaller n (.failed e))
  /-- A caller is dropped with all that it has, or a connection is. -/
  | drop {n phase} (hn : s.callers n = some phase) :
      SharedStep s (.drop n)
        { s with
          lock := if s.lock = some n then none else s.lock
          callers := update s.callers n none }
  | stops {t} : SharedStep s (.stops t) { s with running := update s.running t false }

namespace SharedTunnel

variable {s s' u : SharedTunnel} {e : SharedEvent} {n m t : ℕ}

/-! ### What a step does -/

theorem callers_setCaller (phase : SharedPhase) (m : ℕ) :
    (s.setCaller n phase).callers m = if m = n then some phase else s.callers m := by
  rw [setCaller]
  rcases eq_or_ne m n with rfl | hne
  · simp
  · simp [hne]

theorem tunnelOf_setCaller (phase : SharedPhase) (m : ℕ) :
    (s.setCaller n phase).tunnelOf m = if m = n then phase.tunnel else s.tunnelOf m := by
  rw [tunnelOf, callers_setCaller]
  split
  · rfl
  · rfl

/-- What a caller has after a step: a tunnel that it had, that carries, or that it has raised. -/
inductive Gets (s : SharedTunnel) (event : SharedEvent) (m : ℕ) : Option (ℕ × Bool) → Prop
  | same : Gets s event m (s.tunnelOf m)
  | none : Gets s event m none
  | found {tunnel} (hevent : event = .lock m) (hheld : s.held = some tunnel)
      (hcarries : s.Carries tunnel) : Gets s event m (some (tunnel, false))
  | raised (hevent : event = .up m) (hm : s.callers m = some .raising) :
      Gets s event m (some (s.raised, true))

theorem gets (h : SharedStep s e s') (m : ℕ) : Gets s e m (s'.tunnelOf m) := by
  cases h with
  | ask hnew =>
      rw [tunnelOf_setCaller]
      split
      · exact .none
      · exact .same
  | reuse hn hfree hheld hcarries =>
      rw [tunnelOf_setCaller]
      split
      case isTrue heq =>
        subst heq
        exact .found rfl hheld hcarries
      case isFalse => exact .same
  | raise | raiseFails | connectFails =>
      rw [tunnelOf_setCaller]
      split
      · exact .none
      · exact .same
  | up hn =>
      rw [tunnelOf_setCaller]
      split
      case isTrue heq =>
        subst heq
        exact .raised rfl hn
      case isFalse => exact .same
  | @connects n t fresh hn =>
      rw [tunnelOf_setCaller]
      split
      case isTrue heq =>
        subst heq
        have hsame : (SharedPhase.connected t fresh).tunnel = s.tunnelOf m := by
          rw [tunnelOf, hn]
          rfl
        rw [hsame]
        exact .same
      case isFalse => exact .same
  | @drop n phase hn =>
      show Gets s _ m ((update s.callers n none m).bind SharedPhase.tunnel)
      rcases eq_or_ne m n with rfl | hne
      · rw [update_self]
        exact .none
      · rw [update_of_ne hne]
        exact .same
  | stops => exact .same

/-- Nothing starts running but what is raised. -/
theorem running_before (h : SharedStep s e s') (hrunning : s'.running t = true) :
    s.running t = true ∨ t = s.raised ∧ ∃ n, e = .up n := by
  cases h with
  | ask | reuse | raise | raiseFails | connects | connectFails | drop => exact .inl hrunning
  | @up n hn =>
      rcases eq_or_ne t s.raised with rfl | hne
      · exact .inr ⟨rfl, n, rfl⟩
      · have hafter : update s.running s.raised true t = true := hrunning
        rw [update_of_ne hne] at hafter
        exact .inl hafter
  | @stops stopped =>
      have hafter : update s.running stopped false t = true := hrunning
      rcases eq_or_ne t stopped with rfl | hne
      · rw [update_self] at hafter
        cases hafter
      · rw [update_of_ne hne] at hafter
        exact .inl hafter

/-- A tunnel that carries after a step did so before, or has just been raised. -/
theorem carries_before (h : SharedStep s e s') (hcarries : s'.Carries t) :
    s.Carries t ∨ t = s.raised ∧ ∃ n, e = .up n := by
  obtain ⟨⟨m, fresh, hm⟩, hrunning⟩ := hcarries
  rcases running_before h hrunning with hrunning | hraised
  · have hgets := gets h m
    rw [hm] at hgets
    generalize hx : some (t, fresh) = x at hgets
    cases hgets with
    | same => exact .inl ⟨⟨m, fresh, hx.symm⟩, hrunning⟩
    | none => cases hx
    | found hevent hheld hcarries =>
        obtain ⟨rfl, -⟩ := Prod.mk.inj (Option.some.inj hx)
        exact .inl hcarries
    | raised hevent hm =>
        obtain ⟨rfl, -⟩ := Prod.mk.inj (Option.some.inj hx)
        exact .inr ⟨rfl, m, hevent⟩
  · exact .inr hraised

theorem raised_le (h : SharedStep s e s') : s.raised ≤ s'.raised := by
  cases h with
  | up => exact Nat.le_succ _
  | _ => exact Nat.le_refl _

/-! ### One tunnel -/

/-- The lock, the handle and what is in use. -/
structure Sound (s : SharedTunnel) : Prop where
  lock : ∀ n, s.lock = some n ↔ s.callers n = some .raising
  held : ∀ t, s.Carries t → s.held = some t
  alone : ∀ n t, s.lock = some n → ¬s.Carries t
  numbered : ∀ n t fresh, s.tunnelOf n = some (t, fresh) → t < s.raised
  fresh : ∀ n m t, s.tunnelOf n = some (t, true) → s.tunnelOf m = some (t, true) → n = m

theorem sound_initial : initial.Sound where
  lock n := ⟨fun h => (by cases h), fun h => (by cases h)⟩
  held t h := by
    obtain ⟨⟨n, fresh, hn⟩, -⟩ := h
    cases hn
  alone n t h := by cases h
  numbered n t fresh h := by cases h
  fresh n m t h := by cases h

namespace Sound

/-- The lock changes hands with the one caller that goes on. -/
theorem lock_step (hs : s.Sound) (h : SharedStep s e s') (m : ℕ) :
    s'.lock = some m ↔ s'.callers m = some .raising := by
  have hkept {n : ℕ} {phase phase' : SharedPhase} (hn : s.callers n = some phase)
      (hbefore : phase ≠ .raising) (hafter : phase' ≠ .raising) :
      s.lock = some m ↔ (s.setCaller n phase').callers m = some .raising := by
    rw [hs.lock m, callers_setCaller]
    split
    case isTrue heq => simp [heq, hn, hbefore, hafter]
    case isFalse => rfl
  have hreleased {n : ℕ} {phase : SharedPhase} (hn : s.callers n = some .raising)
      (hafter : phase ≠ .raising) : none = some m ↔
        (s.setCaller n phase).callers m = some .raising := by
    rw [callers_setCaller]
    split
    case isTrue => simp [hafter]
    case isFalse hne =>
      simp only [reduceCtorEq, false_iff]
      intro hm
      exact hne (Option.some.inj (((hs.lock m).mpr hm).symm.trans ((hs.lock n).mpr hn)))
  cases h with
  | @ask n hnew =>
      rw [callers_setCaller]
      split
      case isTrue heq =>
        show s.lock = some m ↔ _
        rw [hs.lock m, heq, hnew]
        simp
      case isFalse => exact hs.lock m
  | reuse hn => exact hkept hn (by simp) (by simp)
  | @raise n hn hfree =>
      rw [callers_setCaller]
      show some n = some m ↔ _
      split
      case isTrue heq => simp [heq]
      case isFalse hne =>
        have hfree : s.callers m ≠ some .raising := fun hm => by
          rw [← hs.lock m, hfree] at hm
          cases hm
        simp [hfree, Ne.symm hne]
  | up hn => exact hreleased hn (by simp)
  | raiseFails hn => exact hreleased hn (by simp)
  | connects hn => exact hkept hn (by simp) (by simp)
  | connectFails hn => exact hkept hn (by simp) (by simp)
  | @drop n phase hn =>
      show (if s.lock = some n then none else s.lock) = some m ↔ update s.callers n none m = _
      rcases eq_or_ne m n with rfl | hne
      · rw [update_self]
        split
        case isTrue => simp
        case isFalse hother => simp [hother]
      · rw [update_of_ne hne, ← hs.lock m]
        split
        case isTrue heq => simp [heq, hne.symm]
        case isFalse => rfl
  | stops => exact hs.lock m

theorem step (hs : s.Sound) (h : SharedStep s e s') : s'.Sound where
  lock := hs.lock_step h
  held t hcarries := by
    rcases carries_before h hcarries with hbefore | ⟨rfl, n, rfl⟩
    · have hheld := hs.held t hbefore
      cases h with
      | up hn => exact absurd hbefore (hs.alone _ t ((hs.lock _).mpr hn))
      | _ => exact hheld
    · cases h
      rfl
  alone n t hlock hcarries := by
    rcases carries_before h hcarries with hbefore | ⟨rfl, m, rfl⟩
    · have hheld := hs.held t hbefore
      cases h with
      | raise hn hfree hnone => exact hnone t hheld hbefore
      | up => cases hlock
      | raiseFails => cases hlock
      | @drop m phase hn =>
          have hlock : (if s.lock = some m then none else s.lock) = some n := hlock
          split at hlock
          · cases hlock
          · exact hs.alone n t hlock hbefore
      | _ => exact hs.alone n t hlock hbefore
    · cases h
      cases hlock
  numbered n t fresh hn := by
    have hle := raised_le h
    have hgets := gets h n
    rw [hn] at hgets
    generalize hx : some (t, fresh) = x at hgets
    cases hgets with
    | same => exact Nat.lt_of_lt_of_le (hs.numbered n t fresh hx.symm) hle
    | none => cases hx
    | found hevent hheld hcarries =>
        obtain ⟨rfl, -⟩ := Prod.mk.inj (Option.some.inj hx)
        obtain ⟨⟨m, fresh', hm⟩, -⟩ := hcarries
        exact Nat.lt_of_lt_of_le (hs.numbered m t fresh' hm) hle
    | raised hevent =>
        obtain ⟨rfl, -⟩ := Prod.mk.inj (Option.some.inj hx)
        subst hevent
        cases h
        exact Nat.lt_succ_self _
  fresh n m t hn hm := by
    have hbefore {n : ℕ} (hn : s'.tunnelOf n = some (t, true)) :
        s.tunnelOf n = some (t, true) ∨ t = s.raised ∧ e = .up n := by
      have hgets := gets h n
      rw [hn] at hgets
      generalize hx : some (t, true) = x at hgets
      cases hgets with
      | same => exact .inl rfl
      | none => cases hx
      | found => cases hx
      | raised hevent =>
          obtain ⟨rfl, -⟩ := Prod.mk.inj (Option.some.inj hx)
          exact .inr ⟨rfl, hevent⟩
    rcases hbefore hn with hn | ⟨rfl, hevent⟩
    · rcases hbefore hm with hm | ⟨rfl, -⟩
      · exact hs.fresh n m t hn hm
      · exact absurd (hs.numbered n _ _ hn) (Nat.lt_irrefl _)
    · rcases hbefore hm with hm | ⟨-, hevent'⟩
      · exact absurd (hs.numbered m _ _ hm) (Nat.lt_irrefl _)
      · exact SharedEvent.up.inj (hevent.symm.trans hevent')

end Sound

theorem sound_reaches (h : Reaches SharedStep unrestricted initial s) : s.Sound :=
  h.invariant sound_initial fun hs _ hstep => hs.step hstep

/-- What has gone does not come back. -/
theorem gone (hraised : t < s.raised) (hgone : ¬s.Carries t)
    (hu : Reaches SharedStep unrestricted s u) : ¬u.Carries t := by
  suffices h : t < u.raised ∧ ¬u.Carries t from h.2
  refine hu.invariant (P := fun u => t < u.raised ∧ ¬u.Carries t) ⟨hraised, hgone⟩ ?_
  rintro v e w ⟨hraised, hgone⟩ - hstep
  refine ⟨Nat.lt_of_lt_of_le hraised (raised_le hstep), fun hcarries => ?_⟩
  rcases carries_before hstep hcarries with hbefore | ⟨rfl, -⟩
  · exact hgone hbefore
  · exact Nat.lt_irrefl _ hraised

/-- **One tunnel at a time, and one login for it.** No two tunnels carry at once, none carries
while one is being raised, and only one is. Of those that share a tunnel one raised it. A tunnel
that carries no more, as it has stopped or nobody uses it, never does again, and only who raises
one keeps the others waiting. -/
theorem one_tunnel (h : Reaches SharedStep unrestricted initial s) :
    (∀ t t', s.Carries t → s.Carries t' → t = t') ∧
    (∀ n, s.callers n = some .raising →
      (∀ m, s.callers m = some .raising → m = n) ∧ ∀ t, ¬s.Carries t) ∧
    (∀ n m t, s.tunnelOf n = some (t, true) → s.tunnelOf m = some (t, true) → n = m) ∧
    (∀ t u, t < s.raised → ¬s.Carries t → Reaches SharedStep unrestricted s u → ¬u.Carries t) ∧
    ∀ n, s.lock = some n → s.callers n = some .raising := by
  have hs := sound_reaches h
  refine ⟨?_, ?_, hs.fresh, fun t u => gone, fun n => (hs.lock n).mp⟩
  · intro t t' ht ht'
    exact Option.some.inj ((hs.held t ht).symm.trans (hs.held t' ht'))
  · intro n hn
    have hlock := (hs.lock n).mpr hn
    refine ⟨fun m hm => ?_, fun t => hs.alone n t hlock⟩
    exact Option.some.inj (((hs.lock m).mpr hm).symm.trans hlock)

/-- One caller raises a tunnel and another waits. -/
def oneRaises : SharedTunnel :=
  ({ initial.setCaller 0 .waiting with lock := some 0, logins := 1 }.setCaller 0 .raising).setCaller
    1 .waiting

theorem reaches_oneRaises : Reaches SharedStep unrestricted initial oneRaises := by
  have hasked : SharedStep initial (.ask 0) (initial.setCaller 0 .waiting) := .ask rfl
  refine ((Reaches.start.next trivial hasked).next trivial (.raise rfl rfl ?_)).next trivial
    (.ask rfl)
  intro t ht
  cases ht

theorem one_tunnel_oneRaises : ∀ t, ¬oneRaises.Carries t := by
  obtain ⟨-, halone, -⟩ := one_tunnel reaches_oneRaises
  exact (halone 0 rfl).2

/-- **A tunnel that carries is not replaced.** For as long as it does nobody logs in again, whatever
becomes of the connections through it, and whoever gets a tunnel in that time gets this one, which
he has not raised. -/
theorem not_replaced (hs : Reaches SharedStep unrestricted initial s) (hcarries : s.Carries t)
    (hu : Reaches SharedStep unrestricted s u) (hstill : u.Carries t) :
    u.logins = s.logins ∧ u.raised = s.raised ∧
      ∀ n t' fresh, s.tunnelOf n = none → u.tunnelOf n = some (t', fresh) →
        t' = t ∧ fresh = false := by
  have hsound := sound_reaches hs
  obtain ⟨⟨m, fresh, hm⟩, -⟩ := hcarries
  suffices h : u.Sound ∧ t < u.raised ∧ (u.Carries t → u.logins = s.logins ∧
      u.raised = s.raised ∧ ∀ n t' fresh, s.tunnelOf n = none → u.tunnelOf n = some (t', fresh) →
        t' = t ∧ fresh = false) from h.2.2 hstill
  refine hu.invariant (P := fun u => u.Sound ∧ t < u.raised ∧ (u.Carries t →
    u.logins = s.logins ∧ u.raised = s.raised ∧ ∀ n t' fresh, s.tunnelOf n = none →
      u.tunnelOf n = some (t', fresh) → t' = t ∧ fresh = false)) ?_ ?_
  · refine ⟨hsound, hsound.numbered m t fresh hm, fun _ => ⟨rfl, rfl, ?_⟩⟩
    intro n t' fresh hnone hn
    rw [hnone] at hn
    cases hn
  · rintro v e w ⟨hv, hraised, hsame⟩ - hstep
    refine ⟨hv.step hstep, Nat.lt_of_lt_of_le hraised (raised_le hstep), fun hafter => ?_⟩
    have hcarries : v.Carries t := by
      rcases carries_before hstep hafter with hbefore | ⟨rfl, -⟩
      · exact hbefore
      · exact absurd hraised (Nat.lt_irrefl _)
    obtain ⟨hlogins, hcount, hgets⟩ := hsame hcarries
    have hheld := hv.held t hcarries
    have hfree : ∀ n, v.callers n ≠ some .raising :=
      fun n hn => hv.alone n t ((hv.lock n).mpr hn) hcarries
    refine ⟨?_, ?_, ?_⟩
    · cases hstep with
      | raise hn hlock hnone => exact absurd hcarries (hnone t hheld)
      | _ => exact hlogins
    · cases hstep with
      | up hn => exact absurd hn (hfree _)
      | _ => exact hcount
    · intro n t' fresh hnone hn
      have hnext := gets hstep n
      rw [hn] at hnext
      generalize hx : some (t', fresh) = x at hnext
      cases hnext with
      | same => exact hgets n t' fresh hnone hx.symm
      | none => cases hx
      | found hevent hfound =>
          obtain ⟨rfl, rfl⟩ := Prod.mk.inj (Option.some.inj hx)
          exact ⟨Option.some.inj (hfound.symm.trans hheld), rfl⟩
      | raised hevent hraising => exact absurd hraising (hfree n)

/-- The tunnel is up. -/
def oneRaised : SharedTunnel :=
  { oneRaises with lock := none, held := some 0, raised := 1
                   running := update (fun _ => false) 0 true }.setCaller 0 (.connecting 0 true)

/-- The other caller has it too, and the first one's connection fails. -/
def twoShare : SharedTunnel :=
  (oneRaised.setCaller 1 (.connecting 0 false)).setCaller 0 (.failed (.transient "no answer"))

theorem not_replaced_twoShare : twoShare.logins = oneRaised.logins ∧
    twoShare.tunnelOf 1 = some (0, false) := by
  have hup : Reaches SharedStep unrestricted initial oneRaised :=
    reaches_oneRaises.next trivial (.up rfl)
  have hcarries : oneRaised.Carries 0 := ⟨⟨0, true, rfl⟩, rfl⟩
  have hreused : SharedStep oneRaised (.lock 1) (oneRaised.setCaller 1 (.connecting 0 false)) :=
    .reuse rfl rfl rfl hcarries
  have htwo : Reaches SharedStep unrestricted oneRaised twoShare :=
    (Reaches.start.next trivial hreused).next trivial (.connectFails rfl)
  have hstill : twoShare.Carries 0 := ⟨⟨1, false, rfl⟩, rfl⟩
  exact ⟨(not_replaced hup hcarries htwo hstill).1, rfl⟩

end SharedTunnel

end SynologyFilestation.Connect
