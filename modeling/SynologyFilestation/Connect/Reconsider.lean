import SynologyFilestation.Connect.Chain

/-!
What a caller says of a leg (`reconsider`, `settle`) against what a call is
still finding out. A decision is made over waits and written back whatever is
remembered by then; `forget` alone looks whether it is still its own.
-/

namespace SynologyFilestation.Connect

open Function Library

/-- Call `n` began to ask before `k` was called, and replaced what was
remembered when `k` had returned. -/
def Undoes (log : List Note) (n k : ℕ) : Prop :=
  [.remembered n, .heard k, .said k, .judging n].Sublist log

/-- What `reconsider` and `settle` say is not undone. -/
def NotUndone (c : Chain) : Prop := ∀ n k, ¬Undoes c.log n k

def Purpose.decides : Purpose → Bool
  | .deciding _ => true
  | .betterThan _ => false

def Way.decides : Way → Bool
  | .raised p => p.decides
  | .remembered _ => true
  | .beside => false

/-- A `route` or a `reach_smb` that may yet write a decision. -/
def Phase.decides : Phase → Bool
  | .called (.decide _) => true
  | .probe p _ | .probing p _ | .checkRefused p _ | .checkFailed p _ => p.decides
  | .asking way _ | .waiting way _ => way.decides
  | .opened p _ | .failing p _ => p.decides
  | .failingRemembered _ _ | .forgetting _ | .remembering _ _ => true
  | _ => false

/-- When a `reconsider` or a `settle` returns, no call that had put its question
before is still deciding. -/
def Settled (c : Chain) : ChainEvent → Prop
  | .settle k | .lift k => ∀ n ph, c.calls n = some ph → ph.decides = true →
      ¬[.said k, .judging n].Sublist c.log
  | _ => True

/-- Whoever decides does so on answers no older than what the chain was told. -/
structure Timely (c : Chain) : Prop where
  notUndone : NotUndone c
  deciding : ∀ n ph k, c.calls n = some ph → ph.decides = true →
    ¬[.heard k, .said k, .judging n].Sublist c.log
  fresh : ∀ n, c.calls n = none → Note.judging n ∉ c.log

section Steps

variable {s : Setup} {c c' : Chain} {n : ℕ} {ph ph' : Phase} {e : ChainEvent}

theorem timely_new : Timely .new where
  notUndone := nofun
  deciding := nofun
  fresh := nofun

/-- Calls and log are what it is about. -/
theorem Timely.congr (hc : Timely c) (hcalls : c'.calls = c.calls) (hlog : c'.log = c.log) :
    Timely c' := by
  constructor
  · rw [NotUndone, hlog]
    exact hc.notUndone
  · rw [hcalls, hlog]
    exact hc.deciding
  · rw [hcalls, hlog]
    exact hc.fresh

/-- A call goes on, and decides only if it did. -/
theorem Timely.setCall (hc : Timely c) (hn : c.calls n = some ph)
    (hdecides : ph'.decides = true → ph.decides = true) : Timely (c.setCall n ph') where
  notUndone := hc.notUndone
  deciding m ph'' k hm hph := by
    rcases Chain.of_setCall hm with ⟨rfl, rfl⟩ | ⟨_, hm⟩
    · exact hc.deciding m ph k hn (hdecides hph)
    · exact hc.deciding m ph'' k hm hph
  fresh m hm := by
    apply hc.fresh m
    rcases eq_or_ne m n with rfl | hne
    · simp [Chain.setCall] at hm
    · simpa [Chain.setCall, hne] using hm

/-- Nothing is said or remembered, and no question put. -/
theorem Timely.note (hc : Timely c) (what : Note) (hremembered : ∀ n, what ≠ .remembered n)
    (hheard : ∀ k, what ≠ .heard k) (hjudging : ∀ n, what = .judging n → c.calls n ≠ none) :
    Timely (c.note what) where
  notUndone m k h := by
    rcases List.sublist_cons_iff.mp h with h | ⟨_, heq, _⟩
    · exact hc.notUndone m k h
    · exact hremembered m (List.cons.inj heq).1.symm
  deciding m ph k hm hph h := by
    rcases List.sublist_cons_iff.mp h with h | ⟨_, heq, _⟩
    · exact hc.deciding m ph k hm hph h
    · exact hheard k (List.cons.inj heq).1.symm
  fresh m hm h := by
    rcases List.mem_cons.mp h with heq | h
    · exact hjudging m heq.symm hm
    · exact hc.fresh m hm h

/-- A `reconsider` or a `settle` returns. -/
theorem Timely.heard (hc : Timely c) {k : ℕ}
    (hsettled : ∀ n ph, c.calls n = some ph → ph.decides = true →
      ¬[.said k, .judging n].Sublist c.log) : Timely (c.note (.heard k)) where
  notUndone m k' h := by
    rcases List.sublist_cons_iff.mp h with h | ⟨_, heq, _⟩
    · exact hc.notUndone m k' h
    · cases heq
  deciding m ph k' hm hph h := by
    rcases List.sublist_cons_iff.mp h with h | ⟨_, heq, h⟩
    · exact hc.deciding m ph k' hm hph h
    · cases heq
      exact hsettled m ph hm hph h
  fresh m hm h := by
    rcases List.mem_cons.mp h with heq | h
    · cases heq
    · exact hc.fresh m hm h

/-- A decision is written that no `reconsider` or `settle` came across. -/
theorem Timely.remembered (hc : Timely c) (hn : c.calls n = some ph)
    (hdecides : ph.decides = true) : Timely (c.note (.remembered n)) where
  notUndone m k h := by
    rcases List.sublist_cons_iff.mp h with h | ⟨_, heq, h⟩
    · exact hc.notUndone m k h
    · cases heq
      exact hc.deciding n ph k hn hdecides h
  deciding m ph' k hm hph h := by
    rcases List.sublist_cons_iff.mp h with h | ⟨_, heq, _⟩
    · exact hc.deciding m ph' k hm hph h
    · cases heq
  fresh m hm h := by
    rcases List.mem_cons.mp h with heq | h
    · cases heq
    · exact hc.fresh m hm h

/-- A new call has asked nothing. -/
theorem Timely.call (hc : Timely c) (hnew : c.calls n = none) :
    Timely (c.setCall n ph) where
  notUndone := hc.notUndone
  deciding m ph' k hm hph h := by
    rcases Chain.of_setCall hm with ⟨rfl, rfl⟩ | ⟨_, hm⟩
    · exact hc.fresh m hnew (h.subset (by simp))
    · exact hc.deciding m ph' k hm hph h
  fresh m hm := by
    apply hc.fresh m
    rcases eq_or_ne m n with rfl | hne
    · exact hnew
    · simpa [Chain.setCall, hne] using hm

/-! What comes next decides only for a call that did. -/

theorem decides_notRaised {p : Purpose} (h : (notRaised s p).decides = true) :
    p.decides = true := by
  cases p with
  | deciding d => rfl
  | betterThan current => cases h

theorem decides_raised {p : Purpose} {inside : String} (h : (raised inside p).decides = true) :
    p.decides = true := by
  cases p with
  | deciding d => rfl
  | betterThan current => cases h

theorem decides_raiseTunnel {p : Purpose} {inside : String}
    (h : (raiseTunnel s p inside).decides = true) : p.decides = true := by
  unfold raiseTunnel at h
  split at h
  · exact h
  · exact decides_notRaised h

theorem decides_probed {p : Purpose} {mayOpen ok : Bool}
    (h : (probed s p mayOpen ok).decides = true) : p.decides = true := by
  cases p with
  | deciding d => rfl
  | betterThan current =>
      cases ok with
      | true => cases h
      | false =>
          simp only [probed] at h
          split at h
          · cases h
          · split at h
            · cases h
            · exact decides_raiseTunnel h

theorem decides_answered {way : Way} {host : String} (h : (answered host way).decides = true) :
    way.decides = true := by
  cases way with
  | raised p => exact h
  | remembered cached => rfl
  | beside => cases h

theorem decides_unanswered {way : Way} {e : TunnelUnavailable}
    (h : (unanswered e way).decides = true) : way.decides = true := by
  cases way with
  | raised p => exact h
  | remembered cached => rfl
  | beside => cases h

theorem decides_betterThan {current : Transport} : (betterThan s current).decides = false := by
  unfold betterThan
  split <;> rfl

theorem decides_anotherSmbConnection (r : Option Route) :
    (anotherSmbConnection r).decides = false := by
  unfold anotherSmbConnection
  split <;> rfl

theorem Timely.step (hc : Timely c) (hsettled : Settled c e) (hstep : ChainStep s c e c') :
    Timely c' := by
  cases hstep with
  | tick => exact hc.congr rfl rfl
  | @call n entry hnew =>
      cases entry with
      | settle route => exact (hc.note (.said n) nofun nofun nofun).call hnew
      | reconsider => exact (hc.note (.said n) nofun nofun nofun).call hnew
      | _ => exact hc.call hnew
  | consult hn => exact hc.setCall hn fun _ => rfl
  | betterThan hn => exact hc.setCall hn (by simp [decides_betterThan])
  | another hn => exact hc.setCall hn (by simp [decides_anotherSmbConnection])
  | @settle n route hn =>
      have hheard : Timely ((Chain.remember s c route).note (.heard n)) :=
        (hc.heard hsettled).congr rfl rfl
      exact hheard.setCall hn nofun
  | carriedNothing hn =>
      have hnoted := hc.note (.failed c.now) nofun nofun nofun
      have htold : Timely ((c.tunnelFailed (.transient "it opened, but carried no session")).note
          (.failed c.now)) := hnoted.congr rfl rfl
      exact htold.setCall hn nofun
  | clearDecision hn =>
      have hcleared : Timely { c with decision := none } := hc.congr rfl rfl
      exact hcleared.setCall hn nofun
  | clearRefused hn =>
      have hnoted := hc.note .refusalLifted nofun nofun nofun
      have hcleared : Timely ({ c with refused := none }.note .refusalLifted) :=
        hnoted.congr rfl rfl
      exact hcleared.setCall hn nofun
  | @clearFailed n hn =>
      have hnoted := hc.note .quietLifted nofun nofun nofun
      have hheard : Timely ((c.note .quietLifted).note (.heard n)) := by
        refine hnoted.heard fun m ph hm hph h => ?_
        rcases List.sublist_cons_iff.mp h with h | ⟨_, heq, _⟩
        · exact hsettled m ph hm hph h
        · cases heq
      have hcleared :
          Timely (({ c with tunnelFailedAt := none }.note .quietLifted).note (.heard n)) :=
        hheard.congr rfl rfl
      exact hcleared.setCall hn nofun
  | @probe n p mayOpen hn =>
      have hnoted := hc.note (.judging n) nofun nofun (by rintro m ⟨⟩; simp [hn])
      exact hnoted.setCall hn id
  | probed hn => exact hc.setCall hn decides_probed
  | wasRefused hn => exact hc.setCall hn decides_notRaised
  | notRefused hn => exact hc.setCall hn id
  | failedRecently hn => exact hc.setCall hn decides_notRaised
  | notFailed hn => exact hc.setCall hn id
  | @ask n way host hn =>
      have hjudging := hc.note (.judging n) nofun nofun (by rintro m ⟨⟩; simp [hn])
      exact (hjudging.note (.asked c.now) nofun nofun nofun).setCall hn id
  | opened hn => exact (hc.note .opened nofun nofun nofun).setCall hn decides_answered
  | @failed n way host e hn =>
      have hnoted : Timely (c.note (failureNote c.now way e)) := by
        cases e <;> cases way <;> exact hc.note _ nofun nofun nofun
      exact hnoted.setCall hn decides_unanswered
  | clear hn =>
      have hcleared : Timely { c with tunnelFailedAt := none } := hc.congr rfl rfl
      exact hcleared.setCall hn decides_raised
  | @write n p e hn =>
      exact (hc.congr (Chain.tunnelFailed_calls c e) (Chain.tunnelFailed_log c e)).setCall
        (by rw [Chain.tunnelFailed_calls, hn]) decides_notRaised
  | @writeRemembered n cached e hn =>
      exact (hc.congr (Chain.tunnelFailed_calls c e) (Chain.tunnelFailed_log c e)).setCall
        (by rw [Chain.tunnelFailed_calls, hn]) fun _ => rfl
  | @forget n cached hn =>
      exact (hc.congr (Chain.forget_calls c cached) (Chain.forget_log c cached)).setCall
        (by rw [Chain.forget_calls, hn]) fun _ => rfl
  | @remember n d route hn =>
      have hnoted : Timely ((Chain.remember s c route).note (.remembered n)) :=
        (hc.remembered hn rfl).congr rfl rfl
      exact hnoted.setCall hn nofun
  | dropProbe hn => exact hc.setCall hn nofun
  | dropOpen hn => exact hc.setCall hn nofun

variable (s c)

/-- **What a caller says is not undone**, where no call that asked before it is
still deciding when it returns. -/
theorem reconsider_not_undone (h : Reaches (ChainStep s) Settled .new c) : NotUndone c :=
  (h.invariant timely_new fun hc hsettled hstep => hc.step hsettled hstep).notUndone

end Steps

/-! ### Runs of either kind -/

/-- A NAS that no tunnel leads to. -/
def onCampus : Setup :=
  { policy := ⟨true, true, true⟩
    endpoints := ⟨"e4e-nas.ucsd.edu", none⟩
    recheck := 60
    tunnelRecheck := 600 }

/-- SMB is looked for, given up, and looked for again. -/
theorem reconsidered_then_decided :
    ∃ c, NotUndone c ∧ Note.heard 1 ∈ c.log ∧
      c.decision = some ⟨⟨.smbDirect, some "e4e-nas.ucsd.edu"⟩, none⟩ := by
  have h := (Reaches.start : Reaches (ChainStep onCampus) Settled .new .new)
  have h := h.next (by trivial) (@ChainStep.call _ _ 0 (.decide .route) rfl)
  have h := h.next (by trivial) (@ChainStep.consult _ _ 0 .route rfl)
  have h := h.next (by trivial) (@ChainStep.probe _ _ 0 (.deciding .route) true rfl)
  have h := h.next (by trivial) (@ChainStep.probed _ _ 0 (.deciding .route) true true rfl)
  have h := h.next (by trivial) (@ChainStep.remember _ _ 0 .route _ rfl)
  have h := h.next (by trivial) (@ChainStep.call _ _ 1 .reconsider rfl)
  have h := h.next (by trivial) (@ChainStep.clearDecision _ _ 1 rfl)
  have h := h.next (by trivial) (@ChainStep.clearRefused _ _ 1 rfl)
  have h := h.next
    (by
      intro n ph hn hph
      rcases eq_or_ne n 1 with rfl | hreconsider
      · obtain rfl := Option.some.inj hn
        cases hph
      · rcases eq_or_ne n 0 with rfl | hroute
        · obtain rfl := Option.some.inj hn
          cases hph
        · simp [Chain.setCall, Chain.note, Chain.said, Chain.remember, Chain.new, hreconsider,
            hroute] at hn)
    (@ChainStep.clearFailed _ _ 1 rfl)
  have h := h.next (by trivial) (@ChainStep.call _ _ 2 (.decide .route) rfl)
  have h := h.next (by trivial) (@ChainStep.consult _ _ 2 .route rfl)
  have h := h.next (by trivial) (@ChainStep.probe _ _ 2 (.deciding .route) true rfl)
  have h := h.next (by trivial) (@ChainStep.probed _ _ 2 (.deciding .route) true true rfl)
  have h := h.next (by trivial) (@ChainStep.remember _ _ 2 .route _ rfl)
  refine ⟨_, reconsider_not_undone onCampus _ h, ?_, rfl⟩
  simp [Chain.note, Chain.setCall, Chain.said, Chain.remember]

/-- The prober found the leg before it stopped working, and the chain hears of
it after it was told: the leg is remembered for good. -/
theorem slow_probe_undoes_reconsider :
    ∃ c, Reaches (ChainStep onCampus) unrestricted .new c ∧ Undoes c.log 0 1 ∧
      c.decision = some ⟨⟨.smbDirect, some "e4e-nas.ucsd.edu"⟩, none⟩ := by
  have h := (Reaches.start : Reaches (ChainStep onCampus) unrestricted .new .new)
  have h := h.next (by trivial) (@ChainStep.call _ _ 0 (.decide .route) rfl)
  have h := h.next (by trivial) (@ChainStep.consult _ _ 0 .route rfl)
  have h := h.next (by trivial) (@ChainStep.probe _ _ 0 (.deciding .route) true rfl)
  have h := h.next (by trivial) (@ChainStep.call _ _ 1 .reconsider rfl)
  have h := h.next (by trivial) (@ChainStep.clearDecision _ _ 1 rfl)
  have h := h.next (by trivial) (@ChainStep.clearRefused _ _ 1 rfl)
  have h := h.next (by trivial) (@ChainStep.clearFailed _ _ 1 rfl)
  have h := h.next (by trivial) (@ChainStep.probed _ _ 0 (.deciding .route) true true rfl)
  have h := h.next (by trivial) (@ChainStep.remember _ _ 0 .route _ rfl)
  refine ⟨_, h, ?_, rfl⟩
  simp [Undoes, Chain.note, Chain.setCall, Chain.said, Chain.remember, List.sublist_cons_iff]

end SynologyFilestation.Connect
