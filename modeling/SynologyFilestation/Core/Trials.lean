import SynologyFilestation.Core.Transport
import Mathlib.Data.List.Infix

/-!
How far apart the trials of a breaker are (`core/src/transport.rs`, `CircuitBreaker`).

Operations that were let out before the breaker tripped report their failures when it is open
or has a trial out, in any order with those who ask it. Each report may put the next trial off; none
brings it forward.
-/

namespace SynologyFilestation.Core

/-- A call of the breaker. -/
inductive BreakerCall
  | allows (now : ℕ)
  | onSuccess
  | onFailure (now : ℕ)
  deriving DecidableEq

namespace BreakerCall

def time : BreakerCall → Option ℕ
  | allows now | onFailure now => some now
  | onSuccess => none

def failedAt : BreakerCall → Option ℕ
  | onFailure now => some now
  | _ => none

/-- The times do not decrease. -/
def Ordered (calls : List BreakerCall) : Prop := (calls.filterMap time).Pairwise (· ≤ ·)

instance (calls : List BreakerCall) : Decidable (Ordered calls) :=
  inferInstanceAs (Decidable (List.Pairwise _ _))

/-- When a failure was reported last. -/
def lastFailure (calls : List BreakerCall) : Option ℕ := (calls.filterMap failedAt).getLast?

end BreakerCall

namespace CircuitBreaker

open BreakerCall

def after (b : CircuitBreaker) : BreakerCall → CircuitBreaker
  | .allows now => (b.allows now).2
  | .onSuccess => b.onSuccess
  | .onFailure now => b.onFailure now

def grantedAt (b : CircuitBreaker) : BreakerCall → Option ℕ
  | .allows now => if (b.allows now).1 then some now else none
  | _ => none

/-- The times of the calls that are allowed. -/
def grants : CircuitBreaker → List BreakerCall → List ℕ
  | _, [] => []
  | b, call :: calls => (b.grantedAt call).toList ++ grants (b.after call) calls

variable {b : CircuitBreaker} {call : BreakerCall} {calls : List BreakerCall} {granted now : ℕ}

@[simp] theorem config_after (b : CircuitBreaker) (call : BreakerCall) :
    (b.after call).config = b.config := by
  cases call with
  | allows now =>
      simp only [after, allows]
      split
      · rfl
      · split <;> rfl
      · rfl
  | onSuccess => rfl
  | onFailure now =>
      simp only [after, onFailure]
      split
      · rfl
      · split <;> rfl

@[simp] theorem config_foldl (b : CircuitBreaker) (calls : List BreakerCall) :
    (calls.foldl after b).config = b.config := by
  induction calls generalizing b with
  | nil => rfl
  | cons call calls ih => rw [List.foldl_cons, ih, config_after]

/-- The breaker has let somebody out at this time and not been told of a success since: it is on
trial, or was opened again later. -/
def TriedAt (granted : ℕ) (b : CircuitBreaker) : Prop :=
  b.state = .halfOpen ∨ ∃ openedAt, b.state = .opened openedAt ∧ granted ≤ openedAt

theorem TriedAt.after (h : b.TriedAt granted) (hcall : call ≠ .onSuccess)
    (htime : ∀ now ∈ call.time, granted ≤ now) : (b.after call).TriedAt granted := by
  cases call with
  | allows now =>
      rcases h with hhalf | ⟨openedAt, hopened, hle⟩
      · refine .inl ?_
        rw [CircuitBreaker.after, allows, hhalf]
        exact hhalf
      · rw [CircuitBreaker.after, allows, hopened]
        dsimp only
        split
        · exact .inl rfl
        · exact .inr ⟨openedAt, hopened, hle⟩
  | onSuccess => exact absurd rfl hcall
  | onFailure now =>
      have hnow : granted ≤ now := htime now rfl
      rcases h with hhalf | ⟨openedAt, hopened, hle⟩
      · exact .inr ⟨now, by rw [CircuitBreaker.after, onFailure, hhalf], hnow⟩
      · rw [CircuitBreaker.after, onFailure, hopened]
        dsimp only
        split
        · exact .inr ⟨now, rfl, hnow⟩
        · exact .inr ⟨openedAt, rfl, hle⟩

/-- Whoever is let out next has waited for the cool-down. -/
theorem TriedAt.le_of_allows (h : b.TriedAt granted) (hnow : granted ≤ now)
    (hallows : (b.allows now).1 = true) : granted + b.config.cooldown ≤ now := by
  rcases h with hhalf | ⟨openedAt, hopened, hle⟩
  · rw [allows, hhalf] at hallows
    cases hallows
  · rw [allows, hopened] at hallows
    dsimp only at hallows
    split at hallows
    · omega
    · cases hallows

theorem grantedAt_eq_some : b.grantedAt call = some now ↔
    call = .allows now ∧ (b.allows now).1 = true := by
  cases call with
  | allows asked =>
      rw [grantedAt]
      constructor
      · intro h
        split at h
        case isTrue hallows =>
          cases h
          exact ⟨rfl, hallows⟩
        case isFalse => cases h
      · rintro ⟨⟨⟩, hallows⟩
        exact if_pos hallows
  | onSuccess => simp [grantedAt]
  | onFailure => simp [grantedAt]

/-- Whoever is let out of a breaker that is not closed is on trial. -/
theorem triedAt_of_grantedAt (hstate : b.state ≠ .closed) (h : b.grantedAt call = some now) :
    (b.after call).TriedAt now := by
  obtain ⟨rfl, hallows⟩ := grantedAt_eq_some.mp h
  refine .inl ?_
  rw [after]
  rw [allows] at hallows ⊢
  cases hb : b.state with
  | closed => exact absurd hb hstate
  | opened openedAt =>
      rw [hb] at hallows
      dsimp only at hallows ⊢
      split at hallows
      case isTrue hcool => rw [if_pos hcool]
      case isFalse => cases hallows
  | halfOpen => exact hb

theorem after_ne_closed (hstate : b.state ≠ .closed) (hcall : call ≠ .onSuccess) :
    (b.after call).state ≠ .closed := by
  cases hb : b.state with
  | closed => exact absurd hb hstate
  | opened openedAt =>
      rcases (TriedAt.after (.inr ⟨openedAt, hb, Nat.zero_le _⟩) hcall fun _ _ => Nat.zero_le _)
        with hhalf | ⟨_, hopened, -⟩
      · simp [hhalf]
      · simp [hopened]
  | halfOpen =>
      rcases (TriedAt.after (.inl hb) hcall fun _ _ => Nat.zero_le _) with hhalf | ⟨_, hopened, -⟩
      · simp [hhalf]
      · simp [hopened]

theorem cooldown_le_of_mem_grants (h : b.TriedAt granted) (hsuccess : .onSuccess ∉ calls)
    (htimes : ∀ later ∈ calls.filterMap time, granted ≤ later) :
    ∀ later ∈ b.grants calls, granted + b.config.cooldown ≤ later := by
  induction calls generalizing b with
  | nil => nofun
  | cons call calls ih =>
      rw [List.mem_cons, not_or] at hsuccess
      have hcall : ∀ now ∈ call.time, granted ≤ now := fun now hnow =>
        htimes now (List.mem_filterMap.mpr ⟨call, .head _, hnow⟩)
      have hrest := ih (h.after (Ne.symm hsuccess.1) hcall) hsuccess.2 fun later hlater => by
        obtain ⟨other, hother, htime⟩ := List.mem_filterMap.mp hlater
        exact htimes later (List.mem_filterMap.mpr ⟨other, .tail _ hother, htime⟩)
      intro later hlater
      rcases List.mem_append.mp hlater with hfirst | hlater
      · obtain ⟨rfl, hallows⟩ := grantedAt_eq_some.mp (Option.mem_toList.mp hfirst)
        exact h.le_of_allows (hcall _ rfl) hallows
      · simpa using hrest later hlater

/-- **Trials are a cool-down apart**, whatever is reported between them. -/
theorem pairwise_grants (hstate : b.state ≠ .closed) (hsuccess : .onSuccess ∉ calls)
    (hordered : Ordered calls) :
    (b.grants calls).Pairwise fun first second => first + b.config.cooldown ≤ second := by
  induction calls generalizing b with
  | nil => exact .nil
  | cons call calls ih =>
      rw [List.mem_cons, not_or] at hsuccess
      have hrest : (calls.filterMap time).Pairwise (· ≤ ·) :=
        hordered.sublist ((List.sublist_cons_self call calls).filterMap time)
      have hgrants := ih (after_ne_closed hstate (Ne.symm hsuccess.1)) hsuccess.2 hrest
      rw [config_after] at hgrants
      rw [grants]
      cases hgranted : b.grantedAt call with
      | none => exact hgrants
      | some now =>
          obtain ⟨rfl, -⟩ := grantedAt_eq_some.mp hgranted
          have hlater : ∀ later ∈ calls.filterMap time, now ≤ later :=
            (List.pairwise_cons.mp hordered).1
          have hwaits := cooldown_le_of_mem_grants (triedAt_of_grantedAt hstate hgranted)
            hsuccess.2 hlater
          rw [config_after] at hwaits
          exact List.pairwise_cons.mpr ⟨hwaits, hgrants⟩

theorem lastFailure_append_failure (calls : List BreakerCall) (now : ℕ) :
    lastFailure (calls ++ [.onFailure now]) = some now := by
  rw [lastFailure, List.filterMap_append]
  exact List.getLast?_concat

theorem lastFailure_append_other (h : call.failedAt = none) (calls : List BreakerCall) :
    lastFailure (calls ++ [call]) = lastFailure calls := by
  rw [lastFailure, List.filterMap_append, List.filterMap_cons_none h, List.filterMap_nil,
    List.append_nil]
  rfl

theorem lastFailure_mem_times {failed : ℕ} (h : lastFailure calls = some failed) :
    failed ∈ calls.filterMap time := by
  obtain ⟨call, hcall, hfailed⟩ := List.mem_filterMap.mp (List.mem_of_getLast? h)
  refine List.mem_filterMap.mpr ⟨call, hcall, ?_⟩
  cases call with
  | onFailure now => exact hfailed
  | allows => cases hfailed
  | onSuccess => cases hfailed

/-- A breaker is opened by a failure, and was open before otherwise. -/
theorem opened_after {openedAt : ℕ} (h : (b.after call).state = .opened openedAt) :
    call = .onFailure openedAt ∨ call ≠ .onSuccess ∧ b.state = .opened openedAt := by
  cases call with
  | allows now =>
      refine .inr ⟨by rintro ⟨⟩, ?_⟩
      rw [after, allows] at h
      cases hb : b.state with
      | closed => simp [hb] at h
      | opened other =>
          rw [hb] at h
          dsimp only at h
          split at h
          · cases h
          · exact hb ▸ h
      | halfOpen => simp [hb] at h
  | onSuccess => cases h
  | onFailure now =>
      rw [after, onFailure] at h
      cases hb : b.state with
      | halfOpen =>
          rw [hb] at h
          cases h
          exact .inl rfl
      | closed =>
          rw [hb] at h
          dsimp only at h
          split at h <;> cases h
          exact .inl rfl
      | opened other =>
          rw [hb] at h
          dsimp only at h
          split at h <;> cases h
          · exact .inl rfl
          · exact .inr ⟨by rintro ⟨⟩, rfl⟩

/-- An open breaker was opened no later than the last failure. -/
theorem openedAt_le_lastFailure {openedAt : ℕ} (hordered : Ordered calls)
    (hb : ∀ openedAt, b.state ≠ .opened openedAt)
    (h : (calls.foldl after b).state = .opened openedAt) :
    ∃ failed, lastFailure calls = some failed ∧ openedAt ≤ failed := by
  induction calls using List.reverseRecOn with
  | nil => exact absurd h (hb openedAt)
  | append_singleton calls call ih =>
      have hbefore : Ordered calls :=
        hordered.sublist ((List.sublist_append_left calls [call]).filterMap time)
      rw [List.foldl_append, List.foldl_cons, List.foldl_nil] at h
      rcases opened_after h with rfl | ⟨hsuccess, hopened⟩
      · exact ⟨openedAt, lastFailure_append_failure calls openedAt, le_rfl⟩
      obtain ⟨failed, hfailed, hle⟩ := ih hbefore hopened
      cases call with
      | allows now => exact ⟨failed, (lastFailure_append_other rfl calls).trans hfailed, hle⟩
      | onSuccess => exact absurd rfl hsuccess
      | onFailure now =>
          refine ⟨now, lastFailure_append_failure calls now, hle.trans ?_⟩
          rw [Ordered, List.filterMap_append] at hordered
          exact (List.pairwise_append.mp hordered).2.2 failed (lastFailure_mem_times hfailed) now
            (.head _)

theorem allows_of_cooled {openedAt : ℕ} (hopened : b.state = .opened openedAt)
    (hcooled : openedAt + b.config.cooldown ≤ now) : (b.allows now).1 = true := by
  rw [allows, hopened]
  dsimp only
  rw [if_pos (by omega)]

/-- **A tripped breaker spaces its trials.** From any call on after which it is not closed, and
until it is told of a success, those it lets out are a cool-down apart, whatever failures are
reported between them; and an open breaker lets out whoever asks a cool-down after the
last failure. -/
theorem trials_spaced (config : BreakerConfig) (before during : List BreakerCall)
    (hordered : Ordered (before ++ during))
    (hleft : (before.foldl after (new config)).state ≠ .closed)
    (hsuccess : .onSuccess ∉ during) :
    (((before.foldl after (new config)).grants during).Pairwise fun first second =>
      first + config.cooldown ≤ second) ∧
    ∀ openedAt failed now,
      ((before ++ during).foldl after (new config)).state = .opened openedAt →
        lastFailure (before ++ during) = some failed → failed + config.cooldown ≤ now →
          (((before ++ during).foldl after (new config)).allows now).1 = true := by
  have hduring : Ordered during :=
    hordered.sublist ((List.sublist_append_right before during).filterMap time)
  constructor
  · have hpairwise := pairwise_grants hleft hsuccess hduring
    rwa [config_foldl] at hpairwise
  · intro openedAt failed now hopened hfailed hcooled
    have hnew : ∀ openedAt, (new config).state ≠ .opened openedAt := by rintro _ ⟨⟩
    obtain ⟨failed', hfailed', hle⟩ := openedAt_le_lastFailure hordered hnew hopened
    obtain rfl := Option.some.inj (hfailed.symm.trans hfailed')
    refine allows_of_cooled hopened ?_
    rw [config_foldl]
    exact (Nat.add_le_add_right hle _).trans hcooled

/-- Two failures trip the breaker; somebody is let out on trial, two late failures come in, and
somebody is let out again when the last of them is a cool-down old. -/
theorem late_failures_put_off :
    (((([.onFailure 0, .onFailure 0] : List BreakerCall).foldl after (new .standard)).grants
      [.allows 30000, .onFailure 40000, .onFailure 50000, .allows 70000, .allows 80000]).Pairwise
        fun first second => first + 30000 ≤ second) ∧
    ((([.onFailure 0, .onFailure 0] : List BreakerCall).foldl after (new .standard)).grants
      [.allows 30000, .onFailure 40000, .onFailure 50000, .allows 70000, .allows 80000]) =
        [30000, 80000] :=
  ⟨(trials_spaced .standard _ _ (by decide) (by decide) (by decide)).1, by decide⟩

end CircuitBreaker

end SynologyFilestation.Core
