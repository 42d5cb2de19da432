import SynologyFilestation.Core.Transport
import Mathlib.Data.List.Zip

/-!
One call of the client that any backend may serve (`via_metadata!` in
`core/src/client/mod.rs`, `get_text_retried` in `core/src/client/session.rs`):
the injected backends in turn, then FileStation over HTTP, sent again while the
connection fails.

A script says what becomes of every message. A party that was reached may have
carried the call out although its answer never came back, so a call can run more
than once, and one that failed may have run.
-/

namespace SynologyFilestation.Core

/-- Who carries a call out. -/
inductive Party
  | backend
  | http
  deriving DecidableEq, Repr

/-- What becomes of a call to one backend. -/
inductive BackendFate
  | answered
  | lost (ran : Bool) (message : String)
  | refused (e : SynoFsError)

/-- A backend in one call: when its breaker is asked, when it is told of a
failure, and what becomes of the call. -/
structure BackendScript where
  asked : ℕ
  told : ℕ
  fate : BackendFate

/-- What becomes of one HTTP request. -/
inductive HttpFate
  | answered
  | lost (ran : Bool) (message : String)
  | refused (code : ℕ)
  /-- An answer came that cannot be read. -/
  | garbled (ran : Bool) (message : String)

structure RequestScript where
  backend : ℕ → BackendScript
  http : ℕ → HttpFate

/-- What a call does when a party carries it out. A backend's answer is final:
declining, or not being reached, is a matter of the script. -/
structure Operation (S α : Type) where
  run : Party → S → Except SynoFsError α × S
  final : ∀ s, passesOn (run .backend s).1 = false

/-- A client, by the breakers of its injected backends, and the server behind
them all. -/
structure Client (S : Type) where
  metadataBreakers : List CircuitBreaker
  readBreakers : List CircuitBreaker
  writeBreakers : List CircuitBreaker
  server : S

section Request

variable {S α : Type} (op : Operation S α)

def Operation.after (ran : Bool) (p : Party) (s : S) : S := if ran then (op.run p s).2 else s

def askBackend (b : BackendScript) (s : S) : Except SynoFsError α × S :=
  match b.fate with
  | .answered => op.run .backend s
  | .lost ran message => (.error (.io message), op.after ran .backend s)
  | .refused e => (.error e, s)

/-- The backends of one kind as one call meets them: in turn, each with its
breaker. -/
def viaBackends (scripts : ℕ → BackendScript) (breakers : List CircuitBreaker) (s : S) :
    Option (Except SynoFsError α) × List CircuitBreaker × S :=
  let entries := breakers.zipIdx.map fun (breaker, i) => (⟨scripts i, breaker⟩ : TransportEntry _)
  let (answer, entries, s) := viaTransports (askBackend op) (fun b _ => b.asked)
    (fun b _ => b.told) entries s
  (answer, entries.map (·.breaker), s)

/-- An HTTP request with `left` sends to go, after `sent` of them. A connection
that fails is tried again, an answer of any kind is the end. -/
def sendRetried (http : ℕ → HttpFate) (lastErr : SynoFsError) :
    ℕ → ℕ → S → Except SynoFsError α × S
  | _, 0, s => (.error lastErr, s)
  | sent, left + 1, s =>
      match http sent with
      | .answered => op.run .http s
      | .lost ran message => sendRetried http (.io message) (sent + 1) left (op.after ran .http s)
      | .refused code => (.error (.apiError code), s)
      | .garbled ran message => (.error (.io message), op.after ran .http s)

/-- `get_text_retried`. -/
def getTextRetried (http : ℕ → HttpFate) : S → Except SynoFsError α × S :=
  sendRetried op http (.io "no attempts") 0 3

/-- A metadata call. -/
def request (sc : RequestScript) (c : Client S) : Except SynoFsError α × Client S :=
  let (answer, breakers, s) := viaBackends op sc.backend c.metadataBreakers c.server
  match answer with
  | some r => (r, { c with metadataBreakers := breakers, server := s })
  | none =>
      let (r, s) := getTextRetried op sc.http s
      (r, { c with metadataBreakers := breakers, server := s })

end Request

/-! ### What a script makes run

Which parties carry a call out, and whether the last of them is heard, is the
script's and the breakers' doing alone. -/

def recording : Operation (List Party) Unit where
  run p log := (.ok (), log ++ [p])
  final _ := rfl

/-- A backend that its breaker lets answer, answers. -/
def settled (scripts : ℕ → BackendScript) (breakers : List CircuitBreaker) : Bool :=
  (viaBackends recording scripts breakers []).1.isSome

def RequestScript.trace (sc : RequestScript) (breakers : List CircuitBreaker) :
    Except SynoFsError Unit × Client (List Party) :=
  request recording sc ⟨breakers, [], [], []⟩

/-- The parties that carry the call out, in order. -/
def RequestScript.runs (sc : RequestScript) (breakers : List CircuitBreaker) : List Party :=
  (sc.trace breakers).2.server

/-- The answer that ends the call comes from a party that carried it out. -/
def RequestScript.heard (sc : RequestScript) (breakers : List CircuitBreaker) : Bool :=
  (sc.trace breakers).1.isOk

def RequestScript.breakersAfter (sc : RequestScript) (breakers : List CircuitBreaker) :
    List CircuitBreaker :=
  (sc.trace breakers).2.metadataBreakers

section Trace

variable {S α : Type} (op : Operation S α)

/-- The call carried out by each party in turn. -/
def Operation.replay (s : S) (log : List Party) : S := log.foldl (fun s p => (op.run p s).2) s

@[simp] theorem Operation.replay_nil (s : S) : op.replay s [] = s := rfl

@[simp] theorem Operation.replay_concat (s : S) (log : List Party) (p : Party) :
    op.replay s (log ++ [p]) = (op.run p (op.replay s log)).2 := by
  rw [Operation.replay, List.foldl_append]
  rfl

/-- `answer` and `s` are what the recorded call comes to when it is `op` that is
carried out. -/
structure Follows (s₀ : S) (recorded : Except SynoFsError Unit) (log : List Party)
    (answer : Except SynoFsError α) (s : S) : Prop where
  server : s = op.replay s₀ log
  ok : recorded = .ok () → ∃ before p, log = before ++ [p] ∧
    answer = (op.run p (op.replay s₀ before)).1
  error : ∀ e, recorded = .error e → answer = .error e

theorem Follows.of_ok {op : Operation S α} {s₀ s : S} {recorded : Except SynoFsError Unit}
    {log : List Party} {answer : Except SynoFsError α} {a : α}
    (h : Follows op s₀ recorded log answer s) (hanswer : answer = .ok a) :
    ∃ before p, log = before ++ [p] ∧ (op.run p (op.replay s₀ before)).1 = .ok a := by
  cases recorded with
  | error e =>
      rw [h.error e rfl] at hanswer
      cases hanswer
  | ok u =>
      obtain ⟨before, p, hlog, hrun⟩ := h.ok rfl
      exact ⟨before, p, hlog, hrun ▸ hanswer⟩

variable (s₀ : S)

theorem after_follows (ran : Bool) (p : Party) (log : List Party) :
    op.after ran p (op.replay s₀ log) = op.replay s₀ (recording.after ran p log) := by
  cases ran with
  | false => rfl
  | true => exact (op.replay_concat s₀ log p).symm

theorem run_follows (p : Party) (log : List Party) :
    Follows op s₀ (recording.run p log).1 (recording.run p log).2
      (op.run p (op.replay s₀ log)).1 (op.run p (op.replay s₀ log)).2 where
  server := (op.replay_concat s₀ log p).symm
  ok _ := ⟨log, p, rfl, rfl⟩
  error _ h := by cases h

theorem error_follows (e : SynoFsError) (log : List Party) :
    Follows op s₀ (.error e) log (.error e) (op.replay s₀ log) where
  server := rfl
  ok h := by cases h
  error _ h := by rw [Except.error.inj h]

theorem sendRetried_follows (http : ℕ → HttpFate) (lastErr : SynoFsError) (sent left : ℕ)
    (log : List Party) :
    Follows op s₀ (sendRetried recording http lastErr sent left log).1
      (sendRetried recording http lastErr sent left log).2
      (sendRetried op http lastErr sent left (op.replay s₀ log)).1
      (sendRetried op http lastErr sent left (op.replay s₀ log)).2 := by
  induction left generalizing lastErr sent log with
  | zero => exact error_follows op s₀ lastErr log
  | succ left ih =>
      rw [sendRetried, sendRetried]
      cases http sent with
      | answered => exact run_follows op s₀ .http log
      | lost ran message =>
          simp only [after_follows op s₀]
          exact ih (.io message) (sent + 1) (recording.after ran .http log)
      | refused code => exact error_follows op s₀ (.apiError code) log
      | garbled ran message =>
          simp only [after_follows op s₀]
          exact error_follows op s₀ (.io message) (recording.after ran .http log)

/-- The ladder asks the same backends whatever the call does. -/
theorem viaTransports_follows (entries : List (TransportEntry BackendScript)) (log : List Party) :
    let recorded := viaTransports (askBackend recording) (fun b _ => b.asked) (fun b _ => b.told)
      entries log
    let called := viaTransports (askBackend op) (fun b _ => b.asked) (fun b _ => b.told)
      entries (op.replay s₀ log)
    called.2.1 = recorded.2.1 ∧
      ((recorded.1 = none ∧ called.1 = none ∧ called.2.2 = op.replay s₀ recorded.2.2) ∨
        ∃ r r', recorded.1 = some r ∧ called.1 = some r' ∧
          Follows op s₀ r recorded.2.2 r' called.2.2) := by
  induction entries generalizing log with
  | nil => exact ⟨rfl, Or.inl ⟨rfl, rfl, rfl⟩⟩
  | cons entry rest ih =>
      simp only [viaTransports]
      cases entry.breaker.allows entry.transport.asked with
      | mk allowed breaker =>
          cases allowed with
          | false =>
              obtain ⟨hentries, hanswer⟩ := ih log
              exact ⟨by rw [hentries], hanswer⟩
          | true =>
              simp only [askBackend]
              cases entry.transport.fate with
              | answered =>
                  have hrun := run_follows op s₀ .backend log
                  have hfinal := op.final (op.replay s₀ log)
                  revert hrun hfinal
                  cases op.run .backend (op.replay s₀ log) with
                  | mk r s =>
                      intro hrun hfinal
                      cases r with
                      | ok v => exact ⟨rfl, Or.inr ⟨_, _, rfl, rfl, hrun⟩⟩
                      | error e =>
                          simp only [passesOn, Bool.or_eq_false_iff, decide_eq_false_iff_not]
                            at hfinal
                          simp only [hfinal.1, hfinal.2, if_false]
                          exact ⟨rfl, Or.inr ⟨_, _, rfl, rfl, hrun⟩⟩
              | lost ran message =>
                  simp only [after_follows op s₀, SynoFsError.category, reduceCtorEq, if_false,
                    if_true]
                  obtain ⟨hentries, hanswer⟩ := ih (recording.after ran .backend log)
                  exact ⟨by rw [hentries], hanswer⟩
              | refused e =>
                  obtain ⟨hentries, hanswer⟩ := ih log
                  by_cases hdecl : e.category = .notSupported
                  · simp only [hdecl, if_true]
                    exact ⟨by rw [hentries], hanswer⟩
                  · by_cases hdead : e.category = .transport
                    · simp only [hdead, reduceCtorEq, if_false, if_true]
                      exact ⟨by rw [hentries], hanswer⟩
                    · simp only [hdecl, hdead, if_false]
                      exact ⟨trivial, Or.inr ⟨_, _, rfl, rfl, error_follows op s₀ e log⟩⟩

theorem viaBackends_follows (scripts : ℕ → BackendScript) (breakers : List CircuitBreaker) :
    let recorded := viaBackends recording scripts breakers []
    let called := viaBackends op scripts breakers s₀
    called.2.1 = recorded.2.1 ∧
      ((recorded.1 = none ∧ called.1 = none ∧ called.2.2 = op.replay s₀ recorded.2.2) ∨
        ∃ r r', recorded.1 = some r ∧ called.1 = some r' ∧
          Follows op s₀ r recorded.2.2 r' called.2.2) := by
  obtain ⟨hentries, hanswer⟩ := viaTransports_follows op s₀
    (breakers.zipIdx.map fun (breaker, i) => ⟨scripts i, breaker⟩) []
  exact ⟨congrArg (List.map TransportEntry.breaker) hentries, hanswer⟩

/-- **A call and its trace.** The breakers end as the trace says, the server as
the runs of the trace leave it, and the answer is that of the last run, if it is
heard, and an error of the script's otherwise. -/
theorem request_follows (sc : RequestScript) (c : Client S) :
    (request op sc c).2 = { c with
        metadataBreakers := sc.breakersAfter c.metadataBreakers,
        server := (request op sc c).2.server } ∧
      Follows op c.server (sc.trace c.metadataBreakers).1 (sc.runs c.metadataBreakers)
        (request op sc c).1 (request op sc c).2.server := by
  obtain ⟨hbreakers, hanswer⟩ := viaBackends_follows op c.server sc.backend c.metadataBreakers
  simp only [RequestScript.breakersAfter, RequestScript.runs, RequestScript.trace, request]
  rcases hanswer with ⟨hnone, hnone', hserver⟩ | ⟨r, r', hsome, hsome', hfollows⟩
  · simp only [hnone, hnone', hserver, hbreakers]
    exact ⟨trivial, sendRetried_follows op c.server _ _ 0 3 _⟩
  · simp only [hsome, hsome', hbreakers]
    exact ⟨trivial, hfollows⟩

/-- **The request rule.** What each run keeps, the call keeps. -/
theorem Operation.replay_rule {P : S → Prop} (hrun : ∀ p s, P s → P (op.run p s).2) {s : S}
    (hs : P s) (log : List Party) : P (op.replay s log) := by
  induction log generalizing s with
  | nil => exact hs
  | cons p log ih => exact ih (hrun p s hs)

theorem request_rule {P : S → Prop} (hrun : ∀ p s, P s → P (op.run p s).2) (sc : RequestScript)
    {c : Client S} (hc : P c.server) : P (request op sc c).2.server := by
  rw [(request_follows op sc c).2.server]
  exact op.replay_rule hrun hc _

theorem viaBackends_rule {P : S → Prop} (hrun : ∀ p s, P s → P (op.run p s).2)
    (scripts : ℕ → BackendScript) (breakers : List CircuitBreaker) {s : S} (hs : P s) :
    P (viaBackends op scripts breakers s).2.2 := by
  obtain ⟨_, ⟨_, _, hserver⟩ | ⟨_, _, _, _, hfollows⟩⟩ :=
    viaBackends_follows op s scripts breakers
  · rw [hserver]
    exact op.replay_rule hrun hs _
  · rw [hfollows.server]
    exact op.replay_rule hrun hs _

/-- An answer of the backends is one that does not go on to the next. -/
theorem viaBackends_answer {scripts : ℕ → BackendScript} {breakers : List CircuitBreaker} {s : S}
    {r : Except SynoFsError α} (h : (viaBackends op scripts breakers s).1 = some r) :
    passesOn r = false :=
  (viaTransports_rule (askBackend op) (fun b _ => b.asked) (fun b _ => b.told) (fun _ => True)
    (fun r _ => passesOn r = false) (fun _ _ _ _ _ => trivial) (fun _ _ _ _ h => h)
    trivial).2 r h

theorem viaBackends_isSome (scripts : ℕ → BackendScript) (breakers : List CircuitBreaker) (s : S) :
    (viaBackends op scripts breakers s).1.isSome = settled scripts breakers := by
  rw [settled]
  obtain ⟨_, ⟨hnone, hnone', _⟩ | ⟨_, _, hsome, hsome', _⟩⟩ :=
    viaBackends_follows op s scripts breakers
  · rw [hnone, hnone']
    rfl
  · rw [hsome, hsome']
    rfl

theorem sendRetried_rule {P : S → Prop} (hrun : ∀ p s, P s → P (op.run p s).2)
    (http : ℕ → HttpFate) (lastErr : SynoFsError) (sent left : ℕ) {s : S} (hs : P s) :
    P (sendRetried op http lastErr sent left s).2 := by
  have hserver := (sendRetried_follows op s http lastErr sent left []).server
  rw [Operation.replay_nil] at hserver
  rw [hserver]
  exact op.replay_rule hrun hs _

section Declined

/-! A call that FileStation never declines is never answered with a decline. -/

variable {op} (hrun : ∀ s, (op.run .http s).1 ≠ .error .notSupported)

include hrun

theorem sendRetried_ne_notSupported (http : ℕ → HttpFate) {lastErr : SynoFsError}
    (hlast : lastErr ≠ .notSupported) (sent left : ℕ) (s : S) :
    (sendRetried op http lastErr sent left s).1 ≠ .error .notSupported := by
  induction left generalizing lastErr sent s with
  | zero => simpa [sendRetried] using hlast
  | succ left ih =>
      rw [sendRetried]
      split
      case h_1 => exact hrun s
      case h_2 => exact ih (by exact nofun) _ _
      case h_3 => exact nofun
      case h_4 => exact nofun

theorem request_ne_notSupported (sc : RequestScript) (c : Client S) :
    (request op sc c).1 ≠ .error .notSupported := by
  unfold request
  cases hvia : viaBackends op sc.backend c.metadataBreakers c.server with
  | mk answer rest =>
      cases answer with
      | none => exact sendRetried_ne_notSupported hrun sc.http (by exact nofun) 0 3 _
      | some r =>
          have hfinal := viaBackends_answer op (congrArg Prod.fst hvia)
          rintro rfl
          cases hfinal

end Declined

section Quiet

/-! A call that changes nothing answers with what one of its runs reads. -/

variable {op} {s : S} {a : α} (hquiet : ∀ p, (op.run p s).2 = s)

include hquiet

theorem Operation.replay_quiet (log : List Party) : op.replay s log = s := by
  refine op.replay_rule (P := (· = s)) ?_ rfl log
  rintro p _ rfl
  exact hquiet p

theorem viaBackends_quiet (scripts : ℕ → BackendScript) (breakers : List CircuitBreaker) :
    (viaBackends op scripts breakers s).2.2 = s := by
  refine viaBackends_rule op (P := (· = s)) ?_ scripts breakers rfl
  rintro p _ rfl
  exact hquiet p

theorem viaBackends_ok {scripts : ℕ → BackendScript} {breakers : List CircuitBreaker}
    (h : (viaBackends op scripts breakers s).1 = some (.ok a)) :
    ∃ p, (op.run p s).1 = .ok a := by
  obtain ⟨_, ⟨_, hnone, _⟩ | ⟨_, _, _, hsome, hfollows⟩⟩ :=
    viaBackends_follows op s scripts breakers
  · rw [hnone] at h
    cases h
  · rw [hsome] at h
    obtain ⟨before, p, _, hrun⟩ := hfollows.of_ok (Option.some.inj h)
    rw [Operation.replay_quiet hquiet] at hrun
    exact ⟨p, hrun⟩

theorem sendRetried_ok {http : ℕ → HttpFate} {lastErr : SynoFsError} {sent left : ℕ}
    (h : (sendRetried op http lastErr sent left s).1 = .ok a) : ∃ p, (op.run p s).1 = .ok a := by
  obtain ⟨before, p, _, hrun⟩ := (sendRetried_follows op s http lastErr sent left []).of_ok h
  rw [Operation.replay_quiet hquiet] at hrun
  exact ⟨p, hrun⟩

omit hquiet in
theorem request_ok {sc : RequestScript} {c : Client S}
    (hquiet : ∀ p, (op.run p c.server).2 = c.server) (h : (request op sc c).1 = .ok a) :
    ∃ p, (op.run p c.server).1 = .ok a := by
  obtain ⟨before, p, _, hrun⟩ := (request_follows op sc c).2.of_ok h
  rw [Operation.replay_quiet hquiet] at hrun
  exact ⟨p, hrun⟩

end Quiet

/-- No backend takes the call. -/
def declining : ℕ → BackendScript := fun _ => ⟨0, 0, .refused .notSupported⟩

theorem viaBackends_declining (breakers : List CircuitBreaker) (s : S) :
    ∃ breakers', viaBackends op declining breakers s = (none, breakers', s) := by
  have hpass : ∀ entry ∈ breakers.zipIdx.map
      fun (breaker, i) => (⟨declining i, breaker⟩ : TransportEntry BackendScript),
      passesOn (askBackend op entry.transport s).1 = true ∧
        (askBackend op entry.transport s).2 = s := by
    intro entry hentry
    obtain ⟨_, _, rfl⟩ := List.mem_map.mp hentry
    exact ⟨rfl, rfl⟩
  obtain ⟨entries', h⟩ := viaTransports_passed (askBackend op) (fun b _ => b.asked)
    (fun b _ => b.told) hpass
  exact ⟨entries'.map (·.breaker), by rw [viaBackends, h]⟩

/-- FileStation answers at once, and no backend takes the call. -/
def RequestScript.plain : RequestScript := ⟨declining, fun _ => .answered⟩

theorem request_plain (c : Client S) :
    ∃ breakers, request op .plain c = ((op.run .http c.server).1,
      { c with metadataBreakers := breakers, server := (op.run .http c.server).2 }) := by
  obtain ⟨breakers, h⟩ := viaBackends_declining op c.metadataBreakers c.server
  refine ⟨breakers, ?_⟩
  rw [request, RequestScript.plain, h]
  rfl

theorem runs_plain (breakers : List CircuitBreaker) :
    RequestScript.plain.runs breakers = [.http] := by
  obtain ⟨breakers', h⟩ := request_plain recording ⟨breakers, [], [], []⟩
  rw [RequestScript.runs, RequestScript.trace, h]
  rfl

/-- FileStation cannot be reached, and no backend takes the call. -/
def RequestScript.unreached : RequestScript := ⟨declining, fun _ => .lost false "timed out"⟩

theorem request_unreached (c : Client S) :
    ∃ breakers, request op .unreached c =
      (.error (.io "timed out"), { c with metadataBreakers := breakers }) := by
  obtain ⟨breakers, h⟩ := viaBackends_declining op c.metadataBreakers c.server
  refine ⟨breakers, ?_⟩
  rw [request, RequestScript.unreached, h]
  rfl

/-- FileStation refuses, and no backend takes the call. -/
theorem request_refused (code : ℕ) (c : Client S) :
    ∃ breakers, request op ⟨declining, fun _ => .refused code⟩ c =
      (.error (.apiError code), { c with metadataBreakers := breakers }) := by
  obtain ⟨breakers, h⟩ := viaBackends_declining op c.metadataBreakers c.server
  refine ⟨breakers, ?_⟩
  rw [request, h]
  rfl

end Trace

end SynologyFilestation.Core
