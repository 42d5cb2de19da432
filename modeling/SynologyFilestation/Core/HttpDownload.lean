import SynologyFilestation.Core.SessionAuth
import SynologyFilestation.Core.Upload

/-!
A range read over HTTP (`http_download` in `core/src/client/download.rs` and
`classify_download_body` in `core/src/client/throttle.rs`).

DSM reports an error under a good status, so that a body is inspected before it is
taken for the file. How JSON is read is a parameter: `parse` is `serde_json` on a
`SynoResponse`.
-/

namespace SynologyFilestation.Core

/-- `StatusCode`, with the reason its text ends with. -/
structure HttpStatus where
  code : ℕ
  reason : String

namespace HttpStatus

/-- `is_success`. -/
def isSuccess (s : HttpStatus) : Bool := 200 ≤ s.code && s.code < 300

/-- `RANGE_NOT_SATISFIABLE`. -/
def rangeNotSatisfiable : ℕ := 416

/-- `http_status_is_transient`. -/
def isTransient (s : HttpStatus) : Bool :=
  s.code = 502 || s.code = 503 || s.code = 504 || s.code = 407

def text (s : HttpStatus) : String := toString s.code ++ " " ++ s.reason

end HttpStatus

/-- What comes back of a request: an error on the way, or a status and a body. -/
inductive HttpAnswer
  | failed (message : String)
  | answered (status : HttpStatus) (body : Bytes)

/-- `TransferOutcome`. -/
inductive TransferOutcome
  | done (bytes : Bytes)
  | fatal (e : SynoFsError)
  | retry (hard : Bool) (e : SynoFsError)

namespace TransferOutcome

/-- What is returned when no attempt follows. -/
def result : TransferOutcome → Except SynoFsError Bytes
  | done bytes => .ok bytes
  | fatal e | retry _ e => .error e

def isRetry : TransferOutcome → Bool
  | retry .. => true
  | _ => false

end TransferOutcome

section Download

variable (parse : Bytes → Option (SynoResponse Unit))

/-- The error that a body is taken for. -/
def errorIn (body : Bytes) : Option ℕ :=
  if body.length < 1024 && body.head? = some 0x7b then
    (parse body).bind fun envelope =>
      if envelope.success then none else some (envelope.error.getD 0)
  else none

def classifyDownloadBody (body : Bytes) : TransferOutcome :=
  match errorIn parse body with
  | some code =>
      if dsmCodeToCategory code = .busy then .retry true (.apiError code)
      else .fatal (.apiError code)
  | none => .done body

/-- The outcome of one attempt. -/
def attemptOutcome : HttpAnswer → TransferOutcome
  | .failed message => .retry false (.io message)
  | .answered status body =>
      if status.code = HttpStatus.rangeNotSatisfiable then .done []
      else if !status.isSuccess then
        let e := .io ("download HTTP " ++ status.text)
        if status.isTransient then .retry false e else .fatal e
      else classifyDownloadBody parse body

/-- The first and the last byte of the `Range` header, if there is one: nothing when their
arithmetic overflows. -/
def rangeHeader (offset length : ℕ) : Option (Option (ℕ × ℕ)) :=
  if 0 < length then
    if offset + length < 2 ^ 64 then some (some (offset, offset + length - 1)) else none
  else some none

/-- The attempts left, after `attempt` of them. -/
def httpDownloadFrom (answers : ℕ → HttpAnswer) (lastErr : SynoFsError) :
    ℕ → ℕ → Except SynoFsError Bytes
  | _, 0 => .error lastErr
  | attempt, left + 1 =>
      match attemptOutcome parse (answers attempt) with
      | .done bytes => .ok bytes
      | .fatal e => .error e
      | .retry _ e => httpDownloadFrom answers e (attempt + 1) left

/-- `http_download`, from a server that answers each attempt. -/
def httpDownload (limits : TransferLimits) (server : Option (ℕ × ℕ) → ℕ → HttpAnswer)
    (offset length : ℕ) : Option (Except SynoFsError Bytes) :=
  (rangeHeader offset length).map fun header =>
    httpDownloadFrom parse (server header) (.io "no attempts") 0 limits.maxAttempts

/-! ### What the loop ends with -/

/-- The attempt that the loop ends with: the first that is not for another one, or the last. -/
def endingFrom (retried : ℕ → Bool) : ℕ → ℕ → ℕ
  | attempt, 0 => attempt
  | attempt, left + 1 =>
      if retried attempt then endingFrom retried (attempt + 1) left else attempt

theorem httpDownloadFrom_eq (answers : ℕ → HttpAnswer) (lastErr : SynoFsError)
    (attempt left : ℕ) :
    httpDownloadFrom parse answers lastErr attempt (left + 1) =
      (attemptOutcome parse (answers (endingFrom
        (fun i => (attemptOutcome parse (answers i)).isRetry) attempt left))).result := by
  induction left generalizing attempt lastErr with
  | zero =>
      rw [httpDownloadFrom, endingFrom]
      cases attemptOutcome parse (answers attempt) <;> rfl
  | succ left ih =>
      rw [httpDownloadFrom, endingFrom]
      cases houtcome : attemptOutcome parse (answers attempt) with
      | done bytes => simp [TransferOutcome.isRetry, houtcome, TransferOutcome.result]
      | fatal e => simp [TransferOutcome.isRetry, houtcome, TransferOutcome.result]
      | retry hard e =>
          simp only [TransferOutcome.isRetry, if_true]
          exact ih e (attempt + 1)

/-! ### Servers of a file -/

/-- How a server treats one request: it is not reached, it answers another status or an
error of its own, it honours the range and answers 416 past the end, or it does not look at
the range and sends the file. -/
inductive Serving
  | failed (message : String)
  | status (status : HttpStatus)
      (h : status.isSuccess = false ∧ status.code ≠ HttpStatus.rangeNotSatisfiable)
  | refused (body : Bytes) (h : (errorIn parse body).isSome = true)
  | honours
  | ignores

/-- A range of the file. -/
def servedRange (content : Bytes) (first last : ℕ) : Bytes := (content.take (last + 1)).drop first

def okStatus : HttpStatus := ⟨200, "OK"⟩

/-- What a server with this file answers. -/
def Serving.answer (content : Bytes) (header : Option (ℕ × ℕ)) : Serving parse → HttpAnswer
  | .failed message => .failed message
  | .status other .. => .answered other []
  | .refused body .. => .answered okStatus body
  | .honours =>
      match header with
      | some (first, last) =>
          if first < content.length then
            .answered ⟨206, "Partial Content"⟩ (servedRange content first last)
          else .answered ⟨HttpStatus.rangeNotSatisfiable, "Range Not Satisfiable"⟩ []
      | none => .answered okStatus content
  | .ignores => .answered okStatus content

variable {parse}

/-- How the download ends with this way of serving. -/
def Serving.outcome (content : Bytes) (offset length : ℕ) (serving : Serving parse) :
    TransferOutcome :=
  attemptOutcome parse (serving.answer parse content (some (offset, offset + length - 1)))

/-- The serving that the download ends with. -/
def Serving.ending (limits : TransferLimits) (content : Bytes) (offset length : ℕ)
    (servings : ℕ → Serving parse) : Serving parse :=
  servings (endingFrom (fun i => ((servings i).outcome content offset length).isRetry) 0
    (limits.maxAttempts - 1))

/-- **What a download returns.** -/
theorem httpDownload_eq (limits : TransferLimits) (content : Bytes) {offset length : ℕ}
    (hlength : 1 ≤ length) (servings : ℕ → Serving parse) :
    httpDownload parse limits (fun header i => (servings i).answer parse content header) offset
        length =
      if offset + length < 2 ^ 64 then
        some ((Serving.ending limits content offset length servings).outcome content offset
          length).result
      else none := by
  obtain ⟨left, hleft⟩ := Nat.exists_eq_succ_of_ne_zero limits.attempts_pos.ne'
  unfold httpDownload rangeHeader
  rw [if_pos (Nat.lt_of_lt_of_le Nat.zero_lt_one hlength)]
  split
  case isTrue =>
    rw [Option.map_some, hleft, httpDownloadFrom_eq, Serving.ending, hleft]
    rfl
  case isFalse => rfl

/-- The range that was asked for. -/
theorem served_range (content : Bytes) {offset length : ℕ} (hlength : 1 ≤ length) :
    servedRange content offset (offset + length - 1) = (content.drop offset).take length := by
  have hlast : offset + length - 1 + 1 = offset + length := by omega
  rw [servedRange, hlast, List.drop_take, Nat.add_sub_cancel_left]

/-- A whole file is a range of itself only if the range is all of it. -/
theorem whole_eq_range {content : Bytes} {offset length : ℕ} :
    content = (content.drop offset).take length ↔
      content = [] ∨ offset = 0 ∧ content.length ≤ length := by
  constructor
  · intro h
    have hlen := congrArg List.length h
    rw [List.length_take, List.length_drop] at hlen
    rcases eq_or_ne content [] with hempty | hne
    · exact Or.inl hempty
    · have hpos : 0 < content.length := List.length_pos_iff.mpr hne
      exact Or.inr ⟨by omega, by omega⟩
  · rintro (rfl | ⟨rfl, hlen⟩)
    · simp
    · rw [List.drop_zero, List.take_of_length_le hlen]

/-- What a download is to return: the range, if it succeeds, and an error of DSM only if DSM
has answered with one. -/
structure ReturnsRange (limits : TransferLimits) (content : Bytes) (offset length : ℕ)
    (servings : ℕ → Serving parse) (result : Option (Except SynoFsError Bytes)) : Prop where
  fits : result ≠ none
  range : ∀ bytes, result = some (.ok bytes) → bytes = (content.drop offset).take length
  refused : ∀ code, result = some (.error (.apiError code)) →
    ∃ body h, Serving.ending limits content offset length servings = .refused body h

/-- The bytes that are served are the range, and are not taken for an error. -/
def Serving.Plain (content : Bytes) (offset length : ℕ) : Serving parse → Prop
  | .honours =>
      content.length ≤ offset ∨ errorIn parse ((content.drop offset).take length) = none
  | .ignores =>
      errorIn parse content = none ∧ (content = [] ∨ offset = 0 ∧ content.length ≤ length)
  | .failed _ | .status .. | .refused .. => True

theorem classify_error {body : Bytes} {code : ℕ} (h : errorIn parse body = some code) :
    (classifyDownloadBody parse body).result = .error (.apiError code) := by
  rw [classifyDownloadBody, h]
  dsimp only
  split <;> rfl

theorem classify_plain {body : Bytes} (h : errorIn parse body = none) :
    (classifyDownloadBody parse body).result = .ok body := by
  rw [classifyDownloadBody, h]
  rfl

/-- A body with a good status is taken for what it is exactly if no error is seen in it. -/
theorem classify_right {body range : Bytes} {P : Prop} (hP : ¬P) :
    ((∀ bytes, (classifyDownloadBody parse body).result = .ok bytes → bytes = range) ∧
        ∀ code, (classifyDownloadBody parse body).result = .error (.apiError code) → P) ↔
      errorIn parse body = none ∧ body = range := by
  cases herror : errorIn parse body with
  | some code =>
      rw [classify_error herror]
      refine iff_of_false (fun h => hP (h.2 code rfl)) ?_
      rintro ⟨hnone, -⟩
      cases hnone
  | none =>
      rw [classify_plain herror]
      constructor
      · rintro ⟨hbytes, -⟩
        exact ⟨rfl, hbytes body rfl⟩
      · rintro ⟨-, rfl⟩
        refine ⟨fun bytes h => (Except.ok.inj h).symm, nofun⟩

/-- What each way of serving ends in. -/
theorem Serving.right_iff {content : Bytes} {offset length : ℕ} (hlength : 1 ≤ length)
    (serving : Serving parse) :
    ((∀ bytes, (serving.outcome content offset length).result = .ok bytes →
          bytes = (content.drop offset).take length) ∧
        ∀ code, (serving.outcome content offset length).result = .error (.apiError code) →
          ∃ body h, serving = .refused body h) ↔
      serving.Plain content offset length := by
  cases serving with
  | failed message => exact iff_of_true ⟨nofun, nofun⟩ trivial
  | status status h =>
      obtain ⟨hfails, hcode⟩ := h
      have houtcome : ∃ why, (outcome content offset length (.status status ⟨hfails, hcode⟩ :
          Serving parse)).result = .error (.io why) := by
        refine ⟨"download HTTP " ++ status.text, ?_⟩
        rw [outcome, answer, attemptOutcome, if_neg hcode, hfails]
        dsimp only [Bool.not_false, if_true]
        cases status.isTransient <;> rfl
      obtain ⟨why, houtcome⟩ := houtcome
      rw [houtcome]
      exact iff_of_true ⟨nofun, nofun⟩ trivial
  | refused body h =>
      obtain ⟨code, hcode⟩ := Option.isSome_iff_exists.mp h
      have houtcome : (outcome content offset length (.refused body h : Serving parse)).result =
          .error (.apiError code) := classify_error hcode
      rw [houtcome]
      exact iff_of_true ⟨nofun, fun _ _ => ⟨body, h, rfl⟩⟩ trivial
  | honours =>
      have hother : ¬∃ body h, (.honours : Serving parse) = .refused body h := by
        rintro ⟨body, h, heq⟩
        cases heq
      by_cases hpast : offset < content.length
      · have houtcome : outcome content offset length (.honours : Serving parse) =
            classifyDownloadBody parse ((content.drop offset).take length) := by
          rw [outcome, answer, if_pos hpast, served_range content hlength]
          rfl
        rw [houtcome, classify_right hother, Plain, and_iff_left rfl,
          or_iff_right (Nat.not_le.mpr hpast)]
      · have hend : content.length ≤ offset := Nat.le_of_not_lt hpast
        have houtcome : (outcome content offset length (.honours : Serving parse)).result =
            .ok [] := by
          rw [outcome, answer, if_neg hpast]
          rfl
        rw [houtcome]
        refine iff_of_true ⟨fun bytes h => ?_, nofun⟩ (Or.inl hend)
        rw [List.drop_eq_nil_of_le hend, List.take_nil]
        exact (Except.ok.inj h).symm
  | ignores =>
      have hother : ¬∃ body h, (.ignores : Serving parse) = .refused body h := by
        rintro ⟨body, h, heq⟩
        cases heq
      have houtcome : outcome content offset length (.ignores : Serving parse) =
          classifyDownloadBody parse content := rfl
      rw [houtcome, classify_right hother, whole_eq_range]
      rfl

/-- **A successful download is the range**, and the file is never taken for an error, exactly
if the range's end can be computed and what the server sends at the last attempt is plain. -/
theorem http_download_returns_range_iff (limits : TransferLimits) (content : Bytes)
    {offset length : ℕ} (hlength : 1 ≤ length) (servings : ℕ → Serving parse) :
    ReturnsRange limits content offset length servings
        (httpDownload parse limits (fun header i => (servings i).answer parse content header)
          offset length) ↔
      offset + length < 2 ^ 64 ∧
        (Serving.ending limits content offset length servings).Plain content offset length := by
  rw [httpDownload_eq limits content hlength]
  split
  case isFalse hbig => exact iff_of_false (fun h => h.fits rfl) (fun h => hbig h.1)
  case isTrue hsmall =>
    rw [and_iff_right hsmall, ← Serving.right_iff hlength]
    constructor
    · intro h
      exact ⟨fun bytes hbytes => h.range bytes (congrArg some hbytes),
        fun code hcode => h.refused code (congrArg some hcode)⟩
    · rintro ⟨hrange, hrefused⟩
      exact ⟨nofun, fun bytes h => hrange bytes (Option.some.inj h),
        fun code h => hrefused code (Option.some.inj h)⟩

end Download

/-! ### A file that reads as an error -/

/-- `{"success":false}`. -/
def failureText : Bytes :=
  [123, 34, 115, 117, 99, 99, 101, 115, 115, 34, 58, 102, 97, 108, 115, 101, 125]

/-- What JSON that text is; of other texts nothing is asked here. -/
def parseFailure (body : Bytes) : Option (SynoResponse Unit) :=
  if body = failureText then some ⟨false, none, none⟩ else none

/-- The middle of a file, after an attempt that was not answered. -/
theorem middle_of_file_returned :
    ReturnsRange .standard [1, 2, 3, 4] 1 2
      (fun i => if i = 0 then .failed "connection reset" else (.honours : Serving parseFailure))
      (httpDownload parseFailure .standard (fun header i =>
        (if i = 0 then .failed "connection reset" else (.honours : Serving parseFailure)).answer
          parseFailure [1, 2, 3, 4] header) 1 2) :=
  (http_download_returns_range_iff .standard [1, 2, 3, 4] (by decide) _).mpr
    ⟨by decide, Or.inr (by decide)⟩

/-- The file whose content is that text is reported as an error of DSM, although the server
honours the range. -/
theorem failure_text_is_refused :
    ¬∀ (limits : TransferLimits) (content : Bytes) (offset length : ℕ)
      (servings : ℕ → Serving parseFailure), 1 ≤ length →
        ReturnsRange limits content offset length servings
          (httpDownload parseFailure limits
            (fun header i => (servings i).answer parseFailure content header) offset length) := by
  intro h
  have hreturns := h .standard failureText 0 17 (fun _ => .honours) (by decide)
  obtain ⟨body, hbody, heq⟩ := hreturns.refused 0 (by decide)
  cases heq

end SynologyFilestation.Core
