import SynologyFilestation.Core.SliceUpload
import SynologyFilestation.Core.ReplaceFile

/-!
A sliced upload that reports success left the local file.

A slice sent again may have been appended already, so a partial grows by each
slice once or more often. The invariant of a pass is that as long as the flag is
down, the partial is the local file up to the slice at hand; with the flag up it
is still made of the slices of the file, which is all that is asked of MD5: that
it tells the local file from those. Counting the sends along gives the bound.
-/

namespace SynologyFilestation.Core

open Library

variable {fold : String → String} {limits : TransferLimits} {path folder : NasPath}
  {filename : String} {content : Bytes} {old : Option Tree}

/-! ### What may be on the server -/

/-- A slice that landed `times` times in a row. -/
def repeated (times : ℕ) (chunk : Bytes) : Bytes := (List.replicate times chunk).flatten

theorem repeated_succ (times : ℕ) (chunk : Bytes) :
    repeated (times + 1) chunk = repeated times chunk ++ chunk := by
  rw [repeated, List.replicate_succ', List.flatten_append, List.flatten_singleton, repeated]

/-- What a partial may be after a number of slices: each landed, and at most as
often as a slice is sent. -/
inductive Grown (limits : TransferLimits) (content : Bytes) : ℕ → Bytes → Prop
  | opened : Grown limits content 0 []
  | slice {index : ℕ} {held : Bytes} (h : Grown limits content index held) (again : ℕ)
      (hagain : again < limits.maxAttempts) :
      Grown limits content (index + 1)
        (held ++ repeated (again + 1) (sliceOf content limits.sliceSize index))

/-- What the server may publish in the course of an upload. -/
def Publishable (limits : TransferLimits) (content : Bytes) (published : Bytes) : Prop :=
  ∃ held, Grown limits content (limits.slices content.length) held ∧
    (published = held ∨ published = held.take content.length)

/-- Under the path stands nothing, what stood there before, or something that
was published. -/
def Found (fold : String → String) (limits : TransferLimits) (path : NasPath) (content : Bytes)
    (old : Option Tree) (v : Volume) : Prop :=
  v.treeAt fold path = none ∨ v.treeAt fold path = old ∨
    ∃ published, Publishable limits content published ∧
      v.treeAt fold path = some (.file published)

theorem take_append_sliceOf (content : Bytes) (sliceSize index : ℕ) :
    content.take (index * sliceSize) ++ sliceOf content sliceSize index =
      content.take ((index + 1) * sliceSize) := by
  rw [sliceOf, Nat.succ_mul, List.take_add]

/-- The slices cover the file. -/
theorem take_slices (limits : TransferLimits) (content : Bytes) :
    content.take (limits.slices content.length * limits.sliceSize) = content := by
  apply List.take_of_length_le
  have hdiv := Nat.div_add_mod (content.length + limits.sliceSize - 1) limits.sliceSize
  have hmod := Nat.mod_lt (content.length + limits.sliceSize - 1) limits.slice_pos
  have hslices : (content.length + limits.sliceSize - 1) / limits.sliceSize ≤
      limits.slices content.length := le_max_left _ _
  have hmul := Nat.mul_le_mul_right limits.sliceSize hslices
  rw [Nat.mul_comm] at hdiv
  have hpos := limits.slice_pos
  omega

theorem Found.publish {v : Volume} (hv : Found fold limits path content old v) (trims : Bool)
    {held : Bytes} (hheld : Grown limits content (limits.slices content.length) held) :
    Found fold limits path content old (publish fold path trims content.length held v).2 := by
  cases hstore : (Core.publish fold path trims content.length held v).1 with
  | error e =>
      rw [Core.publish] at hstore ⊢
      rw [Volume.store_error hstore]
      exact hv
  | ok u =>
      rw [Core.publish] at hstore ⊢
      refine Or.inr (Or.inr ⟨_, ⟨held, hheld, ?_⟩, (Volume.store_ok hstore).2.1⟩)
      cases trims with
      | false => exact Or.inl rfl
      | true => exact Or.inr rfl

/-! ### One slice -/

/-- What the partial of a handle is: lost to the server, or these bytes. -/
def Holds (s : SliceSession) (tmpfile : Option ℕ) (held : Bytes) : Prop :=
  ∀ t, tmpfile = some t → s.partials t = none ∨ s.partials t = some held

/-- What a slice that was taken comes to. -/
def TakenAs (fold : String → String) (path : NasPath) (total : ℕ) (last : Bool) (t : ℕ)
    (grown : Bytes) (s : SliceSession) : Prop :=
  if last then ∃ published, (published = grown ∨ published = grown.take total) ∧
    s.client.server.treeAt fold path = some (.file published)
  else s.partials t = some grown

theorem publish_ok {v : Volume} {grown : Bytes} {trims : Bool} {total : ℕ}
    (h : (publish fold path trims total grown v).1 = .ok ()) :
    ∃ published, (published = grown ∨ published = grown.take total) ∧
      (publish fold path trims total grown v).2.treeAt fold path = some (.file published) := by
  rw [publish] at h ⊢
  refine ⟨_, ?_, (Volume.store_ok h).2.1⟩
  cases trims with
  | false => exact Or.inl rfl
  | true => exact Or.inr rfl

theorem grow_spec (s : SliceSession) (trims : Bool) (t handles : ℕ) {last : Bool} {grown : Bytes}
    (hgrown : last = true → Grown limits content (limits.slices content.length) grown)
    (hfound : Found fold limits path content old s.client.server) :
    let r := s.grow fold path trims content.length last t handles grown
    r.2.sent = s.sent ∧ Found fold limits path content old r.2.client.server ∧
      (r.2.partials t = none ∨ r.2.partials t = some grown) ∧
      ∀ u, r.1 = .ok u → TakenAs fold path content.length last u grown r.2 := by
  rw [SliceSession.grow]
  cases last with
  | false =>
      refine ⟨rfl, hfound, Or.inr (if_pos rfl), fun u hu => ?_⟩
      obtain rfl : t = u := Except.ok.inj hu
      exact if_pos rfl
  | true =>
      have hpublish := hfound.publish trims (hgrown rfl)
      simp only [if_true]
      cases hresult : publish fold path trims content.length grown s.client.server with
      | mk r v =>
          rw [hresult] at hpublish
          cases r with
          | ok u =>
              refine ⟨rfl, hpublish, Or.inl (if_pos rfl), fun u _ => ?_⟩
              have hok := publish_ok (congrArg Prod.fst hresult)
              rw [hresult] at hok
              exact hok
          | error e => exact ⟨rfl, hfound, Or.inr (if_pos rfl), fun u hu => by cases hu⟩

/-- **The server, slice by slice.** -/
theorem take_spec {s : SliceSession} (trims : Bool) {last : Bool} {chunk held : Bytes}
    {tmpfile : Option ℕ} (hheld : Holds s tmpfile held) (hopen : tmpfile = none → held = [])
    (hgrown : last = true → Grown limits content (limits.slices content.length) (held ++ chunk))
    (hfound : Found fold limits path content old s.client.server) :
    let r := s.take fold path trims chunk content.length last tmpfile
    r.2.sent = s.sent ∧ Found fold limits path content old r.2.client.server ∧
      (Holds r.2 tmpfile held ∨ Holds r.2 tmpfile (held ++ chunk)) ∧
      ∀ t, r.1 = .ok t → TakenAs fold path content.length last t (held ++ chunk) r.2 := by
  cases tmpfile with
  | none =>
      obtain rfl := hopen rfl
      obtain ⟨hsent, hfound, _, htaken⟩ := grow_spec s trims s.handles (s.handles + 1) hgrown
        hfound
      exact ⟨hsent, hfound, Or.inl fun t ht => (by cases ht), htaken⟩
  | some t =>
      rcases hheld t rfl with hgone | hthere
      · simp only [SliceSession.take, hgone]
        exact ⟨trivial, hfound, Or.inl hheld, fun u hu => by cases hu⟩
      · simp only [SliceSession.take, hthere]
        obtain ⟨hsent, hfound, hpartial, htaken⟩ := grow_spec s trims t s.handles hgrown hfound
        refine ⟨hsent, hfound, Or.inr fun u hu => ?_, htaken⟩
        obtain rfl := Option.some.inj hu
        exact hpartial

theorem ofCode_retryable {code : ℕ} {e : SynoFsError} {landed hard : Bool}
    (h : SliceError.ofCode code = .retryable e landed hard) : landed = true := by
  rw [SliceError.ofCode] at h
  split at h
  case isTrue => cases h; rfl
  case isFalse => cases h

/-- How a slice that was sent is heard of. -/
structure Sent (fold : String → String) (limits : TransferLimits) (path : NasPath)
    (content : Bytes) (old : Option Tree) (last : Bool) (tmpfile : Option ℕ) (held chunk : Bytes)
    (sent : ℕ) (answer : Except SliceError (Option ℕ)) (s : SliceSession) : Prop where
  sent : s.sent = sent + 1
  found : Found fold limits path content old s.client.server
  taken : ∀ answered, answer = .ok answered → ∃ t, (answered = none ∨ answered = some t) ∧
    TakenAs fold path content.length last t (held ++ chunk) s
  /-- A slice that may be sent again has left the partial as it was, or it is
  known that it may have landed. -/
  again : ∀ e landed hard, answer = .error (.retryable e landed hard) →
    Holds s tmpfile held ∨ (landed = true ∧ Holds s tmpfile (held ++ chunk))

theorem sendSlice_spec {s : SliceSession} (sc : SliceScript) {last : Bool} {chunk held : Bytes}
    {tmpfile : Option ℕ} (hheld : Holds s tmpfile held) (hopen : tmpfile = none → held = [])
    (hgrown : last = true → Grown limits content (limits.slices content.length) (held ++ chunk))
    (hfound : Found fold limits path content old s.client.server) :
    Sent fold limits path content old last tmpfile held chunk s.sent
      (sendSlice fold path sc chunk content.length last tmpfile s).1
      (sendSlice fold path sc chunk content.length last tmpfile s).2 := by
  obtain ⟨hsent, hfound', hpartial, htaken⟩ := take_spec (s := { s with sent := s.sent + 1 })
    sc.trims hheld hopen hgrown hfound
  -- The slice may land although its answer is bad.
  have hbad (landed : Bool) (e : SliceError)
      (hflag : ∀ e' flag hard, e = .retryable e' flag hard → flag = true) :
      Sent fold limits path content old last tmpfile held chunk s.sent (.error e)
        (if landed then (SliceSession.take fold path { s with sent := s.sent + 1 } sc.trims chunk
          content.length last tmpfile).2 else { s with sent := s.sent + 1 }) := by
    cases landed with
    | false =>
        exact ⟨rfl, hfound, fun _ h => (by cases h), fun _ _ _ _ => Or.inl hheld⟩
    | true =>
        refine ⟨hsent, hfound', fun _ h => (by cases h), fun e' flag hard h => ?_⟩
        exact hpartial.imp_right fun hgrown => ⟨hflag e' flag hard (Except.error.inj h), hgrown⟩
  rw [sendSlice]
  cases sc.fate with
  | unreached message =>
      exact ⟨rfl, hfound, fun _ h => (by cases h), fun _ _ _ _ => Or.inl hheld⟩
  | lost landed message => exact hbad landed _ fun _ _ _ h => (by cases h; rfl)
  | refused landed code => exact hbad landed _ fun _ _ _ h => ofCode_retryable h
  | garbled landed message => exact hbad landed _ fun _ _ _ h => (by cases h)
  | answered names =>
      cases hanswer : (SliceSession.take fold path { s with sent := s.sent + 1 } sc.trims chunk
          content.length last tmpfile).1 with
      | ok t =>
          simp only [hanswer]
          refine ⟨hsent, hfound', fun answered h => ⟨t, ?_, htaken t hanswer⟩, fun _ _ _ h => by
            cases h⟩
          obtain rfl := Except.ok.inj h
          cases names with
          | false => exact Or.inl rfl
          | true => exact Or.inr rfl
      | error e =>
          simp only [hanswer]
          cases e with
          | apiError code => exact hbad true _ fun _ _ _ h => ofCode_retryable h
          | _ => exact hbad true _ fun _ _ _ h => (by cases h)

/-! ### The attempts at one slice -/

/-- What the attempts at one slice come to: if it was taken, it landed as often
as is known, and once if the flag is down. -/
structure Attempted (fold : String → String) (limits : TransferLimits) (path : NasPath)
    (content : Bytes) (old : Option Tree) (last : Bool) (held chunk : Bytes) (bound : ℕ)
    (unverified : Bool) (outcome : SliceEnd) (unverified' : Bool) (s : SliceSession) : Prop where
  sent : s.sent ≤ bound
  found : Found fold limits path content old s.client.server
  flag : unverified' = false → unverified = false
  taken : ∀ answered, outcome = .taken answered → ∃ t again, again < limits.maxAttempts ∧
    (unverified' = false → again = 0) ∧ (answered = none ∨ answered = some t) ∧
      TakenAs fold path content.length last t (held ++ repeated (again + 1) chunk) s

theorem sendUntilTaken_spec (sc : ℕ → SliceScript) {last : Bool} {held : Bytes}
    {tmpfile : Option ℕ} {index : ℕ} (hopen : tmpfile = none → held = [])
    (hgrown : Grown limits content index held)
    (hlast : last = true → index + 1 = limits.slices content.length)
    {attempt left landed : ℕ} {unverified : Bool} {s : SliceSession}
    (hleft : attempt + left ≤ limits.maxAttempts) (hlanded : landed ≤ attempt)
    (hfresh : tmpfile = none → landed = 0) (hflag : unverified = false → landed = 0)
    (hheld : Holds s tmpfile (held ++ repeated landed (sliceOf content limits.sliceSize index)))
    (hfound : Found fold limits path content old s.client.server) :
    let r := sendUntilTaken fold path sc (sliceOf content limits.sliceSize index) content.length
      last tmpfile attempt left unverified s
    Attempted fold limits path content old last held (sliceOf content limits.sliceSize index)
      (s.sent + left) unverified r.1 r.2.1 r.2.2 := by
  induction left generalizing attempt landed unverified s with
  | zero => exact ⟨le_rfl, hfound, id, fun _ h => by cases h⟩
  | succ left ih =>
      have hopen' : tmpfile = none →
          held ++ repeated landed (sliceOf content limits.sliceSize index) = [] := by
        intro hnone
        rw [hopen hnone, hfresh hnone]
        rfl
      have hgrown' : last = true → Grown limits content (limits.slices content.length)
          (held ++ repeated landed (sliceOf content limits.sliceSize index) ++
            sliceOf content limits.sliceSize index) := by
        intro hend
        rw [List.append_assoc, ← repeated_succ, ← hlast hend]
        exact hgrown.slice landed (by omega)
      have hsend := sendSlice_spec (sc attempt) hheld hopen' hgrown' hfound
      rw [sendUntilTaken]
      revert hsend
      cases sendSlice fold path (sc attempt) (sliceOf content limits.sliceSize index)
        content.length last tmpfile s with
      | mk answer s' =>
          intro hsend
          cases answer with
          | ok answered =>
              refine ⟨by rw [hsend.sent]; omega, hsend.found, id, fun answered' h => ?_⟩
              obtain ⟨t, hanswered, htaken⟩ := hsend.taken answered rfl
              obtain rfl := SliceEnd.taken.inj h
              refine ⟨t, landed, by omega, hflag, hanswered, ?_⟩
              rw [repeated_succ, ← List.append_assoc]
              exact htaken
          | error e =>
              cases e with
              | fatal e =>
                  exact ⟨by rw [hsend.sent]; omega, hsend.found, id, fun _ h => by cases h⟩
              | retryable e mayHaveLanded hard =>
                  dsimp only
                  split
                  case isTrue =>
                    exact ⟨by rw [hsend.sent]; omega, hsend.found, id, fun _ h => by cases h⟩
                  case isFalse =>
                    -- How often the slice has landed by the next attempt.
                    obtain ⟨landed', hlanded', hfresh', hflag', hheld'⟩ :
                        ∃ landed' ≤ attempt + 1, (tmpfile = none → landed' = 0) ∧
                          ((unverified || (mayHaveLanded && tmpfile.isSome)) = false →
                            landed' = 0) ∧
                          Holds s' tmpfile (held ++
                            repeated landed' (sliceOf content limits.sliceSize index)) := by
                      cases tmpfile with
                      | none =>
                          exact ⟨0, by omega, fun _ => rfl, fun _ => rfl, fun _ h => by cases h⟩
                      | some t =>
                          rcases hsend.again e mayHaveLanded hard rfl with hsame | ⟨hmay, hmore⟩
                          · refine ⟨landed, by omega, fun h => (by cases h), fun h => ?_, hsame⟩
                            exact hflag (Bool.or_eq_false_iff.mp h).1
                          · refine ⟨landed + 1, by omega, fun h => (by cases h), fun h => ?_, ?_⟩
                            · simp [hmay] at h
                            · rw [repeated_succ, ← List.append_assoc]
                              exact hmore
                    have hrest := ih (by omega) hlanded' hfresh' hflag' hheld' hsend.found
                    refine ⟨hrest.sent.trans (by rw [hsend.sent]; omega), hrest.found,
                      fun h => ?_, hrest.taken⟩
                    exact (Bool.or_eq_false_iff.mp (hrest.flag h)).1

/-! ### A pass over the file -/

/-- What a pass comes to: if it finished, what stands under the path was
published by it, and is the file if the flag is down. -/
structure Passed (fold : String → String) (limits : TransferLimits) (path : NasPath)
    (content : Bytes) (old : Option Tree) (bound : ℕ) (outcome : PassEnd) (s : SliceSession) :
    Prop where
  sent : s.sent ≤ bound
  found : Found fold limits path content old s.client.server
  finished : ∀ unverified, outcome = .finished unverified →
    ∃ published, Publishable limits content published ∧
      s.client.server.treeAt fold path = some (.file published) ∧
        (unverified = false → published = content)

/-- A slice that landed once continues the file. -/
theorem exact_succ {held : Bytes} {index again : ℕ}
    (hheld : held = content.take (index * limits.sliceSize)) (hagain : again = 0) :
    held ++ repeated (again + 1) (sliceOf content limits.sliceSize index) =
      content.take ((index + 1) * limits.sliceSize) := by
  rw [hheld, hagain, repeated_succ, ← take_append_sliceOf]
  rfl

theorem sendPass_spec (read : ℕ → Option String) (sc : ℕ → ℕ → SliceScript) {index left : ℕ}
    {tmpfile : Option ℕ} {unverified : Bool} {held : Bytes} {s : SliceSession}
    (hindex : index + (left + 1) = limits.slices content.length)
    (hopen : tmpfile = none → held = []) (hgrown : Grown limits content index held)
    (hexact : unverified = false → held = content.take (index * limits.sliceSize))
    (hheld : Holds s tmpfile held) (hfound : Found fold limits path content old s.client.server) :
    let r := sendPass fold limits path read sc content index (left + 1) tmpfile unverified s
    Passed fold limits path content old (s.sent + (left + 1) * limits.maxAttempts) r.1 r.2 := by
  induction left using Nat.strong_induction_on generalizing index tmpfile unverified held s with
  | _ left ih =>
      have hbound : s.sent + limits.maxAttempts ≤ s.sent + (left + 1) * limits.maxAttempts := by
        rw [Nat.succ_mul]
        omega
      have hheld' : Holds s tmpfile
          (held ++ repeated 0 (sliceOf content limits.sliceSize index)) := by
        rw [repeated, List.replicate_zero, List.flatten_nil, List.append_nil]
        exact hheld
      have hlast : decide (left = 0) = true → index + 1 = limits.slices content.length := by
        intro h
        rw [of_decide_eq_true h] at hindex
        exact hindex
      have hsend := sendUntilTaken_spec (sc index) hopen hgrown hlast
        (Nat.zero_add limits.maxAttempts).le (le_refl 0) (fun _ => rfl)
        (fun _ : unverified = false => rfl) hheld' hfound
      rw [sendPass]
      cases read index with
      | some why => exact ⟨by dsimp only; omega, hfound, fun _ h => by cases h⟩
      | none =>
          dsimp only at hsend ⊢
          revert hsend
          generalize sendUntilTaken fold path (sc index) (sliceOf content limits.sliceSize index)
            content.length (decide (left = 0)) tmpfile 0 limits.maxAttempts unverified s = r
          obtain ⟨outcome, unverified', s'⟩ := r
          intro hsend
          dsimp only at hsend
          have hsent := hsend.sent.trans hbound
          cases outcome with
          | gaveUp e => exact ⟨hsent, hsend.found, fun _ h => by cases h⟩
          | refused e =>
              dsimp only
              split
              · exact ⟨hsent, hsend.found, fun _ h => by cases h⟩
              · exact ⟨hsent, hsend.found, fun _ h => by cases h⟩
          | taken answered =>
              obtain ⟨t, again, hagain, honce, hanswered, htaken⟩ := hsend.taken answered rfl
              have hgrown' := hgrown.slice again hagain
              have hexact' : unverified' = false →
                  held ++ repeated (again + 1) (sliceOf content limits.sliceSize index) =
                    content.take ((index + 1) * limits.sliceSize) :=
                fun h => exact_succ (hexact (hsend.flag h)) (honce h)
              dsimp only
              split
              case isTrue hzero =>
                rw [TakenAs, if_pos (decide_eq_true hzero)] at htaken
                obtain ⟨published, hpublished, htree⟩ := htaken
                rw [hlast (decide_eq_true hzero)] at hgrown' hexact'
                refine ⟨hsent, hsend.found, fun u h => ⟨published, ⟨_, hgrown', hpublished⟩,
                  htree, fun hu => ?_⟩⟩
                obtain rfl := PassEnd.finished.inj h
                have hall := hexact' hu
                rw [take_slices] at hall
                rw [hall] at hpublished
                rcases hpublished with hwhole | hcut
                · exact hwhole
                · rw [hcut, List.take_length]
              case isFalse hmore =>
                rw [TakenAs, if_neg (by simpa using hmore)] at htaken
                cases answered with
                | none => exact ⟨hsent, hsend.found, fun _ h => by cases h⟩
                | some t' =>
                    obtain rfl : t' = t := by simpa using hanswered
                    obtain ⟨rest, rfl⟩ := Nat.exists_eq_succ_of_ne_zero hmore
                    have hholds : Holds s' (some t') (held ++
                        repeated (again + 1) (sliceOf content limits.sliceSize index)) := by
                      intro u hu
                      rw [← Option.some.inj hu]
                      exact Or.inr htaken
                    have hrest := ih rest (Nat.lt_succ_self rest) (by omega) (by simp) hgrown'
                      hexact' hholds hsend.found
                    refine ⟨hrest.sent.trans ?_, hrest.found, hrest.finished⟩
                    have hattempts := hsend.sent
                    simp only [Nat.succ_mul]
                    omega

/-! ### All passes, and the check -/

theorem Found.clear {c : Client Volume} (sc : ClearScript)
    (h : Found fold limits (joinPath folder filename) content old c.server) :
    Found fold limits (joinPath folder filename) content old
      (clearForOverwrite fold sc folder filename c).server := by
  rcases clearForOverwrite_server sc with hkeep | hgone
  · rw [hkeep]
    exact h
  · rw [hgone]
    exact Or.inl Volume.treeAt_remove

theorem reportedSize_some {sc : RequestScript} {c : Client Volume} {size : ℕ}
    (h : reportedSize (getInfo fold sc path c).1 = some size) :
    ∃ bytes, c.server.treeAt fold path = some (.file bytes) ∧ bytes.length = size := by
  cases hinfo : (getInfo fold sc path c).1 with
  | error e => rw [hinfo] at h; cases h
  | ok info =>
      rw [hinfo] at h
      obtain ⟨⟨name, tree⟩, hentry, rfl⟩ := getInfo_ok hinfo
      cases tree with
      | file bytes =>
          exact ⟨bytes, by rw [Volume.treeAt, hentry]; rfl, Option.some.inj h⟩
      | dir children => cases h

/-- What the upload may have left when it stops sending. -/
structure Landed (fold : String → String) (limits : TransferLimits) (path : NasPath)
    (content : Bytes) (old : Option Tree) (bound : ℕ) (result : Except SynoFsError Bool)
    (s : SliceSession) : Prop where
  sent : s.sent ≤ bound
  landed : ∀ unverified, result = .ok unverified → ∃ bytes,
    s.client.server.treeAt fold path = some (.file bytes) ∧
      (Publishable limits content bytes ∨ old = some (.file bytes)) ∧
        (unverified = false → bytes = content)

/-- What a restart finds at the full size is something that was published, or
what stood there before. -/
theorem restart_spec (sc : RestartScript) {c : Client Volume}
    (h : Found fold limits (joinPath folder filename) content old c.server) :
    let r := restartSliceUpload fold sc folder filename content.length c
    Found fold limits (joinPath folder filename) content old r.2.server ∧
      (r.1 = .ok .alreadyLanded → ∃ bytes,
        r.2.server.treeAt fold (joinPath folder filename) = some (.file bytes) ∧
          (Publishable limits content bytes ∨ old = some (.file bytes))) := by
  rw [restartSliceUpload]
  dsimp only
  split
  case isTrue hsize =>
    rw [getInfo_server]
    refine ⟨h, fun _ => ?_⟩
    obtain ⟨bytes, htree, _⟩ := reportedSize_some hsize
    refine ⟨bytes, htree, ?_⟩
    rcases h with hnone | hold | ⟨published, hpublished, hpub⟩
    · rw [htree] at hnone
      cases hnone
    · exact Or.inr (hold.symm.trans htree)
    · rw [htree] at hpub
      obtain rfl := FileTree.file.inj (Option.some.inj hpub)
      exact Or.inl hpublished
  case isFalse =>
    have hclear : Found fold limits (joinPath folder filename) content old
        (clearForOverwrite fold sc.clear folder filename
          (getInfo fold sc.info (joinPath folder filename) c).2).server := by
      apply Found.clear
      rw [getInfo_server]
      exact h
    cases sc.rewind with
    | some why => exact ⟨hclear, fun h => by cases h⟩
    | none => exact ⟨hclear, fun h => by cases h⟩

/-- A pass starts with no partial. -/
theorem wholePass_spec (read : ℕ → Option String) (sc : ℕ → ℕ → SliceScript) {s : SliceSession}
    (hfound : Found fold limits path content old s.client.server) :
    let r := sendPass fold limits path read sc content 0 (limits.slices content.length) none false s
    Passed fold limits path content old
      (s.sent + limits.slices content.length * limits.maxAttempts) r.1 r.2 := by
  obtain ⟨slices, hslices⟩ := Nat.exists_eq_succ_of_ne_zero (slices_pos limits content.length).ne'
  have hheld : Holds s none [] := fun t ht => by cases ht
  have hexact : false = false → [] = content.take (0 * limits.sliceSize) := by simp
  have hindex : 0 + (slices + 1) = limits.slices content.length := by omega
  have hpass := sendPass_spec read sc hindex (fun _ => rfl) .opened hexact hheld hfound
  rw [hslices]
  exact hpass

theorem sendFile_spec (sc : SliceUploadScript) (restarts left : ℕ) {s : SliceSession}
    (hfound : Found fold limits (joinPath folder filename) content old s.client.server) :
    let r := sendFile fold limits sc content folder filename restarts left s
    Landed fold limits (joinPath folder filename) content old
      (s.sent + left * (limits.slices content.length * limits.maxAttempts)) r.1 r.2 := by
  induction left generalizing restarts s with
  | zero => exact ⟨by simp [sendFile], fun _ h => by cases h⟩
  | succ left ih =>
      have hpass := wholePass_spec (sc.read restarts) (sc.slice restarts) hfound
      rw [sendFile]
      dsimp only at hpass ⊢
      revert hpass
      generalize sendPass fold limits (joinPath folder filename) (sc.read restarts)
        (sc.slice restarts) content 0 (limits.slices content.length) none false s = r
      obtain ⟨outcome, s'⟩ := r
      intro hpass
      have hbound : s.sent + limits.slices content.length * limits.maxAttempts ≤
          s.sent + (left + 1) * (limits.slices content.length * limits.maxAttempts) := by
        rw [Nat.succ_mul]
        omega
      have hsent := hpass.sent.trans hbound
      cases outcome with
      | failed e => exact ⟨hsent, fun _ h => by cases h⟩
      | finished unverified =>
          refine ⟨hsent, fun u h => ?_⟩
          obtain rfl := Except.ok.inj h
          obtain ⟨bytes, hpublished, htree, hexact⟩ := hpass.finished unverified rfl
          exact ⟨bytes, htree, Or.inl hpublished, hexact⟩
      | rejected e =>
          dsimp only
          split
          case isTrue => exact ⟨hsent, fun _ h => by cases h⟩
          case isFalse =>
            have hrestart := restart_spec (sc.restart restarts) hpass.found
            dsimp only at hrestart
            revert hrestart
            generalize restartSliceUpload fold (sc.restart restarts) folder filename
              content.length s'.client = r
            obtain ⟨found, c⟩ := r
            intro hrestart
            cases found with
            | error e => exact ⟨hsent, fun _ h => by cases h⟩
            | ok restart =>
                cases restart with
                | alreadyLanded =>
                    refine ⟨hsent, fun u h => ?_⟩
                    obtain rfl := Except.ok.inj h
                    obtain ⟨bytes, htree, hbytes⟩ := hrestart.2 rfl
                    exact ⟨bytes, htree, hbytes, fun hu => by cases hu⟩
                | ready =>
                    have hrest := ih (restarts + 1) (s := { s' with client := c }) hrestart.1
                    refine ⟨hrest.sent.trans ?_, hrest.landed⟩
                    have hfirst := hpass.sent
                    rw [Nat.succ_mul]
                    dsimp only at hfirst ⊢
                    omega

/-! ### The claim of success -/

/-- MD5 tells the local file from what the server may have made of its slices,
and from what stood there before. -/
def TellsApart {D : Type} (md5 : Bytes → D) (limits : TransferLimits) (content : Bytes)
    (old : Option Tree) : Prop :=
  ∀ bytes, Publishable limits content bytes ∨ old = some (.file bytes) →
    md5 bytes = md5 content → bytes = content

@[simp] theorem settledSize_server (sc : VerifyScript) (total : ℕ) (c : Client Volume) :
    (settledSize fold path sc total c).2.server = c.server := by
  rw [settledSize]
  dsimp only
  split
  · exact getInfo_server
  · exact getInfo_server.trans getInfo_server

theorem verifyHash_ok {D : Type} [DecidableEq D] [ToString D] {md5 : Bytes → D}
    {sc : VerifyScript} {c : Client Volume} {bytes : Bytes}
    (hhash : ∀ code, sc.md5 ≠ .refused code)
    (htree : c.server.treeAt fold path = some (.file bytes))
    (hok : (verifyHash fold path md5 sc content c).1 = .ok ()) :
    md5 bytes = md5 content ∧ (verifyHash fold path md5 sc content c).2 = c := by
  rw [verifyHash] at hok ⊢
  cases hmd5 : sc.md5 with
  | refused code => exact absurd hmd5 (hhash code)
  | lost why => rw [hmd5] at hok; cases hok
  | answered =>
      rw [hmd5] at hok
      simp only [htree] at hok ⊢
      cases hlocal : sc.localMd5 with
      | some why => rw [hlocal] at hok; cases hok
      | none =>
          rw [hlocal] at hok
          dsimp only at hok ⊢
          split at hok
          case isTrue hsame => exact ⟨hsame, by rw [if_pos hsame]⟩
          case isFalse => cases hok

theorem verifyUpload_spec {D : Type} [DecidableEq D] [ToString D] {md5 : Bytes → D}
    {sc : VerifyScript} {hashIt : Bool} {c : Client Volume} {bytes : Bytes}
    (hmd5 : TellsApart md5 limits content old) (hhash : ∀ code, sc.md5 ≠ .refused code)
    (htree : c.server.treeAt fold path = some (.file bytes))
    (hbytes : Publishable limits content bytes ∨ old = some (.file bytes))
    (hexact : hashIt = false → bytes = content)
    (hok : (verifyUpload fold path md5 sc content hashIt c).1 = .ok ()) :
    (verifyUpload fold path md5 sc content hashIt c).2.server.treeAt fold path =
      some (.file content) := by
  have htree' : (settledSize fold path sc content.length c).2.server.treeAt fold path =
      some (.file bytes) := by
    rw [settledSize_server]
    exact htree
  rw [verifyUpload] at hok ⊢
  dsimp only at hok ⊢
  split at hok
  case h_1 => cases hok
  case h_2 =>
    cases hashIt with
    | false =>
        rw [hexact rfl] at htree'
        exact htree'
    | true =>
        simp only [if_true] at hok ⊢
        obtain ⟨hsame, hkeep⟩ := verifyHash_ok hhash htree' hok
        rw [hkeep]
        rw [hmd5 bytes hbytes hsame] at htree'
        exact htree'

/-- **A sliced upload is right or reports failure.** If it reports success, the
file under the name is the local file, and it sent no slice more than
`maxAttempts` times in each of at most `maxAttempts` passes. The server answers
for sizes and hashes truthfully, where it answers. -/
theorem httpSliceUpload_right {D : Type} [DecidableEq D] [ToString D] (fold : String → String)
    (limits : TransferLimits) (md5 : Bytes → D) (sc : SliceUploadScript) (content : Bytes)
    (folder : NasPath) (filename : String) (overwrite : Bool) (s : SliceSession)
    (hmd5 : TellsApart md5 limits content
      (s.client.server.treeAt fold (joinPath folder filename)))
    (hhash : ∀ code, sc.verify.md5 ≠ .refused code) :
    let r := httpSliceUpload fold limits md5 sc content folder filename overwrite s
    (r.1 = .ok () →
      r.2.client.server.treeAt fold (joinPath folder filename) = some (.file content)) ∧
    r.2.sent ≤ s.sent + limits.slices content.length * limits.maxAttempts * limits.maxAttempts := by
  rw [httpSliceUpload]
  dsimp only
  -- Clearing the name first leaves what was there, or nothing.
  obtain ⟨s', hs', hsent, hfound⟩ : ∃ s' : SliceSession,
      (if overwrite then
        { s with client := clearForOverwrite fold sc.clear folder filename s.client } else s) = s' ∧
      s'.sent = s.sent ∧ Found fold limits (joinPath folder filename) content
        (s.client.server.treeAt fold (joinPath folder filename)) s'.client.server := by
    cases overwrite with
    | false => exact ⟨s, rfl, rfl, Or.inr (Or.inl rfl)⟩
    | true => exact ⟨_, rfl, rfl, Found.clear sc.clear (Or.inr (Or.inl rfl))⟩
  rw [hs']
  cases sc.openFile with
  | some why => exact ⟨fun h => (by cases h), hsent.trans_le (Nat.le_add_right _ _)⟩
  | none =>
      have hsend := sendFile_spec sc 0 limits.maxAttempts hfound
      dsimp only at hsend ⊢
      revert hsend
      generalize sendFile fold limits sc content folder filename 0 limits.maxAttempts s' = r
      obtain ⟨result, sFinal⟩ := r
      intro hsend
      have hbound := hsend.sent
      rw [hsent, Nat.mul_comm limits.maxAttempts] at hbound
      cases result with
      | error e => exact ⟨fun h => (by cases h), hbound⟩
      | ok unverified =>
          obtain ⟨bytes, htree, hbytes, hexact⟩ := hsend.landed unverified rfl
          exact ⟨verifyUpload_spec hmd5 hhash htree hbytes hexact, hbound⟩

/-- MD5 of what two slices of one byte can come to. -/
def md5OfTwo : Bytes → String
  | [1, 2] => "0cb988d042a7f28dd5fe2b55b3f5ac7a"
  | [1, 1, 2] => "532c6465f4dd9c7bce31b7a7986e3270"
  | [1, 2, 2] => "73553dc668de24c7e4b2620cc9123279"
  | [1, 1, 2, 2] => "dc77fc3afe223760b5e4d2dd17a70e52"
  | [1, 1] => "249ba6277758050695e8f5909bacd6d3"
  | _ => ""

def twoSlices : TransferLimits :=
  { maxAttempts := 2, sliceSize := 1, attempts_pos := by decide, slice_pos := by decide }

theorem md5OfTwo_tellsApart : TellsApart md5OfTwo twoSlices [1, 2] none := by
  intro bytes _ hsame
  unfold md5OfTwo at hsame
  split at hsame
  case h_1 => rfl
  all_goals exact absurd hsame (by decide)

/-- The answer to the last slice is lost, and the partial is gone when it is sent
again: the restart finds the file, and its hash settles the matter. -/
def lostAnswer : SliceUploadScript :=
  { clear := ⟨.plain, fun _ => .plain⟩
    openFile := none
    read := fun _ _ => none
    slice := fun _ index attempt =>
      if index = 1 ∧ attempt = 0 then ⟨.lost true "timed out", false⟩ else ⟨.answered true, false⟩
    restart := fun _ => ⟨.plain, ⟨.plain, fun _ => .plain⟩, none⟩
    verify := ⟨.plain, .plain, .answered, none, .plain⟩ }

def emptyShare : SliceSession :=
  { client := ⟨[], [], [], { root := .dir [("share", .dir [])], removals := [] }⟩
    partials := fun _ => none, handles := 0, sent := 0 }

theorem lost_answer_verified :
    let r := httpSliceUpload id twoSlices md5OfTwo lostAnswer [1, 2] ["share"] "f" false emptyShare
    r.1 = .ok () ∧ r.2.client.server.treeAt id ["share", "f"] = some (.file [1, 2]) ∧
      r.2.sent ≤ 0 + 2 * 2 * 2 := by
  have hright := httpSliceUpload_right id twoSlices md5OfTwo lostAnswer [1, 2] ["share"] "f" false
    emptyShare md5OfTwo_tellsApart (fun _ h => by cases h)
  exact ⟨rfl, hright.1 rfl, hright.2⟩

end SynologyFilestation.Core
