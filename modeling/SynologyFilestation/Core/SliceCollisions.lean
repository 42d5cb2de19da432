import SynologyFilestation.Core.SliceVerified
import SynologyFilestation.Core.SliceSpares
import SynologyFilestation.Core.UploadFromPath

/-!
A sliced upload onto a name that is free, and whether it can collide there.

The server answers the last slice with a collision only if the name is taken, so
on a free name that takes a file this very upload has published. It goes on
sending after that only if the answer to a last slice was lost, and it starts the
file over only if the partial was found gone. Where no last slice lands unheard
the name stays free until the upload ends.
-/

namespace SynologyFilestation.Core

open Library

variable {fold : String → String} {limits : TransferLimits} {folder : NasPath}
  {filename : String} {content : Bytes}

/-- The server speaks of a collision only where it met one. -/
def SliceFate.Founded : SliceFate → Prop
  | .refused _ code => dsmCodeToCategory code ≠ .alreadyExists
  | _ => True

/-- A slice after which the upload may go on is not taken unheard. -/
def SliceFate.Tidy : SliceFate → Prop
  | .lost landed _ | .refused landed _ => landed = false
  | _ => True

def SliceError.error : SliceError → SynoFsError
  | .fatal e => e
  | .retryable e _ _ => e

/-- The upload may go on after the error: with the slice, or with the file. -/
def SliceError.again : SliceError → Bool
  | .fatal e => partialWasRejected e
  | .retryable _ _ _ => true

@[simp] theorem SliceError.error_ofCode (code : ℕ) :
    (SliceError.ofCode code).error = .apiError code := by
  rw [SliceError.ofCode]
  split <;> rfl

/-! ### One slice -/

theorem grow_still {s : SliceSession} {trims last : Bool} {total t handles : ℕ} {grown : Bytes}
    (h : last = false ∨ ¬ s.client.server.Admits fold folder filename) :
    (s.grow fold (joinPath folder filename) trims total last t handles grown).2.client =
      s.client := by
  rw [SliceSession.grow]
  rcases h with rfl | hblocked
  · rfl
  · cases last with
    | false => rfl
    | true =>
        obtain ⟨e, hstore, _⟩ := Volume.store_of_not_admits
          (if trims then grown.take total else grown) hblocked
        simp only [if_true, publish, hstore]

theorem grow_error {s : SliceSession} {trims last : Bool} {total t handles : ℕ} {grown : Bytes}
    {e : SynoFsError} (hfree : s.client.server.treeAt fold (joinPath folder filename) = none)
    (h : (s.grow fold (joinPath folder filename) trims total last t handles grown).1 = .error e) :
    (s.grow fold (joinPath folder filename) trims total last t handles grown).2.client = s.client ∧
      e.category ≠ .alreadyExists := by
  rw [SliceSession.grow] at h ⊢
  cases last with
  | false => cases h
  | true =>
      simp only [if_true] at h ⊢
      cases hpublish : publish fold (joinPath folder filename) trims total grown
          s.client.server with
      | mk r v =>
          rw [hpublish] at h
          cases r with
          | ok u => cases h
          | error e' =>
              obtain rfl := Except.error.inj h
              refine ⟨rfl, fun he => ?_⟩
              exact Volume.store_collision (congrArg Prod.fst hpublish) he hfree

theorem take_still {s : SliceSession} {trims last : Bool} {chunk : Bytes} {total : ℕ}
    {tmpfile : Option ℕ} (h : last = false ∨ ¬ s.client.server.Admits fold folder filename) :
    (s.take fold (joinPath folder filename) trims chunk total last tmpfile).2.client =
      s.client := by
  unfold SliceSession.take
  cases tmpfile with
  | none => exact grow_still h
  | some t =>
      dsimp only
      cases s.partials t with
      | none => rfl
      | some held => exact grow_still h

theorem take_error {s : SliceSession} {trims last : Bool} {chunk : Bytes} {total : ℕ}
    {tmpfile : Option ℕ} {e : SynoFsError}
    (hfree : s.client.server.treeAt fold (joinPath folder filename) = none)
    (h : (s.take fold (joinPath folder filename) trims chunk total last tmpfile).1 = .error e) :
    (s.take fold (joinPath folder filename) trims chunk total last tmpfile).2.client = s.client ∧
      e.category ≠ .alreadyExists := by
  unfold SliceSession.take at h ⊢
  cases tmpfile with
  | none => exact grow_error hfree h
  | some t =>
      dsimp only at h ⊢
      cases hholds : s.partials t with
      | none =>
          rw [hholds] at h
          obtain rfl := Except.error.inj h
          exact ⟨rfl, by decide⟩
      | some held =>
          rw [hholds] at h
          exact grow_error hfree h

/-- Sending to a free name: who is left alone, and what is not heard. -/
structure SentFree (fold : String → String) (folder : NasPath) (filename : String)
    (last tidy : Prop) (c c' : Client Volume) (bad again : SynoFsError → Prop) : Prop where
  still : ¬ last ∨ ¬ c.server.Admits fold folder filename → c' = c
  distinct : ∀ e, bad e → e.category ≠ .alreadyExists
  tidy : tidy → ∀ e, again e → c' = c

theorem sendSlice_free (sc : SliceScript) (last : Bool) (chunk : Bytes) (total : ℕ)
    (tmpfile : Option ℕ) {s : SliceSession} (hfounded : sc.fate.Founded)
    (hfree : s.client.server.treeAt fold (joinPath folder filename) = none) :
    let r := sendSlice fold (joinPath folder filename) sc chunk total last tmpfile s
    SentFree fold folder filename (last = true) sc.fate.Tidy s.client r.2.client
      (fun e => ∃ err, r.1 = .error err ∧ err.error = e)
      (fun e => ∃ err, r.1 = .error err ∧ err.error = e ∧ err.again = true) := by
  have hstill : ¬ last = true ∨ ¬ s.client.server.Admits fold folder filename →
      (SliceSession.take fold (joinPath folder filename) { s with sent := s.sent + 1 } sc.trims
        chunk total last tmpfile).2.client = s.client :=
    fun h => take_still (h.imp_left Bool.eq_false_iff.mpr)
  have herror := fun e => @take_error fold folder filename { s with sent := s.sent + 1 } sc.trims
    last chunk total tmpfile e hfree
  rw [sendSlice]
  cases hfate : sc.fate with
  | unreached message =>
      refine ⟨fun _ => rfl, ?_, fun _ _ _ => rfl⟩
      rintro e ⟨err, h, rfl⟩
      cases h
      rintro ⟨⟩
  | lost landed message =>
      refine ⟨fun h => ?_, ?_, fun htidy _ _ => ?_⟩
      · cases landed with
        | false => rfl
        | true => exact hstill h
      · rintro e ⟨err, h, rfl⟩
        cases h
        rintro ⟨⟩
      · obtain rfl : landed = false := htidy
        rfl
  | refused landed code =>
      rw [hfate] at hfounded
      refine ⟨fun h => ?_, ?_, fun htidy _ _ => ?_⟩
      · cases landed with
        | false => rfl
        | true => exact hstill h
      · rintro e ⟨err, h, rfl⟩
        cases h
        rw [SliceError.error_ofCode]
        exact hfounded
      · obtain rfl : landed = false := htidy
        rfl
  | garbled landed message =>
      refine ⟨fun h => ?_, ?_, ?_⟩
      · cases landed with
        | false => rfl
        | true => exact hstill h
      · rintro e ⟨err, h, rfl⟩
        cases h
        rintro ⟨⟩
      · rintro _ e ⟨err, h, rfl, hagain⟩
        cases h
        cases hagain
  | answered names =>
      dsimp only
      cases htake : (SliceSession.take fold (joinPath folder filename)
          { s with sent := s.sent + 1 } sc.trims chunk total last tmpfile).1 with
      | ok t =>
          refine ⟨hstill, ?_, ?_⟩
          · rintro e ⟨err, h, _⟩
            cases h
          · rintro _ e ⟨err, h, _⟩
            cases h
      | error e' =>
          obtain ⟨hclient, hdistinct⟩ := herror e' htake
          have hbad : ∀ err : SliceError, err.error = e' →
              SentFree fold folder filename (last = true) (SliceFate.answered names).Tidy s.client
                (SliceSession.take fold (joinPath folder filename) { s with sent := s.sent + 1 }
                  sc.trims chunk total last tmpfile).2.client
                (fun e => ∃ err', (Except.error err : Except SliceError (Option ℕ)) =
                  .error err' ∧ err'.error = e)
                (fun e => ∃ err', (Except.error err : Except SliceError (Option ℕ)) =
                  .error err' ∧ err'.error = e ∧ err'.again = true) := by
            intro err herr
            refine ⟨fun _ => hclient, ?_, fun _ _ _ => hclient⟩
            rintro e ⟨err', h, rfl⟩
            cases h
            rw [herr]
            exact hdistinct
          cases e' with
          | apiError code => exact hbad _ (SliceError.error_ofCode code)
          | _ => exact hbad _ rfl

/-! ### The attempts, and a pass -/

theorem sendUntilTaken_free {sc : ℕ → SliceScript} (last : Bool) (chunk : Bytes) (total : ℕ)
    (tmpfile : Option ℕ) (hfounded : ∀ a, (sc a).fate.Founded) (attempt left : ℕ)
    (unverified : Bool) {s : SliceSession}
    (hfree : s.client.server.treeAt fold (joinPath folder filename) = none)
    (hstay : (last = false ∨ ¬ s.client.server.Admits fold folder filename) ∨
      (∀ a, (sc a).fate.Tidy) ∨ left ≤ 1) :
    let r := sendUntilTaken fold (joinPath folder filename) sc chunk total last tmpfile attempt left
      unverified s
    SentFree fold folder filename (last = true) (∀ a, (sc a).fate.Tidy) s.client r.2.2.client
      (fun e => r.1 = .refused e ∨ r.1 = .gaveUp e)
      (fun e => r.1 = .refused e ∧ partialWasRejected e = true) := by
  induction left generalizing attempt unverified s with
  | zero =>
      refine ⟨fun _ => rfl, ?_, fun _ _ _ => rfl⟩
      rintro e (h | h)
      · cases h
      · cases h
        rintro ⟨⟩
  | succ left ih =>
      have hsend := sendSlice_free (sc attempt) last chunk total tmpfile (hfounded attempt) hfree
      rw [sendUntilTaken]
      revert hsend
      cases sendSlice fold (joinPath folder filename) (sc attempt) chunk total last tmpfile s with
      | mk answer s' =>
          intro hsend
          cases answer with
          | ok answered =>
              refine ⟨hsend.still, ?_, ?_⟩
              · rintro e (h | h) <;> cases h
              · rintro _ e ⟨h, _⟩
                cases h
          | error err =>
              have hdistinct := hsend.distinct err.error ⟨err, rfl, rfl⟩
              cases err with
              | fatal e =>
                  refine ⟨hsend.still, ?_, ?_⟩
                  · rintro e' (h | h) <;> cases h
                    exact hdistinct
                  · rintro htidy e' ⟨h, hrejected⟩
                    cases h
                    exact hsend.tidy (htidy attempt) e ⟨_, rfl, rfl, hrejected⟩
              | retryable e mayHaveLanded hard =>
                  dsimp only
                  split
                  case isTrue =>
                    refine ⟨hsend.still, ?_, ?_⟩
                    · rintro e' (h | h) <;> cases h
                      exact hdistinct
                    · rintro _ e' ⟨h, _⟩
                      cases h
                  case isFalse hmore =>
                    -- The files are as they were when the slice is sent again.
                    have hclient : s'.client = s.client := by
                      rcases hstay with hstill | htidy | hone
                      · exact hsend.still (hstill.imp_left (by rintro rfl ⟨⟩))
                      · exact hsend.tidy (htidy attempt) e ⟨_, rfl, rfl, rfl⟩
                      · omega
                    rw [← hclient] at hfree hstay ⊢
                    refine ih (attempt + 1) _ hfree ?_
                    exact hstay.imp_right (Or.imp_right fun h => Nat.le_of_succ_le h)

theorem sendPass_free (limits : TransferLimits) (content : Bytes) (read : ℕ → Option String)
    {sc : ℕ → ℕ → SliceScript} (hfounded : ∀ i a, (sc i a).fate.Founded) (index left : ℕ)
    (tmpfile : Option ℕ) (unverified : Bool) {s : SliceSession}
    (hfree : s.client.server.treeAt fold (joinPath folder filename) = none)
    (hstay : ¬ s.client.server.Admits fold folder filename ∨
      (∀ a, (sc (index + left) a).fate.Tidy) ∨ limits.maxAttempts ≤ 1) :
    let r := sendPass fold limits (joinPath folder filename) read sc content index (left + 1)
      tmpfile unverified s
    SentFree fold folder filename True (∀ a, (sc (index + left) a).fate.Tidy) s.client r.2.client
      (fun e => r.1 = .failed e ∨ r.1 = .rejected e) (fun e => r.1 = .rejected e) := by
  induction left using Nat.strong_induction_on generalizing index tmpfile unverified s with
  | _ left ih =>
      have hsend := sendUntilTaken_free (decide (left = 0))
        (sliceOf content limits.sliceSize index) content.length tmpfile (hfounded index) 0
        limits.maxAttempts unverified hfree (by
          by_cases hzero : left = 0
          · subst hzero
            exact hstay.imp_left Or.inr
          · exact Or.inl (Or.inl (decide_eq_false hzero)))
      rw [sendPass]
      cases read index with
      | some why =>
          refine ⟨fun _ => rfl, ?_, fun _ _ _ => rfl⟩
          rintro e (h | h)
          · cases h
            rintro ⟨⟩
          · cases h
      | none =>
          dsimp only at hsend ⊢
          revert hsend
          generalize sendUntilTaken fold (joinPath folder filename) (sc index)
            (sliceOf content limits.sliceSize index) content.length (decide (left = 0)) tmpfile 0
            limits.maxAttempts unverified s = r
          obtain ⟨outcome, unverified', s'⟩ := r
          intro hsend
          have hstill : ¬ True ∨ ¬ s.client.server.Admits fold folder filename →
              s'.client = s.client := fun h => hsend.still (Or.inr (h.resolve_left (by simp)))
          cases outcome with
          | gaveUp e =>
              refine ⟨hstill, ?_, ?_⟩
              · rintro e' (h | h) <;> cases h
                exact hsend.distinct e (Or.inr rfl)
              · rintro _ e' h
                cases h
          | refused e =>
              have hdistinct := hsend.distinct e (Or.inl rfl)
              dsimp only
              split
              case isTrue =>
                refine ⟨hstill, ?_, ?_⟩
                · rintro e' (h | h) <;> cases h
                  exact hdistinct
                · rintro _ e' h
                  cases h
              case isFalse hrejected =>
                refine ⟨hstill, ?_, ?_⟩
                · rintro e' (h | h) <;> cases h
                  exact hdistinct
                · intro htidy e' _
                  by_cases hzero : left = 0
                  · subst hzero
                    refine hsend.tidy htidy e ⟨rfl, ?_⟩
                    simp only [Bool.or_eq_true, Bool.not_eq_true', not_or,
                      Bool.not_eq_false] at hrejected
                    exact hrejected.2
                  · exact hsend.still (Or.inl (by simpa using hzero))
          | taken answered =>
              dsimp only
              split
              case isTrue =>
                refine ⟨hstill, ?_, ?_⟩
                · rintro e (h | h) <;> cases h
                · rintro _ e h
                  cases h
              case isFalse hmore =>
                have hclient : s'.client = s.client := hsend.still (Or.inl (by simpa using hmore))
                cases answered with
                | none =>
                    refine ⟨hstill, ?_, ?_⟩
                    · rintro e (h | h) <;> cases h
                      rintro ⟨⟩
                    · rintro _ e h
                      cases h
                | some t =>
                    obtain ⟨rest, rfl⟩ := Nat.exists_eq_succ_of_ne_zero hmore
                    rw [← hclient] at hfree hstay ⊢
                    have hindex : index + rest.succ = index + 1 + rest := by omega
                    rw [hindex] at hstay ⊢
                    exact ih rest (Nat.lt_succ_self rest) (index + 1) (some t) unverified' hfree
                      hstay

/-! ### All passes -/

/-- No last slice lands unheard with the upload still going on. -/
def SliceUploadScript.Tidy (sc : SliceUploadScript) (slices : ℕ) : Prop :=
  ∀ pass attempt, (sc.slice pass (slices - 1) attempt).fate.Tidy

def SliceUploadScript.Founded (sc : SliceUploadScript) : Prop :=
  ∀ pass index attempt, (sc.slice pass index attempt).fate.Founded

/-- A restart leaves a free name free. -/
theorem restart_free (sc : RestartScript) (total : ℕ) {c : Client Volume}
    (hfree : c.server.treeAt fold (joinPath folder filename) = none) :
    (restartSliceUpload fold sc folder filename total c).2.server = c.server := by
  have hclear : ∀ c' : Client Volume, c'.server = c.server →
      (clearForOverwrite fold sc.clear folder filename c').server = c.server := by
    intro c' hc'
    rcases clearForOverwrite_server (c := c') sc.clear with hkeep | hgone
    · exact hkeep.trans hc'
    · rw [hgone, hc', Volume.remove_of_none hfree]
  rw [restartSliceUpload]
  dsimp only
  split
  case isTrue => exact getInfo_server
  case isFalse =>
    cases sc.rewind with
    | some why => exact hclear _ getInfo_server
    | none => exact hclear _ getInfo_server

theorem restart_error {sc : RestartScript} {total : ℕ} {c : Client Volume} {e : SynoFsError}
    (h : (restartSliceUpload fold sc folder filename total c).1 = .error e) :
    e.category ≠ .alreadyExists := by
  rw [restartSliceUpload] at h
  dsimp only at h
  split at h
  case isTrue => cases h
  case isFalse =>
    cases hrewind : sc.rewind with
    | some why =>
        rw [hrewind] at h
        cases h
        rintro ⟨⟩
    | none =>
        rw [hrewind] at h
        cases h

/-- **A free name is not found taken.** An upload in slices does not report a
collision where nothing can be stored, where every slice is sent once, and where
no last slice lands unheard. -/
theorem sendFile_free {sc : SliceUploadScript} (hfounded : sc.Founded) (restarts left : ℕ)
    {s : SliceSession} (hfree : s.client.server.treeAt fold (joinPath folder filename) = none)
    (hstay : ¬ s.client.server.Admits fold folder filename ∨
      sc.Tidy (limits.slices content.length) ∨ limits.maxAttempts ≤ 1 ∧ left ≤ 1)
    {e : SynoFsError}
    (h : (sendFile fold limits sc content folder filename restarts left s).1 = .error e) :
    e.category ≠ .alreadyExists := by
  induction left generalizing restarts s with
  | zero =>
      cases h
      exact nofun
  | succ left ih =>
      obtain ⟨slices, hslices⟩ :=
        Nat.exists_eq_succ_of_ne_zero (slices_pos limits content.length).ne'
      have hlast : 0 + slices = limits.slices content.length - 1 := by omega
      have hpass := sendPass_free limits content (sc.read restarts) (hfounded restarts) 0 slices
        none false hfree (by
          rw [hlast]
          exact hstay.imp_right (Or.imp (fun htidy => htidy restarts) And.left))
      rw [hlast] at hpass
      rw [sendFile, hslices] at h
      dsimp only at hpass h
      revert h hpass
      generalize sendPass fold limits (joinPath folder filename) (sc.read restarts)
        (sc.slice restarts) content 0 (slices + 1) none false s = r
      obtain ⟨outcome, s'⟩ := r
      intro h hpass
      cases outcome with
      | finished unverified => cases h
      | failed e' =>
          cases h
          exact hpass.distinct e (Or.inl rfl)
      | rejected e' =>
          dsimp only at h
          split at h
          case isTrue =>
            cases h
            exact hpass.distinct e (Or.inr rfl)
          case isFalse hmore =>
            have hclient : s'.client = s.client := by
              rcases hstay with hblocked | htidy | hone
              · exact hpass.still (Or.inr hblocked)
              · exact hpass.tidy (htidy restarts) e' rfl
              · omega
            rw [← hclient] at hfree hstay
            have hserver := restart_free (sc.restart restarts) content.length hfree
            have herror := fun e => @restart_error fold folder filename (sc.restart restarts)
              content.length s'.client e
            revert h hserver herror
            generalize restartSliceUpload fold (sc.restart restarts) folder filename
              content.length s'.client = r
            obtain ⟨found, c⟩ := r
            intro h hserver herror
            dsimp only at hserver
            cases found with
            | error e' =>
                cases h
                exact herror e rfl
            | ok restart =>
                cases restart with
                | alreadyLanded => cases h
                | ready =>
                    rw [← hserver] at hfree hstay
                    exact ih (restarts + 1) (s := { s' with client := c }) hfree
                      (hstay.imp_right (Or.imp_right fun hone => ⟨hone.1, by omega⟩)) h

/-- The check of what landed reports no collision. -/
theorem verifyUpload_error {D : Type} [DecidableEq D] [ToString D] {md5 : Bytes → D}
    {path : NasPath} {sc : VerifyScript} {hashIt : Bool} {c : Client Volume} {e : SynoFsError}
    (h : (verifyUpload fold path md5 sc content hashIt c).1 = .error e) :
    e.category = .transport := by
  rw [verifyUpload] at h
  dsimp only at h
  split at h
  case h_1 =>
    cases h
    rfl
  case h_2 =>
    split at h
    case isTrue =>
      rw [verifyHash] at h
      cases hmd5 : sc.md5 with
      | refused code =>
          rw [hmd5] at h
          cases h
      | lost why =>
          rw [hmd5] at h
          cases h
          rfl
      | answered =>
          rw [hmd5] at h
          dsimp only at h
          split at h
          case h_1 =>
            split at h
            case h_1 =>
              cases h
              rfl
            case h_2 =>
              split at h
              case isTrue => cases h
              case isFalse =>
                cases h
                rfl
          case h_2 => cases h
    case isFalse => cases h

theorem httpSliceUpload_free {D : Type} [DecidableEq D] [ToString D] {md5 : Bytes → D}
    {sc : SliceUploadScript} (hfounded : sc.Founded) {s : SliceSession}
    (hfree : s.client.server.treeAt fold (joinPath folder filename) = none)
    (hstay : ¬ s.client.server.Admits fold folder filename ∨
      sc.Tidy (limits.slices content.length) ∨ limits.maxAttempts ≤ 1)
    {e : SynoFsError}
    (h : (httpSliceUpload fold limits md5 sc content folder filename false s).1 = .error e) :
    e.category ≠ .alreadyExists := by
  have hsend := fun e => @sendFile_free fold limits folder filename content sc hfounded 0
    limits.maxAttempts s hfree (hstay.imp_right (Or.imp_right fun hone => ⟨hone, hone⟩)) e
  rw [httpSliceUpload] at h
  simp only [Bool.false_eq_true, if_false] at h
  cases hopen : sc.openFile with
  | some why =>
      rw [hopen] at h
      cases h
      rintro ⟨⟩
  | none =>
      rw [hopen] at h
      dsimp only at h
      revert hsend h
      generalize sendFile fold limits sc content folder filename 0 limits.maxAttempts s = r
      obtain ⟨result, s'⟩ := r
      intro hsend h
      cases result with
      | error e' =>
          cases h
          exact hsend e rfl
      | ok unverified =>
          rw [verifyUpload_error h]
          rintro ⟨⟩

/-! ### What a sliced upload publishes -/

theorem length_repeated (again : ℕ) (chunk : Bytes) :
    chunk.length ≤ (repeated (again + 1) chunk).length := by
  rw [repeated_succ, List.length_append]
  exact Nat.le_add_left _ _

theorem Grown.length_le {index : ℕ} {held : Bytes} (h : Grown limits content index held) :
    (content.take (index * limits.sliceSize)).length ≤ held.length := by
  induction h with
  | opened => simp
  | @slice index held h again hagain ih =>
      have hslice := length_repeated again (sliceOf content limits.sliceSize index)
      rw [← take_append_sliceOf, List.length_append, List.length_append]
      exact Nat.add_le_add ih hslice

/-- No slice is left out, so what is published is no shorter than the file. -/
theorem Publishable.length_le {published : Bytes} (h : Publishable limits content published) :
    content.length ≤ published.length := by
  obtain ⟨held, hgrown, hpublished⟩ := h
  have hheld := hgrown.length_le
  rw [take_slices] at hheld
  rcases hpublished with rfl | rfl
  · exact hheld
  · rw [List.length_take]
    exact le_min le_rfl hheld

section Publishing

variable {old : Option Tree}

theorem sendFile_found (sc : SliceUploadScript) (restarts left : ℕ) {s : SliceSession}
    (hfound : Found fold limits (joinPath folder filename) content old s.client.server) :
    Found fold limits (joinPath folder filename) content old
      (sendFile fold limits sc content folder filename restarts left s).2.client.server := by
  induction left generalizing restarts s with
  | zero => exact hfound
  | succ left ih =>
      have hpass := (wholePass_spec (sc.read restarts) (sc.slice restarts) hfound).found
      rw [sendFile]
      dsimp only at hpass ⊢
      revert hpass
      generalize sendPass fold limits (joinPath folder filename) (sc.read restarts)
        (sc.slice restarts) content 0 (limits.slices content.length) none false s = r
      obtain ⟨outcome, s'⟩ := r
      intro hpass
      cases outcome with
      | finished unverified => exact hpass
      | failed e => exact hpass
      | rejected e =>
          dsimp only
          split
          case isTrue => exact hpass
          case isFalse =>
            have hrestart := (restart_spec (sc.restart restarts) hpass).1
            revert hrestart
            generalize restartSliceUpload fold (sc.restart restarts) folder filename
              content.length s'.client = r
            obtain ⟨found, c⟩ := r
            intro hrestart
            rcases found with e | (_ | _)
            · exact hrestart
            · exact hrestart
            · exact ih (restarts + 1) (s := { s' with client := c }) hrestart

theorem Found.delete {path : NasPath} {sc : RequestScript} {c : Client Volume}
    (h : Found fold limits path content old c.server) :
    Found fold limits path content old (delete fold sc path c).2.server := by
  have hserver : (Core.delete fold sc path c).2.server = c.server ∨
      (Core.delete fold sc path c).2.server = c.server.remove fold path := delete_server
  rcases hserver with hkeep | hgone
  · rw [hkeep]
    exact h
  · rw [hgone]
    exact Or.inl Volume.treeAt_remove

theorem Found.verify {D : Type} [DecidableEq D] [ToString D] {md5 : Bytes → D} {path : NasPath}
    {sc : VerifyScript} {hashIt : Bool} {c : Client Volume}
    (h : Found fold limits path content old c.server) :
    Found fold limits path content old
      (verifyUpload fold path md5 sc content hashIt c).2.server := by
  have hsettled : Found fold limits path content old
      (settledSize fold path sc content.length c).2.server := by
    rw [settledSize_server]
    exact h
  rw [verifyUpload]
  dsimp only
  split
  case h_1 => exact hsettled.delete
  case h_2 =>
    split
    case isFalse => exact hsettled
    case isTrue =>
      rw [verifyHash]
      dsimp only
      split
      case h_1 => exact hsettled
      case h_2 => exact hsettled
      case h_3 =>
        split
        case h_2 => exact hsettled
        case h_1 =>
          split
          case h_1 => exact hsettled
          case h_2 =>
            split
            case isTrue => exact hsettled
            case isFalse => exact hsettled.delete

/-- An upload in slices leaves no short file of its own. -/
theorem httpSliceUpload_whole {D : Type} [DecidableEq D] [ToString D] {md5 : Bytes → D}
    {sc : SliceUploadScript} {s : SliceSession} {held : Bytes}
    (hleft : (httpSliceUpload fold limits md5 sc content folder filename false
      s).2.client.server.treeAt fold (joinPath folder filename) = some (.file held))
    (hnew : s.client.server.treeAt fold (joinPath folder filename) ≠ some (.file held)) :
    content.length ≤ held.length := by
  have hfound : Found fold limits (joinPath folder filename) content
      (s.client.server.treeAt fold (joinPath folder filename))
      (httpSliceUpload fold limits md5 sc content folder filename false s).2.client.server := by
    have hstart : Found fold limits (joinPath folder filename) content
        (s.client.server.treeAt fold (joinPath folder filename)) s.client.server :=
      Or.inr (Or.inl rfl)
    rw [httpSliceUpload]
    simp only [Bool.false_eq_true, if_false]
    cases sc.openFile with
    | some why => exact hstart
    | none =>
        have hsend := sendFile_found sc 0 limits.maxAttempts hstart
        dsimp only
        revert hsend
        cases sendFile fold limits sc content folder filename 0 limits.maxAttempts s with
        | mk result s' =>
            intro hsend
            cases result with
            | error e => exact hsend
            | ok unverified => exact Found.verify hsend
  rcases hfound with hnone | hold | ⟨published, hpublished, htree⟩
  · rw [hleft] at hnone
    cases hnone
  · exact absurd (hold.symm.trans hleft) hnew
  · rw [hleft] at htree
    obtain rfl := FileTree.file.inj (Option.some.inj htree)
    exact hpublished.length_le

end Publishing

/-! ### The upload that meets its own file -/

/-- With `lost`, the answer to the last slice of the first pass does not come.
Everything else is answered, but a restart reaches nobody. -/
def lastUnheard (slices : ℕ) (lost : Bool) : SliceUploadScript :=
  { clear := ⟨.unreached, fun _ => .unreached⟩
    openFile := none
    read := fun _ _ => none
    slice := fun pass index attempt =>
      if lost = true ∧ pass = 0 ∧ index + 1 = slices ∧ attempt = 0 then
        ⟨.lost true "timed out", false⟩
      else ⟨.answered true, false⟩
    restart := fun _ => ⟨.unreached, ⟨.unreached, fun _ => .unreached⟩, none⟩
    verify := ⟨.plain, .plain, .answered, none, .plain⟩ }

theorem lastUnheard_founded (slices : ℕ) (lost : Bool) : (lastUnheard slices lost).Founded := by
  intro pass index attempt
  rw [lastUnheard]
  dsimp only
  split <;> trivial

/-- What a handle stands for on the server: nothing yet, or these bytes. -/
def Partial (s : SliceSession) (held : Bytes) (tmpfile : Option ℕ) : Prop :=
  (tmpfile = none ∧ held = []) ∨ ∃ t, tmpfile = some t ∧ s.partials t = some held

variable {path : NasPath}

theorem sendUntilTaken_next (fold : String → String) (path : NasPath) {sc : ℕ → SliceScript}
    {held : Bytes} (chunk : Bytes) (total : ℕ) {tmpfile : Option ℕ} (left : ℕ)
    (unverified : Bool) {s : SliceSession}
    (hfate : (sc 0).fate = .answered true) (hheld : Partial s held tmpfile) :
    ∃ t s', sendUntilTaken fold path sc chunk total false tmpfile 0 (left + 1) unverified s =
      (.taken (some t), unverified, s') ∧ s'.client = s.client ∧
        s'.partials t = some (held ++ chunk) := by
  rw [sendUntilTaken]
  rcases hheld with ⟨rfl, rfl⟩ | ⟨t, rfl, hholds⟩
  · simp only [sendSlice, hfate, SliceSession.take, SliceSession.grow, Bool.false_eq_true,
      if_false, if_true]
    exact ⟨s.handles, _, rfl, rfl, if_pos rfl⟩
  · simp only [sendSlice, hfate, SliceSession.take, hholds, SliceSession.grow,
      Bool.false_eq_true, if_false, if_true]
    exact ⟨t, _, rfl, rfl, if_pos rfl⟩

theorem sendPass_next (fold : String → String) (limits : TransferLimits) (content : Bytes)
    (path : NasPath) {read : ℕ → Option String} {sc : ℕ → ℕ → SliceScript} {index : ℕ}
    {tmpfile : Option ℕ} {held : Bytes} (left : ℕ) (unverified : Bool) {s : SliceSession}
    (hread : read index = none) (hfate : (sc index 0).fate = .answered true)
    (hheld : Partial s held tmpfile) :
    ∃ t held' s', sendPass fold limits path read sc content index (left + 2) tmpfile unverified s =
      sendPass fold limits path read sc content (index + 1) (left + 1) (some t) unverified s' ∧
        s'.client = s.client ∧ s'.partials t = some held' := by
  obtain ⟨attempts, hattempts⟩ := Nat.exists_eq_succ_of_ne_zero limits.attempts_pos.ne'
  obtain ⟨t, s', hsend, hclient, hholds⟩ := sendUntilTaken_next fold path
    (sliceOf content limits.sliceSize index) content.length attempts unverified hfate hheld
  refine ⟨t, _, s', ?_, hclient, hholds⟩
  rw [sendPass, hread]
  simp only [Nat.add_one_ne_zero, decide_false, if_false, hattempts, hsend]

/-- While the slices are answered, a pass comes to its last slice with the files
as they were. -/
theorem sendPass_toLast (fold : String → String) (limits : TransferLimits) (content : Bytes)
    (path : NasPath) {read : ℕ → Option String} {sc : ℕ → ℕ → SliceScript}
    (hread : ∀ i, read i = none) (left : ℕ) {index : ℕ} {tmpfile : Option ℕ} {held : Bytes}
    (unverified : Bool) {s : SliceSession}
    (hfate : ∀ i, i < index + left + 1 → (sc i 0).fate = .answered true)
    (hheld : Partial s held tmpfile) :
    ∃ t held' s', sendPass fold limits path read sc content index (left + 2) tmpfile unverified s =
      sendPass fold limits path read sc content (index + left + 1) 1 (some t) unverified s' ∧
        s'.client = s.client ∧ s'.partials t = some held' := by
  induction left generalizing index tmpfile held s with
  | zero =>
      exact sendPass_next fold limits content path 0 unverified (hread index)
        (hfate index (by omega)) hheld
  | succ left ih =>
      obtain ⟨t, held', s', hnext, hclient, hholds⟩ := sendPass_next fold limits
        content path (left + 1) unverified (hread index) (hfate index (by omega)) hheld
      have hfate' : ∀ i, i < index + 1 + left + 1 → (sc i 0).fate = .answered true :=
        fun i hi => hfate i (by omega)
      obtain ⟨t', held'', s'', hrest, hclient', hholds'⟩ :=
        ih hfate' (Or.inr ⟨t, rfl, hholds⟩)
      have hindex : index + 1 + left + 1 = index + (left + 1) + 1 := by omega
      rw [hindex] at hrest
      exact ⟨t', held'', s'', hnext.trans hrest, hclient'.trans hclient, hholds'⟩

/-- The last slice is answered, and the name is taken. -/
theorem sendPass_collides {read : ℕ → Option String} {sc : ℕ → ℕ → SliceScript} {index t : ℕ}
    {held : Bytes} {unverified : Bool} {s : SliceSession} (hread : read index = none)
    (hfate : (sc index 0).fate = .answered true) (hholds : s.partials t = some held)
    (htaken : s.client.server.treeAt fold (joinPath folder filename) ≠ none) :
    ∃ s', sendPass fold limits (joinPath folder filename) read sc content index 1 (some t)
      unverified s = (.failed (.apiError 418), s') := by
  obtain ⟨attempts, hattempts⟩ := Nat.exists_eq_succ_of_ne_zero limits.attempts_pos.ne'
  rw [sendPass, hread]
  simp only [decide_true, hattempts, sendUntilTaken, sendSlice, hfate, SliceSession.take, hholds,
    SliceSession.grow, if_true, publish, Volume.store_of_taken _ htaken]
  exact ⟨_, rfl⟩

/-- The last slice is published, its answer is lost, and its partial is gone when
it is sent again. -/
theorem sendPass_relands {read : ℕ → Option String} {sc : ℕ → ℕ → SliceScript} {index t : ℕ}
    {held : Bytes} {unverified : Bool} {s : SliceSession} {message : String}
    (hattempts : 1 < limits.maxAttempts) (hread : read index = none)
    (hfirst : (sc index 0).fate = .lost true message)
    (hsecond : (sc index 1).fate = .answered true) (hholds : s.partials t = some held)
    (hadmits : s.client.server.Admits fold folder filename) :
    ∃ s', sendPass fold limits (joinPath folder filename) read sc content index 1 (some t)
      unverified s = (.rejected (.apiError 401), s') ∧
        s'.client.server.treeAt fold (joinPath folder filename) ≠ none := by
  obtain ⟨attempts, hattempts⟩ : ∃ n, limits.maxAttempts = n + 2 :=
    ⟨limits.maxAttempts - 2, by omega⟩
  have hstore : ∀ data, s.client.server.store fold (joinPath folder filename) data =
      (.ok (), (s.client.server.store fold (joinPath folder filename) data).2) :=
    fun data => Prod.ext (Volume.store_of_admits data hadmits) rfl
  have hcode : SliceError.ofCode 401 = .fatal (.apiError 401) := rfl
  rw [sendPass, hread]
  simp only [decide_true, hattempts, sendUntilTaken, sendSlice, hfirst, hsecond,
    SliceSession.take, hholds, SliceSession.grow, if_true, publish]
  rw [hstore]
  simp only [if_true, Nat.add_one_ne_zero, if_false, hcode]
  refine ⟨_, rfl, ?_⟩
  rw [(Volume.store_ok (Volume.store_of_admits _ hadmits)).2.1]
  exact Option.some_ne_none _

theorem clearForOverwrite_unreached (c : Client Volume) :
    (clearForOverwrite fold ⟨.unreached, fun _ => .unreached⟩ folder filename c).server =
      c.server := by
  obtain ⟨breakers, hdelete⟩ := request_unreached (deleteOp fold (joinPath folder filename)) c
  simp only [clearForOverwrite, pollGone_server, delete, hdelete]

theorem restart_unreached (fold : String → String) (folder : NasPath) (filename : String)
    (total : ℕ) (c : Client Volume) :
    ∃ c', restartSliceUpload fold ⟨.unreached, ⟨.unreached, fun _ => .unreached⟩, none⟩ folder
      filename total c = (.ok .ready, c') ∧ c'.server = c.server := by
  obtain ⟨breakers, hinfo⟩ := request_unreached (getInfoOp fold (joinPath folder filename)) c
  rw [restartSliceUpload]
  simp only [getInfo, hinfo, reportedSize, reduceCtorEq, if_false]
  exact ⟨_, rfl, clearForOverwrite_unreached _⟩

theorem two_slices (hlong : limits.sliceSize < content.length) :
    ∃ n, limits.slices content.length = n + 2 := by
  have hpos := slices_pos limits content.length
  have hone := mt (slices_eq_one_iff limits content.length).mp (Nat.not_le_of_lt hlong)
  exact ⟨limits.slices content.length - 2, by omega⟩

/-- A pass whose slices are all answered, onto a name that is taken. -/
theorem lastUnheard_collides (lost : Bool) (pass : ℕ) (hheard : lost = false ∨ pass ≠ 0)
    (hlong : limits.sliceSize < content.length) {s : SliceSession}
    (htaken : s.client.server.treeAt fold (joinPath folder filename) ≠ none) :
    let sc := lastUnheard (limits.slices content.length) lost
    ∃ s', sendPass fold limits (joinPath folder filename) (sc.read pass) (sc.slice pass) content 0
      (limits.slices content.length) none false s = (.failed (.apiError 418), s') := by
  obtain ⟨n, hslices⟩ := two_slices hlong
  intro sc
  have hfate : ∀ i, (sc.slice pass i 0).fate = .answered true := by
    intro i
    have hcond : ¬ (lost = true ∧ pass = 0 ∧ i + 1 = limits.slices content.length ∧ 0 = 0) := by
      rintro ⟨hlost, hpass, _⟩
      rcases hheard with hheard | hheard
      · rw [hheard] at hlost
        cases hlost
      · exact hheard hpass
    exact congrArg SliceScript.fate (if_neg hcond)
  have hread : ∀ i, sc.read pass i = none := fun _ => rfl
  obtain ⟨t, held, s', hlast, hclient, hholds⟩ := sendPass_toLast fold limits content
    (joinPath folder filename) (s := s) hread n false (fun i _ => hfate i) (Or.inl ⟨rfl, rfl⟩)
  rw [hslices, hlast]
  rw [← hclient] at htaken
  exact sendPass_collides (hread _) (hfate _) hholds htaken

theorem httpSliceUpload_collides {D : Type} [DecidableEq D] [ToString D] {md5 : Bytes → D}
    (hlong : limits.sliceSize < content.length) {s : SliceSession}
    (htaken : s.client.server.treeAt fold (joinPath folder filename) ≠ none) :
    (httpSliceUpload fold limits md5 (lastUnheard (limits.slices content.length) false) content
      folder filename false s).1 = .error (.apiError 418) := by
  obtain ⟨attempts, hattempts⟩ := Nat.exists_eq_succ_of_ne_zero limits.attempts_pos.ne'
  obtain ⟨s', hpass⟩ := lastUnheard_collides false 0 (Or.inl rfl) hlong htaken
  have hopen : (lastUnheard (limits.slices content.length) false).openFile = none := rfl
  simp only [httpSliceUpload, Bool.false_eq_true, if_false, hopen, hattempts, sendFile, hpass]

/-- The first pass, onto a free name: the file is published unheard. -/
theorem lastUnheard_relands (hattempts : 1 < limits.maxAttempts)
    (hlong : limits.sliceSize < content.length) {s : SliceSession}
    (hadmits : s.client.server.Admits fold folder filename) :
    let sc := lastUnheard (limits.slices content.length) true
    ∃ s', sendPass fold limits (joinPath folder filename) (sc.read 0) (sc.slice 0) content 0
      (limits.slices content.length) none false s = (.rejected (.apiError 401), s') ∧
        s'.client.server.treeAt fold (joinPath folder filename) ≠ none := by
  obtain ⟨n, hslices⟩ := two_slices hlong
  intro sc
  have hread : ∀ i, sc.read 0 i = none := fun _ => rfl
  have hfate : ∀ i a, sc.slice 0 i a =
      if i + 1 = limits.slices content.length ∧ a = 0 then ⟨.lost true "timed out", false⟩
      else ⟨.answered true, false⟩ := by
    intro i a
    simp only [sc, lastUnheard, true_and]
  have hbefore : ∀ i, i < 0 + n + 1 → (sc.slice 0 i 0).fate = .answered true := by
    intro i hi
    rw [hfate, if_neg (by omega)]
  obtain ⟨t, held, s', hlast, hclient, hholds⟩ := sendPass_toLast fold limits content
    (joinPath folder filename) (s := s) hread n false hbefore (Or.inl ⟨rfl, rfl⟩)
  have hlost : (sc.slice 0 (0 + n + 1) 0).fate = .lost true "timed out" := by
    rw [hfate, if_pos (by omega)]
  have hagain : (sc.slice 0 (0 + n + 1) 1).fate = .answered true := by
    rw [hfate, if_neg (by omega)]
  rw [← hclient] at hadmits
  rw [hslices, hlast]
  exact sendPass_relands hattempts (hread _) hlost hagain hholds hadmits

/-- **An upload in slices that collides with itself.** The first pass publishes
the file, and the second finds the name taken. -/
theorem httpSliceUpload_relands {D : Type} [DecidableEq D] [ToString D] {md5 : Bytes → D}
    (hattempts : 1 < limits.maxAttempts) (hlong : limits.sliceSize < content.length)
    {s : SliceSession} (hadmits : s.client.server.Admits fold folder filename) :
    (httpSliceUpload fold limits md5 (lastUnheard (limits.slices content.length) true) content
      folder filename false s).1 = .error (.apiError 418) := by
  obtain ⟨attempts, hmax⟩ : ∃ n, limits.maxAttempts = n + 2 := ⟨limits.maxAttempts - 2, by omega⟩
  obtain ⟨s', hfirst, htaken⟩ := lastUnheard_relands hattempts hlong hadmits
  obtain ⟨c, hrestart, hserver⟩ := restart_unreached fold folder filename
    content.length s'.client
  rw [← hserver] at htaken
  obtain ⟨s'', hsecond⟩ := lastUnheard_collides true (0 + 1) (Or.inr Nat.one_ne_zero) hlong
    (s := { s' with client := c }) htaken
  have hopen : (lastUnheard (limits.slices content.length) true).openFile = none := rfl
  have hscript : (lastUnheard (limits.slices content.length) true).restart 0 =
      ⟨.unreached, ⟨.unreached, fun _ => .unreached⟩, none⟩ := rfl
  simp only [httpSliceUpload, Bool.false_eq_true, if_false, hopen, hmax, sendFile, hfirst,
    Nat.add_one_ne_zero, hscript, hrestart, hsecond]

end SynologyFilestation.Core
