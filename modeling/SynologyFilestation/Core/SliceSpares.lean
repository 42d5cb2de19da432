import SynologyFilestation.Core.SliceUpload
import SynologyFilestation.Core.ReplaceFile

/-!
A sliced upload that must not overwrite, onto a name that is taken.

The slices are sent with `overwrite=false`, so the server never publishes onto
the name and the upload cannot succeed. But a restart clears the name for the
next pass without asking whether it may (`restart_slice_upload`), and what it
clears is not this upload's. A restart needs a second pass to be allowed and a
partial to be rejected, that is a second slice: where one of the two is missing,
the name is left alone.
-/

namespace SynologyFilestation.Core

open Library

variable {fold : String → String} {limits : TransferLimits} {path folder : NasPath}
  {filename : String} {content : Bytes}

/-! ### Nothing is published onto the name -/

theorem Volume.store_taken {v : Volume} (data : Bytes) (h : v.treeAt fold path ≠ none) :
    (∃ e, (v.store fold path data).1 = .error e) ∧ (v.store fold path data).2 = v := by
  cases hstore : (v.store fold path data).1 with
  | ok u => exact absurd (Volume.store_ok hstore).1 h
  | error e => exact ⟨⟨e, rfl⟩, Volume.store_error hstore⟩

/-- A slice leaves the files as they are, and the last one is not taken. -/
structure Spared (c : Client Volume) (last : Bool) (taken : Prop) (s : SliceSession) : Prop where
  client : s.client = c
  refused : last = true → ¬ taken

theorem grow_spared {s : SliceSession} {trims last : Bool} {total t handles : ℕ} {grown : Bytes}
    (h : s.client.server.treeAt fold path ≠ none) :
    Spared s.client last (∃ u, (s.grow fold path trims total last t handles grown).1 = .ok u)
      (s.grow fold path trims total last t handles grown).2 := by
  obtain ⟨⟨e, herror⟩, _⟩ := Volume.store_taken (if trims then grown.take total else grown) h
  rw [SliceSession.grow]
  cases last with
  | false => exact ⟨rfl, fun h => by cases h⟩
  | true =>
      cases hpublish : publish fold path trims total grown s.client.server with
      | mk r v =>
          rw [publish] at hpublish
          rw [hpublish] at herror
          obtain rfl : r = .error e := herror
          exact ⟨rfl, fun _ ⟨_, hu⟩ => by cases hu⟩

theorem take_spared (s : SliceSession) (trims last : Bool) (chunk : Bytes) (total : ℕ)
    (tmpfile : Option ℕ) (h : s.client.server.treeAt fold path ≠ none) :
    Spared s.client last (∃ u, (s.take fold path trims chunk total last tmpfile).1 = .ok u)
      (s.take fold path trims chunk total last tmpfile).2 := by
  unfold SliceSession.take
  cases tmpfile with
  | none => exact grow_spared h
  | some t =>
      dsimp only
      cases s.partials t with
      | none => exact ⟨rfl, fun _ ⟨_, hu⟩ => by cases hu⟩
      | some held => exact grow_spared h

theorem sendSlice_spared {s : SliceSession} (sc : SliceScript) (last : Bool) (chunk : Bytes)
    (total : ℕ) (tmpfile : Option ℕ) (h : s.client.server.treeAt fold path ≠ none) :
    Spared s.client last (∃ a, (sendSlice fold path sc chunk total last tmpfile s).1 = .ok a)
      (sendSlice fold path sc chunk total last tmpfile s).2 := by
  have htake := take_spared { s with sent := s.sent + 1 } sc.trims last chunk total tmpfile h
  have hbad (landed : Bool) (e : SliceError) :
      Spared s.client last (∃ a : Option ℕ, (Except.error e : Except SliceError _) = .ok a)
        (if landed then (SliceSession.take fold path { s with sent := s.sent + 1 } sc.trims chunk
          total last tmpfile).2 else { s with sent := s.sent + 1 }) := by
    cases landed with
    | false => exact ⟨rfl, fun _ ⟨_, ha⟩ => by cases ha⟩
    | true => exact ⟨htake.client, fun _ ⟨_, ha⟩ => by cases ha⟩
  rw [sendSlice]
  cases sc.fate with
  | unreached message => exact hbad false _
  | lost landed message => exact hbad landed _
  | refused landed code => exact hbad landed _
  | garbled landed message => exact hbad landed _
  | answered names =>
      cases hanswer : (SliceSession.take fold path { s with sent := s.sent + 1 } sc.trims chunk
          total last tmpfile).1 with
      | ok t =>
          simp only [hanswer]
          exact ⟨htake.client, fun hend _ => htake.refused hend ⟨t, hanswer⟩⟩
      | error e =>
          simp only [hanswer]
          cases e with
          | apiError code => exact hbad true _
          | _ => exact hbad true _

theorem sendUntilTaken_spared (sc : ℕ → SliceScript) (last : Bool) (chunk : Bytes) (total : ℕ)
    (tmpfile : Option ℕ) (attempt left : ℕ) (unverified : Bool) {s : SliceSession}
    (h : s.client.server.treeAt fold path ≠ none) :
    let r := sendUntilTaken fold path sc chunk total last tmpfile attempt left unverified s
    Spared s.client last (∃ a, r.1 = .taken a) r.2.2 := by
  induction left generalizing attempt unverified s with
  | zero => exact ⟨rfl, fun _ ⟨_, ha⟩ => by cases ha⟩
  | succ left ih =>
      have hsend := sendSlice_spared (sc attempt) last chunk total tmpfile h
      rw [sendUntilTaken]
      revert hsend
      cases sendSlice fold path (sc attempt) chunk total last tmpfile s with
      | mk answer s' =>
          intro hsend
          cases answer with
          | ok answered => exact ⟨hsend.client, fun hend _ => hsend.refused hend ⟨answered, rfl⟩⟩
          | error e =>
              cases e with
              | fatal e => exact ⟨hsend.client, fun _ ⟨_, ha⟩ => by cases ha⟩
              | retryable e mayHaveLanded hard =>
                  dsimp only
                  split
                  case isTrue => exact ⟨hsend.client, fun _ ⟨_, ha⟩ => by cases ha⟩
                  case isFalse =>
                    have hclient : s'.client = s.client := hsend.client
                    have hrest := ih (attempt + 1)
                      (unverified || (mayHaveLanded && tmpfile.isSome)) (s := s')
                      (by rw [hclient]; exact h)
                    exact ⟨hrest.client.trans hclient, hrest.refused⟩

/-- A pass leaves the files as they are and does not finish. A partial is
rejected only from the second slice on. -/
theorem sendPass_spared (limits : TransferLimits) (content : Bytes) (read : ℕ → Option String)
    (sc : ℕ → ℕ → SliceScript) (index left : ℕ) (tmpfile : Option ℕ) (unverified : Bool)
    {s : SliceSession}
    (h : s.client.server.treeAt fold path ≠ none) :
    let r := sendPass fold limits path read sc content index (left + 1) tmpfile unverified s
    r.2.client = s.client ∧ (∀ u, r.1 ≠ .finished u) ∧
      (tmpfile = none → left = 0 → ∀ e, r.1 ≠ .rejected e) := by
  induction left using Nat.strong_induction_on generalizing index tmpfile unverified s with
  | _ left ih =>
      have hsend := sendUntilTaken_spared (sc index) (decide (left = 0))
        (sliceOf content limits.sliceSize index) content.length tmpfile 0 limits.maxAttempts
        unverified h
      rw [sendPass]
      cases read index with
      | some why => exact ⟨rfl, by simp, by simp⟩
      | none =>
          dsimp only at hsend ⊢
          revert hsend
          generalize sendUntilTaken fold path (sc index) (sliceOf content limits.sliceSize index)
            content.length (decide (left = 0)) tmpfile 0 limits.maxAttempts unverified s = r
          obtain ⟨outcome, unverified', s'⟩ := r
          intro hsend
          dsimp only at hsend
          have hclient : s'.client = s.client := hsend.client
          cases outcome with
          | gaveUp e => exact ⟨hclient, by simp, by simp⟩
          | refused e =>
              dsimp only
              split
              case isTrue => exact ⟨hclient, by simp, by simp⟩
              case isFalse hreject =>
                refine ⟨hclient, by simp, fun hnone => ?_⟩
                simp [hnone] at hreject
          | taken answered =>
              dsimp only
              split
              case isTrue hzero =>
                exact absurd ⟨answered, rfl⟩ (hsend.refused (decide_eq_true hzero))
              case isFalse hmore =>
                cases answered with
                | none => exact ⟨hclient, by simp, by simp⟩
                | some t =>
                    obtain ⟨rest, rfl⟩ := Nat.exists_eq_succ_of_ne_zero hmore
                    obtain ⟨hsame, hfinish, _⟩ := ih rest (Nat.lt_succ_self rest) (index + 1)
                      (some t) unverified' (s := s') (by rw [hclient]; exact h)
                    exact ⟨hsame.trans hclient, hfinish, fun _ hzero => by cases hzero⟩

theorem slices_eq_one_iff (limits : TransferLimits) (total : ℕ) :
    limits.slices total = 1 ↔ total ≤ limits.sliceSize := by
  have hpos := limits.slice_pos
  have hdiv := Nat.div_add_mod (total + limits.sliceSize - 1) limits.sliceSize
  have hmod := Nat.mod_lt (total + limits.sliceSize - 1) hpos
  rw [TransferLimits.slices]
  constructor
  · intro h
    have hle : (total + limits.sliceSize - 1) / limits.sliceSize ≤ 1 := by omega
    have hmul := Nat.mul_le_mul_left limits.sliceSize hle
    omega
  · intro h
    have hlt : (total + limits.sliceSize - 1) / limits.sliceSize < 2 := by
      apply Nat.div_lt_of_lt_mul
      omega
    omega

/-- Without a restart, a name that is taken is left alone. -/
theorem sendFile_spared (sc : SliceUploadScript) {s : SliceSession}
    (h : s.client.server.treeAt fold (joinPath folder filename) ≠ none)
    (honce : limits.maxAttempts = 1 ∨ content.length ≤ limits.sliceSize) :
    (∃ e, (sendFile fold limits sc content folder filename 0 limits.maxAttempts s).1 = .error e) ∧
      (sendFile fold limits sc content folder filename 0 limits.maxAttempts s).2.client =
        s.client := by
  obtain ⟨attempts, hattempts⟩ := Nat.exists_eq_succ_of_ne_zero limits.attempts_pos.ne'
  obtain ⟨slices, hslices⟩ :=
    Nat.exists_eq_succ_of_ne_zero (slices_pos limits content.length).ne'
  have hpass := sendPass_spared limits content (sc.read 0) (sc.slice 0) 0 slices none false h
  rw [hattempts, sendFile, hslices]
  dsimp only at hpass ⊢
  revert hpass
  generalize sendPass fold limits (joinPath folder filename) (sc.read 0) (sc.slice 0) content 0
    (slices + 1) none false s = r
  obtain ⟨outcome, s'⟩ := r
  rintro ⟨hclient, hfinish, hreject⟩
  cases outcome with
  | finished u => exact absurd rfl (hfinish u)
  | failed e => exact ⟨⟨e, rfl⟩, hclient⟩
  | rejected e =>
      have hzero : attempts = 0 := by
        rcases honce with hone | hshort
        · omega
        · rw [← slices_eq_one_iff] at hshort
          exact absurd rfl (hreject rfl (by omega) e)
      simp only [hzero, if_true]
      exact ⟨⟨e, rfl⟩, hclient⟩

/-! ### The restart that clears the name -/

/-- The second slice of the first pass finds the partial gone, the size of what
is there cannot be learnt, and the second pass is refused. -/
def clearing : SliceUploadScript :=
  { clear := ⟨.plain, fun _ => .plain⟩
    openFile := none
    read := fun _ _ => none
    slice := fun restarts index _ =>
      if restarts = 0 then
        if index = 0 then ⟨.answered true, false⟩ else ⟨.refused false 401, false⟩
      else ⟨.refused false 419, false⟩
    restart := fun _ => ⟨.unreached, ⟨.plain, fun _ => .plain⟩, none⟩
    verify := ⟨.plain, .plain, .answered, none, .plain⟩ }

theorem sendUntilTaken_opened (fold : String → String) (path : NasPath) (sc : ℕ → SliceScript)
    (chunk : Bytes) (total left : ℕ) (unverified : Bool) (s : SliceSession)
    (hfate : (sc 0).fate = .answered true) :
    ∃ s', sendUntilTaken fold path sc chunk total false none 0 (left + 1) unverified s =
      (.taken (some s.handles), unverified, s') ∧ s'.client = s.client := by
  rw [sendUntilTaken]
  simp only [sendSlice, hfate, SliceSession.take, SliceSession.grow, Bool.false_eq_true, if_false,
    if_true]
  exact ⟨_, rfl, rfl⟩

theorem sendUntilTaken_refused (fold : String → String) (path : NasPath) (sc : ℕ → SliceScript)
    (chunk : Bytes) (total left code : ℕ) (last : Bool) (tmpfile : Option ℕ) (unverified : Bool)
    (s : SliceSession)
    (hfate : (sc 0).fate = .refused false code) (hcode : dsmCodeToCategory code ≠ .busy) :
    ∃ s', sendUntilTaken fold path sc chunk total last tmpfile 0 (left + 1) unverified s =
      (.refused (.apiError code), unverified, s') ∧ s'.client = s.client := by
  rw [sendUntilTaken]
  simp only [sendSlice, hfate, SliceError.ofCode, hcode, if_false, Bool.false_eq_true]
  exact ⟨_, rfl, rfl⟩

theorem clearing_loses {D : Type} [DecidableEq D] [ToString D] {md5 : Bytes → D} (s : SliceSession)
    (hattempts : limits.maxAttempts ≠ 1) (hlong : ¬ content.length ≤ limits.sliceSize) :
    (httpSliceUpload fold limits md5 clearing content folder filename false
      s).2.client.server.treeAt fold (joinPath folder filename) = none := by
  have hpos := limits.attempts_pos
  have hslices := slices_pos limits content.length
  rw [← slices_eq_one_iff] at hlong
  obtain ⟨attempts, hattempts⟩ : ∃ n, limits.maxAttempts = n + 2 :=
    ⟨limits.maxAttempts - 2, by omega⟩
  obtain ⟨slices, hslices⟩ : ∃ n, limits.slices content.length = n + 2 :=
    ⟨limits.slices content.length - 2, by omega⟩
  -- The first slice opens a partial, the second is answered with the catch-all.
  obtain ⟨s₁, hfirst, hclient₁⟩ := sendUntilTaken_opened fold (joinPath folder filename)
    (clearing.slice 0 0)
    (sliceOf content limits.sliceSize 0) content.length (attempts + 1) false s rfl
  obtain ⟨s₂, hsecond, hclient₂⟩ := sendUntilTaken_refused fold (joinPath folder filename)
    (clearing.slice 0 1)
    (sliceOf content limits.sliceSize 1) content.length (attempts + 1) 401 (decide (slices = 0))
    (some s.handles) false s₁ rfl (by decide)
  have hread : ∀ restarts index, clearing.read restarts index = none := fun _ _ => rfl
  have hpass : sendPass fold limits (joinPath folder filename) (clearing.read 0) (clearing.slice 0)
      content 0 (slices + 2) none false s = (.rejected (.apiError 401), s₂) := by
    rw [sendPass, hread]
    simp only [Nat.add_one_ne_zero, decide_false, if_false, hattempts, hfirst]
    rw [sendPass, hread]
    simp only [Nat.zero_add, hattempts, hsecond]
    rfl
  have hrestart : ∃ c, restartSliceUpload fold (clearing.restart 0) folder filename content.length
      s₂.client = (.ok .ready, c) ∧ c.server.treeAt fold (joinPath folder filename) = none := by
    obtain ⟨breakers, hinfo⟩ :=
      request_unreached (getInfoOp fold (joinPath folder filename)) s₂.client
    rw [restartSliceUpload]
    simp only [clearing, getInfo, hinfo, reportedSize, reduceCtorEq, if_false]
    refine ⟨_, rfl, ?_⟩
    rw [clearForOverwrite_plain]
    exact Volume.treeAt_remove
  obtain ⟨c, hrestart, hgone⟩ := hrestart
  -- Nothing of the second pass is taken.
  obtain ⟨s₃, hthird, hclient₃⟩ := sendUntilTaken_refused fold (joinPath folder filename)
    (clearing.slice 1 0)
    (sliceOf content limits.sliceSize 0) content.length (attempts + 1) 419 false none false
    { s₂ with client := c } rfl (by decide)
  have hpass' : sendPass fold limits (joinPath folder filename) (clearing.read 1)
      (clearing.slice 1) content 0 (slices + 2) none false { s₂ with client := c } =
        (.failed (.apiError 419), s₃) := by
    rw [sendPass, hread]
    simp only [Nat.add_one_ne_zero, decide_false, hattempts, hthird]
    rfl
  have hopen : clearing.openFile = none := rfl
  simp only [httpSliceUpload, Bool.false_eq_true, if_false, hopen, hattempts, sendFile, hslices,
    hpass, Nat.add_one_ne_zero, hrestart, hpass', hclient₃]
  exact hgone

/-! ### The contract -/

/-- What stood under the path was neither removed nor replaced. -/
def Spares (fold : String → String) (path : NasPath) (before after : Volume) : Prop :=
  before.treeAt fold path ≠ none →
    after.treeAt fold path = before.treeAt fold path ∧ after.removals = before.removals

/-- **A sliced upload with `overwrite=false`.** Whatever becomes of its slices
and requests, it spares what stood under the name if, and only if, nothing did,
or no second pass is allowed, or the file is a single slice. -/
theorem sliceUpload_spares_iff {D : Type} [DecidableEq D] [ToString D] (fold : String → String)
    (limits : TransferLimits) (md5 : Bytes → D) (content : Bytes) (folder : NasPath)
    (filename : String) (s : SliceSession) :
    (∀ sc, Spares fold (joinPath folder filename) s.client.server
      (httpSliceUpload fold limits md5 sc content folder filename false s).2.client.server) ↔
    s.client.server.treeAt fold (joinPath folder filename) = none ∨ limits.maxAttempts = 1 ∨
      content.length ≤ limits.sliceSize := by
  constructor
  · intro hspares
    by_contra hcond
    simp only [not_or] at hcond
    obtain ⟨htaken, hattempts, hlong⟩ := hcond
    exact htaken ((hspares clearing htaken).1.symm.trans (clearing_loses s hattempts hlong))
  · intro hcond sc htaken
    obtain ⟨⟨e, herror⟩, hclient⟩ := sendFile_spared sc htaken (hcond.resolve_left htaken)
    rw [httpSliceUpload]
    simp only [Bool.false_eq_true, if_false]
    cases sc.openFile with
    | some why => exact ⟨rfl, rfl⟩
    | none =>
        dsimp only
        revert hclient herror
        cases sendFile fold limits sc content folder filename 0 limits.maxAttempts s with
        | mk r s' =>
            intro hclient herror
            obtain rfl : r = .error e := herror
            have hclient : s'.client = s.client := hclient
            dsimp only
            rw [hclient]
            exact ⟨rfl, rfl⟩

/-- A file of another upload, at the name that this one may not overwrite. -/
theorem restart_deletes_foreign_file :
    let limits : TransferLimits :=
      { maxAttempts := 3, sliceSize := 1, attempts_pos := by decide, slice_pos := by decide }
    let before : SliceSession :=
      { client :=
          ⟨[], [], [], { root := .dir [("share", .dir [("f", .file [9])])], removals := [] }⟩
        partials := fun _ => none, handles := 0, sent := 0 }
    ¬ Spares id ["share", "f"] before.client.server
      (httpSliceUpload id limits (fun bytes => bytes) clearing [1, 2] ["share"] "f" false
        before).2.client.server := by
  intro limits before hspares
  have hkept := (hspares (by decide)).1
  exact absurd (hkept.symm.trans (clearing_loses before (by decide) (by decide))) (by decide)

end SynologyFilestation.Core
