import SynologyFilestation.Fuse.Winfs
import Mathlib.Data.List.Induction

/-!
A write buffer beside the byte array that it stands for (`fuse/src/spill.rs`).

In memory every write stretches the bytes to where it ends, and in the temp file only a write that
has data does. The buffer's own length counts both. So the two can come apart, and they do so
exactly when a write of nothing was the last to move the end.
-/

namespace SynologyFilestation.Fuse

open Library

/-! ### The array -/

/-- Where an edit ends. -/
def editStop : Edit UInt8 → ℕ
  | .write offset data => offset + data.length
  | .resize newLen => newLen

/-- What an edit makes of a length. -/
def lengthBy (len : ℕ) : Edit UInt8 → ℕ
  | .write offset data => max len (offset + data.length)
  | .resize newLen => newLen

/-- An edit of a plain array: a write extends it with zeros up to where it ends, whatever it
writes. -/
def plainEdit (content : Bytes) : Edit UInt8 → Bytes
  | .write offset data =>
      patch (resize content (max content.length (offset + data.length))) offset data
  | .resize newLen => resize content newLen

/-- The plain array after `edits`. -/
def plainArray (edits : List (Edit UInt8)) : Bytes := edits.foldl plainEdit []

/-- A call on a buffer. -/
def SpillBuffer.edit (b : SpillBuffer) (sc : DiskScript) :
    Edit UInt8 → Except String Unit × SpillBuffer
  | .write offset data => b.writeAt sc offset data
  | .resize newLen => b.setLen sc newLen

/-- A new buffer after `edits`, when nothing fails. -/
def SpillBuffer.edited (spillAt : ℕ) (edits : List (Edit UInt8)) : SpillBuffer :=
  edits.foldl (fun b e => (b.edit {} e).2) (.withSpillAt spillAt)

/-- Some edit was too long for memory. -/
def OnDisk (spillAt : ℕ) (edits : List (Edit UInt8)) : Prop := ∃ e ∈ edits, spillAt < editStop e

/-- An edit that leaves this end where it is: a write that ends before it, or one of nothing that
does not end behind it. -/
def LeavesEnd (stop : ℕ) : Edit UInt8 → Prop
  | .write offset data => if data = [] then offset ≤ stop else offset + data.length < stop
  | .resize _ => False

/-- A write of nothing moved the end, on disk, and nothing has moved it since or written up to
it. -/
def Unfilled (spillAt : ℕ) (edits : List (Edit UInt8)) : Prop :=
  ∃ before offset after, edits = before ++ .write offset [] :: after ∧
    (plainArray before).length < offset ∧ OnDisk spillAt (before ++ [.write offset []]) ∧
      ∀ e ∈ after, LeavesEnd offset e

variable {spillAt offset newLen : ℕ} {edits : List (Edit UInt8)} {e : Edit UInt8} {data : Bytes}
  {b : SpillBuffer} {sc : DiskScript}

theorem plainArray_concat : plainArray (edits ++ [e]) = plainEdit (plainArray edits) e := by
  simp [plainArray]

theorem length_plainEdit (content : Bytes) :
    (plainEdit content e).length = lengthBy content.length e := by
  cases e with
  | write offset data =>
      simp only [plainEdit, length_patch, length_resize, lengthBy]
      split <;> omega
  | resize newLen => simp [plainEdit, lengthBy]

/-- The array reads as the edit says, wherever it ends. -/
theorem getD_plainEdit (content : Bytes) (e : Edit UInt8) (i : ℕ) :
    (plainEdit content e).getD i 0 = (e.apply content).getD i 0 := by
  cases e with
  | write offset data =>
      have hresize : (resize content (max content.length (offset + data.length))).getD i 0 =
          content.getD i 0 := by
        rw [getD_resize]
        split
        case isTrue => rfl
        case isFalse => rw [List.getD_eq_default _ _ (by omega)]
      rw [plainEdit, Edit.apply, getD_patch, getD_patch, hresize]
  | resize newLen => rfl

theorem onDisk_concat : OnDisk spillAt (edits ++ [e]) ↔
    OnDisk spillAt edits ∨ spillAt < editStop e := by
  simp [OnDisk, or_and_right, exists_or]

/-! ### When the file is too short -/

/-- As long as nothing moves it, the end is where the write of nothing put it. -/
theorem length_of_leavesEnd {before after : List (Edit UInt8)}
    (hend : (plainArray before).length < offset) (hafter : ∀ e ∈ after, LeavesEnd offset e) :
    (plainArray (before ++ .write offset [] :: after)).length = offset := by
  induction after using List.reverseRecOn with
  | nil =>
      rw [plainArray_concat, length_plainEdit]
      simp only [lengthBy, List.length_nil]
      omega
  | append_singleton after e ih =>
      have hlast : LeavesEnd offset e := hafter e (by simp)
      have hlength := ih fun e he => hafter e (List.mem_append_left _ he)
      rw [← List.cons_append, ← List.append_assoc, plainArray_concat, length_plainEdit, hlength]
      cases e with
      | resize => exact hlast.elim
      | write offset' data =>
          simp only [LeavesEnd] at hlast
          simp only [lengthBy]
          split at hlast
          case isTrue hnil =>
            rw [hnil, List.length_nil]
            omega
          case isFalse => omega

/-- What one more edit does to a missing end. -/
theorem unfilled_concat : Unfilled spillAt (edits ++ [e]) ↔
    (∃ offset, e = .write offset [] ∧ (plainArray edits).length < offset ∧
        OnDisk spillAt (edits ++ [e])) ∨
      Unfilled spillAt edits ∧ LeavesEnd (plainArray edits).length e := by
  constructor
  · rintro ⟨before, offset, after, heq, hend, hdisk, hafter⟩
    rcases List.eq_nil_or_concat after with rfl | ⟨after, last, rfl⟩
    · obtain ⟨rfl, hlast⟩ := List.append_inj' heq rfl
      obtain rfl : e = .write offset [] := List.singleton_inj.mp hlast
      exact .inl ⟨offset, rfl, hend, hdisk⟩
    · rw [List.concat_eq_append, ← List.cons_append, ← List.append_assoc] at heq
      obtain ⟨rfl, hlast⟩ := List.append_inj' heq rfl
      obtain rfl : e = last := List.singleton_inj.mp hlast
      have hbefore : ∀ e ∈ after, LeavesEnd offset e := fun e he => hafter e (by simp [he])
      refine .inr ⟨⟨before, offset, after, rfl, hend, hdisk, hbefore⟩, ?_⟩
      rw [length_of_leavesEnd hend hbefore]
      exact hafter e (by simp)
  · rintro (⟨offset, rfl, hend, hdisk⟩ | ⟨⟨before, offset, after, rfl, hend, hdisk, hafter⟩, hlast⟩)
    · exact ⟨edits, offset, [], rfl, hend, hdisk, nofun⟩
    · rw [length_of_leavesEnd hend hafter] at hlast
      refine ⟨before, offset, after ++ [e], by simp, hend, hdisk, fun e' he' => ?_⟩
      rcases List.mem_append.mp he' with hold | hnew
      · exact hafter e' hold
      · rwa [List.mem_singleton.mp hnew]

theorem onDisk_of_unfilled (h : Unfilled spillAt edits) : OnDisk spillAt edits := by
  obtain ⟨before, offset, after, rfl, -, ⟨e, he, hover⟩, -⟩ := h
  refine ⟨e, ?_, hover⟩
  rcases List.mem_append.mp he with hold | hnew
  · exact List.mem_append_left _ hold
  · rw [List.mem_singleton.mp hnew]
    simp

/-- The bytes are on disk when an edit was too long for memory, they are no more than the array
has, and fewer exactly if its end was left unfilled. -/
theorem shape_iff (spillAt : ℕ) (edits : List (Edit UInt8)) :
    let shape := edits.foldl (reachEdit spillAt) (false, 0)
    (shape.1 = true ↔ OnDisk spillAt edits) ∧ shape.2 ≤ (plainArray edits).length ∧
      (shape.2 < (plainArray edits).length ↔ Unfilled spillAt edits) := by
  induction edits using List.reverseRecOn with
  | nil =>
      refine ⟨by simp [OnDisk], Nat.le_refl _, by simp [plainArray], ?_⟩
      rintro ⟨before, offset, after, heq, -⟩
      simp at heq
  | append_singleton edits e ih =>
      obtain ⟨hdisk, hle, hshort⟩ := ih
      simp only [List.foldl_append, List.foldl_cons, List.foldl_nil]
      generalize edits.foldl (reachEdit spillAt) (false, 0) = shape at hdisk hle hshort ⊢
      obtain ⟨disk, length⟩ := shape
      rw [onDisk_concat, unfilled_concat, onDisk_concat, plainArray_concat, length_plainEdit]
      have hmemory : length < (plainArray edits).length → disk = true := fun hless =>
        hdisk.mpr (onDisk_of_unfilled (hshort.mp hless))
      rw [← hdisk, ← hshort]
      generalize (plainArray edits).length = plain at hle hmemory ⊢
      dsimp only at hle
      cases e with
      | resize newLen => simp [reachEdit, editStop, lengthBy, LeavesEnd]
      | write offset data =>
          have hreach : reachEdit spillAt (disk, length) (.write offset data) =
              if disk = true ∨ spillAt < offset + data.length then
                (true, if data = [] then length else max length (offset + data.length))
              else (false, max length (offset + data.length)) := by
            simp [reachEdit, reach]
          have hnew : (∃ o, Edit.write offset data = .write o [] ∧ plain < o ∧
              (disk = true ∨ spillAt < editStop (.write offset data))) ↔
                data = [] ∧ plain < offset ∧ (disk = true ∨ spillAt < offset + data.length) := by
            constructor
            · rintro ⟨o, heq, hrest⟩
              obtain ⟨rfl, rfl⟩ := Edit.write.inj heq
              exact ⟨rfl, hrest⟩
            · rintro ⟨rfl, hrest⟩
              exact ⟨offset, rfl, hrest⟩
          rw [hreach, hnew]
          simp only [editStop, lengthBy, LeavesEnd]
          by_cases hgoes : disk = true ∨ spillAt < offset + data.length
          · rw [if_pos hgoes]
            by_cases hnil : data = []
            · subst hnil
              simp only [List.length_nil, Nat.add_zero] at hgoes ⊢
              simp only [hgoes, if_true, true_and, and_true]
              omega
            · simp only [hnil, hgoes, if_false, false_and, false_or, true_and]
              omega
          · rw [if_neg hgoes]
            rw [not_or] at hgoes
            have hfull : ¬length < plain := fun hless => hgoes.1 (hmemory hless)
            simp only [hgoes.1, hgoes.2, hfull, false_and, and_false, or_false, Bool.false_eq_true,
              true_and, iff_false]
            omega

/-! ### The buffer -/

theorem SpillBuffer.spillPast_done (b : SpillBuffer) (size : ℕ) :
    (b.spillPast {} size).1 = .ok () ∧ (b.spillPast {} size).2.len = b.len := by
  obtain ⟨store, len, spillAt⟩ := b
  cases store with
  | spilled file => exact ⟨rfl, rfl⟩
  | memory v =>
      by_cases hsize : spillAt < size
      · simp [spillPast, spill, openSpill, spillNameAttempts, hsize]
      · simp [spillPast, hsize]

/-- When nothing fails a call is accepted, and the length follows. -/
theorem SpillBuffer.edit_done (b : SpillBuffer) (hfits : editStop e < 2 ^ 64) :
    (b.edit {} e).1 = .ok () ∧ (b.edit {} e).2.len = lengthBy b.len e := by
  cases e with
  | write offset data =>
      obtain ⟨hok, hlen⟩ := b.spillPast_done (offset + data.length)
      rw [edit, writeAt, if_neg (show ¬2 ^ 64 ≤ offset + data.length from Nat.not_le.mpr hfits)]
      cases hpast : b.spillPast {} (offset + data.length) with
      | mk result past =>
        rw [hpast] at hok hlen
        obtain rfl : result = .ok () := hok
        rw [lengthBy, ← hlen]
        dsimp only
        obtain ⟨store, len, spillAt⟩ := past
        cases store with
        | memory v => exact ⟨rfl, rfl⟩
        | spilled file => exact ⟨rfl, rfl⟩
  | resize newLen =>
      obtain ⟨hok, hlen⟩ := b.spillPast_done newLen
      rw [edit, setLen]
      cases hpast : b.spillPast {} newLen with
      | mk result past =>
        rw [hpast] at hok hlen
        obtain rfl : result = .ok () := hok
        obtain ⟨store, len, spillAt⟩ := past
        cases store with
        | memory v => exact ⟨rfl, rfl⟩
        | spilled file => exact ⟨rfl, rfl⟩

/-- What a buffer is after `edits`. -/
structure SpillBuffer.After (b : SpillBuffer) (spillAt : ℕ) (edits : List (Edit UInt8)) :
    Prop where
  threshold : b.spillAt = spillAt
  len : b.len = (plainArray edits).length
  shape : b.shape = edits.foldl (reachEdit spillAt) (false, 0)
  reads : ∀ i, b.bytes.getD i 0 = (plainArray edits).getD i 0

theorem SpillBuffer.edit_ok (h : (b.edit sc e).1 = .ok ()) :
    (b.edit sc e).2.spillAt = b.spillAt ∧
      (b.edit sc e).2.shape = reachEdit b.spillAt b.shape e ∧
        ∀ i, (b.edit sc e).2.bytes.getD i 0 = (e.apply b.bytes).getD i 0 := by
  cases e with
  | write offset data => exact writeAt_ok h
  | resize newLen =>
      obtain ⟨hat, hshape, hbytes⟩ := setLen_ok h
      exact ⟨hat, hshape, fun i => congrArg (·.getD i 0) hbytes⟩

theorem SpillBuffer.after_edited (hfits : ∀ e ∈ edits, editStop e < 2 ^ 64) :
    (SpillBuffer.edited spillAt edits).After spillAt edits := by
  induction edits using List.reverseRecOn with
  | nil => exact ⟨rfl, rfl, rfl, fun _ => rfl⟩
  | append_singleton edits e ih =>
      have hbefore := ih fun e he => hfits e (List.mem_append_left _ he)
      obtain ⟨hok, hlen⟩ := (SpillBuffer.edited spillAt edits).edit_done (hfits e (by simp))
      obtain ⟨hat, hshape, hreads⟩ := SpillBuffer.edit_ok hok
      have hedited : SpillBuffer.edited spillAt (edits ++ [e]) =
          ((SpillBuffer.edited spillAt edits).edit {} e).2 := by
        simp [SpillBuffer.edited]
      rw [hedited]
      refine ⟨hat.trans hbefore.threshold, ?_, ?_, fun i => ?_⟩
      · rw [hlen, hbefore.len, plainArray_concat, length_plainEdit]
      · rw [hshape, hbefore.threshold, hbefore.shape, List.foldl_append]
        rfl
      · rw [hreads, plainArray_concat, getD_plainEdit, getD_apply, getD_apply, hbefore.reads]

/-- **The bytes of a buffer are those of the array**, unless its end was left unfilled. -/
theorem SpillBuffer.bytes_eq_iff (hfits : ∀ e ∈ edits, editStop e < 2 ^ 64) :
    (SpillBuffer.edited spillAt edits).bytes = plainArray edits ↔ ¬Unfilled spillAt edits := by
  have hafter := @SpillBuffer.after_edited spillAt _ hfits
  obtain ⟨-, hle, hshort⟩ := shape_iff spillAt edits
  have hlength : (SpillBuffer.edited spillAt edits).bytes.length =
      (edits.foldl (reachEdit spillAt) (false, 0)).2 := congrArg Prod.snd hafter.shape
  rw [← hlength] at hle hshort
  rw [← hshort]
  constructor
  · intro heq
    rw [heq]
    exact Nat.lt_irrefl _
  · exact fun hfull => ext_getD (Nat.le_antisymm hle (Nat.not_lt.mp hfull)) hafter.reads

/-! ### A call that fails -/

/-- A failing write or resize of the temp file stored nothing that was not there. -/
def StoresNothingNew (b : SpillBuffer) (sc : DiskScript) : Edit UInt8 → Prop
  | .write offset data => (b.spillPast sc (offset + data.length)).1 = .ok () → sc.seeks = none →
      ∀ stored why, sc.stores = .failed stored why →
        ∀ i < stored, i < data.length → b.bytes[offset + i]? = data[i]?
  | .resize newLen => (b.spillPast sc newLen).1 = .ok () →
      ∀ stored why, sc.stores = .failed stored why → stored = 0 ∨ newLen ≤ b.bytes.length

/-- What a write leaves alone had its data already. -/
theorem patch_eq_self_iff (content data : Bytes) (offset : ℕ) :
    patch content offset data = content ↔
      ∀ i < data.length, content[offset + i]? = data[i]? := by
  by_cases hnil : data = []
  · simp [hnil]
  · have hpos := List.length_pos_iff.mpr hnil
    constructor
    · intro heq i hi
      have hlength := congrArg List.length heq
      rw [length_patch, if_neg hnil] at hlength
      have hread := getD_patch content offset data (offset + i)
      rw [heq, if_pos ⟨by omega, by omega⟩, Nat.add_sub_cancel_left,
        List.getD_eq_getElem _ _ (by omega), List.getD_eq_getElem _ _ hi] at hread
      rw [List.getElem?_eq_getElem (by omega), List.getElem?_eq_getElem hi, hread]
    · intro hsame
      have hreach : offset + data.length ≤ content.length := by
        have hlast := hsame (data.length - 1) (by omega)
        rw [List.getElem?_eq_getElem (show data.length - 1 < data.length by omega)] at hlast
        have hin := (List.getElem?_eq_some_iff.mp hlast).1
        omega
      refine ext_getD (by rw [length_patch, if_neg hnil]; omega) fun i => ?_
      rw [getD_patch]
      split
      case isTrue hin =>
        have hi := hsame (i - offset) (by omega)
        rw [show offset + (i - offset) = i by omega] at hi
        rw [List.getD_eq_getElem?_getD, List.getD_eq_getElem?_getD, hi]
      case isFalse => rfl

theorem resize_eq_self_iff (content : Bytes) (size : ℕ) :
    resize content size = content ↔ size = content.length := by
  constructor
  · intro heq
    rw [← heq, length_resize]
  · rintro rfl
    simp [resize]

theorem SpillBuffer.asBytes_default (b : SpillBuffer) : b.asBytes {} = .ok b.bytes := by
  unfold asBytes bytes
  split <;> simp_all

/-- A spill keeps the length and the bytes, and leaves in memory what has room there. -/
theorem SpillBuffer.spillPast_keeps (b : SpillBuffer) (sc : DiskScript) (size : ℕ) :
    (b.spillPast sc size).2.len = b.len ∧ (b.spillPast sc size).2.bytes = b.bytes := by
  rcases b.spillPast_spec sc size with hok | ⟨why, herror⟩
  · rw [hok]
    dsimp only
    split <;> exact ⟨rfl, rfl⟩
  · rw [herror]
    exact ⟨rfl, rfl⟩

theorem SpillBuffer.failed_write_iff (b : SpillBuffer) (sc : DiskScript) {offset : ℕ} {data : Bytes}
    (hfits : offset + data.length < 2 ^ 64) {why : String}
    (herror : (b.edit sc (.write offset data)).1 = .error why) :
    (b.edit sc (.write offset data)).2.len = b.len ∧
      ((b.edit sc (.write offset data)).2.bytes = b.bytes ↔
        StoresNothingNew b sc (.write offset data)) := by
  obtain ⟨hlen, hbytes⟩ := b.spillPast_keeps sc (offset + data.length)
  rw [edit, writeAt,
    if_neg (show ¬2 ^ 64 ≤ offset + data.length from Nat.not_le.mpr hfits)] at herror ⊢
  simp only [StoresNothingNew]
  cases hpast : b.spillPast sc (offset + data.length) with
  | mk result past =>
    rw [hpast] at hlen hbytes herror
    cases result with
    | error why => exact ⟨hlen, iff_of_true hbytes (by rintro ⟨⟩)⟩
    | ok =>
      rw [← hlen, ← hbytes]
      obtain ⟨store, len, spillAt⟩ := past
      cases store with
      | memory v => cases herror
      | spilled file =>
          simp only [place] at herror ⊢
          cases hseeks : sc.seeks with
          | some why => exact ⟨rfl, iff_of_true rfl (fun _ hnone => absurd hnone (by simp))⟩
          | none =>
              simp only [hseeks] at herror
              cases hstores : sc.stores with
              | done => simp [hstores, FsOutcome.write] at herror
              | failed stored why =>
                  refine ⟨by simp [FsOutcome.write], ?_⟩
                  have hsame := patch_eq_self_iff file (data.take stored) offset
                  simp only [FsOutcome.write, bytes]
                  rw [hsame]
                  constructor
                  · rintro hall - - _ _ heq i hi hlt
                    obtain ⟨rfl, -⟩ := FsOutcome.failed.inj heq
                    rw [hall i (by rw [List.length_take]; omega), List.getElem?_take_of_lt hi]
                  · intro hall i hi
                    rw [List.length_take] at hi
                    rw [hall trivial trivial stored why rfl i (by omega) (by omega),
                      List.getElem?_take_of_lt (by omega)]

theorem SpillBuffer.failed_resize_iff (b : SpillBuffer) (sc : DiskScript) {newLen : ℕ}
    {why : String} (herror : (b.edit sc (.resize newLen)).1 = .error why) :
    (b.edit sc (.resize newLen)).2.len = b.len ∧
      ((b.edit sc (.resize newLen)).2.bytes = b.bytes ↔
        StoresNothingNew b sc (.resize newLen)) := by
  obtain ⟨hlen, hbytes⟩ := b.spillPast_keeps sc newLen
  rw [edit, setLen] at herror ⊢
  simp only [StoresNothingNew]
  cases hpast : b.spillPast sc newLen with
  | mk result past =>
    rw [hpast] at hlen hbytes herror
    cases result with
    | error why => exact ⟨hlen, iff_of_true hbytes nofun⟩
    | ok =>
      rw [← hlen, ← hbytes]
      obtain ⟨store, len, spillAt⟩ := past
      cases store with
      | memory v => cases herror
      | spilled file =>
          cases hstores : sc.stores with
          | done => simp [hstores, FsOutcome.resizeFile] at herror
          | failed stored why =>
              refine ⟨by simp [FsOutcome.resizeFile], ?_⟩
              simp only [FsOutcome.resizeFile, bytes]
              have hstored : (if file.length < newLen then
                  resize file (min newLen (file.length + stored)) else file) = file ↔
                    stored = 0 ∨ newLen ≤ file.length := by
                split
                case isTrue =>
                  rw [resize_eq_self_iff]
                  omega
                case isFalse => simp; omega
              rw [hstored]
              constructor
              · rintro hnone - _ _ heq
                obtain ⟨rfl, -⟩ := FsOutcome.failed.inj heq
                exact hnone
              · exact fun hall => hall trivial stored why rfl

/-- **A call that fails changes nothing**, unless the temp file kept a part of it. -/
theorem SpillBuffer.failed_edit_iff (b : SpillBuffer) (sc : DiskScript) (e : Edit UInt8)
    (hfits : editStop e < 2 ^ 64) {why : String} (herror : (b.edit sc e).1 = .error why) :
    (b.edit sc e).2.len = b.len ∧
      ((b.edit sc e).2.bytes = b.bytes ↔ StoresNothingNew b sc e) := by
  cases e with
  | write offset data => exact b.failed_write_iff sc hfits herror
  | resize newLen => exact b.failed_resize_iff sc herror

/-- **A buffer is a byte array wherever it lives**, exactly if no write of nothing was the last to
move its end on disk; and a call that fails changes nothing exactly if the temp file kept nothing
new of it. -/
theorem buffer_is_array_iff (edits : List (Edit UInt8)) (spillAt spillAt' : ℕ) (b : SpillBuffer)
    (sc : DiskScript) (e : Edit UInt8) :
    ((∀ e ∈ edits, editStop e < 2 ^ 64) →
      (((SpillBuffer.edited spillAt edits).len = (plainArray edits).length ∧
            (SpillBuffer.edited spillAt edits).asBytes {} = .ok (plainArray edits)) ∧
          (SpillBuffer.edited spillAt' edits).len = (SpillBuffer.edited spillAt edits).len ∧
            (SpillBuffer.edited spillAt' edits).asBytes {} =
              (SpillBuffer.edited spillAt edits).asBytes {} ↔
        ¬Unfilled spillAt edits ∧ ¬Unfilled spillAt' edits)) ∧
      (editStop e < 2 ^ 64 → ∀ why, (b.edit sc e).1 = .error why →
        ((b.edit sc e).2.len = b.len ∧ (b.edit sc e).2.asBytes {} = b.asBytes {} ↔
          StoresNothingNew b sc e)) := by
  refine ⟨fun hfits => ?_, fun hfits why herror => ?_⟩
  · have hlen := (@SpillBuffer.after_edited spillAt _ hfits).len
    have hlen' := (@SpillBuffer.after_edited spillAt' _ hfits).len
    simp only [SpillBuffer.asBytes_default, Except.ok.injEq]
    rw [← SpillBuffer.bytes_eq_iff hfits, ← SpillBuffer.bytes_eq_iff hfits]
    constructor
    · rintro ⟨⟨-, hbytes⟩, -, hbytes'⟩
      exact ⟨hbytes, hbytes'.trans hbytes⟩
    · rintro ⟨hbytes, hbytes'⟩
      exact ⟨⟨hlen, hbytes⟩, hlen'.trans hlen.symm, hbytes'.trans hbytes.symm⟩
  · obtain ⟨hlen, hiff⟩ := b.failed_edit_iff sc e hfits herror
    simp only [SpillBuffer.asBytes_default, Except.ok.injEq]
    rw [← hiff]
    exact and_iff_right hlen

/-- Five bytes that go to disk, and a write of nothing behind them. -/
def spilledThenNothing : List (Edit UInt8) := [.write 0 [1, 2, 3, 4, 5], .write 8 []]

theorem empty_write_leaves_file_short :
    ¬((∀ edits, (∀ e ∈ edits, editStop e < 2 ^ 64) → ∀ spillAt spillAt',
      ((SpillBuffer.edited spillAt edits).len = (plainArray edits).length ∧
            (SpillBuffer.edited spillAt edits).asBytes {} = .ok (plainArray edits)) ∧
          (SpillBuffer.edited spillAt' edits).len = (SpillBuffer.edited spillAt edits).len ∧
            (SpillBuffer.edited spillAt' edits).asBytes {} =
              (SpillBuffer.edited spillAt edits).asBytes {}) ∧
      ∀ (b : SpillBuffer) sc e, editStop e < 2 ^ 64 → ∀ why, (b.edit sc e).1 = .error why →
        (b.edit sc e).2.len = b.len ∧ (b.edit sc e).2.asBytes {} = b.asBytes {}) := by
  rintro ⟨harray, -⟩
  have hbytes := (harray spilledThenNothing (by decide) 4 100).1.2
  have hlength := congrArg (fun bytes => bytes.toOption.map List.length) hbytes
  revert hlength
  decide

theorem filled_end_is_array :
    (SpillBuffer.edited 4 [.write 0 [1, 2, 3, 4, 5], .write 8 [], .resize 8]).asBytes {} =
      .ok (plainArray [.write 0 [1, 2, 3, 4, 5], .write 8 [], .resize 8]) := by
  have hfilled : ∀ spillAt,
      ¬Unfilled spillAt [.write 0 [1, 2, 3, 4, 5], .write 8 [], .resize 8] := by
    intro spillAt hunfilled
    have hlast := (@unfilled_concat spillAt [.write 0 [1, 2, 3, 4, 5], .write 8 []] _).mp hunfilled
    rcases hlast with ⟨offset, hwrite, -⟩ | ⟨-, hleaves⟩
    · cases hwrite
    · exact hleaves
  exact (((buffer_is_array_iff [.write 0 [1, 2, 3, 4, 5], .write 8 [], .resize 8] 4 100 .new {}
    (.resize 8)).1 (by decide)).mpr ⟨hfilled 4, hfilled 100⟩).1.2

end SynologyFilestation.Fuse
