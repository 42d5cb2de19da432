import SynologyFilestation.Smb.WriteHandle

/-!
What a closed write handle holds. A writer confirms its chunks when it is
finished, which an offset jump does as well as a close; one whose finish fails
is gone all the same, and nothing is left of it for a later close to fail on.

The ledger is no part of the handle: it lists the writes the handle has
accepted, those the server has, and those the open writer still has to confirm.
-/

namespace SynologyFilestation.Smb

open Core Library

section Contract

variable {S F : Type}

/-- Chunks offered to a writer one after the other: those it took. -/
inductive Taken (smb : Smb2 S F) (w₀ : F) (s₀ : S) : List Bytes → F → S → Prop
  | nil : Taken smb w₀ s₀ [] w₀ s₀
  | snoc {chunks : List Bytes} {w w' : F} {s s' : S} {chunk : Bytes}
      (before : Taken smb w₀ s₀ chunks w s)
      (accepted : smb.writeChunk chunk w s = (.ok (), w', s')) :
      Taken smb w₀ s₀ (chunks ++ [chunk]) w' s'
  | refused {chunks : List Bytes} {w w' : F} {s s' : S} {chunk : Bytes} {e : SynoFsError}
      (before : Taken smb w₀ s₀ chunks w s)
      (refused : smb.writeChunk chunk w s = (.error e, w', s')) : Taken smb w₀ s₀ chunks w' s'

/-- A writer opened at an offset of the file `loc`, which held `before`. -/
inductive Opened (smb : Smb2 S F) (file : NasPath → S → Option Bytes) (path loc : NasPath) :
    ℕ → Bytes → F → S → Prop
  | at {offset : ℕ} {w : F} {s s' : S}
      (opened : smb.createFileWriterAt loc offset s = (.ok w, s')) :
      Opened smb file path loc offset ((file path s).getD []) w s'
  | new {w : F} {s s' : S} (opened : smb.createFileWriterExclusive loc s = (.ok w, s')) :
      Opened smb file path loc 0 [] w s'

/-- The library's promise with its failures: a writer stores the chunks it took
contiguously, its `finish` fails if any was lost, and `left` is what the server
then has of them. Opening makes the file; nothing else touches the content. -/
structure Smb2.StoresOrFails (smb : Smb2 S F) (file : NasPath → S → Option Bytes)
    (left : F → S → List (Write UInt8)) : Prop where
  finished : ∀ {path loc offset before w s₁ chunks w' s₂ s₃}, smb.fromLogical path = .ok loc →
    Opened smb file path loc offset before w s₁ → Taken smb w s₁ chunks w' s₂ →
      smb.finish w' s₂ = (.ok (), s₃) →
        file path s₃ = some (patch before offset chunks.flatten)
  failed : ∀ {path loc offset before w s₁ chunks w' s₂ s₃ e}, smb.fromLogical path = .ok loc →
    Opened smb file path loc offset before w s₁ → Taken smb w s₁ chunks w' s₂ →
      smb.finish w' s₂ = (.error e, s₃) →
        file path s₃ = some (patchAll before (left w' s₂)) ∧
          (left w' s₂).Sublist (writesFrom offset chunks)
  notOpened : ∀ {path loc offset s s' e}, smb.fromLogical path = .ok loc →
    smb.createFileWriterAt loc offset s = (.error e, s') →
      (file path s').getD [] = (file path s).getD [] ∧
        ((file path s).isSome → (file path s').isSome)
  ready : ∀ path s, file path (smb.ready s).2 = file path s
  forgetHandle : ∀ path other s, file path (smb.forgetHandle other s) = file path s

end Contract

/-! ### The ledger -/

structure Ledger where
  accepted : List (Write UInt8)
  stored : List (Write UInt8)
  pending : List (Write UInt8)

/-- A file open for writing, and what became of its writes. -/
structure OpenFile (S F : Type) where
  handle : SmbWriteHandle F
  ledger : Ledger
  s : S

inductive WriteCall
  | writeAt (offset : ℕ) (data : Bytes)
  | close

section Calls

variable {S F : Type} (smb : Smb2 S F) (left : F → S → List (Write UInt8))

/-- The handle finishes its writer, if it has one. -/
def Ledger.finish (l : Ledger) (h : SmbWriteHandle F) (s : S) : Ledger :=
  match h.writer with
  | none => l
  | some w =>
      match (smb.finish w s).1 with
      | .ok () => { l with stored := l.stored ++ l.pending, pending := [] }
      | .error _ => { l with stored := l.stored ++ left w s, pending := [] }

def Ledger.accept (l : Ledger) (w : Write UInt8) : Ledger :=
  { l with accepted := l.accepted ++ [w], pending := l.pending ++ [w] }

namespace OpenFile

def writeAt (f : OpenFile S F) (offset : ℕ) (data : Bytes) :
    Except SynoFsError Unit × OpenFile S F :=
  let (r, h, s) := f.handle.writeAt smb offset data f.s
  let l := if needsReopen f.handle.writer.isSome f.handle.next offset
    then f.ledger.finish smb left f.handle f.s else f.ledger
  match r with
  | .ok () => (.ok (), ⟨h, l.accept (offset, data), s⟩)
  | .error e => (.error e, ⟨h, l, s⟩)

def close (f : OpenFile S F) : Except SynoFsError Unit × OpenFile S F :=
  let (r, h, s) := f.handle.close smb f.s
  (r, ⟨h, f.ledger.finish smb left f.handle f.s, s⟩)

def call (f : OpenFile S F) : WriteCall → Except SynoFsError Unit × OpenFile S F
  | .writeAt offset data => f.writeAt smb left offset data
  | .close => f.close smb left

def run (f : OpenFile S F) : List WriteCall → OpenFile S F
  | [] => f
  | c :: calls => (f.call smb left c).2.run calls

end OpenFile

end Calls

section Tracking

variable {S F : Type} {smb : Smb2 S F} {file : NasPath → S → Option Bytes}
  {left : F → S → List (Write UInt8)} {path : NasPath} {base : Bytes} {h : SmbWriteHandle F}
  {l : Ledger} {s : S} {offset : ℕ} {data : Bytes}

/-- The ledger is right: the file is `base` patched by what is stored, up to what
the open writer still has to confirm. -/
inductive Tracks (smb : Smb2 S F) (file : NasPath → S → Option Bytes) (path : NasPath)
    (base : Bytes) : SmbWriteHandle F → Ledger → S → Prop
  | between {loc : NasPath} {next : ℕ} {l : Ledger} {s : S} (hloc : smb.fromLogical path = .ok loc)
      (hpending : l.pending = []) (hfile : (file path s).getD [] = patchAll base l.stored)
      (hexists : next ≠ 0 → (file path s).isSome) : Tracks smb file path base ⟨loc, none, next⟩ l s
  | writing {loc : NasPath} {offset : ℕ} {chunks : List Bytes} {l : Ledger} {s₁ s : S} {w₀ w : F}
      (hloc : smb.fromLogical path = .ok loc)
      (opened : Opened smb file path loc offset (patchAll base l.stored) w₀ s₁)
      (taken : Taken smb w₀ s₁ chunks w s) (hpending : l.pending = writesFrom offset chunks) :
      Tracks smb file path base ⟨loc, some w, offset + chunks.flatten.length⟩ l s

theorem Tracks.fromLogical (htracks : Tracks smb file path base h l s) :
    smb.fromLogical path = .ok h.loc := by
  cases htracks with
  | between hloc => exact hloc
  | writing hloc => exact hloc

/-- Finishing settles the ledger, and says whether anything was lost. -/
theorem Tracks.finishWriter (hsmb : smb.StoresOrFails file left)
    (htracks : Tracks smb file path base h l s) :
    Tracks smb file path base (h.finishWriter smb s).2.1 (l.finish smb left h s)
        (h.finishWriter smb s).2.2 ∧
      (h.finishWriter smb s).2.1 = { h with writer := none } ∧
      (h.writer.isSome → (file path (h.finishWriter smb s).2.2).isSome) := by
  cases htracks with
  | between hloc hpending hfile hexists =>
      exact ⟨.between hloc hpending hfile hexists, rfl, by simp⟩
  | @writing loc offset chunks _ s₁ _ w₀ w hloc opened taken hpending =>
      cases hfinish : smb.finish w s with
      | mk r s' =>
          cases r with
          | ok u =>
              have hstored := hsmb.finished hloc opened taken hfinish
              rw [← patchAll_writesFrom, ← hpending, ← patchAll_append] at hstored
              simp only [SmbWriteHandle.finishWriter, Ledger.finish, hfinish]
              exact ⟨.between hloc rfl (by simp [hstored]) (by simp [hstored]), trivial,
                by simp [hstored]⟩
          | error e =>
              obtain ⟨hleft, _⟩ := hsmb.failed hloc opened taken hfinish
              rw [← patchAll_append] at hleft
              simp only [SmbWriteHandle.finishWriter, Ledger.finish, hfinish]
              exact ⟨.between hloc rfl (by simp [hleft]) (by simp [hleft]), trivial,
                by simp [hleft]⟩

/-- A handle without a writer opens one, or stays without. -/
theorem Tracks.opens (hsmb : smb.StoresOrFails file left)
    (htracks : Tracks smb file path base h l s) (hwriter : h.writer = none) (offset : ℕ) :
    let r := h.reopenAt smb offset s
    Tracks smb file path base r.2.1 l r.2.2 ∧
      (r.1 = .ok () → r.2.1.writer.isSome ∧ r.2.1.next = offset) := by
  cases htracks with
  | writing => cases hwriter
  | @between loc next _ _ hloc hpending hfile hexists =>
      simp only [SmbWriteHandle.reopenAt, SmbWriteHandle.finishWriter]
      cases hready : smb.ready s with
      | mk r s₀ =>
          have hkeep := hsmb.ready path s
          rw [hready] at hkeep
          cases r with
          | error e =>
              exact ⟨.between hloc hpending (by rw [hkeep, hfile]) (by rwa [hkeep]), by rintro ⟨⟩⟩
          | ok u =>
              simp only
              cases hopen : smb.createFileWriterAt loc offset s₀ with
              | mk r s₁ =>
                  cases r with
                  | error e =>
                      obtain ⟨hsame, hstays⟩ := hsmb.notOpened hloc hopen
                      rw [hkeep] at hsame hstays
                      exact ⟨.between hloc hpending (by rw [hsame, hfile])
                        fun hnext => hstays (hexists hnext), by rintro ⟨⟩⟩
                  | ok w =>
                      have opened : Opened smb file path loc offset ((file path s₀).getD []) w s₁ :=
                        .at hopen
                      rw [hkeep, hfile] at opened
                      exact ⟨.writing hloc opened .nil hpending, fun _ => ⟨rfl, rfl⟩⟩

/-- A writer that finishes makes way for another. -/
theorem reopenAt_of_finished {h' : SmbWriteHandle F} {s' : S}
    (hfinish : h.finishWriter smb s = (.ok (), h', s')) (hwriter : h'.writer = none) :
    h.reopenAt smb offset s = h'.reopenAt smb offset s' := by
  obtain ⟨loc, writer, next⟩ := h'
  obtain rfl : writer = none := hwriter
  have hagain : (⟨loc, none, next⟩ : SmbWriteHandle F).finishWriter smb s' =
      (.ok (), ⟨loc, none, next⟩, s') := rfl
  rw [SmbWriteHandle.reopenAt, SmbWriteHandle.reopenAt, hfinish, hagain]

theorem Tracks.reopenAt (hsmb : smb.StoresOrFails file left)
    (htracks : Tracks smb file path base h l s) (offset : ℕ) :
    let r := h.reopenAt smb offset s
    Tracks smb file path base r.2.1 (l.finish smb left h s) r.2.2 ∧
      (r.1 = .ok () → r.2.1.writer.isSome ∧ r.2.1.next = offset) := by
  obtain ⟨hfinished, hnone, _⟩ := htracks.finishWriter hsmb
  cases hfinish : h.finishWriter smb s with
  | mk r rest =>
      obtain ⟨h', s'⟩ := rest
      rw [hfinish] at hfinished hnone
      cases r with
      | error e =>
          simp only [SmbWriteHandle.reopenAt, hfinish]
          exact ⟨hfinished, by rintro ⟨⟩⟩
      | ok u =>
          have hwriter : h'.writer = none := by rw [show h' = _ from hnone]
          rw [reopenAt_of_finished hfinish hwriter]
          exact hfinished.opens hsmb hwriter offset

/-- A chunk for the open writer, where it sits. -/
theorem Tracks.writeHere (htracks : Tracks smb file path base h l s) (hwriter : h.writer.isSome)
    (hnext : h.next = offset) (data : Bytes) :
    let r := h.writeHere smb offset data s
    (r.1 = .ok () → Tracks smb file path base r.2.1 (l.accept (offset, data)) r.2.2) ∧
      (r.1 ≠ .ok () → Tracks smb file path base r.2.1 l r.2.2) := by
  cases htracks with
  | between => cases hwriter
  | @writing loc start chunks _ s₁ _ w₀ w hloc opened taken hpending =>
      simp only [SmbWriteHandle.writeHere]
      cases hchunk : smb.writeChunk data w s with
      | mk r rest =>
          obtain ⟨w', s'⟩ := rest
          cases r with
          | error e =>
              refine ⟨by rintro ⟨⟩, fun _ => ?_⟩
              exact .writing hloc opened (.refused taken hchunk) hpending
          | ok u =>
              refine ⟨fun _ => ?_, fun hne => (hne rfl).elim⟩
              have hnow : start + chunks.flatten.length = offset := hnext
              have hwrites : (l.accept (offset, data)).pending =
                  writesFrom start (chunks ++ [data]) := by
                rw [writesFrom_concat, hnow, ← hpending]
                rfl
              have hlength : start + (chunks ++ [data]).flatten.length = offset + data.length := by
                rw [List.flatten_append, List.length_append, ← Nat.add_assoc, hnow]
                simp
              have hnew : Tracks smb file path base
                  ⟨loc, some w', start + (chunks ++ [data]).flatten.length⟩
                  (l.accept (offset, data)) s' :=
                .writing hloc opened (.snoc taken hchunk) hwrites
              rwa [hlength] at hnew

/-- The ledger of an open file is right. -/
def OpenFile.Tracked (smb : Smb2 S F) (file : NasPath → S → Option Bytes) (path : NasPath)
    (base : Bytes) (f : OpenFile S F) : Prop :=
  Tracks smb file path base f.handle f.ledger f.s

variable {f : OpenFile S F}

theorem OpenFile.Tracked.writeAt (hsmb : smb.StoresOrFails file left)
    (hf : f.Tracked smb file path base) :
    (f.writeAt smb left offset data).2.Tracked smb file path base := by
  obtain ⟨h, l, s⟩ := f
  simp only [OpenFile.writeAt, SmbWriteHandle.writeAt]
  by_cases hre : needsReopen h.writer.isSome h.next offset = true
  · rw [if_pos hre, if_pos hre]
    have hreopened := hf.reopenAt hsmb offset
    cases hopen : h.reopenAt smb offset s with
    | mk r rest =>
        obtain ⟨h', s'⟩ := rest
        rw [hopen] at hreopened
        cases r with
        | error e => exact hreopened.1
        | ok u =>
            obtain ⟨hwriter, hnext⟩ := hreopened.2 rfl
            have hhere := hreopened.1.writeHere hwriter hnext data
            simp only
            cases hwrite : h'.writeHere smb offset data s' with
            | mk r rest =>
                rw [hwrite] at hhere
                cases r with
                | error e => exact hhere.2 (by rintro ⟨⟩)
                | ok u => exact hhere.1 rfl
  · -- The writer already sits at `offset`.
    rw [if_neg hre, if_neg hre]
    simp only [needsReopen, Bool.or_eq_true, Bool.not_eq_true', decide_eq_true_eq, not_or,
      Bool.not_eq_false, not_not] at hre
    have hhere := Tracks.writeHere hf hre.1 hre.2.symm data
    cases hwrite : h.writeHere smb offset data s with
    | mk r rest =>
        rw [hwrite] at hhere
        cases r with
        | error e => exact hhere.2 (by rintro ⟨⟩)
        | ok u => exact hhere.1 rfl

/-- A writer that took nothing has nothing to settle. -/
theorem finish_of_pending_nil (hsmb : smb.StoresOrFails file left)
    (htracks : Tracks smb file path base h l s) (hpending : l.pending = []) :
    l.finish smb left h s = l := by
  obtain ⟨accepted, stored, pending⟩ := l
  obtain rfl : pending = [] := hpending
  cases htracks with
  | between => rfl
  | @writing loc start chunks _ s₁ _ w₀ w hloc opened taken hwrites =>
      cases hfinish : smb.finish w s with
      | mk r s' =>
          cases r with
          | ok u => simp [Ledger.finish, hfinish]
          | error e =>
              obtain ⟨_, hleft⟩ := hsmb.failed hloc opened taken hfinish
              have hnone : left w s = [] := by
                rw [← hwrites] at hleft
                exact List.sublist_nil.mp hleft
              simp [Ledger.finish, hfinish, hnone]

/-- A close that succeeds leaves the file as the ledger has it. -/
theorem OpenFile.Tracked.close (hsmb : smb.StoresOrFails file left)
    (hf : f.Tracked smb file path base) :
    (f.close smb left).2.Tracked smb file path base ∧
      ((f.close smb left).1 = .ok () → file path (f.close smb left).2.s =
        some (patchAll base (f.close smb left).2.ledger.stored)) := by
  obtain ⟨h, l, s⟩ := f
  have hexact : ∀ {h' : SmbWriteHandle F} {l' : Ledger} {s' : S},
      Tracks smb file path base h' l' s' → h'.writer = none → (file path s').isSome →
        file path s' = some (patchAll base l'.stored) := by
    intro h' l' s' htracks hwriter hexists
    cases htracks with
    | writing => cases hwriter
    | between _ _ hfile _ =>
        obtain ⟨content, hcontent⟩ := Option.isSome_iff_exists.mp hexists
        rw [hcontent, Option.getD_some] at hfile
        rw [hcontent, hfile]
  simp only [OpenFile.close, SmbWriteHandle.close]
  by_cases hfresh : (h.writer.isNone && h.next == 0) = true
  · -- Opened at 0 and finished, to make the file.
    rw [if_pos hfresh]
    have hwriter : h.writer = none := by
      rw [Bool.and_eq_true] at hfresh
      exact Option.isNone_iff_eq_none.mp hfresh.1
    have hsame : l.finish smb left h s = l := by rw [Ledger.finish, hwriter]
    have hopened := Tracks.opens hsmb hf hwriter 0
    rw [hsame]
    cases hopen : h.reopenAt smb 0 s with
    | mk r rest =>
        obtain ⟨h', s'⟩ := rest
        rw [hopen] at hopened
        cases r with
        | error e => exact ⟨hopened.1, by rintro ⟨⟩⟩
        | ok u =>
            have hpending : l.pending = [] := by
              cases hf with
              | between _ hpending => exact hpending
              | writing => cases hwriter
            obtain ⟨hfinished, hnone, hexists⟩ := hopened.1.finishWriter hsmb
            rw [finish_of_pending_nil hsmb hopened.1 hpending] at hfinished
            refine ⟨hfinished, fun _ => hexact hfinished ?_ (hexists (hopened.2 rfl).1)⟩
            rw [hnone]
  · rw [if_neg hfresh]
    obtain ⟨hfinished, hnone, hexists⟩ := Tracks.finishWriter hsmb hf
    refine ⟨hfinished, fun _ => hexact hfinished (by rw [hnone]) ?_⟩
    cases hf with
    | writing => exact hexists rfl
    | between _ _ _ hmade =>
        apply hmade
        simpa using hfresh

theorem OpenFile.Tracked.run (hsmb : smb.StoresOrFails file left)
    (hf : f.Tracked smb file path base) (calls : List WriteCall) :
    (f.run smb left calls).Tracked smb file path base := by
  induction calls generalizing f with
  | nil => exact hf
  | cons c calls ih =>
      apply ih
      cases c with
      | writeAt offset data => exact hf.writeAt hsmb
      | close => exact (hf.close hsmb).1

end Tracking

/-! ### A clean close -/

section Close

variable {S F : Type} (smb : Smb2 S F) (left : F → S → List (Write UInt8))

/-- A writer that this call finishes before it goes on finishes cleanly. -/
def OpenFile.FinishesClean (f : OpenFile S F) : WriteCall → Prop
  | .writeAt offset _ => needsReopen f.handle.writer.isSome f.handle.next offset = true →
      (f.handle.finishWriter smb f.s).1 = .ok ()
  | .close => (f.handle.finishWriter smb f.s).1 = .ok ()

/-- None of these calls loses a writer. -/
def OpenFile.NothingLost (f : OpenFile S F) : List WriteCall → Prop
  | [] => True
  | c :: calls => f.FinishesClean smb c ∧ (f.call smb left c).2.NothingLost calls

/-- What the file holds when it is opened for writing. -/
def WriteOpen.before (file : NasPath → S → Option Bytes) (path : NasPath) (s : S) :
    WriteOpen → Bytes
  | .existing => (file path s).getD []
  | .createNew => []

/-- The handle `open_write` gives, with nothing written yet. -/
def openFile (h : SmbWriteHandle F) (path : NasPath) (mode : WriteOpen) (s : S) : OpenFile S F :=
  ⟨h, ⟨[], [], []⟩, (openWrite smb path mode s).2⟩

/-- Wherever one looks, the last stored write left what the last accepted one
did, and they reach as far. -/
def SameBytes (base : Bytes) (l : Ledger) : Prop :=
  max base.length (extent l.stored) = max base.length (extent l.accepted) ∧
    ∀ i, (lastByte l.stored i).getD (base.getD i 0) = (lastByte l.accepted i).getD (base.getD i 0)

variable {smb left} {file : NasPath → S → Option Bytes} {path : NasPath} {base : Bytes}
  {f : OpenFile S F} {h : SmbWriteHandle F} {l : Ledger} {s : S} {mode : WriteOpen}

/-- What is accepted and not stored is still to be confirmed. -/
def Ledger.Balanced (l : Ledger) : Prop := l.accepted = l.stored ++ l.pending

theorem Ledger.Balanced.finish (hl : l.Balanced) (hok : (h.finishWriter smb s).1 = .ok ()) :
    (l.finish smb left h s).Balanced := by
  cases hwriter : h.writer with
  | none => rwa [Ledger.finish, hwriter]
  | some w =>
      simp only [SmbWriteHandle.finishWriter, hwriter] at hok
      simp only [Ledger.finish, hwriter, hok, Balanced, List.append_nil]
      exact hl

theorem Ledger.Balanced.accept (hl : l.Balanced) (w : Write UInt8) : (l.accept w).Balanced := by
  rw [Balanced, Ledger.accept, hl, List.append_assoc]

theorem balanced_call (hl : f.ledger.Balanced) {c : WriteCall} (hclean : f.FinishesClean smb c) :
    (f.call smb left c).2.ledger.Balanced := by
  cases c with
  | close => exact hl.finish hclean
  | writeAt offset data =>
      have hfinished : Ledger.Balanced
          (if needsReopen f.handle.writer.isSome f.handle.next offset
            then f.ledger.finish smb left f.handle f.s else f.ledger) := by
        split
        case isTrue hre => exact hl.finish (hclean hre)
        case isFalse => exact hl
      simp only [OpenFile.call, OpenFile.writeAt]
      split
      · exact hfinished.accept _
      · exact hfinished

theorem balanced_run (hl : f.ledger.Balanced) {calls : List WriteCall}
    (hnothing : f.NothingLost smb left calls) : (f.run smb left calls).ledger.Balanced := by
  induction calls generalizing f with
  | nil => exact hl
  | cons c calls ih => exact ih (balanced_call hl hnothing.1) hnothing.2

/-- After a clean close nothing is left to confirm. -/
theorem pending_of_close (hf : f.Tracked smb file path base)
    (hok : (f.close smb left).1 = .ok ()) : (f.close smb left).2.ledger.pending = [] := by
  obtain ⟨h, l, s⟩ := f
  cases hf with
  | between _ hpending => exact hpending
  | @writing _ _ _ _ _ _ _ w =>
      simp only [OpenFile.close, Ledger.finish]
      split <;> rfl

theorem finishes_of_close (hf : f.Tracked smb file path base)
    (hok : (f.close smb left).1 = .ok ()) : (f.handle.finishWriter smb f.s).1 = .ok () := by
  obtain ⟨h, l, s⟩ := f
  cases hf with
  | between => rfl
  | writing => simpa [OpenFile.close, SmbWriteHandle.close] using hok

theorem openFile_tracked (hsmb : smb.StoresOrFails file left)
    (hopen : (openWrite smb path mode s).1 = .ok h) :
    (openFile smb h path mode s).Tracked smb file path (mode.before file path s) := by
  simp only [openFile, OpenFile.Tracked, openWrite] at hopen ⊢
  cases hloc : smb.fromLogical path with
  | error e => simp [hloc] at hopen
  | ok loc =>
      cases mode with
      | existing =>
          simp only [hloc, Except.ok.injEq] at hopen
          rw [← hopen]
          exact .between hloc rfl (by rw [hsmb.forgetHandle]; rfl) (fun hne => (hne rfl).elim)
      | createNew =>
          simp only [hloc] at hopen ⊢
          cases hready : smb.ready (smb.forgetHandle path s) with
          | mk r s₀ =>
              cases r with
              | error e => simp [hready] at hopen
              | ok u =>
                  simp only [hready] at hopen ⊢
                  cases hcreate : smb.createFileWriterExclusive loc s₀ with
                  | mk r s₁ =>
                      cases r with
                      | error e => simp [hcreate] at hopen
                      | ok w =>
                          simp only [hcreate, Except.ok.injEq] at hopen
                          rw [← hopen]
                          exact .writing hloc (.new hcreate) .nil rfl

/-- **A closed write handle holds what it accepted** if and only if what a
failed finish lost was all written again, to the same bytes; in particular if
no writer was lost. -/
theorem closed_write_holds_iff (hsmb : smb.StoresOrFails file left)
    (hopen : (openWrite smb path mode s).1 = .ok h) (calls : List WriteCall)
    (hclose : (((openFile smb h path mode s).run smb left calls).close smb left).1 = .ok ()) :
    let f := openFile smb h path mode s
    let closed := ((f.run smb left calls).close smb left).2
    let base := mode.before file path s
    (file path closed.s = some (patchAll base closed.ledger.accepted) ↔
        SameBytes base closed.ledger) ∧
      (f.NothingLost smb left calls →
        file path closed.s = some (patchAll base closed.ledger.accepted)) := by
  intro f closed base
  have htracked := (openFile_tracked hsmb hopen).run hsmb calls
  have hstored : file path closed.s = some (patchAll base closed.ledger.stored) :=
    (htracked.close hsmb).2 hclose
  refine ⟨?_, fun hnothing => ?_⟩
  · rw [hstored, Option.some.injEq]
    exact patchAll_eq_iff
  · have hbalanced : (f.run smb left calls).ledger.Balanced :=
      balanced_run (show f.ledger.Balanced from rfl) hnothing
    have hclosed : closed.ledger.Balanced :=
      hbalanced.finish (finishes_of_close htracked hclose)
    have hpending : closed.ledger.pending = [] := pending_of_close htracked hclose
    rw [Ledger.Balanced, hpending, List.append_nil] at hclosed
    rw [hstored, hclosed]

end Close

/-! ### A library that keeps the promise and may fail

The table of files of `nasSmb`, with files made when they are opened. A finish
that fails has stored nothing. -/

def creatingSmb : Smb2 Nas NasWriter :=
  { nasSmb with
    createFileWriterAt := fun loc offset nas =>
      (.ok ⟨loc, offset, []⟩, if (nas.file loc).isSome then nas else nas.put loc [])
    createFileWriterExclusive := fun loc nas =>
      if (nas.file loc).isSome then (.error .alreadyExists, nas)
      else (.ok ⟨loc, 0, []⟩, nas.put loc []) }

theorem creatingSmb_taken {w₀ w : NasWriter} {nas₀ nas : Nas} {chunks : List Bytes}
    (h : Taken creatingSmb w₀ nas₀ chunks w nas) :
    nas = nas₀ ∧ w = { w₀ with pending := w₀.pending ++ chunks.flatten } := by
  induction h with
  | nil => exact ⟨rfl, by simp⟩
  | snoc before accepted ih =>
      obtain ⟨rfl, rfl⟩ := ih
      cases accepted
      exact ⟨rfl, by simp⟩
  | refused before refused ih => cases refused

theorem creatingSmb_opened {path loc : NasPath} {offset : ℕ} {before : Bytes} {w : NasWriter}
    {nas : Nas} (hloc : creatingSmb.fromLogical path = .ok loc)
    (h : Opened creatingSmb Nas.file path loc offset before w nas) :
    w = ⟨path, offset, []⟩ ∧ nas.file path = some before := by
  obtain rfl : path = loc := Except.ok.inj hloc
  cases h with
  | @«at» _ _ nas₀ _ opened =>
      cases opened
      refine ⟨rfl, ?_⟩
      cases hfile : nas₀.file path with
      | none => simp
      | some content => simp [hfile]
  | @new _ nas₀ _ opened =>
      simp only [creatingSmb] at opened
      cases hfile : nas₀.file path with
      | some content => simp [hfile] at opened
      | none =>
          simp only [hfile, Option.isSome_none, Bool.false_eq_true, if_false, Prod.mk.injEq,
            Except.ok.injEq] at opened
          obtain ⟨rfl, rfl⟩ := opened
          exact ⟨rfl, by simp⟩

theorem creatingSmb_storesOrFails : creatingSmb.StoresOrFails Nas.file fun _ _ => [] where
  finished := by
    intro path loc offset before w nas₁ chunks w' nas₂ nas₃ hloc hopened htaken hfinish
    obtain ⟨rfl, hfile⟩ := creatingSmb_opened hloc hopened
    obtain ⟨rfl, rfl⟩ := creatingSmb_taken htaken
    simp only [creatingSmb, nasSmb] at hfinish
    split at hfinish
    · simp at hfinish
    · cases hfinish
      simp [hfile]
    · cases hfinish
      simp [hfile]
  failed := by
    intro path loc offset before w nas₁ chunks w' nas₂ nas₃ e hloc hopened htaken hfinish
    obtain ⟨rfl, hfile⟩ := creatingSmb_opened hloc hopened
    obtain ⟨rfl, rfl⟩ := creatingSmb_taken htaken
    refine ⟨?_, List.nil_sublist _⟩
    simp only [creatingSmb, nasSmb] at hfinish
    split at hfinish
    · cases hfinish
      exact hfile
    · simp at hfinish
    · simp at hfinish
  notOpened := by
    intro path loc offset nas nas' e hloc hopen
    cases hopen
  ready := fun _ _ => rfl
  forgetHandle := fun _ _ _ => rfl

/-- A header is patched after the rest, and the file closed: it holds both. -/
theorem patched_header_holds :
    let f := openFile creatingSmb ⟨["share", "f"], none, 0⟩ ["share", "f"] .existing ⟨[], []⟩
    let calls := [.writeAt 2 [7, 8], .writeAt 0 [1]]
    let closed := ((f.run creatingSmb (fun _ _ => []) calls).close creatingSmb fun _ _ => []).2
    closed.s.file ["share", "f"] = some [1, 0, 7, 8] := by
  intro f calls closed
  have hopen : (openWrite creatingSmb ["share", "f"] .existing ⟨[], []⟩).1 =
      .ok ⟨["share", "f"], none, 0⟩ := rfl
  exact (closed_write_holds_iff creatingSmb_storesOrFails hopen calls rfl).2
    ⟨fun _ => rfl, fun _ => rfl, trivial⟩

/-- The finish of a jump fails, the write that jumped is refused, and the close
after it succeeds without the bytes accepted before. -/
theorem lost_chunk_then_clean_close :
    let f := openFile creatingSmb ⟨["share", "f"], none, 0⟩ ["share", "f"] .existing
      ⟨[(["share", "f"], [1, 2, 3])], [some (.io "connection lost")]⟩
    let closed := ((f.run creatingSmb (fun _ _ => []) [.writeAt 0 [9], .writeAt 5 [7]]).close
      creatingSmb fun _ _ => [])
    closed.1 = .ok () ∧ closed.2.ledger.accepted = [(0, [9])] ∧
      closed.2.s.file ["share", "f"] = some [1, 2, 3] ∧
      patchAll [1, 2, 3] closed.2.ledger.accepted = [9, 2, 3] :=
  ⟨rfl, rfl, rfl, rfl⟩

end SynologyFilestation.Smb
