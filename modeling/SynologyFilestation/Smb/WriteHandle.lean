import SynologyFilestation.Core.Path
import SynologyFilestation.Core.Transport
import SynologyFilestation.Library.Patch

/-!
A file open for writing over SMB (`SmbWriteHandle` in `smb/src/transport.rs`).
The handle keeps one positioned writer and the offset it expects next; a write
anywhere else finishes that writer and opens another. The SMB library itself
is a parameter, `Smb2`: the state `S` stands for the connection, the server and
whatever failures are still to come.
-/

namespace SynologyFilestation.Smb

open Core Library

/-- The calls of the SMB library the handle makes, their errors already mapped
(`mark_and_map`). `F` is the library's positioned file writer. -/
structure Smb2 (S F : Type) where
  fromLogical : NasPath → Except SynoFsError NasPath
  forgetHandle : NasPath → S → S
  ready : S → Except SynoFsError Unit × S
  createFileWriterAt : NasPath → ℕ → S → Except SynoFsError F × S
  createFileWriterExclusive : NasPath → S → Except SynoFsError F × S
  writeChunk : Bytes → F → S → Except SynoFsError Unit × F × S
  finish : F → S → Except SynoFsError Unit × S
  /-- A writer dropped without being finished. -/
  abandon : F → S → S

inductive WriteOpen
  | createNew
  | existing
  deriving DecidableEq, Repr

structure SmbWriteHandle (F : Type) where
  loc : NasPath
  writer : Option F
  next : ℕ

/-- Whether the next write has to open a new writer. -/
def needsReopen (hasWriter : Bool) (nextOffset writeOffset : ℕ) : Bool :=
  !hasWriter || decide (writeOffset ≠ nextOffset)

section Handle

variable {S F : Type} (smb : Smb2 S F)

def SmbWriteHandle.finishWriter (h : SmbWriteHandle F) (s : S) :
    Except SynoFsError Unit × SmbWriteHandle F × S :=
  match h.writer with
  | none => (.ok (), h, s)
  | some w =>
      let (r, s) := smb.finish w s
      (r, { h with writer := none }, s)

def SmbWriteHandle.reopenAt (h : SmbWriteHandle F) (offset : ℕ) (s : S) :
    Except SynoFsError Unit × SmbWriteHandle F × S :=
  match h.finishWriter smb s with
  | (.error e, h, s) => (.error e, h, s)
  | (.ok (), h, s) =>
      match smb.ready s with
      | (.error e, s) => (.error e, h, s)
      | (.ok (), s) =>
          match smb.createFileWriterAt h.loc offset s with
          | (.error e, s) => (.error e, h, s)
          | (.ok w, s) => (.ok (), { h with writer := some w, next := offset }, s)

/-- The write itself, once the writer sits at `offset`. -/
def SmbWriteHandle.writeHere (h : SmbWriteHandle F) (offset : ℕ) (data : Bytes) (s : S) :
    Except SynoFsError Unit × SmbWriteHandle F × S :=
  match h.writer with
  | none => (.error (.io "writer just opened"), h, s)
  | some w =>
      match smb.writeChunk data w s with
      | (.error e, w, s) => (.error e, { h with writer := some w }, s)
      | (.ok (), w, s) =>
          (.ok (), { h with writer := some w, next := offset + data.length }, s)

def SmbWriteHandle.writeAt (h : SmbWriteHandle F) (offset : ℕ) (data : Bytes) (s : S) :
    Except SynoFsError Unit × SmbWriteHandle F × S :=
  if needsReopen h.writer.isSome h.next offset then
    match h.reopenAt smb offset s with
    | (.error e, h, s) => (.error e, h, s)
    | (.ok (), h, s) => h.writeHere smb offset data s
  else h.writeHere smb offset data s

/-- A handle closed untouched still names a file the caller expects to exist;
opening at 0 is what creates it. -/
def SmbWriteHandle.close (h : SmbWriteHandle F) (s : S) :
    Except SynoFsError Unit × SmbWriteHandle F × S :=
  if h.writer.isNone && h.next == 0 then
    match h.reopenAt smb 0 s with
    | (.error e, h, s) => (.error e, h, s)
    | (.ok (), h, s) => h.finishWriter smb s
  else h.finishWriter smb s

/-- Dropping the handle: the writer it holds, if any, goes unfinished. -/
def SmbWriteHandle.drop (h : SmbWriteHandle F) (s : S) : S :=
  match h.writer with
  | none => s
  | some w => smb.abandon w s

/-- `OpenWriteTransport::open_write`: nothing reaches the server for a file
that may exist, until the first write says where it goes. -/
def openWrite (path : NasPath) (mode : WriteOpen) (s : S) :
    Except SynoFsError (SmbWriteHandle F) × S :=
  let s := smb.forgetHandle path s
  match smb.fromLogical path with
  | .error e => (.error e, s)
  | .ok loc =>
      match mode with
      | .existing => (.ok { loc := loc, writer := none, next := 0 }, s)
      | .createNew =>
          match smb.ready s with
          | (.error e, s) => (.error e, s)
          | (.ok (), s) =>
              match smb.createFileWriterExclusive loc s with
              | (.error e, s) => (.error e, s)
              | (.ok w, s) => (.ok { loc := loc, writer := some w, next := 0 }, s)

end Handle

/-! ### What the library is relied on for -/

section Contract

variable {S F : Type}

/-- Chunks handed to a writer one after the other, each accepted. -/
inductive Accepted (smb : Smb2 S F) (w₀ : F) (s₀ : S) : List Bytes → F → S → Prop
  | nil : Accepted smb w₀ s₀ [] w₀ s₀
  | snoc {chunks : List Bytes} {w w' : F} {s s' : S} {chunk : Bytes}
      (before : Accepted smb w₀ s₀ chunks w s)
      (accepted : smb.writeChunk chunk w s = (.ok (), w', s')) :
      Accepted smb w₀ s₀ (chunks ++ [chunk]) w' s'

/-- The library's promise, for the file `file path` at the logical `path`: a
writer opened at an offset stores its chunks contiguously from there, and its
`finish` fails if any of them was lost. Nothing else touches the content. -/
structure Smb2.StoresChunks (smb : Smb2 S F) (file : NasPath → S → Option Bytes) : Prop where
  finished : ∀ {path loc offset s w s₁ chunks w' s₂ s₃}, smb.fromLogical path = .ok loc →
    smb.createFileWriterAt loc offset s = (.ok w, s₁) → Accepted smb w s₁ chunks w' s₂ →
      smb.finish w' s₂ = (.ok (), s₃) →
        file path s₃ = some (patch ((file path s).getD []) offset chunks.flatten)
  ready : ∀ path s, file path (smb.ready s).2 = file path s
  forgetHandle : ∀ path other s, file path (smb.forgetHandle other s) = file path s

variable {smb : Smb2 S F} {file : NasPath → S → Option Bytes}

/-- The handle on `path` has accepted `ws` for a file that held `base`: whatever
the open writer still has to confirm, confirming it leaves the file patched by
`ws`. -/
inductive Holding (smb : Smb2 S F) (file : NasPath → S → Option Bytes) (path : NasPath)
    (base : Bytes) : SmbWriteHandle F → List (Write UInt8) → S → Prop
  | fresh {loc : NasPath} {s : S} (hloc : smb.fromLogical path = .ok loc)
      (hbase : (file path s).getD [] = base) : Holding smb file path base ⟨loc, none, 0⟩ [] s
  | writing {loc : NasPath} {ws : List (Write UInt8)} {offset : ℕ} {chunks : List Bytes}
      {s s₀ s₁ : S} {w w₀ : F} (hloc : smb.fromLogical path = .ok loc)
      (opened : smb.createFileWriterAt loc offset s₀ = (.ok w₀, s₁))
      (accepted : Accepted smb w₀ s₁ chunks w s)
      (hpatch : patch ((file path s₀).getD []) offset chunks.flatten = patchAll base ws) :
      Holding smb file path base ⟨loc, some w, offset + chunks.flatten.length⟩ ws s

variable {path : NasPath} {base : Bytes} {h : SmbWriteHandle F} {ws : List (Write UInt8)}
  {offset : ℕ} {data : Bytes} {s : S}

/-! What a call did, if it succeeded. -/

theorem reopenAt_eq_ok (hok : (h.reopenAt smb offset s).1 = .ok ()) :
    ∃ h' s' s₀ w s₁, h.finishWriter smb s = (.ok (), h', s') ∧ smb.ready s' = (.ok (), s₀) ∧
      smb.createFileWriterAt h'.loc offset s₀ = (.ok w, s₁) ∧
        h.reopenAt smb offset s = (.ok (), ⟨h'.loc, some w, offset⟩, s₁) := by
  rw [SmbWriteHandle.reopenAt] at hok ⊢
  cases hfin : h.finishWriter smb s with
  | mk r rest =>
      obtain ⟨h', s'⟩ := rest
      cases r with
      | error e => simp [hfin] at hok
      | ok _ =>
          simp only [hfin] at hok ⊢
          cases hready : smb.ready s' with
          | mk r s₀ =>
              cases r with
              | error e => simp [hready] at hok
              | ok _ =>
                  simp only [hready] at hok ⊢
                  cases hopen : smb.createFileWriterAt h'.loc offset s₀ with
                  | mk r s₁ =>
                      cases r with
                      | error e => simp [hopen] at hok
                      | ok w => exact ⟨h', s', s₀, w, s₁, rfl, hready, hopen, rfl⟩

theorem writeHere_eq_ok (hok : (h.writeHere smb offset data s).1 = .ok ()) :
    ∃ w w' s', h.writer = some w ∧ smb.writeChunk data w s = (.ok (), w', s') ∧
      h.writeHere smb offset data s = (.ok (), ⟨h.loc, some w', offset + data.length⟩, s') := by
  rw [SmbWriteHandle.writeHere] at hok ⊢
  cases hwriter : h.writer with
  | none => simp [hwriter] at hok
  | some w =>
      simp only [hwriter] at hok ⊢
      cases hchunk : smb.writeChunk data w s with
      | mk r rest =>
          obtain ⟨w', s'⟩ := rest
          cases r with
          | error e => simp [hchunk] at hok
          | ok _ => exact ⟨w, w', s', rfl, hchunk, rfl⟩

/-- The write went to a writer reopened for it, or to the one that sat there. -/
theorem writeAt_eq_ok (hok : (h.writeAt smb offset data s).1 = .ok ()) :
    (∃ h' s', h.reopenAt smb offset s = (.ok (), h', s') ∧
      h.writeAt smb offset data s = h'.writeHere smb offset data s') ∨
    h.writer.isSome ∧ h.next = offset ∧
      h.writeAt smb offset data s = h.writeHere smb offset data s := by
  rw [SmbWriteHandle.writeAt] at hok ⊢
  by_cases hre : needsReopen h.writer.isSome h.next offset = true
  · rw [if_pos hre] at hok ⊢
    cases hopen : h.reopenAt smb offset s with
    | mk r rest =>
        obtain ⟨h', s'⟩ := rest
        cases r with
        | error e => simp [hopen] at hok
        | ok _ => exact .inl ⟨h', s', rfl, rfl⟩
  · rw [if_neg hre]
    simp only [needsReopen, Bool.or_eq_true, Bool.not_eq_true', decide_eq_true_eq, not_or,
      Bool.not_eq_false, not_not] at hre
    exact .inr ⟨hre.1, hre.2.symm, rfl⟩

/-- An untouched handle was opened to be closed. -/
theorem close_eq_ok (hok : (h.close smb s).1 = .ok ()) :
    (∃ h' s', h.reopenAt smb 0 s = (.ok (), h', s') ∧ h.close smb s = h'.finishWriter smb s') ∨
    (h.writer.isNone && h.next == 0) = false ∧ h.close smb s = h.finishWriter smb s := by
  rw [SmbWriteHandle.close] at hok ⊢
  by_cases hfresh : (h.writer.isNone && h.next == 0) = true
  · rw [if_pos hfresh] at hok ⊢
    cases hopen : h.reopenAt smb 0 s with
    | mk r rest =>
        obtain ⟨h', s'⟩ := rest
        cases r with
        | error e => simp [hopen] at hok
        | ok _ => exact .inl ⟨h', s', rfl, rfl⟩
  · rw [if_neg hfresh]
    exact .inr ⟨eq_false_of_ne_true hfresh, rfl⟩

theorem Holding.fromLogical (hold : Holding smb file path base h ws s) :
    smb.fromLogical path = .ok h.loc := by
  cases hold with
  | fresh hloc _ => exact hloc
  | writing hloc _ _ _ => exact hloc

/-- Finishing the writer of a handle that has written leaves the patched file. -/
theorem Holding.finishWriter_ok (hsmb : smb.StoresChunks file)
    (hold : Holding smb file path base h ws s) (hok : (h.finishWriter smb s).1 = .ok ()) :
    (h.finishWriter smb s).2.1 = { h with writer := none } ∧
      (file path (h.finishWriter smb s).2.2).getD [] = patchAll base ws ∧
        (h.writer.isSome → file path (h.finishWriter smb s).2.2 = some (patchAll base ws)) := by
  cases hold with
  | fresh _ hbase => exact ⟨rfl, hbase, by simp⟩
  | @writing loc _ offset chunks _ s₀ s₁ w w₀ hloc opened accepted hpatch =>
      have hfin : smb.finish w s = (.ok (), (smb.finish w s).2) := Prod.ext hok rfl
      have hfile := hsmb.finished hloc opened accepted hfin
      rw [hpatch] at hfile
      exact ⟨rfl, by simp [SmbWriteHandle.finishWriter, hfile], fun _ => hfile⟩

/-- Reopening at `offset` confirms what the handle had accepted and starts a
writer with nothing in it. -/
theorem Holding.reopenAt_ok (hsmb : smb.StoresChunks file)
    (hold : Holding smb file path base h ws s) (hok : (h.reopenAt smb offset s).1 = .ok ()) :
    Holding smb file path base (h.reopenAt smb offset s).2.1 ws (h.reopenAt smb offset s).2.2 ∧
      (h.reopenAt smb offset s).2.1.writer.isSome ∧
        (h.reopenAt smb offset s).2.1.next = offset := by
  have hloc := hold.fromLogical
  obtain ⟨h', s', s₀, w, s₁, hfin, hready, hopen, hreopen⟩ := reopenAt_eq_ok hok
  obtain ⟨hh, hfile, _⟩ := hold.finishWriter_ok hsmb (by rw [hfin])
  have hkeep := hsmb.ready path s'
  rw [hfin] at hh hfile
  rw [hready] at hkeep
  obtain rfl : h' = { h with writer := none } := hh
  rw [hreopen]
  refine ⟨?_, rfl, rfl⟩
  simpa using Holding.writing hloc hopen .nil (by simpa [hkeep] using hfile)

/-- A chunk the open writer accepts where it sits. -/
theorem Holding.writeHere_ok (hold : Holding smb file path base h ws s)
    (hnext : h.next = offset) (hok : (h.writeHere smb offset data s).1 = .ok ()) :
    Holding smb file path base (h.writeHere smb offset data s).2.1 (ws ++ [(offset, data)])
      (h.writeHere smb offset data s).2.2 := by
  obtain ⟨w, w', s', hwriter, hchunk, hwrite⟩ := writeHere_eq_ok hok
  rw [hwrite]
  cases hold with
  | fresh _ _ => cases hwriter
  | @writing loc _ start chunks _ s₀ s₁ w w₀ hloc opened accepted hpatch =>
      obtain rfl := Option.some.inj hwriter
      have hnext : start + chunks.flatten.length = offset := hnext
      have hpatch' : patch ((file path s₀).getD []) start (chunks ++ [data]).flatten =
          patchAll base (ws ++ [(offset, data)]) := by
        rw [List.flatten_append, ← patch_append, hpatch, patchAll_append, hnext]
        simp
      have hlength : start + (chunks ++ [data]).flatten.length = offset + data.length := by
        rw [List.flatten_append, List.length_append, ← Nat.add_assoc, hnext]
        simp
      have hnew := Holding.writing hloc opened (.snoc accepted hchunk) hpatch'
      rwa [hlength] at hnew

/-- **An accepted write is held.** -/
theorem Holding.writeAt_ok (hsmb : smb.StoresChunks file)
    (hold : Holding smb file path base h ws s) (offset : ℕ) (data : Bytes)
    (hok : (h.writeAt smb offset data s).1 = .ok ()) :
    Holding smb file path base (h.writeAt smb offset data s).2.1 (ws ++ [(offset, data)])
      (h.writeAt smb offset data s).2.2 := by
  rcases writeAt_eq_ok hok with ⟨h', s', hopen, hwrite⟩ | ⟨_, hnext, hwrite⟩
  · obtain ⟨hold', _, hnext⟩ := hold.reopenAt_ok hsmb (by rw [hopen])
    rw [hopen] at hold' hnext
    rw [hwrite] at hok ⊢
    exact hold'.writeHere_ok hnext hok
  · -- The writer already sits at `offset`.
    rw [hwrite] at hok ⊢
    exact hold.writeHere_ok hnext hok

/-- **A clean close holds everything accepted.** -/
theorem Holding.close_ok (hsmb : smb.StoresChunks file)
    (hold : Holding smb file path base h ws s) (hok : (h.close smb s).1 = .ok ()) :
    file path (h.close smb s).2.2 = some (patchAll base ws) := by
  rcases close_eq_ok hok with ⟨h', s', hopen, hclose⟩ | ⟨hfresh, hclose⟩
  · obtain ⟨hold', hsome, _⟩ := hold.reopenAt_ok hsmb (by rw [hopen])
    rw [hopen] at hold' hsome
    rw [hclose] at hok ⊢
    exact (hold'.finishWriter_ok hsmb hok).2.2 hsome
  · rw [hclose] at hok ⊢
    refine (hold.finishWriter_ok hsmb hok).2.2 ?_
    cases hold with
    | fresh _ _ => simp at hfresh
    | writing _ _ _ _ => rfl

/-- Closing leaves no writer behind. -/
theorem close_writer (hok : (h.close smb s).1 = .ok ()) : (h.close smb s).2.1.writer = none := by
  have hfinish : ∀ (h : SmbWriteHandle F) (s : S), (h.finishWriter smb s).2.1.writer = none := by
    intro h s
    cases hw : h.writer <;> simp [SmbWriteHandle.finishWriter, hw]
  rcases close_eq_ok hok with ⟨h', s', _, hclose⟩ | ⟨_, hclose⟩
  · rw [hclose]
    exact hfinish h' s'
  · rw [hclose]
    exact hfinish h s

@[simp] theorem drop_of_writer_none (hw : h.writer = none) : h.drop smb s = s := by
  rw [SmbWriteHandle.drop, hw]

/-- A handle on a file opened as it stands. -/
theorem openWrite_existing_ok (hsmb : smb.StoresChunks file)
    (hok : (openWrite smb path .existing s).1 = .ok h) :
    h.writer = none ∧
      Holding smb file path ((file path s).getD []) h [] (openWrite smb path .existing s).2 := by
  simp only [openWrite] at hok ⊢
  cases hloc : smb.fromLogical path with
  | error e => simp [hloc] at hok
  | ok loc =>
      simp only [hloc, Except.ok.injEq] at hok ⊢
      subst hok
      exact ⟨rfl, .fresh hloc (by rw [hsmb.forgetHandle])⟩

/-- Opening a file as it stands changes no file. -/
theorem file_openWrite_existing (hsmb : smb.StoresChunks file) (other : NasPath) :
    file path (openWrite smb other .existing s).2 = file path s := by
  simp only [openWrite]
  cases smb.fromLogical other <;> exact hsmb.forgetHandle path other s

end Contract

/-! ### A library that keeps the promise

Files in a table, a writer that holds its chunks until it is finished, and the
answers coming to `finish`: the promise is kept whatever they are. -/

structure Nas where
  files : List (NasPath × Bytes)
  /-- What the next finishes answer; past the end they succeed. -/
  finishes : List (Option SynoFsError) := []

def Nas.file (path : NasPath) (nas : Nas) : Option Bytes := nas.files.lookup path

def Nas.put (nas : Nas) (path : NasPath) (data : Bytes) : Nas :=
  { nas with files := (path, data) :: nas.files }

@[simp] theorem Nas.file_put (nas : Nas) (path : NasPath) (data : Bytes) :
    (nas.put path data).file path = some data := by
  simp [Nas.file, Nas.put]

structure NasWriter where
  loc : NasPath
  start : ℕ
  pending : Bytes

def nasSmb : Smb2 Nas NasWriter where
  fromLogical path := .ok path
  forgetHandle _ nas := nas
  ready nas := (.ok (), nas)
  createFileWriterAt loc offset nas := (.ok ⟨loc, offset, []⟩, nas)
  createFileWriterExclusive loc nas :=
    if (nas.file loc).isSome then (.error .alreadyExists, nas) else (.ok ⟨loc, 0, []⟩, nas)
  writeChunk chunk w nas := (.ok (), { w with pending := w.pending ++ chunk }, nas)
  finish w nas :=
    match nas.finishes with
    | some e :: rest => (.error e, { nas with finishes := rest })
    | none :: rest => (.ok (), Nas.put { nas with finishes := rest } w.loc
        (patch ((nas.file w.loc).getD []) w.start w.pending))
    | [] => (.ok (), nas.put w.loc (patch ((nas.file w.loc).getD []) w.start w.pending))
  abandon _ nas := nas

theorem nasSmb_accepted {w₀ w : NasWriter} {nas₀ nas : Nas} {chunks : List Bytes}
    (h : Accepted nasSmb w₀ nas₀ chunks w nas) :
    nas = nas₀ ∧ w = { w₀ with pending := w₀.pending ++ chunks.flatten } := by
  induction h with
  | nil => exact ⟨rfl, by simp⟩
  | snoc before accepted ih =>
      obtain ⟨rfl, rfl⟩ := ih
      cases accepted
      exact ⟨rfl, by simp⟩

theorem nasSmb_storesChunks : nasSmb.StoresChunks Nas.file where
  finished := by
    intro path loc offset nas w nas₁ chunks w' nas₂ nas₃ hloc hopen haccepted hfinish
    cases hloc
    cases hopen
    obtain ⟨rfl, rfl⟩ := nasSmb_accepted haccepted
    simp only [nasSmb] at hfinish
    split at hfinish
    · simp at hfinish
    · cases hfinish
      simp
    · cases hfinish
      simp
  ready := fun _ _ => rfl
  forgetHandle := fun _ _ _ => rfl

end SynologyFilestation.Smb
