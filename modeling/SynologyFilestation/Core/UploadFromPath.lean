import SynologyFilestation.Core.SliceUpload

/-!
Uploading a local file (`upload_from_path` in `core/src/client/upload.rs`, and
`write_new_from_path` in `smb/src/transport.rs`). A backend that streams is asked
first. A name that may not be replaced is created there under the rule that it
must be free, and the bytes go straight to it, so a stream that breaks off leaves
a short file until it is removed again. Over HTTP the file goes up in slices, or in
one piece when it fits into one.
-/

namespace SynologyFilestation.Core

open Library

/-- A stream that broke off: how many bytes had arrived, the error, and whether
the removal of the short file was carried out. -/
structure StreamFailure where
  held : ℕ
  error : SynoFsError
  cleaned : Bool

/-- What becomes of one `write_new_from_path`. -/
inductive CreateFate
  /-- The file is not created: there is no session, the local file cannot be
  opened, or the server says no. -/
  | refused (e : SynoFsError)
  /-- The create is not answered. -/
  | lost (ran : Bool) (message : String)
  /-- The create is answered, and the stream ends well or not. -/
  | opened (failure : Option StreamFailure)

/-- A streaming backend in one call. Its `fate` is that of `write_from_path`. -/
structure StreamScript extends BackendScript where
  create : CreateFate

/-- Everything that can go wrong in one `upload_from_path`. `Option String` is a
failure of the local disk. -/
structure FromPathScript where
  stream : ℕ → StreamScript
  stat : Option String
  read : Option String
  slices : SliceUploadScript
  http : ℕ → AttemptScript

structure StreamSession extends SliceSession where
  streamBreakers : List CircuitBreaker

section Calls

variable (fold : String → String)

/-- `create_file_writer_exclusive`: an empty file, in a folder that is there and
under a name that is free. -/
def Volume.create (path : NasPath) (v : Volume) : Except SynoFsError Unit × Volume :=
  match splitNasPath path with
  | none => (.error .invalidArg, v)
  | some (parent, name) =>
      match v.root.dirAt fold parent with
      | none => (.error .notFound, v)
      | some children =>
          if (FileTree.findEntry fold children name).isSome then (.error (Party.taken .backend), v)
          else (.ok (), v.setFile fold path [])

/-- `write_new_from_path`. The result of the removal is ignored. -/
def writeNewFromPath (path : NasPath) (content : Bytes) (fate : CreateFate) (v : Volume) :
    Except SynoFsError Unit × Volume :=
  match fate with
  | .refused e => (.error e, v)
  | .lost ran message => (.error (.io message), if ran then (v.create fold path).2 else v)
  | .opened failure =>
      match v.create fold path with
      | (.error e, v) => (.error e, v)
      | (.ok (), v) =>
          match failure with
          | none => (.ok (), v.setFile fold path content)
          | some f =>
              let v := v.setFile fold path (content.take f.held)
              (.error f.error, if f.cleaned then (v.delete fold .backend path).2 else v)

def askStream (path : NasPath) (content : Bytes) (overwrite : Bool) (b : StreamScript)
    (v : Volume) : Except SynoFsError Unit × Volume :=
  if overwrite then askBackend (writeOp fold path content) b.toBackendScript v
  else writeNewFromPath fold path content b.create v

/-- The streaming backends in turn, each with its breaker. -/
def viaStreams (path : NasPath) (content : Bytes) (overwrite : Bool) (scripts : ℕ → StreamScript)
    (breakers : List CircuitBreaker) (v : Volume) :
    Option (Except SynoFsError Unit) × List CircuitBreaker × Volume :=
  let entries := breakers.zipIdx.map fun (breaker, i) => (⟨scripts i, breaker⟩ : TransportEntry _)
  let (answer, entries, v) := viaTransports (askStream fold path content overwrite)
    (fun b _ => b.asked) (fun b _ => b.told) entries v
  (answer, entries.map (·.breaker), v)

variable (limits : TransferLimits) {D : Type} [DecidableEq D] [ToString D] (md5 : Bytes → D)

/-- The fallback of `upload_from_path`: in slices, so that a large file is never
in memory whole, or in one piece. -/
def uploadFromPathHttp (sc : FromPathScript) (content : Bytes) (folder : NasPath)
    (filename : String) (overwrite : Bool) (s : SliceSession) :
    Except SynoFsError Unit × SliceSession :=
  match sc.stat with
  | some why => (.error (.io why), s)
  | none =>
      if limits.sliceSize < content.length then
        httpSliceUpload fold limits md5 sc.slices content folder filename overwrite s
      else
        match sc.read with
        | some why => (.error (.io why), s)
        | none =>
            let (r, c) := httpUpload fold limits sc.http folder filename content overwrite s.client
            (r, { s with client := c })

/-- `upload_from_path`. -/
def uploadFromPath (sc : FromPathScript) (content : Bytes) (folder : NasPath) (filename : String)
    (overwrite : Bool) (s : StreamSession) : Except SynoFsError Unit × StreamSession :=
  let (answer, breakers, v) := viaStreams fold (joinPath folder filename) content overwrite
    sc.stream s.streamBreakers s.client.server
  let session := { s.toSliceSession with client := { s.client with server := v } }
  match answer with
  | some r => (r, { toSliceSession := session, streamBreakers := breakers })
  | none =>
      let (r, session) := uploadFromPathHttp fold limits md5 sc content folder filename overwrite
        session
      (r, { toSliceSession := session, streamBreakers := breakers })

end Calls

/-! ### What can be made under a name -/

section Names

variable {fold : String → String} {v : Volume} {folder : NasPath} {filename : String}
  {content : Bytes}

/-- The name is free, and its folder is there or can be made. -/
def Volume.Admits (fold : String → String) (folder : NasPath) (filename : String) (v : Volume) :
    Prop :=
  v.treeAt fold (joinPath folder filename) = none ∧
    ((v.root.ensureDir fold (trimEnd folder)).dirAt fold (trimEnd folder)).isSome

theorem Volume.treeAt_joinPath (v : Volume) : v.treeAt fold (joinPath folder filename) =
    ((v.root.dirAt fold (trimEnd folder)).bind fun children =>
      FileTree.findEntry fold children filename).map (·.2) := by
  rw [Volume.treeAt, joinPath, Volume.entryAt_concat]

/-- What stands under the name is an entry of its folder. -/
theorem Volume.dir_of_taken (h : v.treeAt fold (joinPath folder filename) ≠ none) :
    ∃ children, v.root.dirAt fold (trimEnd folder) = some children ∧
      (FileTree.findEntry fold children filename).isSome := by
  rw [Volume.treeAt_joinPath] at h
  cases hdir : v.root.dirAt fold (trimEnd folder) with
  | none =>
      rw [hdir] at h
      exact absurd rfl h
  | some children =>
      refine ⟨children, rfl, ?_⟩
      rw [hdir, Option.bind_some, Ne, Option.map_eq_none_iff] at h
      exact Option.isSome_iff_ne_none.mpr h

theorem Volume.store_of_taken (data : Bytes) (h : v.treeAt fold (joinPath folder filename) ≠ none) :
    v.store fold (joinPath folder filename) data = (.error (.apiError 418), v) := by
  obtain ⟨children, hdir, hentry⟩ := Volume.dir_of_taken h
  simp only [Volume.store, joinPath, splitNasPath_concat,
    FileTree.dirAt_ensureDir_of_some fold hdir, hentry, if_true, Party.taken]

theorem Volume.store_of_admits (data : Bytes) (h : v.Admits fold folder filename) :
    (v.store fold (joinPath folder filename) data).1 = .ok () := by
  obtain ⟨hfree, hdir⟩ := h
  obtain ⟨children, hdir⟩ := Option.isSome_iff_exists.mp hdir
  have hnone := Volume.findEntry_of_free hfree hdir
  simp only [Volume.store, joinPath, splitNasPath_concat, hdir, hnone]
  rfl

/-- Nothing is stored where nothing can be made, and the error says whether the
name was taken. -/
theorem Volume.store_of_not_admits (data : Bytes) (h : ¬ v.Admits fold folder filename) :
    ∃ e, v.store fold (joinPath folder filename) data = (.error e, v) ∧
      (e.category = .alreadyExists → v.treeAt fold (joinPath folder filename) ≠ none) := by
  by_cases htaken : v.treeAt fold (joinPath folder filename) = none
  · have hway : (v.root.ensureDir fold (trimEnd folder)).dirAt fold (trimEnd folder) = none := by
      rw [← Option.not_isSome_iff_eq_none]
      exact fun hdir => h ⟨htaken, hdir⟩
    refine ⟨.apiError 1100, ?_, fun h => absurd h (by decide)⟩
    simp only [Volume.store, joinPath, splitNasPath_concat, hway]
  · exact ⟨.apiError 418, Volume.store_of_taken data htaken, fun _ => htaken⟩

/-- A collision is with what stands under the name. -/
theorem Volume.store_collision {data : Bytes} {e : SynoFsError}
    (h : (v.store fold (joinPath folder filename) data).1 = .error e)
    (he : e.category = .alreadyExists) : v.treeAt fold (joinPath folder filename) ≠ none := by
  by_cases hadmits : v.Admits fold folder filename
  · rw [Volume.store_of_admits data hadmits] at h
    cases h
  · obtain ⟨e', hstore, hcollision⟩ := Volume.store_of_not_admits data hadmits
    rw [hstore] at h
    obtain rfl := Except.error.inj h
    exact hcollision he

theorem Volume.create_of_taken (h : v.treeAt fold (joinPath folder filename) ≠ none) :
    v.create fold (joinPath folder filename) = (.error .alreadyExists, v) := by
  obtain ⟨children, hdir, hentry⟩ := Volume.dir_of_taken h
  simp only [Volume.create, joinPath, splitNasPath_concat, hdir, hentry, if_true, Party.taken]

theorem Volume.create_of_no_dir (h : v.root.dirAt fold (trimEnd folder) = none) :
    v.create fold (joinPath folder filename) = (.error .notFound, v) := by
  simp only [Volume.create, joinPath, splitNasPath_concat, h]

theorem Volume.create_of_free (h : v.treeAt fold (joinPath folder filename) = none)
    (hdir : v.root.dirAt fold (trimEnd folder) ≠ none) :
    v.create fold (joinPath folder filename) =
      (.ok (), v.setFile fold (joinPath folder filename) []) := by
  obtain ⟨children, hchildren⟩ := Option.ne_none_iff_exists'.mp hdir
  rw [Volume.treeAt_joinPath, hchildren, Option.bind_some, Option.map_eq_none_iff] at h
  simp only [Volume.create, joinPath, splitNasPath_concat, hchildren, h]
  rfl

theorem Volume.treeAt_setFile_joinPath (filename : String) (data : Bytes)
    (hdir : v.root.dirAt fold (trimEnd folder) ≠ none) :
    (v.setFile fold (joinPath folder filename) data).treeAt fold (joinPath folder filename) =
      some (.file data) :=
  Volume.treeAt_setFile (Option.isSome_iff_ne_none.mpr hdir)

theorem Volume.dirAt_setFile (data : Bytes) :
    (v.setFile fold (joinPath folder filename) data).root.dirAt fold (trimEnd folder) = none ↔
      v.root.dirAt fold (trimEnd folder) = none := by
  simp only [Volume.setFile, joinPath, splitNasPath_concat, FileTree.dirAt_alterDir,
    Option.map_eq_none_iff]

/-- A file that was made can be removed. -/
theorem Volume.delete_setFile (data : Bytes) (hdir : v.root.dirAt fold (trimEnd folder) ≠ none) :
    ((v.setFile fold (joinPath folder filename) data).delete fold .backend
      (joinPath folder filename)).2.treeAt fold (joinPath folder filename) = none := by
  have htree := Volume.treeAt_setFile_joinPath filename data hdir
  rw [Volume.delete_yields, Volume.yields, htree]
  exact Volume.treeAt_remove

end Names

/-! ### What the backends leave -/

section Streams

variable {fold : String → String} {v : Volume} {folder : NasPath} {filename : String}
  {content : Bytes}

/-- Nobody speaks of a collision who has not met one. -/
def CreateFate.Founded : CreateFate → Prop
  | .refused e => e.category ≠ .alreadyExists
  | .lost _ _ => True
  | .opened failure => ∀ f, failure = some f → f.error.category ≠ .alreadyExists

/-- What is made is made whole or removed again. -/
def CreateFate.Tidy : CreateFate → Prop
  | .refused _ => True
  | .lost ran _ => ran = false
  | .opened failure => ∀ f, failure = some f → f.cleaned = true

/-- Under a name that is taken, or in a folder that is not there, a backend
changes nothing. -/
theorem writeNew_nowhere (fate : CreateFate)
    (h : v.treeAt fold (joinPath folder filename) ≠ none ∨
      v.root.dirAt fold (trimEnd folder) = none) :
    (writeNewFromPath fold (joinPath folder filename) content fate v).2 = v := by
  have hcreate : ∃ e, v.create fold (joinPath folder filename) = (.error e, v) := by
    rcases h with htaken | hdir
    · exact ⟨_, Volume.create_of_taken htaken⟩
    · exact ⟨_, Volume.create_of_no_dir hdir⟩
  obtain ⟨e, hcreate⟩ := hcreate
  cases fate with
  | refused e => rfl
  | lost ran message => cases ran <;> simp [writeNewFromPath, hcreate]
  | opened failure => simp [writeNewFromPath, hcreate]

/-- A backend that fails and is tidy leaves the name as it was. -/
theorem writeNew_tidy {fate : CreateFate} (hfate : fate.Tidy) {e : SynoFsError}
    (h : (writeNewFromPath fold (joinPath folder filename) content fate v).1 = .error e) :
    (writeNewFromPath fold (joinPath folder filename) content fate v).2.treeAt fold
      (joinPath folder filename) = v.treeAt fold (joinPath folder filename) := by
  by_cases hnowhere : v.treeAt fold (joinPath folder filename) ≠ none ∨
      v.root.dirAt fold (trimEnd folder) = none
  · rw [writeNew_nowhere fate hnowhere]
  · obtain ⟨hfree, hdir⟩ := not_or.mp hnowhere
    rw [not_ne_iff] at hfree
    cases fate with
    | refused e => rfl
    | lost ran message =>
        obtain rfl : ran = false := hfate
        rfl
    | opened failure =>
        rw [writeNewFromPath, Volume.create_of_free hfree hdir] at h ⊢
        cases failure with
        | none => cases h
        | some f =>
            simp only [hfate f rfl, if_true]
            rw [hfree]
            exact Volume.delete_setFile _ (mt (Volume.dirAt_setFile _).mp hdir)

/-- A backend's collision is with what stands under the name. -/
theorem writeNew_collision {fate : CreateFate} (hfate : fate.Founded) {e : SynoFsError}
    (h : (writeNewFromPath fold (joinPath folder filename) content fate v).1 = .error e)
    (he : e.category = .alreadyExists) : v.treeAt fold (joinPath folder filename) ≠ none := by
  intro hfree
  cases fate with
  | refused e' =>
      obtain rfl := Except.error.inj h
      exact hfate he
  | lost ran message =>
      obtain rfl := Except.error.inj h
      cases he
  | opened failure =>
      rw [writeNewFromPath] at h
      by_cases hdir : v.root.dirAt fold (trimEnd folder) = none
      · rw [Volume.create_of_no_dir hdir] at h
        obtain rfl := Except.error.inj h
        cases he
      · rw [Volume.create_of_free hfree hdir] at h
        cases failure with
        | none => cases h
        | some f =>
            obtain rfl := Except.error.inj h
            exact hfate f rfl he

/-- **The backends in turn.** What each of them keeps when it fails, they keep
together, and a collision is with what stood under the name. -/
theorem viaStreams_rule (P : Volume → Prop) {scripts : ℕ → StreamScript}
    (breakers : List CircuitBreaker) (hfounded : ∀ i, (scripts i).create.Founded)
    (htree : ∀ w, P w → w.treeAt fold (joinPath folder filename) =
      v.treeAt fold (joinPath folder filename))
    (hfail : ∀ i w e, P w →
      (writeNewFromPath fold (joinPath folder filename) content (scripts i).create w).1 =
        .error e →
      P (writeNewFromPath fold (joinPath folder filename) content (scripts i).create w).2)
    (hv : P v) :
    let r := viaStreams fold (joinPath folder filename) content false scripts breakers v
    (r.1 = none → P r.2.2) ∧
      ∀ e, r.1 = some (.error e) → P r.2.2 ∧ (e.category = .alreadyExists →
        v.treeAt fold (joinPath folder filename) ≠ none) := by
  have hentries : ∀ entry ∈ breakers.zipIdx.map
      fun (breaker, i) => (⟨scripts i, breaker⟩ : TransportEntry StreamScript),
      ∃ i, entry.transport = scripts i := by
    intro entry hentry
    obtain ⟨⟨breaker, i⟩, _, rfl⟩ := List.mem_map.mp hentry
    exact ⟨i, rfl⟩
  have hrule := @viaTransports_rule Volume StreamScript Unit
    (askStream fold (joinPath folder filename) content false) (fun b _ => b.asked)
    (fun b _ => b.told) P
    (fun r w => ∀ e, r = .error e → P w ∧ (e.category = .alreadyExists →
      v.treeAt fold (joinPath folder filename) ≠ none))
    (breakers.zipIdx.map fun (breaker, i) => ⟨scripts i, breaker⟩) ?_ ?_ v hv
  · exact ⟨hrule.1, fun e he => hrule.2 _ he e rfl⟩
  · intro entry hentry w hw hpass
    obtain ⟨i, hi⟩ := hentries entry hentry
    rw [hi] at hpass ⊢
    cases hr : (askStream fold (joinPath folder filename) content false (scripts i) w).1 with
    | ok u =>
        rw [hr] at hpass
        cases hpass
    | error e => exact hfail i w e hw hr
  · intro entry hentry w hw _ e he
    obtain ⟨i, hi⟩ := hentries entry hentry
    rw [hi] at he ⊢
    refine ⟨hfail i w e hw he, fun hcollision => ?_⟩
    rw [← htree w hw]
    exact writeNew_collision (hfounded i) he hcollision

/-- A backend that its breaker may let through. -/
def CircuitBreaker.mayAsk (b : CircuitBreaker) : Bool := b.state ≠ .halfOpen

theorem viaStreams_unasked (fold : String → String) (folder : NasPath) (filename : String)
    (content : Bytes) (scripts : ℕ → StreamScript) (v : Volume) {breakers : List CircuitBreaker}
    (h : ∀ b ∈ breakers, b.mayAsk = false) :
    ∃ breakers', viaStreams fold (joinPath folder filename) content false scripts breakers v =
      (none, breakers', v) := by
  have hhalf : ∀ entry ∈ breakers.zipIdx.map
      fun (breaker, i) => (⟨scripts i, breaker⟩ : TransportEntry StreamScript),
      entry.breaker.state = .halfOpen := by
    intro entry hentry
    obtain ⟨⟨breaker, i⟩, hmem, rfl⟩ := List.mem_map.mp hentry
    simpa [CircuitBreaker.mayAsk] using h breaker (List.fst_mem_of_mem_zipIdx hmem)
  exact ⟨_, by rw [viaStreams, viaTransports_unasked _ _ _ v hhalf]⟩

end Streams

end SynologyFilestation.Core
