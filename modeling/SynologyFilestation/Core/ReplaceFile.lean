import SynologyFilestation.Core.Upload

/-!
What a replacing upload and a truncate leave behind when they fail.

The write contract (`core/src/transport.rs`, "old-or-new, never a partial, no
data lost") is about the backends. On the HTTP path the name is cleared before
the upload, and an upload that is then refused leaves it empty. So the contract
holds of a call exactly when nothing stood under the name, or a backend with the
contract settles the call.
-/

namespace SynologyFilestation.Core

open Library

section Effects

variable {fold : String → String} {archive : Tree → Bytes} {limits : TransferLimits}
  {folder path : NasPath} {filename : String} {data : Bytes} {c : Client Volume}

/-! ### Clearing the name -/

@[simp] theorem pollGone_server (poll : ℕ → RequestScript) (polled left : ℕ) (c : Client Volume) :
    (pollGone fold poll path polled left c).server = c.server := by
  induction left generalizing polled c with
  | zero => rfl
  | succ left ih =>
      rw [pollGone]
      dsimp only
      split
      case h_1 => rw [ih, getInfo_server]
      case h_2 => exact getInfo_server

theorem clearForOverwrite_server (sc : ClearScript) :
    (clearForOverwrite fold sc folder filename c).server = c.server ∨
      (clearForOverwrite fold sc folder filename c).server =
        c.server.remove fold (joinPath folder filename) := by
  simp only [clearForOverwrite, pollGone_server]
  exact delete_server

theorem clearForOverwrite_plain :
    (clearForOverwrite fold ⟨.plain, fun _ => .plain⟩ folder filename c).server =
      c.server.remove fold (joinPath folder filename) := by
  obtain ⟨breakers, hdelete⟩ := request_plain (deleteOp fold (joinPath folder filename)) c
  simp only [clearForOverwrite, pollGone_server, delete, hdelete]
  exact Volume.delete_http

/-- **The attempt rule.** What clearing the name and storing the file keep, the
attempts of an upload keep. -/
theorem httpUploadFrom_rule {P : Volume → Prop} (overwrite : Bool)
    (hclear : ∀ sc c, P c.server → P (clearForOverwrite fold sc folder filename c).server)
    (hstore : ∀ v, P v → P (v.store fold (joinPath folder filename) data).2)
    (sc : ℕ → AttemptScript) (lastErr : SynoFsError) (attempt left : ℕ) {c : Client Volume}
    (h : P c.server) :
    P (httpUploadFrom fold sc folder filename data overwrite lastErr attempt left c).2.server := by
  induction left generalizing attempt lastErr c with
  | zero => exact h
  | succ left ih =>
      rw [httpUploadFrom]
      have hready : P (if overwrite then
          clearForOverwrite fold (sc attempt).clear folder filename c else c).server := by
        cases overwrite with
        | false => exact h
        | true => exact hclear _ c h
      dsimp only
      cases (sc attempt).post with
      | answered => exact hstore _ hready
      | refused code => exact hready
      | lost ran message =>
          apply ih
          cases ran with
          | false => exact hready
          | true => exact hstore _ hready
      | garbled ran message =>
          cases ran with
          | false => exact hready
          | true => exact hstore _ hready

/-! ### What may be found under the name -/

/-- Under the path stands what stood there, or the new file. -/
def OldOrNew (fold : String → String) (path : NasPath) (old : Option Tree) (data : Bytes)
    (v : Volume) : Prop :=
  v.treeAt fold path = old ∨ v.treeAt fold path = some (.file data)

theorem OldOrNew.store {v : Volume} (h : OldOrNew fold path none data v) :
    OldOrNew fold path none data (v.store fold path data).2 := by
  cases hstore : (v.store fold path data).1 with
  | ok u => exact Or.inr (Volume.store_ok hstore).2.1
  | error e =>
      rw [Volume.store_error hstore]
      exact h

theorem OldOrNew.write {old : Option Tree} {v : Volume} (h : OldOrNew fold path old data v) :
    OldOrNew fold path old data (v.write fold path data).2 := by
  rcases Volume.treeAt_write fold v path data with hkeep | hnew
  · rw [OldOrNew, hkeep]
    exact h
  · exact Or.inr hnew

theorem OldOrNew.clear (sc : ClearScript)
    (h : OldOrNew fold (joinPath folder filename) none data c.server) :
    OldOrNew fold (joinPath folder filename) none data
      (clearForOverwrite fold sc folder filename c).server := by
  rcases clearForOverwrite_server sc with hkeep | hgone
  · rw [hkeep]
    exact h
  · rw [hgone]
    exact Or.inl Volume.treeAt_remove

/-- On a name that was free, every attempt leaves it free or uploaded. -/
theorem OldOrNew.httpUpload (sc : ℕ → AttemptScript) (lastErr : SynoFsError) (attempt left : ℕ)
    {c : Client Volume} (h : OldOrNew fold (joinPath folder filename) none data c.server) :
    OldOrNew fold (joinPath folder filename) none data
      (httpUploadFrom fold sc folder filename data true lastErr attempt left c).2.server :=
  httpUploadFrom_rule true (fun sc _ hc => OldOrNew.clear sc hc) (fun _ hv => OldOrNew.store hv)
    sc lastErr attempt left h

/-- The contract, where it holds: on a free name, and from a backend that has it. -/
theorem OldOrNew.upload {old : Option Tree} {sc : UploadScript}
    (hsafe : old = none ∨ settled sc.backend c.writeBreakers = true)
    (h : OldOrNew fold (joinPath folder filename) old data c.server) :
    OldOrNew fold (joinPath folder filename) old data
      (upload fold limits sc folder filename data true c).2.server := by
  have hladder : OldOrNew fold (joinPath folder filename) old data
      (viaBackends (writeOp fold (joinPath folder filename) data) sc.backend c.writeBreakers
        c.server).2.2 :=
    viaBackends_rule _ (fun _ _ hv => hv.write) sc.backend c.writeBreakers h
  have hsettled := viaBackends_isSome (writeOp fold (joinPath folder filename) data) sc.backend
    c.writeBreakers c.server
  rw [Core.upload]
  simp only [if_true]
  split
  case h_1 => exact hladder
  case h_2 hnone =>
    rw [hnone] at hsettled
    rcases hsafe with rfl | hsome
    · exact hladder.httpUpload sc.http _ 0 limits.maxAttempts
    · rw [hsome] at hsettled
      cases hsettled

/-! ### The upload that empties the name -/

/-- The name is cleared, and the upload refused: the share is over its quota. -/
def refusing : ℕ → AttemptScript := fun _ => ⟨⟨.plain, fun _ => .plain⟩, .refused 419⟩

theorem httpUpload_refusing (c : Client Volume) :
    (httpUpload fold limits refusing folder filename data true c).1 = .error (.apiError 419) ∧
      (httpUpload fold limits refusing folder filename data true c).2.server.treeAt fold
        (joinPath folder filename) = none := by
  obtain ⟨attempts, hattempts⟩ := Nat.exists_eq_succ_of_ne_zero limits.attempts_pos.ne'
  rw [httpUpload, hattempts, httpUploadFrom]
  simp only [if_true, refusing, clearForOverwrite_plain]
  exact ⟨trivial, Volume.treeAt_remove⟩

theorem upload_refusing {backend : ℕ → BackendScript}
    (h : settled backend c.writeBreakers = false) :
    (upload fold limits ⟨backend, refusing⟩ folder filename data true c).1 =
        .error (.apiError 419) ∧
      (upload fold limits ⟨backend, refusing⟩ folder filename data true c).2.server.treeAt fold
        (joinPath folder filename) = none := by
  have hsettled := viaBackends_isSome (writeOp fold (joinPath folder filename) data) backend
    c.writeBreakers c.server
  rw [h] at hsettled
  rw [upload]
  simp only [if_true]
  split
  case h_1 hsome => rw [hsome] at hsettled; cases hsettled
  case h_2 => exact httpUpload_refusing _

/-! ### Truncation -/

/-- The bytes of a file, none of anything else. -/
def contentOf : Option Tree → Bytes
  | some (.file content) => content
  | _ => []

theorem OldOrNew.truncate {old : Option Tree} {size : ℕ} {v : Volume}
    (h : OldOrNew fold path old (resize (contentOf old) size) v) :
    OldOrNew fold path old (resize (contentOf old) size) (v.truncate fold path size).2 := by
  rcases Volume.treeAt_truncate fold v path size with hkeep | ⟨content, htree, hnew⟩
  · rw [OldOrNew, hkeep]
    exact h
  · refine Or.inr ?_
    rcases h with hold | hold
    · rw [hnew, ← hold, htree]
      rfl
    · rw [htree] at hold
      obtain rfl : content = resize (contentOf old) size := FileTree.file.inj (Option.some.inj hold)
      rw [hnew, resize_resize]

theorem Volume.read_volume (p : Party) (offset length : ℕ) (v : Volume) :
    (v.read fold archive p path offset length).2 = v := by
  unfold Volume.read
  split <;> rfl

theorem download_server (sc : DownloadScript) (offset length : ℕ) :
    (download fold archive limits sc path offset length c).2.server = c.server := by
  have hquiet : ∀ p v, ((readOp fold archive path offset length).run p v).2 = v :=
    fun p v => Volume.read_volume p offset length v
  have hladder := viaBackends_quiet (hquiet · c.server) sc.backend c.readBreakers
  rw [download]
  dsimp only
  split
  case h_1 => exact hladder
  case h_2 =>
    exact sendRetried_rule _ (P := (· = c.server)) (fun p v hv => (hquiet p v).trans hv)
      _ _ _ _ hladder

theorem download_writeBreakers (sc : DownloadScript) (offset length : ℕ) :
    (download fold archive limits sc path offset length c).2.writeBreakers = c.writeBreakers := by
  rw [download]
  dsimp only
  split <;> rfl

theorem download_ok {sc : DownloadScript} {offset length : ℕ}
    (h : (download fold archive limits sc path offset length c).1 = .ok data) :
    ∃ p, (c.server.read fold archive p path offset length).1 = .ok data := by
  have hquiet : ∀ p v, ((readOp fold archive path offset length).run p v).2 = v :=
    fun p v => Volume.read_volume p offset length v
  have hladder := viaBackends_quiet (hquiet · c.server) sc.backend c.readBreakers
  rw [download] at h
  dsimp only at h
  split at h
  case h_1 r hr =>
    change r = _ at h
    rw [h] at hr
    exact viaBackends_ok (hquiet · c.server) hr
  case h_2 =>
    rw [hladder] at h
    exact sendRetried_ok (hquiet · c.server) h

/-- Whatever part was asked for, resizing it gives the resized file. -/
theorem read_resize {p : Party} {v : Volume} {content : Bytes} {size want : ℕ}
    (htree : v.treeAt fold path = some (.file content)) (hwant : want = 0 ∨ want = size)
    (h : (v.read fold archive p path 0 want).1 = .ok data) :
    resize data size = resize content size := by
  have hdata : readRange content 0 want = data := by
    unfold Volume.read at h
    rw [htree] at h
    cases p <;> exact Except.ok.inj h
  rw [← hdata, readRange, List.drop_zero]
  split
  case isTrue => rfl
  case isFalse hne =>
    rw [hwant.resolve_left hne]
    exact resize_take content size

/-- A backend does not write over a directory. -/
theorem upload_over_dir {sc : UploadScript} {children : List Entry}
    (hsettled : settled sc.backend c.writeBreakers = true)
    (h : c.server.treeAt fold (joinPath folder filename) = some (.dir children)) :
    (upload fold limits sc folder filename data true c).2.server = c.server := by
  have hladder : (viaBackends (writeOp fold (joinPath folder filename) data) sc.backend
      c.writeBreakers c.server).2.2 = c.server := by
    refine viaBackends_rule _ (P := (· = c.server)) ?_ sc.backend c.writeBreakers rfl
    rintro p v rfl
    exact Volume.write_dir h
  have hsome := viaBackends_isSome (writeOp fold (joinPath folder filename) data) sc.backend
    c.writeBreakers c.server
  rw [hsettled] at hsome
  rw [upload]
  simp only [if_true]
  split
  case h_1 => exact hladder
  case h_2 hnone => rw [hnone] at hsome; cases hsome

/-- What the code reads back and resizes is what the contract asks for. -/
theorem OldOrNew.rewrite {old : Option Tree} {sc : UploadScript} {size want : ℕ} {v : Volume}
    (hserver : c.server = v)
    (hread : ∃ p, (v.read fold archive p (joinPath folder filename) 0 want).1 = .ok data)
    (hwant : want = 0 ∨ want = size)
    (hsafe : old = none ∨ settled sc.backend c.writeBreakers = true)
    (h : OldOrNew fold (joinPath folder filename) old (resize (contentOf old) size) v) :
    OldOrNew fold (joinPath folder filename) old (resize (contentOf old) size)
      (Core.upload fold limits sc folder filename (resize data size) true c).2.server := by
  subst hserver
  obtain ⟨p, hread⟩ := hread
  cases htree : c.server.treeAt fold (joinPath folder filename) with
  | none =>
      unfold Volume.read at hread
      rw [htree] at hread
      cases hread
  | some tree =>
      cases tree with
      | file content =>
          have hnew : resize data size = resize (contentOf old) size := by
            rw [read_resize htree hwant hread]
            rcases h with hold | hold
            · rw [← hold, htree]
              rfl
            · rw [htree] at hold
              obtain rfl := FileTree.file.inj (Option.some.inj hold)
              exact resize_resize _ size
          rw [hnew]
          exact h.upload hsafe
      | dir children =>
          have hold : c.server.treeAt fold (joinPath folder filename) = old := by
            rcases h with hold | hold
            · exact hold
            · rw [htree] at hold
              cases hold
          rcases hsafe with hnone | hsettled
          · rw [← hold, htree] at hnone
            cases hnone
          · rw [upload_over_dir hsettled htree]
            exact h

theorem wantedBytes_eq (current : Except SynoFsError SynoFileInfo) (size : ℕ) :
    wantedBytes current size = 0 ∨ wantedBytes current size = size := by
  unfold wantedBytes
  split
  · split
    · exact Or.inr rfl
    · exact Or.inl rfl
  · exact Or.inl rfl

theorem OldOrNew.truncateCall {old : Option Tree} {sc : TruncateScript} {size : ℕ}
    (hsafe : old = none ∨ settled sc.backend c.metadataBreakers = true ∨ filename = "" ∨
      settled sc.upload.backend c.writeBreakers = true)
    (h : OldOrNew fold (joinPath folder filename) old (resize (contentOf old) size) c.server) :
    OldOrNew fold (joinPath folder filename) old (resize (contentOf old) size)
      (Core.truncate fold archive limits sc (joinPath folder filename) size c).2.server := by
  have hladder : OldOrNew fold (joinPath folder filename) old (resize (contentOf old) size)
      (viaBackends (truncateOp fold (joinPath folder filename) size) sc.backend c.metadataBreakers
        c.server).2.2 :=
    viaBackends_rule _ (fun _ _ hv => hv.truncate) sc.backend c.metadataBreakers h
  have hsettled := viaBackends_isSome (truncateOp fold (joinPath folder filename) size) sc.backend
    c.metadataBreakers c.server
  rw [Core.truncate]
  dsimp only
  split
  case h_1 => exact hladder
  case h_2 hnone =>
    rw [hnone] at hsettled
    have hsafe' : filename = "" ∨ old = none ∨
        settled sc.upload.backend c.writeBreakers = true := by
      rcases hsafe with hfree | hsome | hname | hwrite
      · exact Or.inr (Or.inl hfree)
      · rw [← hsettled] at hsome
        cases hsome
      · exact Or.inl hname
      · exact Or.inr (Or.inr hwrite)
    rw [splitParent_joinPath]
    by_cases hname : filename = ""
    · rw [if_pos hname]
      exact hladder
    · rw [if_neg hname]
      have hsafe := hsafe'.resolve_left hname
      dsimp only
      split
      case isTrue hzero =>
        subst hzero
        rw [resize_zero, ← joinPath_trimEnd] at hladder ⊢
        exact hladder.upload hsafe
      case isFalse =>
        rw [← joinPath_trimEnd] at hladder ⊢
        split
        case h_1 =>
          rw [download_server, getInfo_server]
          exact hladder
        case h_2 data hdata =>
          have hread := download_ok hdata
          rw [getInfo_server] at hread
          refine OldOrNew.rewrite ?_ hread (wantedBytes_eq _ size) ?_ hladder
          · rw [download_server, getInfo_server]
          · rw [download_writeBreakers, getInfo, (request_breakers _ _ _).2]
            exact hsafe

/-- Everything can be read, and the upload is refused. -/
def rewriting (backend write : ℕ → BackendScript) : TruncateScript :=
  { backend := backend, info := .plain, download := ⟨declining, fun _ => .answered⟩,
    upload := ⟨write, refusing⟩ }

theorem download_declining {length : ℕ} {e : SynoFsError}
    (h : (c.server.treeAt fold path).isSome) :
    (download fold archive limits ⟨declining, fun _ => .answered⟩ path 0 length c).1 ≠
      .error e := by
  obtain ⟨attempts, hattempts⟩ := Nat.exists_eq_succ_of_ne_zero limits.attempts_pos.ne'
  obtain ⟨tree, htree⟩ := Option.isSome_iff_exists.mp h
  obtain ⟨breakers, hladder⟩ := viaBackends_declining (readOp fold archive path 0 length)
    c.readBreakers c.server
  rw [download, hladder, hattempts]
  change (c.server.read fold archive .http path 0 length).1 ≠ .error e
  unfold Volume.read
  rw [htree]
  cases tree with
  | file content => simp
  | dir children => simp

theorem truncate_rewriting {backend write : ℕ → BackendScript} {size : ℕ}
    (hbackend : settled backend c.metadataBreakers = false)
    (hwrite : settled write c.writeBreakers = false) (hname : filename ≠ "")
    (hold : c.server.treeAt fold (joinPath folder filename) ≠ none) :
    (truncate fold archive limits (rewriting backend write) (joinPath folder filename) size c).1 =
        .error (.apiError 419) ∧
      (truncate fold archive limits (rewriting backend write) (joinPath folder filename) size
        c).2.server.treeAt fold (joinPath folder filename) = none := by
  have hladder : ((viaBackends (truncateOp fold (joinPath folder filename) size) backend
      c.metadataBreakers c.server).2.2.treeAt fold (joinPath folder filename)).isSome := by
    refine viaBackends_rule _ (P := fun v : Volume =>
      (v.treeAt fold (joinPath folder filename)).isSome) ?_ backend c.metadataBreakers
      (Option.isSome_iff_ne_none.mpr hold)
    intro p v hv
    rcases Volume.treeAt_truncate fold v (joinPath folder filename) size with h | ⟨_, _, h⟩
    · exact (congrArg Option.isSome h).trans hv
    · exact congrArg Option.isSome h
  have hsettled := viaBackends_isSome (truncateOp fold (joinPath folder filename) size) backend
    c.metadataBreakers c.server
  rw [hbackend] at hsettled
  rw [truncate, splitParent_joinPath, if_neg hname]
  simp only [rewriting]
  split
  case h_1 hsome => rw [hsome] at hsettled; cases hsettled
  case h_2 =>
    rw [← joinPath_trimEnd] at hladder ⊢
    split
    case isTrue => exact upload_refusing hwrite
    case isFalse =>
      split
      case h_1 e heq =>
        refine absurd heq (download_declining ?_)
        rw [getInfo_server]
        exact hladder
      case h_2 data heq =>
        refine upload_refusing ?_
        rw [download_writeBreakers, getInfo, (request_breakers _ _ _).2]
        exact hwrite

/-! ### The contract -/

/-- A call that reports an error left the old file or the new one. -/
def FailsSafely (fold : String → String) (path : NasPath) (c : Client Volume) (data : Bytes)
    (call : Except SynoFsError Unit × Client Volume) : Prop :=
  ∀ e, call.1 = .error e →
    OldOrNew fold path (c.server.treeAt fold path) data call.2.server

theorem not_failsSafely {call : Except SynoFsError Unit × Client Volume} {e : SynoFsError}
    (hold : c.server.treeAt fold path ≠ none) (herror : call.1 = .error e)
    (hgone : call.2.server.treeAt fold path = none) : ¬ FailsSafely fold path c data call := by
  intro hsafe
  rcases hsafe e herror with h | h
  · exact hold (h.symm.trans hgone)
  · rw [hgone] at h
    cases h

/-- **A failed replace.** Whatever the HTTP path does, a replacing upload that
fails leaves the old file or the new one if, and only if, nothing stood under
the name or a write backend settles the call. So does a truncation, for which a
backend that sets lengths may settle it, and which refuses a path without a
name. -/
theorem failed_replace_safe_iff (fold : String → String) (archive : Tree → Bytes)
    (limits : TransferLimits) (c : Client Volume) (folder : NasPath) (filename : String) :
    (∀ (data : Bytes) (write : ℕ → BackendScript),
      (∀ http, FailsSafely fold (joinPath folder filename) c data
        (upload fold limits ⟨write, http⟩ folder filename data true c)) ↔
      c.server.treeAt fold (joinPath folder filename) = none ∨
        settled write c.writeBreakers = true) ∧
    ∀ (size : ℕ) (backend write : ℕ → BackendScript),
      (∀ info read http, FailsSafely fold (joinPath folder filename) c
        (resize (contentOf (c.server.treeAt fold (joinPath folder filename))) size)
        (truncate fold archive limits ⟨backend, info, read, ⟨write, http⟩⟩
          (joinPath folder filename) size c)) ↔
      c.server.treeAt fold (joinPath folder filename) = none ∨
        settled backend c.metadataBreakers = true ∨ filename = "" ∨
          settled write c.writeBreakers = true := by
  constructor
  · intro data write
    constructor
    · intro hsafe
      by_contra hcond
      obtain ⟨hold, hwrite⟩ := not_or.mp hcond
      obtain ⟨herror, hgone⟩ := upload_refusing (Bool.eq_false_iff.mpr hwrite)
      exact not_failsSafely hold herror hgone (hsafe refusing)
    · intro hcond http e _
      exact OldOrNew.upload hcond (Or.inl rfl)
  · intro size backend write
    constructor
    · intro hsafe
      by_contra hcond
      simp only [not_or] at hcond
      obtain ⟨hold, hbackend, hname, hwrite⟩ := hcond
      obtain ⟨herror, hgone⟩ := truncate_rewriting (Bool.eq_false_iff.mpr hbackend)
        (Bool.eq_false_iff.mpr hwrite) hname hold
      exact not_failsSafely hold herror hgone (hsafe _ _ _)
    · intro hcond info read http e _
      exact OldOrNew.truncateCall hcond (Or.inl rfl)

end Effects

/-! ### A file lost -/

/-- A client without backends, and one file of one byte. -/
def oneFile : Client Volume :=
  ⟨[], [], [], { root := .dir [("share", .dir [("f", .file [1])])], removals := [] }⟩

/-- Over HTTP alone, neither a replacing upload nor a truncation keeps the file
it could not replace. -/
theorem refused_replace_loses_file :
    ¬ FailsSafely id ["share", "f"] oneFile [2]
        (upload id .standard ⟨declining, refusing⟩ ["share"] "f" [2] true oneFile) ∧
      ¬ FailsSafely id ["share", "f"] oneFile []
        (truncate id (fun _ => []) .standard (rewriting declining declining) ["share", "f"] 0
          oneFile) := by
  constructor
  · exact not_failsSafely (e := .apiError 419) (by decide) rfl rfl
  · exact not_failsSafely (e := .apiError 419) (by decide) rfl rfl

end SynologyFilestation.Core
