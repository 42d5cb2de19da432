import SynologyFilestation.Core.ReplaceFile
import SynologyFilestation.Core.Removals
import SynologyFilestation.Core.UploadFromPath

/-!
What a replacing upload does to a folder that has the name.

`clear_for_overwrite` joins the folder and the name and asks for a delete that recurses. What
it takes away is what the server finds under the text that was joined: a name may be that of
a folder, may be empty, and may hold separators. A POST goes where the joined text leads.
-/

namespace SynologyFilestation.Core

open Library

/-! ### Paths as a server reads them -/

/-- What stands between the separators of a name. -/
def components (name : String) : NasPath := (name.toList.splitOn '/').map String.ofList

/-- The path that a server finds in a text: where there is nothing between two separators,
they are one. -/
def served (path : NasPath) : NasPath := (path.flatMap components).filter (· ≠ "")

/-- The folder and the name that a server finds in what they are joined to. -/
def servedAt (folder : NasPath) (filename : String) : NasPath × String :=
  (splitNasPath (served (joinPath folder filename))).getD ([], "")

/-- A name without separators. -/
def PlainName (name : String) : Prop := name ≠ "" ∧ components name = [name]

theorem served_plain {path : NasPath} (h : ∀ name ∈ path, PlainName name) : served path = path := by
  induction path with
  | nil => rfl
  | cons name path ih =>
      obtain ⟨hne, hcomponents⟩ := h name List.mem_cons_self
      have hrest := ih fun other hother => h other (List.mem_cons_of_mem _ hother)
      rw [served] at hrest ⊢
      rw [List.flatMap_cons, hcomponents, List.singleton_append, List.filter_cons_of_pos (by simpa),
        hrest]

theorem trimEnd_plain {folder : NasPath} (h : ∀ name ∈ folder, PlainName name) :
    trimEnd folder = folder := by
  rcases List.eq_nil_or_concat folder with rfl | ⟨front, last, rfl⟩
  · rfl
  · have hlast : last ≠ "" := (h last (by simp)).1
    simp [trimEnd, hlast]

/-- Plain names are read as they were written. -/
theorem servedAt_plain {folder : NasPath} {filename : String}
    (hfolder : ∀ name ∈ folder, PlainName name) (hname : PlainName filename) :
    servedAt folder filename = (folder, filename) := by
  have hall : ∀ name ∈ folder ++ [filename], PlainName name := by
    intro name hmem
    rcases List.mem_append.mp hmem with h | h
    · exact hfolder name h
    · rw [List.mem_singleton.mp h]
      exact hname
  rw [servedAt, joinPath, trimEnd_plain hfolder, served_plain hall, splitNasPath_concat,
    Option.getD_some]

section Calls

variable (fold : String → String) (archive : Tree → Bytes) (limits : TransferLimits)

/-- `upload` with `overwrite=true`, of a folder and a name as they come. -/
def uploadNamed (sc : UploadScript) (folder : NasPath) (filename : String) (data : Bytes)
    (c : Client Volume) : Except SynoFsError Unit × Client Volume :=
  let (parent, name) := servedAt folder filename
  upload fold limits sc parent name data true c

/-- `upload_from_path` with `overwrite=true`. -/
def uploadFromPathNamed {D : Type} [DecidableEq D] [ToString D] (md5 : Bytes → D)
    (sc : FromPathScript) (content : Bytes) (folder : NasPath) (filename : String)
    (s : StreamSession) : Except SynoFsError Unit × StreamSession :=
  let (parent, name) := servedAt folder filename
  uploadFromPath fold limits md5 sc content parent name true s

/-- `truncate`. A text that ends in a separator is refused when no backend has answered. -/
def truncateNamed (sc : TruncateScript) (folder : NasPath) (filename : String) (size : ℕ)
    (c : Client Volume) : Except SynoFsError Unit × Client Volume :=
  let (parent, name) := servedAt folder filename
  if filename = "" then
    let (answer, breakers, v) := viaBackends (truncateOp fold (joinPath parent name) size)
      sc.backend c.metadataBreakers c.server
    (answer.getD (.error .invalidArg), { c with metadataBreakers := breakers, server := v })
  else truncate fold archive limits sc (joinPath parent name) size c

end Calls

/-! ### What no folder is lost to -/

/-- Whether a folder stands under a path. -/
def Volume.isFolder (fold : String → String) (path : NasPath) (v : Volume) : Bool :=
  (v.treeAt fold path).any isDir

/-- No folder was removed, and over a folder the call failed and left the tree as it was. -/
structure KeepsFolders (fold : String → String) (path : NasPath) (before : Volume)
    (answer : Except SynoFsError Unit) (after : Volume) : Prop where
  removals : after.goneWith isDir = before.goneWith isDir
  refused : before.isFolder fold path = true → answer.isOk = false ∧ after.root = before.root

section Effects

variable {fold : String → String} {archive : Tree → Bytes} {limits : TransferLimits}
  {path parent : NasPath} {name : String} {v w : Volume} {c : Client Volume}

theorem Volume.exists_dir (h : v.isFolder fold path = true) :
    ∃ children, v.treeAt fold path = some (.dir children) := by
  rw [Volume.isFolder, Option.any_eq_true] at h
  obtain ⟨tree, htree, hdir⟩ := h
  cases tree with
  | file content => cases hdir
  | dir children => exact ⟨children, htree⟩

/-- What the path's own requests leave where no folder stands: no folder under the path, and
none among what was removed. -/
structure NoFolderLost (fold : String → String) (path : NasPath) (before v : Volume) : Prop where
  free : v.isFolder fold path = false
  removals : v.goneWith isDir = before.goneWith isDir

theorem NoFolderLost.of_tree (h : NoFolderLost fold path w v) {v' : Volume}
    (htree : v'.treeAt fold path = v.treeAt fold path ∨
      ∃ data, v'.treeAt fold path = some (.file data))
    (hgone : v'.goneWith isDir = v.goneWith isDir) : NoFolderLost fold path w v' := by
  refine ⟨?_, hgone.trans h.removals⟩
  rcases htree with hsame | ⟨data, hfile⟩
  · rw [Volume.isFolder, hsame]
    exact h.free
  · rw [Volume.isFolder, hfile]
    rfl

theorem NoFolderLost.remove (h : NoFolderLost fold path w v) :
    NoFolderLost fold path w (v.remove fold path) := by
  have hfile : ∀ tree, v.treeAt fold path = some tree → isDir tree = false := by
    intro tree htree
    have hfree := h.free
    rwa [Volume.isFolder, htree, Option.any_some] at hfree
  refine ⟨?_, (Volume.goneWith_remove hfile).trans h.removals⟩
  rw [Volume.isFolder, Volume.treeAt_remove]
  rfl

theorem NoFolderLost.store (h : NoFolderLost fold path w v) (data : Bytes) :
    NoFolderLost fold path w (v.store fold path data).2 := by
  cases hstore : (v.store fold path data).1 with
  | ok u =>
      obtain ⟨_, htree, hremovals⟩ := Volume.store_ok hstore
      exact h.of_tree (Or.inr ⟨data, htree⟩) (by rw [Volume.goneWith, hremovals, Volume.goneWith])
  | error e =>
      rw [Volume.store_error hstore]
      exact h

theorem NoFolderLost.write (h : NoFolderLost fold path w v) (data : Bytes) :
    NoFolderLost fold path w (v.write fold path data).2 :=
  h.of_tree ((Volume.treeAt_write fold v path data).imp_right fun hfile => ⟨data, hfile⟩)
    (gentle_write (fun _ => rfl) .backend v)

theorem Volume.goneWith_truncate {bad : Tree → Bool} (size : ℕ) :
    (v.truncate fold path size).2.goneWith bad = v.goneWith bad := by
  have hset : ∀ data, (v.setFile fold path data).removals = v.removals := by
    intro data
    unfold Volume.setFile
    split <;> rfl
  unfold Volume.truncate
  split
  · rw [Volume.goneWith, hset, Volume.goneWith]
  · rfl
  · rfl

theorem NoFolderLost.truncate (h : NoFolderLost fold path w v) (size : ℕ) :
    NoFolderLost fold path w (v.truncate fold path size).2 :=
  h.of_tree ((Volume.treeAt_truncate fold v path size).imp_right fun ⟨_, _, hfile⟩ => ⟨_, hfile⟩)
    (Volume.goneWith_truncate size)

theorem NoFolderLost.keepsFolders (hfree : w.isFolder fold path = false)
    (h : NoFolderLost fold path w v) (answer : Except SynoFsError Unit) :
    KeepsFolders fold path w answer v :=
  ⟨h.removals, fun hfolder => by rw [hfree] at hfolder; cases hfolder⟩

/-- A folder that is gone was not kept. -/
theorem not_keepsFolders {answer : Except SynoFsError Unit} (hfolder : w.isFolder fold path = true)
    (hgone : v.treeAt fold path = none) : ¬ KeepsFolders fold path w answer v := by
  intro hkeeps
  obtain ⟨_, hroot⟩ := hkeeps.refused hfolder
  obtain ⟨children, htree⟩ := Volume.exists_dir hfolder
  have hsame : v.treeAt fold path = w.treeAt fold path := by
    rw [Volume.treeAt, Volume.entryAt_eq_entryIn, hroot, ← Volume.entryAt_eq_entryIn]
    rfl
  rw [hsame, htree] at hgone
  cases hgone

/-! ### The calls -/

theorem clear_rule {P : Volume → Prop}
    (hremove : ∀ v, P v → P (v.remove fold (joinPath parent name))) (sc : ClearScript)
    (h : P c.server) :
    P (clearForOverwrite fold sc parent name c).server := by
  rcases @clearForOverwrite_server fold parent name c sc
    with hkeep | hgone
  · rw [hkeep]
    exact h
  · rw [hgone]
    exact hremove _ h

/-- **The upload rule.** What a backend's write, the removal of the name and a store under it
keep, a replacing upload keeps. -/
theorem upload_rule {P : Volume → Prop} {data : Bytes}
    (hwrite : ∀ v, P v → P (v.write fold (joinPath parent name) data).2)
    (hremove : ∀ v, P v → P (v.remove fold (joinPath parent name)))
    (hstore : ∀ v, P v → P (v.store fold (joinPath parent name) data).2)
    (sc : UploadScript) (h : P c.server) :
    P (upload fold limits sc parent name data true c).2.server := by
  have hladder : P (viaBackends (writeOp fold (joinPath parent name) data) sc.backend
      c.writeBreakers c.server).2.2 :=
    viaBackends_rule _ (fun _ v hv => hwrite v hv) sc.backend c.writeBreakers h
  rw [upload]
  simp only [if_true]
  split
  case h_1 => exact hladder
  case h_2 =>
    exact httpUploadFrom_rule true (fun sc _ hc => clear_rule hremove sc hc) hstore _ _ _ _ hladder

/-- Over a folder the backends do nothing, and an answer of theirs is no success. -/
theorem viaBackends_over_folder {scripts : ℕ → BackendScript} {breakers : List CircuitBreaker}
    {op : Operation Volume Unit} (hquiet : ∀ p, (op.run p v).2 = v)
    (herror : ∀ p, (op.run p v).1.isOk = false) :
    (viaBackends op scripts breakers v).2.2 = v ∧
      ∀ r, (viaBackends op scripts breakers v).1 = some r → r.isOk = false := by
  refine ⟨viaBackends_quiet hquiet scripts breakers, fun r hr => ?_⟩
  cases r with
  | error e => rfl
  | ok u =>
      obtain ⟨p, hrun⟩ := viaBackends_ok hquiet hr
      have hnot := herror p
      rw [hrun] at hnot
      cases hnot

theorem Volume.write_folder {data : Bytes} (h : v.isFolder fold path = true) :
    (v.write fold path data).2 = v ∧ (v.write fold path data).1.isOk = false := by
  obtain ⟨children, htree⟩ := Volume.exists_dir h
  have hsame := @Volume.write_dir _ _ _ data _ htree
  refine ⟨hsame, ?_⟩
  cases hwrite : (v.write fold path data).1 with
  | error e => rfl
  | ok u =>
      have hfile := Volume.write_ok hwrite
      rw [hsame, htree] at hfile
      cases hfile

theorem Volume.truncate_folder {size : ℕ} (h : v.isFolder fold path = true) :
    (v.truncate fold path size).2 = v ∧ (v.truncate fold path size).1.isOk = false := by
  obtain ⟨children, htree⟩ := Volume.exists_dir h
  rw [Volume.truncate, htree]
  exact ⟨rfl, rfl⟩

theorem write_over_folder (h : v.isFolder fold path = true) (data : Bytes)
    (scripts : ℕ → BackendScript) (breakers : List CircuitBreaker) :
    (viaBackends (writeOp fold path data) scripts breakers v).2.2 = v ∧
      ∀ r, (viaBackends (writeOp fold path data) scripts breakers v).1 = some r →
        r.isOk = false :=
  viaBackends_over_folder (fun _ => (Volume.write_folder h).1) fun _ => (Volume.write_folder h).2

theorem truncate_over_folder (h : v.isFolder fold path = true) (size : ℕ)
    (scripts : ℕ → BackendScript) (breakers : List CircuitBreaker) :
    (viaBackends (truncateOp fold path size) scripts breakers v).2.2 = v ∧
      ∀ r, (viaBackends (truncateOp fold path size) scripts breakers v).1 = some r →
        r.isOk = false :=
  viaBackends_over_folder (fun _ => (Volume.truncate_folder h).1)
    fun _ => (Volume.truncate_folder h).2

/-- A backend that settles an upload over a folder refuses it. -/
theorem keepsFolders_upload_settled {sc : UploadScript} {data : Bytes}
    (hfolder : c.server.isFolder fold (joinPath parent name) = true)
    (hsettled : settled sc.backend c.writeBreakers = true) :
    KeepsFolders fold (joinPath parent name) c.server
      (upload fold limits sc parent name data true c).1
      (upload fold limits sc parent name data true c).2.server := by
  obtain ⟨hserver, hanswer⟩ := write_over_folder hfolder data sc.backend c.writeBreakers
  have hsome := viaBackends_isSome (writeOp fold (joinPath parent name) data) sc.backend
    c.writeBreakers c.server
  rw [hsettled] at hsome
  rw [upload]
  simp only [if_true]
  split
  case h_1 r hr =>
    dsimp only
    rw [hserver]
    exact ⟨rfl, fun _ => ⟨hanswer r hr, rfl⟩⟩
  case h_2 hnone => rw [hnone] at hsome; cases hsome

theorem keepsFolders_upload_iff (c : Client Volume) (data : Bytes) (write : ℕ → BackendScript) :
    (∀ http, KeepsFolders fold (joinPath parent name) c.server
      (upload fold limits ⟨write, http⟩ parent name data true c).1
      (upload fold limits ⟨write, http⟩ parent name data true c).2.server) ↔
    c.server.isFolder fold (joinPath parent name) = false ∨
      settled write c.writeBreakers = true := by
  constructor
  · intro hkeeps
    by_contra hcond
    obtain ⟨hfolder, hwrite⟩ := not_or.mp hcond
    exact not_keepsFolders (Bool.not_eq_false _ ▸ hfolder)
      (upload_refusing (Bool.eq_false_iff.mpr hwrite)).2 (hkeeps refusing)
  · intro hcond http
    cases hfolder : c.server.isFolder fold (joinPath parent name) with
    | true =>
        rw [hfolder] at hcond
        exact keepsFolders_upload_settled hfolder (hcond.resolve_left (by simp))
    | false =>
        have hlost : NoFolderLost fold (joinPath parent name) c.server
            (upload fold limits ⟨write, http⟩ parent name data true c).2.server :=
          upload_rule (fun _ hv => hv.write data) (fun _ hv => hv.remove)
            (fun _ hv => hv.store data) _ ⟨hfolder, rfl⟩
        exact hlost.keepsFolders hfolder _

theorem truncate_rule {P : Volume → Prop}
    (htruncate : ∀ v size, P v → P (v.truncate fold (joinPath parent name) size).2)
    (hwrite : ∀ v data, P v → P (v.write fold (joinPath parent name) data).2)
    (hremove : ∀ v, P v → P (v.remove fold (joinPath parent name)))
    (hstore : ∀ v data, P v → P (v.store fold (joinPath parent name) data).2)
    (sc : TruncateScript) (size : ℕ) (h : P c.server) :
    P (truncate fold archive limits sc (joinPath parent name) size c).2.server := by
  have hladder : P (viaBackends (truncateOp fold (joinPath parent name) size) sc.backend
      c.metadataBreakers c.server).2.2 :=
    viaBackends_rule _ (fun _ v hv => htruncate v size hv) sc.backend c.metadataBreakers h
  have hupload : ∀ (d : Client Volume) (data : Bytes), P d.server →
      P (upload fold limits sc.upload (trimEnd parent) name data true d).2.server := by
    intro d data hd
    refine upload_rule ?_ ?_ ?_ sc.upload hd
    · simpa only [joinPath_trimEnd] using fun v hv => hwrite v data hv
    · simpa only [joinPath_trimEnd] using hremove
    · simpa only [joinPath_trimEnd] using fun v hv => hstore v data hv
  rw [truncate, splitParent_joinPath]
  dsimp only
  split
  case h_1 => exact hladder
  case h_2 =>
    by_cases hname : name = ""
    · rw [if_pos hname]
      exact hladder
    · rw [if_neg hname]
      dsimp only
      split
      case isTrue => exact hupload _ _ hladder
      case isFalse =>
        split
        case h_1 => simpa only [download_server, getInfo_server] using hladder
        case h_2 =>
          apply hupload
          simpa only [download_server, getInfo_server] using hladder

theorem keepsFolders_truncate_ladder {scripts : ℕ → BackendScript} {size : ℕ}
    {breakers : List CircuitBreaker} (hfolder : v.isFolder fold path = true)
    {answer : Except SynoFsError Unit}
    (hanswer : ∀ r, (viaBackends (truncateOp fold path size) scripts breakers v).1 = some r →
      answer = r)
    (hnone : (viaBackends (truncateOp fold path size) scripts breakers v).1 = none →
      answer.isOk = false) :
    KeepsFolders fold path v answer
      (viaBackends (truncateOp fold path size) scripts breakers v).2.2 := by
  obtain ⟨hserver, hrefused⟩ := truncate_over_folder hfolder size scripts breakers
  rw [hserver]
  refine ⟨rfl, fun _ => ⟨?_, rfl⟩⟩
  cases hvia : (viaBackends (truncateOp fold path size) scripts breakers v).1 with
  | none => exact hnone hvia
  | some r =>
      rw [hanswer r hvia]
      exact hrefused r hvia

theorem getInfo_writeBreakers {sc : RequestScript} :
    (getInfo fold sc path c).2.writeBreakers = c.writeBreakers := by
  rw [getInfo, (request_breakers _ _ _).2]

/-- A truncation over a folder that a backend settles, or whose rewrite one settles. -/
theorem keepsFolders_truncate_settled {sc : TruncateScript} {size : ℕ}
    (hfolder : c.server.isFolder fold (joinPath parent name) = true)
    (hcond : settled sc.backend c.metadataBreakers = true ∨ name = "" ∨
      settled sc.upload.backend c.writeBreakers = true) :
    KeepsFolders fold (joinPath parent name) c.server
      (truncate fold archive limits sc (joinPath parent name) size c).1
      (truncate fold archive limits sc (joinPath parent name) size c).2.server := by
  obtain ⟨hserver, hrefused⟩ := truncate_over_folder hfolder size sc.backend
    c.metadataBreakers
  have hsome := viaBackends_isSome (truncateOp fold (joinPath parent name) size) sc.backend
    c.metadataBreakers c.server
  have hupload : ∀ (d : Client Volume) (data : Bytes), d.server = c.server →
      settled sc.upload.backend d.writeBreakers = true →
      KeepsFolders fold (joinPath parent name) c.server
        (upload fold limits sc.upload (trimEnd parent) name data true d).1
        (upload fold limits sc.upload (trimEnd parent) name data true d).2.server := by
    intro d data hd hsettled
    rw [← hd, ← joinPath_trimEnd]
    exact keepsFolders_upload_settled (by rw [joinPath_trimEnd, hd]; exact hfolder) hsettled
  rw [truncate, splitParent_joinPath]
  dsimp only
  split
  case h_1 r hr =>
    dsimp only
    rw [hserver]
    exact ⟨rfl, fun _ => ⟨hrefused r hr, rfl⟩⟩
  case h_2 hnone =>
    rw [hnone] at hsome
    have hcond := hcond.resolve_left (by rw [← hsome]; simp)
    by_cases hname : name = ""
    · rw [if_pos hname]
      dsimp only
      rw [hserver]
      exact ⟨rfl, fun _ => ⟨rfl, rfl⟩⟩
    · rw [if_neg hname]
      have hwrite := hcond.resolve_left hname
      dsimp only
      split
      case isTrue => exact hupload _ _ hserver hwrite
      case isFalse =>
        split
        case h_1 =>
          dsimp only
          rw [download_server, getInfo_server, hserver]
          exact ⟨rfl, fun _ => ⟨rfl, rfl⟩⟩
        case h_2 =>
          apply hupload
          · rw [download_server, getInfo_server, hserver]
          · rw [download_writeBreakers, getInfo_writeBreakers]
            exact hwrite

theorem keepsFolders_truncate_iff (c : Client Volume) (size : ℕ)
    (backend write : ℕ → BackendScript) :
    (∀ info read http, KeepsFolders fold (joinPath parent name) c.server
      (truncate fold archive limits ⟨backend, info, read, ⟨write, http⟩⟩ (joinPath parent name)
        size c).1
      (truncate fold archive limits ⟨backend, info, read, ⟨write, http⟩⟩ (joinPath parent name)
        size c).2.server) ↔
    c.server.isFolder fold (joinPath parent name) = false ∨
      settled backend c.metadataBreakers = true ∨ name = "" ∨
        settled write c.writeBreakers = true := by
  constructor
  · intro hkeeps
    by_contra hcond
    simp only [not_or] at hcond
    obtain ⟨hfolder, hbackend, hname, hwrite⟩ := hcond
    have hfolder := Bool.not_eq_false _ ▸ hfolder
    obtain ⟨children, htree⟩ := Volume.exists_dir hfolder
    have hgone := (@truncate_rewriting fold archive limits _ _ _ _ _ size
      (Bool.eq_false_iff.mpr hbackend) (Bool.eq_false_iff.mpr hwrite) hname
      (by rw [htree]; simp)).2
    exact not_keepsFolders hfolder hgone (hkeeps _ _ _)
  · intro hcond info read http
    cases hfolder : c.server.isFolder fold (joinPath parent name) with
    | true =>
        rw [hfolder] at hcond
        exact keepsFolders_truncate_settled hfolder (hcond.resolve_left (by simp))
    | false =>
        have hlost : NoFolderLost fold (joinPath parent name) c.server
            (truncate fold archive limits ⟨backend, info, read, ⟨write, http⟩⟩
              (joinPath parent name) size c).2.server :=
          truncate_rule (fun _ size hv => hv.truncate size) (fun _ data hv => hv.write data)
            (fun _ hv => hv.remove) (fun _ data hv => hv.store data) _ size ⟨hfolder, rfl⟩
        exact hlost.keepsFolders hfolder _

/-! ### Slices and streams -/

section Slices

variable {P : Volume → Prop} {content : Bytes}
  (hremove : ∀ v, P v → P (v.remove fold (joinPath parent name)))
  (hstore : ∀ v data, P v → P (v.store fold (joinPath parent name) data).2)

include hstore

theorem take_rule {s : SliceSession} (h : P s.client.server) (trims last : Bool) (chunk : Bytes)
    (total : ℕ) (tmpfile : Option ℕ) :
    P (s.take fold (joinPath parent name) trims chunk total last tmpfile).2.client.server := by
  have hgrow : ∀ t handles grown, P (s.grow fold (joinPath parent name) trims total last t handles
      grown).2.client.server := by
    intro t handles grown
    have hpublish := hstore s.client.server (if trims then grown.take total else grown) h
    unfold SliceSession.grow
    cases last with
    | false => exact h
    | true =>
        simp only [if_true]
        cases hpublished :
            publish fold (joinPath parent name) trims total grown s.client.server with
        | mk r v =>
            rw [publish] at hpublished
            rw [hpublished] at hpublish
            cases r with
            | ok u => exact hpublish
            | error e => exact h
  unfold SliceSession.take
  split
  case h_1 => exact hgrow ..
  case h_2 =>
    split
    case h_1 => exact h
    case h_2 => exact hgrow ..

theorem sendSlice_rule {s : SliceSession} (h : P s.client.server) (sc : SliceScript)
    (chunk : Bytes) (total : ℕ) (last : Bool) (tmpfile : Option ℕ) :
    P (sendSlice fold (joinPath parent name) sc chunk total last tmpfile s).2.client.server := by
  have htaken := take_rule hstore (s := { s with sent := s.sent + 1 }) h sc.trims last chunk total
    tmpfile
  unfold sendSlice
  dsimp only
  cases sc.fate with
  | unreached message => exact h
  | lost landed message => cases landed <;> [exact h; exact htaken]
  | refused landed code => cases landed <;> [exact h; exact htaken]
  | garbled landed message => cases landed <;> [exact h; exact htaken]
  | answered names =>
      dsimp only
      split <;> exact htaken

theorem sendUntilTaken_rule (sc : ℕ → SliceScript) (chunk : Bytes) (total : ℕ) (last : Bool)
    (tmpfile : Option ℕ) (attempt left : ℕ) (unverified : Bool) {s : SliceSession}
    (h : P s.client.server) :
    P (sendUntilTaken fold (joinPath parent name) sc chunk total last tmpfile attempt left
      unverified s).2.2.client.server := by
  induction left generalizing attempt unverified s with
  | zero => exact h
  | succ left ih =>
      have hsent := sendSlice_rule hstore h (sc attempt) chunk total last tmpfile
      rw [sendUntilTaken]
      cases hslice : sendSlice fold (joinPath parent name) (sc attempt) chunk total last tmpfile s
        with
      | mk r t =>
          rw [hslice] at hsent
          rcases r with (e | ⟨e, mayHaveLanded, hard⟩) | answered
          · exact hsent
          · dsimp only
            split
            · exact hsent
            · exact ih _ _ hsent
          · exact hsent

theorem sendPass_rule (read : ℕ → Option String) (sc : ℕ → ℕ → SliceScript) (index left : ℕ)
    (tmpfile : Option ℕ) (unverified : Bool) {s : SliceSession} (h : P s.client.server) :
    P (sendPass fold limits (joinPath parent name) read sc content index left tmpfile unverified
      s).2.client.server := by
  induction left generalizing index tmpfile unverified s with
  | zero => exact h
  | succ left ih =>
      rw [sendPass]
      cases read index with
      | some why => exact h
      | none =>
          have hsent := sendUntilTaken_rule hstore (sc index)
            (sliceOf content limits.sliceSize index) content.length (left = 0) tmpfile 0
            limits.maxAttempts unverified h
          dsimp only
          cases hslice : sendUntilTaken fold (joinPath parent name) (sc index)
              (sliceOf content limits.sliceSize index) content.length (left = 0) tmpfile 0
              limits.maxAttempts unverified s with
          | mk outcome rest =>
              obtain ⟨unverified', t⟩ := rest
              rw [hslice] at hsent
              cases outcome with
              | gaveUp e => exact hsent
              | refused e =>
                  dsimp only
                  split <;> exact hsent
              | taken answered =>
                  dsimp only
                  split
                  · exact hsent
                  · cases answered with
                    | none => exact hsent
                    | some t' => exact ih _ _ _ hsent

include hremove

theorem sendFile_rule (sc : SliceUploadScript) (restarts left : ℕ) {s : SliceSession}
    (h : P s.client.server) :
    P (sendFile fold limits sc content parent name restarts left s).2.client.server := by
  induction left generalizing restarts s with
  | zero => exact h
  | succ left ih =>
      have hpass := @sendPass_rule _ limits _ _ _ content hstore (sc.read restarts)
        (sc.slice restarts) 0 (limits.slices content.length) none false _ h
      rw [sendFile]
      cases hsent : sendPass fold limits (joinPath parent name) (sc.read restarts)
          (sc.slice restarts) content 0 (limits.slices content.length) none false s with
      | mk outcome t =>
          rw [hsent] at hpass
          cases outcome with
          | finished unverified => exact hpass
          | failed e => exact hpass
          | rejected e =>
              have hrestart : P (restartSliceUpload fold (sc.restart restarts) parent name
                  content.length t.client).2.server := by
                unfold restartSliceUpload
                dsimp only
                have hinfo : P (getInfo fold (sc.restart restarts).info (joinPath parent name)
                    t.client).2.server := by
                  rw [getInfo_server]
                  exact hpass
                split
                · exact hinfo
                · have hclear := clear_rule hremove (sc.restart restarts).clear hinfo
                  split <;> exact hclear
              dsimp only
              split
              · exact hpass
              · cases hfound : restartSliceUpload fold (sc.restart restarts) parent name
                    content.length t.client with
                | mk found c' =>
                    rw [hfound] at hrestart
                    rcases found with e | (_ | _)
                    · exact hrestart
                    · exact hrestart
                    · exact ih _ hrestart

omit hstore in
/-- What comes after the last slice removes nothing but the name. -/
theorem verifyUpload_rule {D : Type} [DecidableEq D] [ToString D] {md5 : Bytes → D}
    (sc : VerifyScript) (hashIt : Bool) (h : P c.server) :
    P (verifyUpload fold (joinPath parent name) md5 sc content hashIt c).2.server := by
  have hreject : ∀ (d : Client Volume) (why : String), P d.server →
      P (rejectUpload fold (joinPath parent name) sc.delete why d).2.server := by
    intro d why hd
    rcases @delete_server fold sc.delete (joinPath parent name) d
      with hkeep | hgone
    · exact hkeep ▸ hd
    · exact hgone ▸ hremove _ hd
  have hsize : P (settledSize fold (joinPath parent name) sc content.length c).2.server := by
    unfold settledSize landedSize
    dsimp only
    split
    · simpa only [getInfo_server] using h
    · simpa only [getInfo_server] using h
  unfold verifyUpload
  dsimp only
  split
  · exact hreject _ _ hsize
  · split
    · unfold verifyHash
      dsimp only
      split
      · exact hsize
      · exact hsize
      · split
        · split
          · exact hsize
          · split
            · exact hsize
            · exact hreject _ _ hsize
        · exact hsize
    · exact hsize

theorem httpSliceUpload_rule {D : Type} [DecidableEq D] [ToString D] {md5 : Bytes → D}
    (sc : SliceUploadScript) {s : SliceSession} (h : P s.client.server) :
    P (httpSliceUpload fold limits md5 sc content parent name true s).2.client.server := by
  have hclear := clear_rule hremove sc.clear h
  rw [httpSliceUpload]
  simp only [if_true]
  split
  · exact hclear
  · have hsent := @sendFile_rule _ limits _ _ _ content hremove hstore sc 0 limits.maxAttempts
      { s with client := clearForOverwrite fold sc.clear parent name s.client } hclear
    split
    case h_1 e t heq =>
      rw [heq] at hsent
      exact hsent
    case h_2 unverified t heq =>
      rw [heq] at hsent
      exact verifyUpload_rule hremove sc.verify unverified hsent

theorem uploadFromPathHttp_rule {D : Type} [DecidableEq D] [ToString D] {md5 : Bytes → D}
    (sc : FromPathScript) {s : SliceSession} (h : P s.client.server) :
    P (uploadFromPathHttp fold limits md5 sc content parent name true s).2.client.server := by
  unfold uploadFromPathHttp
  dsimp only
  split
  case h_1 => exact h
  case h_2 =>
    split
    case isTrue => exact httpSliceUpload_rule hremove hstore sc.slices h
    case isFalse =>
      split
      case h_1 => exact h
      case h_2 =>
        exact httpUploadFrom_rule true (fun sc _ hc => clear_rule hremove sc hc)
          (fun v => hstore v content) _ _ _ _ h

end Slices

section Streams

/-- Backends that are known by another name are asked alike. -/
theorem viaTransports_map {S T T' α : Type} (f : T → T') (call : T' → S → Except SynoFsError α × S)
    (asked told : T' → S → ℕ) (entries : List (TransportEntry T)) (s : S) :
    viaTransports call asked told (entries.map fun e => ⟨f e.transport, e.breaker⟩) s =
      let r := viaTransports (fun t => call (f t)) (fun t => asked (f t)) (fun t => told (f t))
        entries s
      (r.1, r.2.1.map fun e => ⟨f e.transport, e.breaker⟩, r.2.2) := by
  induction entries generalizing s with
  | nil => rfl
  | cons entry rest ih =>
      rw [List.map_cons, viaTransports, viaTransports]
      dsimp only
      cases entry.breaker.allows (asked (f entry.transport) s) with
      | mk allowed breaker =>
          cases allowed with
          | false =>
              dsimp only
              rw [ih]
              rfl
          | true =>
              dsimp only
              cases call (f entry.transport) s with
              | mk r s' =>
                  cases r with
                  | ok v => rfl
                  | error e =>
                      dsimp only
                      split
                      · rw [ih]
                        rfl
                      · split
                        · rw [ih]
                          rfl
                        · rfl

/-- A stream that may replace is asked like a backend that writes. -/
theorem viaStreams_replacing (content : Bytes) (scripts : ℕ → StreamScript)
    (breakers : List CircuitBreaker) (v : Volume) :
    viaStreams fold path content true scripts breakers v =
      viaBackends (writeOp fold path content) (fun i => (scripts i).toBackendScript) breakers
        v := by
  have hback : ∀ r, viaTransports (askBackend (writeOp fold path content)) (fun b _ => b.asked)
      (fun b _ => b.told) ((breakers.zipIdx.map fun p => (⟨scripts p.2, p.1⟩ :
        TransportEntry StreamScript)).map fun e => ⟨e.transport.toBackendScript, e.breaker⟩) v =
      r → viaBackends (writeOp fold path content) (fun i => (scripts i).toBackendScript) breakers
        v = (r.1, r.2.1.map (·.breaker), r.2.2) := by
    rintro _ rfl
    rw [List.map_map]
    rfl
  rw [hback _ (viaTransports_map StreamScript.toBackendScript ..), viaStreams]
  simp only [List.map_map]
  rfl

variable {D : Type} [DecidableEq D] [ToString D] {md5 : Bytes → D} {content : Bytes}

/-- The name is cleared, and then the local file cannot be opened. -/
def clearingOnly : SliceUploadScript :=
  { clear := ⟨.plain, fun _ => .plain⟩
    openFile := some "No such file or directory"
    read := fun _ _ => none
    slice := fun _ _ _ => ⟨.answered true, false⟩
    restart := fun _ => ⟨.plain, ⟨.plain, fun _ => .plain⟩, none⟩
    verify := ⟨.plain, .plain, .answered, none, .plain⟩ }

/-- In slices or in one piece, the name may be cleared and nothing stored. -/
theorem treeAt_uploadFromPathHttp (stream : ℕ → StreamScript) (s : SliceSession) :
    (uploadFromPathHttp fold limits md5 ⟨stream, none, none, clearingOnly, refusing⟩ content parent
      name true s).2.client.server.treeAt fold (joinPath parent name) = none := by
  unfold uploadFromPathHttp
  dsimp only
  split
  case isTrue =>
    simp only [httpSliceUpload, clearingOnly, if_true, clearForOverwrite_plain]
    exact Volume.treeAt_remove
  case isFalse => exact (httpUpload_refusing _).2

theorem keepsFolders_uploadFromPath_iff (s : StreamSession) (stream : ℕ → StreamScript) :
    (∀ stat read slices http, KeepsFolders fold (joinPath parent name) s.client.server
      (uploadFromPath fold limits md5 ⟨stream, stat, read, slices, http⟩ content parent name true
        s).1
      (uploadFromPath fold limits md5 ⟨stream, stat, read, slices, http⟩ content parent name true
        s).2.client.server) ↔
    s.client.server.isFolder fold (joinPath parent name) = false ∨
      settled (fun i => (stream i).toBackendScript) s.streamBreakers = true := by
  have hsome := viaBackends_isSome (writeOp fold (joinPath parent name) content)
    (fun i => (stream i).toBackendScript) s.streamBreakers s.client.server
  constructor
  · intro hkeeps
    by_contra hcond
    obtain ⟨hfolder, hstream⟩ := not_or.mp hcond
    rw [Bool.eq_false_iff.mpr hstream] at hsome
    refine not_keepsFolders (Bool.not_eq_false _ ▸ hfolder) ?_
      (hkeeps none none clearingOnly refusing)
    rw [uploadFromPath, viaStreams_replacing]
    dsimp only
    split
    case h_1 heq => rw [heq] at hsome; cases hsome
    case h_2 => exact treeAt_uploadFromPathHttp stream _
  · intro hcond stat read slices http
    rw [uploadFromPath, viaStreams_replacing]
    dsimp only
    cases hfolder : s.client.server.isFolder fold (joinPath parent name) with
    | true =>
        rw [hfolder] at hcond
        have hsettled := hcond.resolve_left (by simp)
        obtain ⟨hserver, hanswer⟩ := write_over_folder hfolder content
          (fun i => (stream i).toBackendScript) s.streamBreakers
        rw [hsettled] at hsome
        split
        case h_1 r hr =>
          dsimp only
          rw [hserver]
          exact ⟨rfl, fun _ => ⟨hanswer r hr, rfl⟩⟩
        case h_2 hnone => rw [hnone] at hsome; cases hsome
    | false =>
        have hladder : NoFolderLost fold (joinPath parent name) s.client.server
            (viaBackends (writeOp fold (joinPath parent name) content)
              (fun i => (stream i).toBackendScript) s.streamBreakers s.client.server).2.2 :=
          viaBackends_rule _ (fun _ _ hv => hv.write content) _ s.streamBreakers ⟨hfolder, rfl⟩
        split
        case h_1 => exact hladder.keepsFolders hfolder _
        case h_2 =>
          exact NoFolderLost.keepsFolders hfolder (uploadFromPathHttp_rule (fun _ hv => hv.remove)
            (fun _ data hv => hv.store data) ⟨stream, stat, read, slices, http⟩ hladder) _

end Streams

/-- A text that ends in a separator gets no further than the backends. -/
theorem keepsFolders_truncateNamed_nameless (c : Client Volume) (folder : NasPath) (size : ℕ)
    (sc : TruncateScript) :
    let path := joinPath (servedAt folder "").1 (servedAt folder "").2
    KeepsFolders fold path c.server (truncateNamed fold archive limits sc folder "" size c).1
      (truncateNamed fold archive limits sc folder "" size c).2.server := by
  intro path
  simp only [truncateNamed, if_true]
  cases hfolder : c.server.isFolder fold path with
  | true =>
      refine keepsFolders_truncate_ladder hfolder (fun r hr => ?_) (fun hnone => ?_)
      · rw [hr]
        rfl
      · rw [hnone]
        rfl
  | false =>
      have hladder : NoFolderLost fold path c.server (viaBackends (truncateOp fold path size)
          sc.backend c.metadataBreakers c.server).2.2 :=
        viaBackends_rule _ (fun _ _ hv => hv.truncate size) _ c.metadataBreakers ⟨hfolder, rfl⟩
      exact hladder.keepsFolders hfolder _

end Effects

/-! ### A folder lost -/

/-- A client without backends, and a folder with a file in it. -/
def onePhoto : Client Volume :=
  ⟨[], [], [], { root := .dir [("share", .dir [("photos", .dir [("a", .file [1])])])],
                 removals := [] }⟩

/-- Every request is answered. -/
def answering : UploadScript :=
  ⟨declining, fun _ => ⟨⟨.plain, fun _ => .plain⟩, .answered⟩⟩

end SynologyFilestation.Core
