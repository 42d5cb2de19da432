import SynologyFilestation.Core.OverwrittenFolders
import SynologyFilestation.Fuse.Destructive
import SynologyFilestation.Fuse.Winfs

/-!
Moves to another directory that are made by copying (`copy_across_dirs` in
`fuse/src/fs/transfer.rs`, and the second half of `rename` in `fuse/src/winfs.rs` and in
`fuse/src/webdav.rs`): the source is downloaded, uploaded under the new name, and deleted.

The mount asks for the whole file. The other two ask for as many bytes as the file was said to
have, and others may have written to it since.

A run may end at any step, so what holds of every run's end holds at every point of a run.
-/

namespace SynologyFilestation.Fuse

open Core Library

/-- A rename within the directory, or a copy: what becomes of the question for the size, whether
its answer has the size, and what others do before the download. -/
structure FrontRenameScript where
  rename : RequestScript
  info : RequestScript
  sized : Bool
  meanwhile : Volume → Volume

section Calls

variable (fold : String → String) (archive : Tree → Bytes) (limits : TransferLimits)

/-- What the three have in common. -/
def copyThenDelete (sc : CopyScript) (source : NasPath) (length : ℕ) (toParent : NasPath)
    (toName : String) (c : Client Volume) : Except SynoFsError Unit × Client Volume :=
  let (data, c) := download fold archive limits sc.download source 0 length c
  match data with
  | .error e => (.error e, c)
  | .ok data =>
      let (uploaded, c) := upload fold limits sc.upload toParent toName data true c
      match uploaded with
      | .error e => (.error e, c)
      | .ok () => delete fold sc.delete source c

/-- As many bytes as are asked for: all of them where the answer has no size. -/
def askedLength (sized : Bool) (info : SynoFileInfo) : ℕ :=
  (if sized then info.size else none).getD 0

/-- The copy of a front end that asks for the size first, with its own errors. -/
def moveByCopy {E : Type} (toError : SynoFsError → E) (onFolder : E) (sc : FrontRenameScript)
    (copy : CopyScript) (source toParent : NasPath) (toName : String) (c : Client Volume) :
    Except E Unit × Client Volume :=
  let (info, c) := getInfo fold sc.info source c
  let c := { c with server := sc.meanwhile c.server }
  match info with
  | .error e => (.error (toError e), c)
  | .ok info =>
      if info.isdir then (.error onFolder, c)
      else
        let (r, c) := copyThenDelete fold archive limits copy source
          (askedLength sc.sized info) toParent toName c
        (r.mapError toError, c)

/-- `SynologyDavFs::rename`. -/
def davRename (sc : FrontRenameScript) (copy : CopyScript) (source target : NasPath)
    (c : Client Volume) : Except FsError Unit × Client Volume :=
  let (fromParent, _) := splitPath source
  let (toParent, toName) := splitPath target
  if fromParent = toParent then
    let (r, c) := Core.rename fold sc.rename source toName c
    ((r.map fun _ => ()).mapError synoErr, c)
  else moveByCopy fold archive limits synoErr .notImplemented sc copy source toParent toName c

/-- `eq_ignore_ascii_case`, of paths. -/
def eqIgnoreAsciiCase (p q : NasPath) : Bool :=
  p.map (·.map Char.toLower) = q.map (·.map Char.toLower)

/-- `SynologyWinFs::rename` of a context that has nothing buffered. The flag is not looked at. -/
def winRename (sc : FrontRenameScript) (copy : CopyScript) (source target : NasPath)
    (_replaceIfExists : Bool) (c : Client Volume) : Except FspError Unit × Client Volume :=
  let (fromParent, _) := splitPath source
  let (toParent, toName) := splitPath target
  let sameDir := eqIgnoreAsciiCase fromParent toParent
  let uploadParent := if sameDir then fromParent else toParent
  if sameDir then
    let (r, c) := Core.rename fold sc.rename source toName c
    ((r.map fun _ => ()).mapError synoToFsp, c)
  else
    moveByCopy fold archive limits synoToFsp (.ntstatus statusUnsuccessful) sc copy source
      uploadParent toName c

end Calls

/-! ### What is kept -/

/-- What the source holds is found whole under one of the two names. -/
def KeepsContent (fold : String → String) (source target : NasPath) (v w : Volume) : Prop :=
  ∀ content, v.treeAt fold source = some (.file content) →
    w.treeAt fold source = some (.file content) ∨ w.treeAt fold target = some (.file content)

/-- Neither is the source under the target, nor is less copied than it holds, unless a file is
where the target's folder would be. -/
def CopySafe (fold : String → String) (v : Volume) (source toParent : NasPath) (toName : String)
    (length : ℕ) : Prop :=
  ∀ content, v.treeAt fold source = some (.file content) →
    ¬ (joinPath toParent toName).map fold <+: source.map fold ∧
      (length = 0 ∨ content.length ≤ length ∨ FileOnWay fold v (trimEnd toParent))

section Files

variable {fold : String → String} {limits : TransferLimits} {archive : Tree → Bytes}
  {v w : Volume} {c : Client Volume} {path source target dir folder : NasPath}
  {name filename : String} {content data : Bytes}

/-- A file that is seen as it was is there. -/
theorem file_of_seen (hseen : w.root.seen fold path = v.root.seen fold path)
    (h : v.treeAt fold path = some (.file content)) :
    w.treeAt fold path = some (.file content) := by
  have hcontent := @Volume.content_seen fold w path
  rw [hseen, ← Volume.content_seen, h] at hcontent
  obtain ⟨tree, htree, heq⟩ := Option.map_eq_some_iff.mp hcontent
  cases tree with
  | dir children => cases heq
  | file content' =>
      obtain rfl : content' = content := Option.some.inj heq
      exact htree

theorem file_remove (hout : ¬ target.map fold <+: source.map fold)
    (h : v.treeAt fold source = some (.file content)) :
    (v.remove fold target).treeAt fold source = some (.file content) :=
  file_of_seen (Volume.seen_remove hout) h

theorem file_write (hout : ¬ (dir ++ [name]).map fold <+: source.map fold)
    (h : v.treeAt fold source = some (.file content)) :
    (v.write fold (dir ++ [name]) data).2.treeAt fold source = some (.file content) :=
  file_of_seen (Volume.seen_write hout) h

/-- An upload is stored beside a file, or is not stored under it. -/
theorem file_store (hout : ¬ (dir ++ [name]).map fold <+: source.map fold)
    (h : v.treeAt fold source = some (.file content)) :
    (v.store fold (dir ++ [name]) data).2.treeAt fold source = some (.file content) := by
  by_cases hway : FileOnWay fold v dir
  · obtain ⟨e, he⟩ := @store_blocked _ _ name _ hway data
    rw [he]
    exact h
  · exact file_of_seen (Volume.seen_store hout fun hin => hway ⟨source, content, hin, h⟩) h

/-- A file that is not under the target is kept by the upload. -/
theorem file_upload (sc : UploadScript)
    (hout : ¬ (joinPath folder filename).map fold <+: source.map fold)
    (h : c.server.treeAt fold source = some (.file content)) :
    (upload fold limits sc folder filename data true c).2.server.treeAt fold source =
      some (.file content) :=
  upload_rule (P := fun v => v.treeAt fold source = some (.file content))
    (fun _ => file_write hout) (fun _ => file_remove hout) (fun _ => file_store hout) sc h

/-- Backends that are heard to have written have written. -/
theorem viaBackends_write_ok {scripts : ℕ → BackendScript} {breakers : List CircuitBreaker}
    (h : (viaBackends (writeOp fold path data) scripts breakers v).1 = some (.ok ())) :
    (viaBackends (writeOp fold path data) scripts breakers v).2.2.treeAt fold path =
      some (.file data) := by
  obtain ⟨_, ⟨_, hnone, _⟩ | ⟨r, r', _, hsome, hfollows⟩⟩ :=
    viaBackends_follows (writeOp fold path data) v scripts breakers
  · rw [hnone] at h
    cases h
  · rw [hsome] at h
    obtain ⟨before, p, hlog, hrun⟩ := hfollows.of_ok (Option.some.inj h)
    rw [hfollows.server, hlog, Operation.replay_concat]
    exact Volume.write_ok hrun

theorem httpUploadFrom_ok {sc : ℕ → AttemptScript} {lastErr : SynoFsError} {attempt left : ℕ}
    {overwrite : Bool}
    (h : (httpUploadFrom fold sc folder filename data overwrite lastErr attempt left c).1 =
      .ok ()) :
    (httpUploadFrom fold sc folder filename data overwrite lastErr attempt left
      c).2.server.treeAt fold (joinPath folder filename) = some (.file data) := by
  induction left generalizing attempt lastErr c with
  | zero => cases h
  | succ left ih =>
      rw [httpUploadFrom] at h ⊢
      dsimp only at h ⊢
      cases hpost : (sc attempt).post with
      | answered =>
          rw [hpost] at h
          exact (Volume.store_ok h).2.1
      | lost ran message =>
          rw [hpost] at h
          exact ih h
      | refused code => rw [hpost] at h; cases h
      | garbled ran message => rw [hpost] at h; cases h

/-- An upload that is said to be done is done. -/
theorem upload_ok {sc : UploadScript}
    (h : (upload fold limits sc folder filename data true c).1 = .ok ()) :
    (upload fold limits sc folder filename data true c).2.server.treeAt fold
      (joinPath folder filename) = some (.file data) := by
  rw [upload, if_pos rfl] at h ⊢
  dsimp only at h ⊢
  cases hvia : (viaBackends (writeOp fold (joinPath folder filename) data) sc.backend
      c.writeBreakers c.server).1 with
  | none =>
      rw [hvia] at h
      exact httpUploadFrom_ok h
  | some r =>
      rw [hvia] at h
      obtain rfl : r = .ok () := h
      exact viaBackends_write_ok hvia

end Files

/-! ### The copy -/

section Copy

variable {fold : String → String} {limits : TransferLimits} {archive : Tree → Bytes}
  {v : Volume} {c : Client Volume} {source toParent : NasPath} {toName : String}
  {content data : Bytes} {length : ℕ}

/-- What is downloaded of a file. -/
theorem download_file {sc : DownloadScript}
    (hsource : c.server.treeAt fold source = some (.file content))
    (h : (download fold archive limits sc source 0 length c).1 = .ok data) :
    data = Core.readRange content 0 length := by
  obtain ⟨p, hread⟩ := download_ok h
  unfold Volume.read at hread
  rw [hsource] at hread
  cases p <;> exact (Except.ok.inj hread).symm

theorem readRange_whole (h : length = 0 ∨ content.length ≤ length) :
    Core.readRange content 0 length = content := by
  rw [Core.readRange, List.drop_zero]
  split
  case isTrue => rfl
  case isFalse hne => exact List.take_of_length_le (h.resolve_left hne)

/-- What is stored beside a file is not under it. -/
theorem not_under_file {target : NasPath} (hout : ¬ target.map fold <+: source.map fold)
    (hsource : v.treeAt fold source = some (.file content))
    (htarget : v.treeAt fold target ≠ none) : ¬ source.map fold <+: target.map fold := by
  intro hin
  by_cases hsame : target.map fold = source.map fold
  · exact hout (hsame ▸ List.prefix_rfl)
  · exact htarget (Volume.treeAt_below_file hsource hin hsame)

theorem CopySafe.keeps (h : CopySafe fold c.server source toParent toName length)
    (sc : CopyScript) :
    KeepsContent fold source (joinPath toParent toName) c.server
      (copyThenDelete fold archive limits sc source length toParent toName c).2.server := by
  intro content hsource
  obtain ⟨hout, hwhole⟩ := h content hsource
  have hread : (download fold archive limits sc.download source 0 length c).2.server = c.server :=
    download_server sc.download 0 length
  unfold copyThenDelete
  cases hdownload : download fold archive limits sc.download source 0 length c with
  | mk r d =>
      rw [hdownload] at hread
      cases r with
      | error e => exact Or.inl (by rwa [hread])
      | ok data =>
          have hdata := download_file hsource (congrArg Prod.fst hdownload)
          have hsource' : d.server.treeAt fold source = some (.file content) := by rwa [hread]
          have hkept := @file_upload _ limits _ _ _ _ _ data sc.upload hout hsource'
          dsimp only
          cases hupload : upload fold limits sc.upload toParent toName data true d with
          | mk u d' =>
              rw [hupload] at hkept
              cases u with
              | error e => exact Or.inl hkept
              | ok u =>
                  have hstored := upload_ok (congrArg Prod.fst hupload)
                  rw [hupload] at hstored
                  -- The upload was done, so no file is in its way.
                  have hall : length = 0 ∨ content.length ≤ length := by
                    refine or_assoc.mpr hwhole |>.resolve_right fun hway => ?_
                    refine (@upload_blocked _ limits _ toName data _ (hread.symm ▸ hway)
                      sc.upload).2 ?_
                    rw [hupload]
                  rw [readRange_whole hall] at hdata
                  subst hdata
                  rcases @delete_server fold sc.delete source d'
                    with hsame | hgone
                  · rw [hsame]
                    exact Or.inl hkept
                  · rw [hgone]
                    refine Or.inr (file_remove ?_ hstored)
                    exact not_under_file hout hkept (by rw [hstored]; exact Option.some_ne_none _)

/-- A copy of which everything is answered but for the upload, as told. -/
def copyingScript (post : HttpFate) : CopyScript := (copyInstead post).copy

/-- Where something stands under the source, the copy comes to its upload. -/
theorem copyThenDelete_uploads (post : HttpFate) (hthere : c.server.treeAt fold source ≠ none) :
    ∃ data d, d.server = c.server ∧
      (∀ content, c.server.treeAt fold source = some (.file content) →
        data = Core.readRange content 0 length) ∧
      copyThenDelete fold archive limits (copyingScript post) source length toParent toName c =
        match upload fold limits (copyingScript post).upload toParent toName data true d with
        | (.error e, d) => (.error e, d)
        | (.ok (), d) => delete fold .plain source d := by
  obtain ⟨data, d, hdownload, hserver⟩ := @download_there _ archive limits _ _ hthere length
  refine ⟨data, d, hserver, fun content hfile => download_file hfile
    (congrArg Prod.fst hdownload), ?_⟩
  rw [copyThenDelete, show (copyingScript post).download = ⟨declining, fun _ => .answered⟩ from rfl,
    hdownload]
  dsimp only
  rcases upload fold limits (copyingScript post).upload toParent toName data true d with
    ⟨_ | _, _⟩ <;> rfl

/-- The upload is refused, and the name is cleared. -/
theorem copyThenDelete_clears (hthere : c.server.treeAt fold source ≠ none) :
    (copyThenDelete fold archive limits (copyingScript (.refused 419)) source length toParent
        toName c).2.server = c.server.remove fold (joinPath toParent toName) := by
  obtain ⟨data, d, hserver, _, hcopies⟩ := @copyThenDelete_uploads fold limits archive
    _ _ toParent toName length (.refused 419) hthere
  obtain ⟨d', hcleared, hrefused, _⟩ := @upload_cleared fold limits d toParent
    toName data (.refused 419)
  rw [hcopies, show (copyingScript (.refused 419)).upload = (copyInstead (.refused 419)).copy.upload
    from rfl, hrefused 419 rfl, ← hserver]
  exact hcleared

/-- The copy is stored, and the source deleted. -/
theorem copyThenDelete_deletes (hsource : c.server.treeAt fold source = some (.file content))
    (hway : ¬ FileOnWay fold c.server (trimEnd toParent)) :
    ∃ w : Volume, w.treeAt fold (joinPath toParent toName) =
        some (.file (Core.readRange content 0 length)) ∧
      (copyThenDelete fold archive limits (copyingScript .answered) source length toParent
        toName c).2.server = w.remove fold source := by
  have hthere : c.server.treeAt fold source ≠ none := by rw [hsource]; exact Option.some_ne_none _
  obtain ⟨data, d, hserver, hdata, hcopies⟩ := @copyThenDelete_uploads fold limits archive
    _ _ toParent toName length .answered hthere
  obtain ⟨d', hcleared, _, hanswered⟩ := @upload_cleared fold limits d toParent
    toName data .answered
  have hstore : ((c.server.remove fold (joinPath toParent toName)).store fold
      (joinPath toParent toName) data).1 = .ok () :=
    Volume.store_cleared (Volume.content_root hthere) hway
  refine ⟨((c.server.remove fold (joinPath toParent toName)).store fold
    (joinPath toParent toName) data).2, ?_, ?_⟩
  · rw [← hdata content hsource]
    exact (Volume.store_ok hstore).2.1
  · rw [hcopies, show (copyingScript .answered).upload = (copyInstead .answered).copy.upload
      from rfl, hanswered rfl, hcleared, hserver, hstore]
    exact delete_plain

/-- **When a copy may be followed by a delete.** -/
theorem keepsContent_iff :
    (∀ sc, KeepsContent fold source (joinPath toParent toName) c.server
      (copyThenDelete fold archive limits sc source length toParent toName c).2.server) ↔
    CopySafe fold c.server source toParent toName length := by
  refine ⟨fun hkeeps content hsource => ?_, fun h sc => h.keeps sc⟩
  have hthere : c.server.treeAt fold source ≠ none := by rw [hsource]; exact Option.some_ne_none _
  have hout : ¬ (joinPath toParent toName).map fold <+: source.map fold := by
    intro hin
    have hlost := hkeeps (copyingScript (.refused 419)) content hsource
    rw [copyThenDelete_clears hthere,
      Volume.treeAt_none_below (joinPath_ne_nil _ _) Volume.treeAt_remove hin,
      Volume.treeAt_remove] at hlost
    simp at hlost
  refine ⟨hout, ?_⟩
  by_contra hcut
  obtain ⟨hne, hlong, hway⟩ : length ≠ 0 ∧ length < content.length ∧
      ¬ FileOnWay fold c.server (trimEnd toParent) := by
    simpa only [not_or, not_le, ne_eq] using hcut
  have hlost := hkeeps (copyingScript .answered) content hsource
  obtain ⟨w, hstored, hserver⟩ := @copyThenDelete_deletes _ limits archive _ _ _ toName _ length
    hsource hway
  have hbeside : ¬ source.map fold <+: (joinPath toParent toName).map fold := by
    intro hin
    rw [joinPath, List.map_append, List.map_singleton, List.prefix_concat_iff] at hin
    rcases hin with hsame | hin
    · have hfold : (joinPath toParent toName).map fold = source.map fold := by
        rw [joinPath, List.map_append, List.map_singleton, hsame]
      exact hout (hfold ▸ List.prefix_rfl)
    · exact hway ⟨source, content, hin, hsource⟩
  have hcut' : content.take length ≠ content := by
    intro hall
    have hlength := congrArg List.length hall
    rw [List.length_take] at hlength
    omega
  rw [hserver, Volume.treeAt_remove, file_remove hbeside hstored, Core.readRange, List.drop_zero,
    if_neg hne] at hlost
  simp [hcut'] at hlost

/-- What stands under the target is as it was. -/
def SparesTarget (fold : String → String) (target : NasPath) (v w : Volume) : Prop :=
  ∀ tree, v.treeAt fold target = some tree → w.treeAt fold target = some tree

/-- A copy replaces what it finds. -/
theorem sparesTarget_iff :
    (∀ sc, SparesTarget fold (joinPath toParent toName) c.server
      (copyThenDelete fold archive limits sc source length toParent toName c).2.server) ↔
    c.server.treeAt fold source = none ∨
      c.server.treeAt fold (joinPath toParent toName) = none := by
  constructor
  · intro hspares
    by_contra hboth
    obtain ⟨hthere, htarget⟩ := not_or.mp hboth
    obtain ⟨tree, htree⟩ := Option.ne_none_iff_exists'.mp htarget
    -- The target is cleared for the upload, which is then refused.
    have hkept := hspares (copyingScript (.refused 419)) tree htree
    rw [copyThenDelete_clears hthere, Volume.treeAt_remove] at hkept
    cases hkept
  · rintro (hnone | hfree) sc tree htree
    · have hread : (download fold archive limits sc.download source 0 length c).2.server =
          c.server := download_server sc.download 0 length
      unfold copyThenDelete
      cases hdownload : download fold archive limits sc.download source 0 length c with
      | mk r d =>
          rw [hdownload] at hread
          cases r with
          | error e => exact (congrArg (Volume.treeAt fold · _) hread).trans htree
          | ok data =>
              obtain ⟨p, hrun⟩ := download_ok (congrArg Prod.fst hdownload)
              unfold Volume.read at hrun
              rw [hnone] at hrun
              cases p <;> cases hrun
    · rw [hfree] at htree
      cases htree

end Copy

/-! ### The three front ends -/

section FrontEnds

variable {fold : String → String} {limits : TransferLimits} {archive : Tree → Bytes}

/-- The length that a front end goes on to copy, where it does. -/
def lookedUp (fold : String → String) (sc : FrontRenameScript) (source : NasPath)
    (c : Client Volume) : Option ℕ :=
  match (getInfo fold sc.info source c).1 with
  | .ok info => if info.isdir then none else some (askedLength sc.sized info)
  | .error _ => none

theorem copyAcrossDirs_server (sc : CopyScript) (source toParent : NasPath) (toName : String)
    (c : Client Volume) :
    (copyAcrossDirs fold archive limits sc source toParent toName c).2.server =
      (copyThenDelete fold archive limits sc source 0 toParent toName c).2.server := by
  unfold copyAcrossDirs copyThenDelete
  rcases download fold archive limits sc.download source 0 0 c with ⟨_ | data, d⟩
  · rfl
  · dsimp only
    rcases upload fold limits sc.upload toParent toName data true d with ⟨_ | _, _⟩ <;> rfl

/-- Without a length there is no copy, with one there is that copy. -/
theorem moveByCopy_server {E : Type} (toError : SynoFsError → E) (onFolder : E)
    (sc : FrontRenameScript) (source toParent : NasPath) (toName : String) (c : Client Volume) :
    (lookedUp fold sc source c = none ∧ ∀ copy, (moveByCopy fold archive limits toError onFolder sc
        copy source toParent toName c).2.server = sc.meanwhile c.server) ∨
      ∃ length d, lookedUp fold sc source c = some length ∧ d.server = sc.meanwhile c.server ∧
        ∀ copy, (moveByCopy fold archive limits toError onFolder sc copy source toParent toName
            c).2.server =
          (copyThenDelete fold archive limits copy source length toParent toName d).2.server := by
  have hserver : (getInfo fold sc.info source c).2.server = c.server := getInfo_server
  unfold lookedUp moveByCopy
  cases hinfo : getInfo fold sc.info source c with
  | mk r d =>
      rw [hinfo] at hserver
      cases r with
      | error e => exact Or.inl ⟨rfl, fun copy => congrArg sc.meanwhile hserver⟩
      | ok info =>
          dsimp only
          cases info.isdir with
          | true => exact Or.inl ⟨rfl, fun copy => congrArg sc.meanwhile hserver⟩
          | false =>
              exact Or.inr ⟨_, { d with server := sc.meanwhile d.server }, rfl,
                congrArg sc.meanwhile hserver, fun copy => rfl⟩

theorem splitPath_concat (parent : NasPath) (name : String) :
    splitPath (parent ++ [name]) = (parent, name) := by
  rw [splitPath, splitNasPath_concat, Option.getD_some]

/-- What is asked of the copy of a front end is asked of the copy of as many bytes as it looked
up. -/
theorem moveByCopy_iff {E : Type} {toError : SynoFsError → E} {onFolder : E}
    {sc : FrontRenameScript} {source toParent : NasPath} {toName : String} {c : Client Volume}
    {kept : Volume → Volume → Prop} {safe : Volume → ℕ → Prop} (hrefl : ∀ v, kept v v)
    (hcopy : ∀ (d : Client Volume) length, (∀ copy, kept d.server (copyThenDelete fold archive
      limits copy source length toParent toName d).2.server) ↔ safe d.server length) :
    (∀ copy, kept (sc.meanwhile c.server) (moveByCopy fold archive limits toError onFolder sc copy
      source toParent toName c).2.server) ↔
    ∀ length, lookedUp fold sc source c = some length → safe (sc.meanwhile c.server) length := by
  rcases @moveByCopy_server fold limits archive _ toError onFolder sc
    source toParent toName c with ⟨hnone, hserver⟩ | ⟨length, d, hsome, hd, hserver⟩
  · refine iff_of_true (fun copy => ?_) (fun length h => ?_)
    · rw [hserver]
      exact hrefl _
    · rw [hnone] at h
      cases h
  · simp only [hserver, hsome, Option.some.injEq, forall_eq']
    rw [← hd]
    exact hcopy d length

/-- **When a move by copying loses nothing.** Whatever becomes of the download, the upload and the
delete, the source's content is found whole under one of the names exactly when the source is not
under the target and the bytes asked for are not fewer than the source holds by then, or nothing
can be uploaded. The mount asks for all of them. What a WinFsp rename may not replace it spares
exactly when there is none, or no source. -/
theorem copied_move_keeps_iff (fold : String → String) (archive : Tree → Bytes)
    (limits : TransferLimits) (c : Client Volume) (sc : FrontRenameScript)
    (fromParent toParent : NasPath) (fromName toName : FileName) :
    let source := fromParent ++ [fromName.text]
    let target := joinPath toParent toName.text
    let v := sc.meanwhile c.server
    ((∀ copy, KeepsContent fold source target c.server
        (copyAcrossDirs fold archive limits copy source toParent toName.text c).2.server) ↔
      CopySafe fold c.server source toParent toName.text 0) ∧
    (fromParent ≠ toParent →
      ((∀ copy, KeepsContent fold source target v
          (davRename fold archive limits sc copy source (toParent ++ [toName.text]) c).2.server) ↔
        ∀ length, lookedUp fold sc source c = some length →
          CopySafe fold v source toParent toName.text length)) ∧
    (eqIgnoreAsciiCase fromParent toParent = false → ∀ replaceIfExists,
      ((∀ copy, KeepsContent fold source target v (winRename fold archive limits sc copy source
            (toParent ++ [toName.text]) replaceIfExists c).2.server ∧
          (replaceIfExists = false → SparesTarget fold target v (winRename fold archive limits sc
            copy source (toParent ++ [toName.text]) replaceIfExists c).2.server)) ↔
        ∀ length, lookedUp fold sc source c = some length →
          CopySafe fold v source toParent toName.text length ∧
            (replaceIfExists = false →
              v.treeAt fold source = none ∨ v.treeAt fold target = none))) := by
  intro source target v
  refine ⟨?_, fun hcross => ?_, fun hcross replaceIfExists => ?_⟩
  · simp only [copyAcrossDirs_server]
    exact keepsContent_iff
  · simp only [davRename, source, splitPath_concat, if_neg hcross]
    exact @moveByCopy_iff _ _ _ _ _ _ _ _ _ _ _ (KeepsContent fold source target)
      (fun v length => CopySafe fold v source toParent toName.text length)
      (fun _ _ h => Or.inl h) fun d length => keepsContent_iff
  · simp only [winRename, source, splitPath_concat, hcross, Bool.false_eq_true, if_false]
    refine @moveByCopy_iff _ _ _ _ _ _ _ _ _ _ _
      (fun v w => KeepsContent fold source target v w ∧
        (replaceIfExists = false → SparesTarget fold target v w))
      (fun v length => CopySafe fold v source toParent toName.text length ∧
        (replaceIfExists = false → v.treeAt fold source = none ∨ v.treeAt fold target = none))
      (fun _ => ⟨fun _ h => Or.inl h, fun _ _ h => h⟩) fun d length => ?_
    rw [forall_and, keepsContent_iff]
    refine and_congr_right fun _ => ?_
    rw [← @sparesTarget_iff _ limits archive _ _ _ _ length]
    exact forall_comm

end FrontEnds

/-! ### A file that grew -/

/-- A client without backends, and a file beside an empty folder. -/
def oneDraft : Client Volume :=
  ⟨[], [], [], { root := .dir [("a", .dir [("draft", .file [1])]), ("b", .dir [])],
                 removals := [] }⟩

/-- Everything is answered, with the size, and others do `meanwhile`. -/
def answeredRename (meanwhile : Volume → Volume) : FrontRenameScript :=
  ⟨.plain, .plain, true, meanwhile⟩

def draftName : FileName := ⟨"draft", by decide⟩

/-- A file that is left alone is moved whole, whatever fails. -/
theorem draft_kept (copy : CopyScript) :
    KeepsContent id ["a", "draft"] ["b", "draft"] oneDraft.server
      (davRename id (fun _ => []) .standard (answeredRename id) copy ["a", "draft"] ["b", "draft"]
        oneDraft).2.server := by
  refine (((copied_move_keeps_iff id (fun _ => []) .standard oneDraft (answeredRename id) ["a"]
    ["b"] draftName draftName).2.1 (by decide)).mpr fun length hlength content hsource => ?_) copy
  have hasked : lookedUp id (answeredRename id) ["a", "draft"] oneDraft = some 1 := by
    decide +kernel
  obtain rfl : 1 = length := Option.some.inj (hasked.symm.trans hlength)
  obtain rfl : [1] = content := FileTree.file.inj (Option.some.inj hsource)
  exact ⟨by decide, Or.inr (Or.inl le_rfl)⟩

theorem not_file_of_content {fold : String → String} {v : Volume} {path : NasPath}
    {content : Bytes} (h : (v.treeAt fold path).bind FileTree.content ≠ some content) :
    v.treeAt fold path ≠ some (.file content) := by
  intro hfile
  rw [hfile] at h
  exact h rfl

/-- A byte is appended between the question for the size and the download: what is stored is the
first byte, and the source is deleted. -/
theorem grown_draft_cut :
    ¬ KeepsContent id ["a", "draft"] ["b", "draft"]
      (oneDraft.server.setFile id ["a", "draft"] [1, 2])
      (davRename id (fun _ => []) .standard
        (answeredRename (Volume.setFile id · ["a", "draft"] [1, 2])) (copyingScript .answered)
        ["a", "draft"] ["b", "draft"] oneDraft).2.server := by
  intro h
  rcases h [1, 2] rfl with hkept | hkept
  · exact not_file_of_content (by decide +kernel) hkept
  · exact not_file_of_content (by decide +kernel) hkept

end SynologyFilestation.Fuse
