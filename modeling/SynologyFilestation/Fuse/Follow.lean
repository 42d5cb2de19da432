import SynologyFilestation.Fuse.Durability
import SynologyFilestation.Fuse.RenameInPlace
import SynologyFilestation.Library.Transition

/-!
Whether buffered data follows its file. A handle keeps the path it was opened
with (`OpenHandle::path`, "fixed at open"), the buffer under it is sent whole
when the handle is closed, and `rename` and `unlink` do not look at the open
handles.

Where the file of a handle has got to is no part of the mount: `home` follows it
through the renames and removals the mount carries out, by what these left on the
NAS. No step depends on it, nor on the record of the closes.
-/

namespace SynologyFilestation.Fuse

open Core Library

/-! ### Where a file has got to -/

section Tracking

variable (fold : String → String)

def fileAt (v : Volume) (p : NasPath) : Option Bytes :=
  match v.treeAt fold p with
  | some (.file content) => some content
  | _ => none

def stands (v : Volume) (p : NasPath) : Bool := (v.entryAt fold p).isSome

/-- `p` is `q`, or lies in it. -/
def Within (q p : NasPath) : Prop := q.map fold <+: p.map fold

instance (q p : NasPath) : Decidable (Within fold q p) :=
  inferInstanceAs (Decidable (_ <+: _))

/-- Where what was at `p` is, a removal having turned `v` into `w`. A file that is
not on the NAS yet cannot be removed from it. -/
def afterUnlink (v w : Volume) (p : NasPath) : Option NasPath :=
  if stands fold v p && !stands fold w p then none else some p

/-- Where what was at `p` is, a rename of `old` to `new` having turned `v` into
`w`. One that is reported done has moved what is in `old` and replaced what was in
`new`. One that failed can have moved it, to `new` or only to the new name in the
old directory, or have lost it. -/
def afterRename (old new : NasPath) (done : Bool) (v w : Volume) (p : NasPath) : Option NasPath :=
  let rest := p.drop old.length
  let moved := new ++ rest
  let parked := old.dropLast ++ new.drop (new.length - 1) ++ rest
  if Within fold old p then
    if done then some moved
    else if stands fold w p || !stands fold v p then some p
    else if stands fold w parked && !stands fold v parked then some parked
    else if stands fold w moved then some moved
    else none
  else if Within fold new p ∧
      (done ∨ ∃ r ∈ w.removals.drop v.removals.length, Within fold r.path p) then none
  else some p

variable {fold} in
/-- A rename within a directory that is reported done has left the entry where it
is followed to. -/
theorem treeAt_afterRename {archive : Tree → Bytes} {limits : TransferLimits} {inodes : InodeCache}
    {sc : RenameScript} {parent : ℕ} {path : NasPath} {name newName : FileName}
    {flags : RenameFlags} {c : Client Volume} {tree : Tree}
    (hpath : inodes.pathForIno parent = some path)
    (hok : (rename fold archive limits inodes sc parent name parent newName flags c).1.isOk = true)
    (htree : c.server.treeAt fold (joinPath path name.text) = some tree) :
    ∃ p, afterRename fold (joinPath path name.text) (joinPath path newName.text) true c.server
        (rename fold archive limits inodes sc parent name parent newName flags c).2.server
        (joinPath path name.text) = some p ∧
      (rename fold archive limits inodes sc parent name parent newName flags c).2.server.treeAt
        fold p = some tree := by
  rw [rename_same_parent fold archive limits inodes sc name newName flags c hpath, reply_isOk]
    at hok
  rw [rename_same_parent fold archive limits inodes sc name newName flags c hpath]
  refine ⟨joinPath path newName.text, by simp [afterRename, Within], ?_⟩
  change (renameInPlace fold sc.inPlace (trimEnd path ++ [name.text])
    (trimEnd path ++ [newName.text]) newName.text c).2.server.treeAt fold _ = _
  rcases renameInPlace_outcome fold sc.inPlace (trimEnd path) name.text newName.text c with
    ⟨_, _, hfailed⟩ | ⟨hcan, _, hrenamed, _⟩
  · cases hok.symm.trans hfailed
  · rw [joinPath, Volume.treeAt, hrenamed.entryAt_new, (cleared_entryAt_old hcan).1,
      Option.map_map]
    exact htree

end Tracking

/-! ### The mount and its closes -/

/-- A handle with unsaved data closed with success: the path it was opened with,
where its file was then, what its buffer held, and the NAS before and after. -/
structure Close where
  path : NasPath
  home : Option NasPath
  bytes : Bytes
  before : Volume
  after : Volume

/-- The open handles of a mount, with where the file of each is and what closes
there have been. The library behind the streams has a state `L` of its own. -/
structure Following (L F : Type) where
  mount : Mount (Client Volume × L) F
  home : ℕ → Option NasPath
  closes : List Close

inductive HandleEvent
  | opened (fh : ℕ) (path : NasPath) (newFile writable : Bool)
  | write (fh : ℕ) (sc : DiskScript) (offset : ℕ) (data : Bytes)
  | flush (fh : ℕ) (sc : DiskScript)
  | release (fh : ℕ) (sc : DiskScript)
  | unlinked (inodes : InodeCache) (sc : RequestScript) (parent : ℕ) (name : FileName)
  | renamed (inodes : InodeCache) (sc : RenameScript) (parent : ℕ) (name : FileName)
      (newParent : ℕ) (newName : FileName) (flags : RenameFlags)

section System

variable {L F : Type} (fold : String → String) (archive : Tree → Bytes) (limits : TransferLimits)
  (client : NasClient (Client Volume × L) F)

/-- What the upload of a handle adds to the record: a buffer with unsaved data,
sent with success. -/
def Following.closed (x : Following L F) (fh : ℕ) (sc : DiskScript) : List Close :=
  match x.mount.buffers fh with
  | some { nasPath := path, sink := .buffered spill, dirty := true, .. } =>
      let (r, m) := x.mount.upload client fh sc
      if r.isOk then
        [{ path := path, home := x.home fh, bytes := spill.bytes
           before := x.mount.world.1.server, after := m.world.1.server }]
      else []
  | _ => []

/-- A callback that changes names on the NAS, and where the files are then. -/
def Following.changed (x : Following L F) (c : Client Volume)
    (track : NasPath → Option NasPath) : Following L F :=
  { x with mount := { x.mount with world := (c, x.mount.world.2) }
           home := fun fh => (x.home fh).bind track }

def Following.step (x : Following L F) : HandleEvent → Following L F
  | .opened fh path newFile writable =>
      { x with mount := x.mount.addWriteBuffer client fh path newFile writable
               home := Function.update x.home fh (some path) }
  | .write fh sc offset data =>
      { x with mount := (x.mount.writeBufferAt client fh sc offset data).2 }
  | .flush fh sc => { x with mount := (x.mount.upload client fh sc).2
                             closes := x.closes ++ x.closed client fh sc }
  | .release fh sc => { mount := (x.mount.release client fh sc).2
                        home := Function.update x.home fh none
                        closes := x.closes ++ x.closed client fh sc }
  | .unlinked inodes sc parent name =>
      let c := (unlink fold inodes sc parent name x.mount.world.1).2
      x.changed c (afterUnlink fold x.mount.world.1.server c.server)
  | .renamed inodes sc parent name newParent newName flags =>
      let (answer, c) := rename fold archive limits inodes sc parent name newParent newName flags
        x.mount.world.1
      match inodes.pathForIno parent, inodes.pathForIno newParent with
      | some parentPath, some newParentPath =>
          x.changed c (afterRename fold (joinPath parentPath name.text)
            (joinPath newParentPath newName.text) answer.isOk x.mount.world.1.server c.server)
      | _, _ => x.changed c some

/-- A mount with no handle open. -/
def Following.start (world : Client Volume × L) : Following L F :=
  { mount := { buffers := fun _ => none, world := world }, home := fun _ => none, closes := [] }

end System

/-! ### What a close does to its file -/

section Closes

variable {L F : Type} {fold : String → String} {archive : Tree → Bytes} {limits : TransferLimits}
  {client : NasClient (Client Volume × L) F} {x : Following L F} {fh : ℕ} {sc : DiskScript}
  {c : Close}

/-- The data is under the file's name, and a name that was free is free. -/
structure Close.Follows (fold : String → String) (c : Close) : Prop where
  current : ∀ p, c.home = some p → fileAt fold c.after p = some c.bytes
  others : (∀ p, c.home = some p → p.map fold ≠ c.path.map fold) →
    fileAt fold c.before c.path = none → fileAt fold c.after c.path = none

/-- The file is where the handle was opened. -/
def AtHome (fold : String → String) (home : Option NasPath) (path : NasPath) : Prop :=
  ∃ p, home = some p ∧ p.map fold = path.map fold

theorem fileAt_congr {v : Volume} {p q : NasPath} (h : p.map fold = q.map fold) :
    fileAt fold v p = fileAt fold v q := by
  rw [fileAt, fileAt, Volume.treeAt_congr h]

/-- A close that is recorded has stored the buffer under the path of the handle. -/
theorem Following.closed_spec
    (hclient : client.StoresUploads fun p s => fileAt fold s.1.server p)
    (h : c ∈ x.closed client fh sc) :
    fileAt fold c.after c.path = some c.bytes ∧ c.home = x.home fh ∧
      ∃ b spill, x.mount.buffers fh = some b ∧ b.dirty = true ∧ b.sink = .buffered spill ∧
        c.path = b.nasPath := by
  unfold Following.closed at h
  split at h
  case h_1 path spill newFile streamed broken hb =>
    dsimp only at h
    split at h
    case isTrue hok =>
      obtain rfl := List.mem_singleton.mp h
      refine ⟨?_, rfl, _, spill, hb, rfl, rfl, rfl⟩
      have hunbroken : broken = false := by
        cases broken with
        | false => rfl
        | true => simp [Mount.upload, hb, WriteBuffer.upload, Except.isOk, Except.toBool] at hok
      subst hunbroken
      simp only [Mount.upload, hb] at hok ⊢
      rw [upload_dirty rfl rfl] at hok ⊢
      refine finish_buffering hclient rfl rfl ?_
      cases hr : (WriteBuffer.finish client _ sc x.mount.world).1 with
      | ok u => rfl
      | error e =>
          rw [hr] at hok
          cases hok
    case isFalse => simp at h
  case h_2 => simp at h

/-- **One close.** It follows the file that is where the handle was opened, and no
file that is elsewhere while that name is free. -/
theorem Following.closed_follows
    (hclient : client.StoresUploads fun p s => fileAt fold s.1.server p)
    (h : c ∈ x.closed client fh sc) :
    (AtHome fold c.home c.path → c.Follows fold) ∧
      (c.Follows fold → AtHome fold c.home c.path ∨ fileAt fold c.before c.path ≠ none) := by
  obtain ⟨hstored, _⟩ := Following.closed_spec hclient h
  constructor
  · rintro ⟨p, hhome, hkey⟩
    constructor
    case current =>
      intro q hq
      obtain rfl : p = q := Option.some.inj (hhome.symm.trans hq)
      rw [fileAt_congr hkey]
      exact hstored
    case others => exact fun helsewhere => (helsewhere p hhome hkey).elim
  · intro hfollows
    by_contra hnot
    rw [not_or, not_not] at hnot
    have hfree := hfollows.others (fun p hhome hkey => hnot.1 ⟨p, hhome, hkey⟩) hnot.2
    rw [hstored] at hfree
    cases hfree

/-! ### Runs -/

/-- A handle with unsaved data in a buffer is closed only while its file is where
the handle was opened. -/
def ClosesAtHome (fold : String → String) (x : Following L F) : HandleEvent → Prop
  | .flush fh _ | .release fh _ => ∀ b spill, x.mount.buffers fh = some b → b.dirty = true →
      b.sink = .buffered spill → AtHome fold (x.home fh) b.nasPath
  | _ => True

/-- What an event adds to the record. -/
def Following.adds (client : NasClient (Client Volume × L) F) (x : Following L F) :
    HandleEvent → List Close
  | .flush fh sc | .release fh sc => x.closed client fh sc
  | _ => []

theorem Following.closes_step (x : Following L F) (e : HandleEvent) :
    (x.step fold archive limits client e).closes = x.closes ++ x.adds client e := by
  cases e with
  | opened fh path newFile writable => exact (List.append_nil _).symm
  | write fh sc offset data => exact (List.append_nil _).symm
  | flush fh sc => rfl
  | release fh sc => rfl
  | unlinked inodes sc parent name => exact (List.append_nil _).symm
  | renamed inodes sc parent name newParent newName flags =>
      change Following.closes (match inodes.pathForIno parent, inodes.pathForIno newParent with
        | some _, some _ => _
        | _, _ => _) = _
      split <;> exact (List.append_nil _).symm

theorem Following.closed_of_adds {e : HandleEvent} (h : c ∈ x.adds client e) :
    ∃ fh sc, c ∈ x.closed client fh sc ∧ (e = .flush fh sc ∨ e = .release fh sc) := by
  cases e with
  | flush fh sc => exact ⟨fh, sc, h, Or.inl rfl⟩
  | release fh sc => exact ⟨fh, sc, h, Or.inr rfl⟩
  | _ => cases h

variable (fold archive limits client) in
/-- One event at a time, in whatever order. -/
def Following.Step (x : Following L F) (e : HandleEvent) (y : Following L F) : Prop :=
  y = x.step fold archive limits client e

/-- What holds of every close an event records holds of every close of a run. -/
theorem Following.closes_all {meets : Following L F → HandleEvent → Prop} {P : Close → Prop}
    (hadds : ∀ x e, meets x e → ∀ c ∈ x.adds client e, P c) {world : Client Volume × L}
    (h : Reaches (Following.Step fold archive limits client) meets (.start world) x) :
    ∀ c ∈ x.closes, P c := by
  apply h.invariant (P := fun x => ∀ c ∈ x.closes, P c)
  · intro c hc
    cases hc
  · rintro x e y ih hmeets rfl c hc
    rw [Following.closes_step, List.mem_append] at hc
    exact hc.elim (ih c) (hadds x e hmeets c)

/-- **Buffered data follows its file as long as the file stays.** In every run in
which handles with unsaved data are closed only while their file is where they were
opened, every such close follows its file. In any run, a close that follows its
file found it there, or found the name taken. -/
theorem closes_follow (hclient : client.StoresUploads fun p s => fileAt fold s.1.server p)
    (world : Client Volume × L) :
    (∀ x, Reaches (Following.Step fold archive limits client) (ClosesAtHome fold)
        (.start world) x → ∀ c ∈ x.closes, c.Follows fold) ∧
      ∀ x, Reaches (Following.Step fold archive limits client) unrestricted (.start world) x →
        ∀ c ∈ x.closes, c.Follows fold →
          AtHome fold c.home c.path ∨ fileAt fold c.before c.path ≠ none := by
  constructor
  · intro x h
    refine Following.closes_all (fun y e hmeets c hc => ?_) h
    obtain ⟨fh, sc, hc, he⟩ := Following.closed_of_adds hc
    apply (Following.closed_follows hclient hc).1
    obtain ⟨_, heq, b, spill, hb, hdirty, hsink, hpath⟩ := Following.closed_spec hclient hc
    rw [heq, hpath]
    rcases he with rfl | rfl <;> exact hmeets b spill hb hdirty hsink
  · intro x h
    refine Following.closes_all (fun y e _ c hc => ?_) h
    obtain ⟨fh, sc, hc, _⟩ := Following.closed_of_adds hc
    exact (Following.closed_follows hclient hc).2

end Closes

/-! ### A file renamed while it is written -/

/-- A library that nothing is streamed through. -/
def noSmb {S : Type} : Smb.Smb2 S Unit where
  fromLogical _ := .error .invalidArg
  forgetHandle _ s := s
  ready s := (.ok (), s)
  createFileWriterAt _ _ s := (.error .notSupported, s)
  createFileWriterExclusive _ s := (.error .notSupported, s)
  writeChunk _ w s := (.error .notSupported, w, s)
  finish _ s := (.error .notSupported, s)
  abandon _ s := s

/-- An upload carried out in one step: a new file stored, an old one replaced. -/
def putFile (path : NasPath) (data : Bytes) (overwrite : Bool) (s : Client Volume × Unit) :
    Except SynoFsError Unit × (Client Volume × Unit) :=
  let (r, v) := if overwrite then s.1.server.write id path data else s.1.server.store id path data
  (r, { s.1 with server := v }, s.2)

/-- A client that uploads through a write backend, to a NAS that tells cases apart. -/
def puttingClient : NasClient (Client Volume × Unit) Unit where
  smb := noSmb
  clock _ := 0
  openWriteTransports := []
  upload parent filename data := putFile (parent ++ [filename]) data
  uploadFromPath content parent filename := putFile (parent ++ [filename]) content

theorem putFile_ok {path : NasPath} {data : Bytes} {overwrite : Bool}
    {s s' : Client Volume × Unit} (h : putFile path data overwrite s = (.ok (), s')) :
    fileAt id s'.1.server path = some data := by
  obtain ⟨hok, rfl⟩ := Prod.mk.inj h
  cases overwrite with
  | true =>
      change fileAt id (s.1.server.write id path data).2 path = some data
      rw [fileAt, Volume.write_ok hok]
  | false =>
      change fileAt id (s.1.server.store id path data).2 path = some data
      rw [fileAt, (Volume.store_ok hok).2.1]

theorem puttingClient_storesUploads :
    puttingClient.StoresUploads fun p s => fileAt id s.1.server p :=
  ⟨putFile_ok, putFile_ok⟩

/-- What events make of the share with its two files. -/
def putting (events : List HandleEvent) : Following Unit Unit :=
  events.foldl (Following.step id (fun _ => []) .standard puttingClient) (.start (twoFiles, ()))

/-- `Photo` opened, and a byte written to it. -/
def writtenPhoto : List HandleEvent :=
  [.opened 1 ["share", "Photo"] false true, .write 1 {} 0 [7]]

def renamedPhoto (name newName : FileName) : HandleEvent :=
  .renamed shareInode ⟨⟨.plain, .plain⟩, plainAcross⟩ 1 name 1 newName ⟨false⟩

/-- Renamed away and back, the file is where the handle was opened. -/
theorem renamed_back_follows :
    ∃ c ∈ (putting (writtenPhoto ++ [renamedPhoto photo respelled, renamedPhoto respelled photo,
      .flush 1 {}])).closes, c.Follows id ∧ c.bytes = [7] := by
  have h : Reaches (Following.Step id (fun _ => []) .standard puttingClient) (ClosesAtHome id)
      (.start (twoFiles, ())) (putting writtenPhoto) :=
    (Reaches.start.next (e := .opened 1 ["share", "Photo"] false true) trivial rfl).next
      (e := .write 1 {} 0 [7]) trivial rfl
  have h := h.next (e := renamedPhoto photo respelled) trivial rfl
  have h := h.next (e := renamedPhoto respelled photo) trivial rfl
  have h := h.next (e := .flush 1 {}) (by
    intro b spill hb _ _
    cases hb
    exact ⟨["share", "Photo"], rfl, rfl⟩) rfl
  exact ⟨_, List.mem_singleton.mpr rfl,
    (closes_follow puttingClient_storesUploads _).1 _ h _ (List.mem_singleton.mpr rfl), rfl⟩

/-- Renamed while it was written, the file keeps its old content, and the data is
under the old name again. Unlinked, it is there again. -/
theorem closed_under_old_name :
    (∃ c ∈ (putting (writtenPhoto ++ [renamedPhoto photo respelled, .flush 1 {}])).closes,
      c.home = some ["share", "photo"] ∧ fileAt id c.after ["share", "photo"] = some [1] ∧
        fileAt id c.before ["share", "Photo"] = none ∧
        fileAt id c.after ["share", "Photo"] = some [7] ∧ ¬ c.Follows id) ∧
      ∃ c ∈ (putting (writtenPhoto ++ [.unlinked shareInode .plain 1 photo, .flush 1 {}])).closes,
        c.home = none ∧ fileAt id c.before ["share", "Photo"] = none ∧
          fileAt id c.after ["share", "Photo"] = some [7] ∧ ¬ c.Follows id := by
  constructor
  · refine ⟨_, List.mem_singleton.mpr rfl, rfl, rfl, rfl, rfl, fun h => ?_⟩
    cases h.current ["share", "photo"] rfl
  · refine ⟨_, List.mem_singleton.mpr rfl, rfl, rfl, rfl, fun h => ?_⟩
    cases h.others (fun _ hhome => by cases hhome) rfl

end SynologyFilestation.Fuse
