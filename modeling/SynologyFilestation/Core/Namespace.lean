import SynologyFilestation.Core.Path
import SynologyFilestation.Core.Request
import SynologyFilestation.Library.TreeView
import SynologyFilestation.Library.Patch

/-!
The files on the NAS and what the calls of the client do to them.

The NAS compares names by `fold` and keeps them as they were spelled. Its two
doors differ: a metadata backend (`MetadataTransport` in `core/src/transport.rs`)
deletes a file or an empty directory, FileStation over HTTP deletes a directory
with all that is in it; their error values differ too. A rename never replaces,
and an upload is always sent with `overwrite=false`.

`removals` is no part of the server: it lists what calls have removed, for what
is proved about them.
-/

namespace SynologyFilestation.Core

open Library

abbrev Tree := FileTree String Bytes

abbrev Entry := String × Tree

structure Removal where
  path : NasPath
  tree : Tree

structure Volume where
  root : Tree
  removals : List Removal

/-- What the client reads of one entry (`SynoFileInfo` and its size). -/
structure SynoFileInfo where
  name : String
  path : NasPath
  isdir : Bool
  size : Option ℕ

/-- The error for a name that is not there. -/
def Party.absent : Party → SynoFsError
  | .backend => .notFound
  | .http => .apiError 408

/-- The error for a name that is taken. -/
def Party.taken : Party → SynoFsError
  | .backend => .alreadyExists
  | .http => .apiError 418

/-- The error for a folder that is to be made under a name that is taken. -/
def Party.folderTaken : Party → SynoFsError
  | .backend => .alreadyExists
  | .http => .apiError 1101

/-- `SynoFileInfo` of the entry found under a path. -/
def Entry.info (e : Entry) (path : NasPath) : SynoFileInfo :=
  let path := path.dropLast ++ [e.1]
  match e.2 with
  | .file content => { name := e.1, path := path, isdir := false, size := some content.length }
  | .dir _ => { name := e.1, path := path, isdir := true, size := none }

section Calls

variable (fold : String → String)

def Volume.entryAt (v : Volume) (path : NasPath) : Option Entry :=
  match splitNasPath path with
  | some (parent, name) =>
      (v.root.dirAt fold parent).bind fun children => FileTree.findEntry fold children name
  | none => none

/-- What stands under a path. -/
def Volume.treeAt (v : Volume) (path : NasPath) : Option Tree := (v.entryAt fold path).map (·.2)

def Volume.getInfo (p : Party) (path : NasPath) (v : Volume) :
    Except SynoFsError SynoFileInfo × Volume :=
  match v.entryAt fold path with
  | some e => (.ok (e.info path), v)
  | none => (.error p.absent, v)

/-- Take the entry of a path away. -/
def Volume.remove (v : Volume) (path : NasPath) : Volume :=
  match splitNasPath path, v.treeAt fold path with
  | some (parent, name), some tree =>
      { root := v.root.alterDir fold (FileTree.eraseEntry fold · name) parent,
        removals := v.removals ++ [⟨path, tree⟩] }
  | _, _ => v

/-- A backend refuses a directory that has entries. FileStation is told to
recurse (`recursive=true`). -/
def Volume.delete (p : Party) (path : NasPath) (v : Volume) : Except SynoFsError Unit × Volume :=
  match p, v.treeAt fold path with
  | _, none => (.error p.absent, v)
  | .backend, some (.dir (_ :: _)) => (.error .notEmpty, v)
  | _, some _ => (.ok (), v.remove fold path)

/-- Rename within a directory. Respelling a name is a rename too. -/
def Volume.rename (p : Party) (old : NasPath) (newName : String) (v : Volume) :
    Except SynoFsError SynoFileInfo × Volume :=
  match splitNasPath old, v.entryAt fold old with
  | some (parent, name), some e =>
      if fold newName ≠ fold name ∧ (v.entryAt fold (parent ++ [newName])).isSome then
        (.error p.taken, v)
      else (.ok (Entry.info (newName, e.2) old),
        { v with root := v.root.alterDir fold (FileTree.renameEntry fold · name newName) parent })
  | _, _ => (.error p.absent, v)

/-- An empty directory under a name that is free, in a directory that is there. -/
def Volume.createFolder (p : Party) (parent : NasPath) (name : String) (v : Volume) :
    Except SynoFsError SynoFileInfo × Volume :=
  match v.root.dirAt fold parent with
  | none => (.error p.absent, v)
  | some children =>
      if (FileTree.findEntry fold children name).isSome then (.error p.folderTaken, v)
      else (.ok (Entry.info (name, .dir []) (parent ++ [name])),
        { v with root := v.root.alterDir fold (· ++ [(name, .dir [])]) parent })

/-- FileStation's upload, with `create_parents=true` and `overwrite=false`. -/
def Volume.store (path : NasPath) (data : Bytes) (v : Volume) : Except SynoFsError Unit × Volume :=
  match splitNasPath path with
  | none => (.error (.apiError 400), v)
  | some (parent, name) =>
      let root := v.root.ensureDir fold parent
      match root.dirAt fold parent with
      -- A file stands where a directory of the path should be.
      | none => (.error (.apiError 1100), v)
      | some children =>
          if (FileTree.findEntry fold children name).isSome then (.error (Party.taken .http), v)
          else (.ok (), { v with
            root := root.alterDir fold (· ++ [(name, .file data)]) parent })

/-- The file of a path with other content. -/
def Volume.setFile (v : Volume) (path : NasPath) (data : Bytes) : Volume :=
  match splitNasPath path with
  | some (parent, name) =>
      { v with root := v.root.alterDir fold (FileTree.putEntry fold · name (.file data)) parent }
  | none => v

/-- `WriteTransport::write`: the whole file, made or replaced in one step. -/
def Volume.write (path : NasPath) (data : Bytes) (v : Volume) : Except SynoFsError Unit × Volume :=
  match splitNasPath path with
  | none => (.error .invalidArg, v)
  | some (parent, _) =>
      match v.root.dirAt fold parent, v.treeAt fold path with
      | none, _ => (.error .notFound, v)
      | some _, some (.dir _) => (.error .alreadyExists, v)
      | some _, some (.file content) => (.ok (), { v.setFile fold path data with
          removals := v.removals ++ [⟨path, .file content⟩] })
      | some _, none => (.ok (), v.setFile fold path data)

/-- `MetadataTransport::truncate`: the file's length set, the file kept. -/
def Volume.truncate (path : NasPath) (size : ℕ) (v : Volume) : Except SynoFsError Unit × Volume :=
  match v.treeAt fold path with
  | some (.file content) => (.ok (), v.setFile fold path (resize content size))
  | some (.dir _) => (.error .invalidArg, v)
  | none => (.error .notFound, v)

/-- Bytes from `offset` on; a `length` of 0 is all of them. -/
def readRange (content : Bytes) (offset length : ℕ) : Bytes :=
  if length = 0 then content.drop offset else (content.drop offset).take length

/-- FileStation answers for a folder with an archive of it, a backend does not. -/
def Volume.read (archive : Tree → Bytes) (p : Party) (path : NasPath) (offset length : ℕ)
    (v : Volume) : Except SynoFsError Bytes × Volume :=
  match p, v.treeAt fold path with
  | _, none => (.error p.absent, v)
  | _, some (.file content) => (.ok (readRange content offset length), v)
  | .backend, some (.dir _) => (.error .invalidArg, v)
  | .http, some (.dir children) =>
      (.ok (readRange (archive (.dir children)) offset length), v)

end Calls

/-! ### What each call does to the entry it names -/

section Entries

variable {fold : String → String} {v : Volume} {parent : NasPath} {name newName : String}
  {path : NasPath}

theorem Volume.entryAt_concat : v.entryAt fold (parent ++ [name]) =
    (v.root.dirAt fold parent).bind fun children => FileTree.findEntry fold children name := by
  simp only [Volume.entryAt, splitNasPath_concat]

theorem Volume.treeAt_eq_none : v.treeAt fold path = none ↔ v.entryAt fold path = none :=
  Option.map_eq_none_iff

theorem Volume.entryAt_eq_entryIn (v : Volume) (path : NasPath) :
    v.entryAt fold path = FileTree.entryIn fold path v.root := by
  rcases List.eq_nil_or_concat path with rfl | ⟨parent, name, rfl⟩
  · rfl
  · rw [List.concat_eq_append, Volume.entryAt_concat, FileTree.entryIn_concat]

theorem Volume.entryAt_congr {path' : NasPath} (h : path.map fold = path'.map fold) :
    v.entryAt fold path = v.entryAt fold path' := by
  rw [Volume.entryAt_eq_entryIn, Volume.entryAt_eq_entryIn, FileTree.entryIn_congr h]

theorem Volume.treeAt_congr {path' : NasPath} (h : path.map fold = path'.map fold) :
    v.treeAt fold path = v.treeAt fold path' := by
  rw [Volume.treeAt, Volume.treeAt, Volume.entryAt_congr h]

/-- A call that changes the directory of a path is read through its entries. -/
theorem Volume.entryAt_alterDir (f : List Entry → List Entry) (removals : List Removal) :
    Volume.entryAt fold ⟨v.root.alterDir fold f parent, removals⟩ (parent ++ [name]) =
      (v.root.dirAt fold parent).bind fun children =>
        FileTree.findEntry fold (f children) name := by
  rw [Volume.entryAt_concat, FileTree.dirAt_alterDir, Option.bind_map]
  rfl

theorem Volume.remove_of_none (h : v.treeAt fold path = none) : v.remove fold path = v := by
  rw [Volume.remove, h]
  cases splitNasPath path <;> rfl

theorem Volume.remove_of_some {tree : Tree} (h : v.treeAt fold (parent ++ [name]) = some tree) :
    v.remove fold (parent ++ [name]) =
      { root := v.root.alterDir fold (FileTree.eraseEntry fold · name) parent,
        removals := v.removals ++ [⟨parent ++ [name], tree⟩] } := by
  simp only [Volume.remove, splitNasPath_concat, h]

/-- After a removal the other names of the directory stand as before. -/
theorem Volume.entryAt_remove {other : String} :
    (v.remove fold (parent ++ [name])).entryAt fold (parent ++ [other]) =
      if fold other = fold name then none else v.entryAt fold (parent ++ [other]) := by
  cases htree : v.treeAt fold (parent ++ [name]) with
  | none =>
      rw [Volume.remove_of_none htree]
      split
      case isTrue h =>
        rw [Volume.treeAt_eq_none, Volume.entryAt_concat] at htree
        simpa only [Volume.entryAt_concat, FileTree.findEntry_congr h] using htree
      case isFalse h => rfl
  | some tree =>
      rw [Volume.remove_of_some htree, Volume.entryAt_alterDir, Volume.entryAt_concat]
      simp only [FileTree.findEntry_eraseEntry]
      split
      case isTrue h => cases v.root.dirAt fold parent <;> rfl
      case isFalse h => rfl

theorem Volume.treeAt_remove : (v.remove fold path).treeAt fold path = none := by
  cases hsplit : splitNasPath path with
  | none => simp [Volume.treeAt, Volume.entryAt, hsplit]
  | some split =>
      obtain ⟨parent, name⟩ := split
      rw [eq_of_splitNasPath hsplit, Volume.treeAt_eq_none, Volume.entryAt_remove, if_pos rfl]

theorem Volume.delete_ok {p : Party} (h : (v.delete fold p path).1 = .ok ()) :
    (v.delete fold p path).2 = v.remove fold path := by
  revert h
  unfold Volume.delete
  split <;> intro h
  · cases h
  · cases h
  · rfl

theorem Volume.delete_error {p : Party} {e : SynoFsError}
    (h : (v.delete fold p path).1 = .error e) :
    (v.delete fold p path).2 = v := by
  revert h
  unfold Volume.delete
  split <;> intro h
  · rfl
  · rfl
  · cases h

/-- FileStation removes whatever stands there. -/
theorem Volume.delete_http : (v.delete fold .http path).2 = v.remove fold path := by
  unfold Volume.delete
  split
  case h_1 h => exact (Volume.remove_of_none h).symm
  case h_2 hp _ => cases hp
  case h_3 => rfl

/-- A free name has no entry in its directory once that is there. -/
theorem Volume.findEntry_of_free {children : List Entry}
    (hfree : v.treeAt fold (parent ++ [name]) = none)
    (hdir : (v.root.ensureDir fold parent).dirAt fold parent = some children) :
    FileTree.findEntry fold children name = none := by
  have hchildren := FileTree.dirAt_ensureDir fold hdir
  rw [Volume.treeAt_eq_none, Volume.entryAt_concat] at hfree
  cases hparent : v.root.dirAt fold parent with
  | none =>
      rw [hparent] at hchildren
      rw [← show [] = children from hchildren]
      rfl
  | some entries =>
      rw [hparent] at hchildren hfree
      rw [← show entries = children from hchildren]
      exact hfree

/-- An upload stores under a free name, in a directory that is there or can be
made, or it changes nothing. -/
theorem Volume.store_ok {data : Bytes} (h : (v.store fold path data).1 = .ok ()) :
    v.treeAt fold path = none ∧ (v.store fold path data).2.treeAt fold path = some (.file data) ∧
      (v.store fold path data).2.removals = v.removals := by
  revert h
  rw [Volume.store]
  split
  case h_1 => intro h; cases h
  case h_2 parent name hsplit =>
    dsimp only
    split
    case h_1 => intro h; cases h
    case h_2 children hdir =>
      split
      case isTrue => intro h; cases h
      case isFalse htaken =>
        intro _
        have hfree : FileTree.findEntry fold children name = none := by simpa using htaken
        rw [eq_of_splitNasPath hsplit]
        refine ⟨?_, ?_, rfl⟩
        · rw [Volume.treeAt_eq_none, Volume.entryAt_concat]
          have hold := FileTree.dirAt_ensureDir fold hdir
          cases hdir' : v.root.dirAt fold parent with
          | none => rfl
          | some entries =>
              rw [hdir'] at hold
              change entries = children at hold
              rw [Option.bind_some, hold, hfree]
        · rw [Volume.treeAt, Volume.entryAt_concat, FileTree.dirAt_alterDir, hdir]
          change (FileTree.findEntry fold (children ++ [(name, _)]) name).map _ = _
          rw [FileTree.findEntry_concat hfree]
          rfl

theorem Volume.store_error {data : Bytes} {e : SynoFsError}
    (h : (v.store fold path data).1 = .error e) : (v.store fold path data).2 = v := by
  revert h
  rw [Volume.store]
  split
  case h_1 => intro _; rfl
  case h_2 =>
    dsimp only
    split
    case h_1 => intro _; rfl
    case h_2 =>
      split
      case isTrue => intro _; rfl
      case isFalse => intro h; cases h

theorem Volume.treeAt_setFile {data : Bytes} (h : (v.root.dirAt fold parent).isSome) :
    (v.setFile fold (parent ++ [name]) data).treeAt fold (parent ++ [name]) =
      some (.file data) := by
  obtain ⟨children, hdir⟩ := Option.isSome_iff_exists.mp h
  simp only [Volume.setFile, splitNasPath_concat]
  rw [Volume.treeAt, Volume.entryAt_concat, FileTree.dirAt_alterDir, hdir]
  exact FileTree.findEntry_putEntry _

/-- A write leaves the old file or the new one. -/
theorem Volume.treeAt_write (fold : String → String) (v : Volume) (path : NasPath) (data : Bytes) :
    (v.write fold path data).2.treeAt fold path = v.treeAt fold path ∨
      (v.write fold path data).2.treeAt fold path = some (.file data) := by
  unfold Volume.write
  split
  case h_1 => exact Or.inl rfl
  case h_2 parent name hsplit =>
    rw [eq_of_splitNasPath hsplit]
    split
    case h_1 => exact Or.inl rfl
    case h_2 => exact Or.inl rfl
    case h_3 hdir _ => exact Or.inr (Volume.treeAt_setFile (by rw [hdir]; rfl))
    case h_4 hdir _ => exact Or.inr (Volume.treeAt_setFile (by rw [hdir]; rfl))

theorem Volume.write_ok {data : Bytes} (h : (v.write fold path data).1 = .ok ()) :
    (v.write fold path data).2.treeAt fold path = some (.file data) := by
  revert h
  unfold Volume.write
  split
  case h_1 => intro h; cases h
  case h_2 parent name hsplit =>
    rw [eq_of_splitNasPath hsplit]
    split
    case h_1 => intro h; cases h
    case h_2 => intro h; cases h
    case h_3 hdir _ => exact fun _ => Volume.treeAt_setFile (by rw [hdir]; rfl)
    case h_4 hdir _ => exact fun _ => Volume.treeAt_setFile (by rw [hdir]; rfl)

theorem Volume.write_dir {data : Bytes} {children : List Entry}
    (h : v.treeAt fold path = some (.dir children)) : (v.write fold path data).2 = v := by
  unfold Volume.write
  rw [h]
  split
  case h_1 => rfl
  case h_2 =>
    split
    case h_1 => rfl
    case h_2 => rfl
    case h_3 hfile => cases hfile
    case h_4 hnone => cases hnone

theorem Volume.treeAt_truncate (fold : String → String) (v : Volume) (path : NasPath) (size : ℕ) :
    (v.truncate fold path size).2.treeAt fold path = v.treeAt fold path ∨
      ∃ content, v.treeAt fold path = some (.file content) ∧
        (v.truncate fold path size).2.treeAt fold path = some (.file (resize content size)) := by
  unfold Volume.truncate
  split
  case h_1 content htree =>
    refine Or.inr ⟨content, htree, ?_⟩
    cases hsplit : splitNasPath path with
    | none => simp [Volume.treeAt, Volume.entryAt, hsplit] at htree
    | some split =>
        obtain ⟨parent, name⟩ := split
        rw [eq_of_splitNasPath hsplit] at htree ⊢
        rw [Volume.treeAt, Volume.entryAt_concat] at htree
        cases hdir : v.root.dirAt fold parent with
        | none => simp [hdir] at htree
        | some children => exact Volume.treeAt_setFile (by rw [hdir]; rfl)
  case h_2 => exact Or.inl rfl
  case h_3 => exact Or.inl rfl

end Entries

end SynologyFilestation.Core
