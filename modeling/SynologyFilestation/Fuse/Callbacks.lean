import SynologyFilestation.Core.Moves

/-!
The callbacks that remove and rename (`fuse/src/fs/callbacks.rs`), and the move
between directories behind `rename` (`fuse/src/fs/transfer.rs`). The kernel names
an entry by the inode of its directory and a name, and the inode cache knows the
path of the directory. A rename in place takes two requests: DSM's Rename does
not replace, so what stands under the new name is deleted first.

What the callbacks make the caches forget is left out.
-/

namespace SynologyFilestation.Fuse

open Core

/-- What the callbacks read of the inode cache: where an inode is, and whether
what is under a path was last seen to be a directory. -/
structure InodeCache where
  pathForIno : ℕ → Option NasPath
  isDir : NasPath → Option Bool

/-- A name as the kernel passes it: it is never empty. -/
structure FileName where
  text : String
  nonempty : text ≠ ""

structure RenameFlags where
  noreplace : Bool

structure InPlaceScript where
  delete : RequestScript
  rename : RequestScript

structure CopyScript where
  download : DownloadScript
  upload : UploadScript
  delete : RequestScript

structure AcrossScript where
  move : MoveScript
  info : RequestScript
  copy : CopyScript

structure RenameScript where
  inPlace : InPlaceScript
  across : AcrossScript

section Callbacks

variable (fold : String → String) (archive : Tree → Core.Bytes) (limits : TransferLimits)
  (inodes : InodeCache)

def reply (r : Except SynoFsError Unit × Client Volume) : Except Errno Unit × Client Volume :=
  (r.1.mapError SynoFsError.toErrno, r.2)

/-- What `unlink` and `rmdir` have in common, which is all they do to the NAS. -/
def removeNamed (sc : RequestScript) (parent : ℕ) (name : FileName) (c : Client Volume) :
    Except Errno Unit × Client Volume :=
  match inodes.pathForIno parent with
  | some parentPath => reply (delete fold sc (joinPath parentPath name.text) c)
  | none => (.error .enoent, c)

def unlink (sc : RequestScript) (parent : ℕ) (name : FileName) (c : Client Volume) :
    Except Errno Unit × Client Volume :=
  removeNamed fold inodes sc parent name c

def rmdir (sc : RequestScript) (parent : ℕ) (name : FileName) (c : Client Volume) :
    Except Errno Unit × Client Volume :=
  removeNamed fold inodes sc parent name c

/-- The same-directory half of `rename`. -/
def renameInPlace (sc : InPlaceScript) (old new : NasPath) (newName : String)
    (c : Client Volume) : Except SynoFsError Unit × Client Volume :=
  -- Nothing may be there to delete: the error is ignored.
  let c := if old = new then c else (delete fold sc.delete new c).2
  let (renamed, c) := Core.rename fold sc.rename old newName c
  (renamed.map fun _ => (), c)

/-- `copy_across_dirs`. -/
def copyAcrossDirs (sc : CopyScript) (old newParent : NasPath) (newName : String)
    (c : Client Volume) : Except SynoFsError Unit × Client Volume :=
  let (data, c) := download fold archive limits sc.download old 0 0 c
  match data with
  | .error e => (.error e, c)
  | .ok data =>
      let (uploaded, c) := upload fold limits sc.upload newParent newName data true c
      match uploaded with
      | .error e => (.error e, c)
      | .ok () =>
          -- Best effort: a failure leaves a duplicate.
          let (_, c) := delete fold sc.delete old c
          (.ok (), c)

/-- Whether `move_or_copy` takes the source for a directory. Unanswerable is not
one. -/
def sourceIsDir (info : RequestScript) (old : NasPath) (c : Client Volume) : Bool × Client Volume :=
  match inodes.isDir old with
  | some isdir => (isdir, c)
  | none =>
      let (found, c) := getInfo fold info old c
      match found with
      | .ok found => (found.isdir, c)
      | .error _ => (false, c)

/-- `move_or_copy`. -/
def moveOrCopy (sc : AcrossScript) (old newParent : NasPath) (newName : String)
    (c : Client Volume) : Except SynoFsError Unit × Client Volume :=
  let (moved, c) := moveTo fold sc.move old (joinPath newParent newName) c
  if moved = .error .notSupported then
    let (isdir, c) := sourceIsDir fold inodes sc.info old c
    if isdir then (.error .notSupported, c)
    else copyAcrossDirs fold archive limits sc.copy old newParent newName c
  else (moved, c)

/-- The flags are not looked at. -/
def rename (sc : RenameScript) (parent : ℕ) (name : FileName) (newParent : ℕ)
    (newName : FileName) (_flags : RenameFlags) (c : Client Volume) :
    Except Errno Unit × Client Volume :=
  match inodes.pathForIno parent, inodes.pathForIno newParent with
  | some parentPath, some newParentPath =>
      let old := joinPath parentPath name.text
      let new := joinPath newParentPath newName.text
      if parent = newParent then
        reply (renameInPlace fold sc.inPlace old new newName.text c)
      else reply (moveOrCopy fold archive limits inodes sc.across old newParentPath newName.text c)
  | _, _ => (.error .enoent, c)

end Callbacks

end SynologyFilestation.Fuse
