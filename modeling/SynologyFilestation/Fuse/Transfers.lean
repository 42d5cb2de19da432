import SynologyFilestation.Fuse.Digest
import SynologyFilestation.Fuse.Handle
import SynologyFilestation.Fuse.ReadCache
import SynologyFilestation.Core.Namespace
import SynologyFilestation.Library.Routines

/-!
The tasks of the mount, as far as they wait for each other (`fuse/src/fs/transfer.rs`,
and the calls that start transfers in `mod.rs`, `callbacks.rs` and `xattr.rs`).

A task waits for a handle's buffer, which is locked for as long as an upload or a
write takes, for one of the transfer slots, for one of the slots for hashes, and for a
block that another task has claimed. The tables behind a plain mutex are locked for
one look and never across anything that waits, so a look at them is one step here.

What the NAS answers, how the local disk fares and what the caches still know is
asked of the world outside. Replies to the kernel are left out, and so is all that a
task does only to log it.
-/

namespace SynologyFilestation.Fuse

open Core Function Library Smb

/-! ### What the tasks share -/

/-- A semaphore of the mount, or the lock of a buffer. -/
inductive MountGate
  | buffer (n : ℕ)
  | transfer
  | hash
  deriving DecidableEq

/-- An open handle: its buffer, by number, and the file that it is on. -/
structure OpenHandle where
  path : NasPath
  buffer : ℕ

structure HandleBuffer (F : Type) extends WriteBuffer F where
  ino : ℕ

structure MountData (F : Type) where
  /-- `Buffers`. -/
  buffers : List (ℕ × OpenHandle)
  contents : ℕ → HandleBuffer F
  /-- Buffers made so far. -/
  made : ℕ
  rewrites : NasPath → ℕ
  /-- The hashes in flight, with how many wait on each. -/
  hashes : NasPath → Option ℕ
  /-- Blocks claimed from the prefetch budget. -/
  inFlight : ℕ

/-- What is asked of the NAS, of the local disk, and of the caches. -/
inductive MountQuery (F : Type)
  | writeAt (stream : SmbWriteHandle F) (offset : ℕ) (data : Bytes)
  | close (stream : SmbWriteHandle F)
  | openWrite (path : NasPath)
  | upload (parent : NasPath) (filename : String) (payload : Payload) (overwrite : Bool)
  | truncate (path : NasPath) (newSize : ℕ)
  | moveTo (oldPath newPath : NasPath)
  | getInfo (path : NasPath)
  | download (path : NasPath) (offset length : ℕ)
  /-- The download of a prefetch, which a close may abort. -/
  | prefetch (path : NasPath) (offset length : ℕ)
  | delete (path : NasPath)
  | md5 (path : NasPath)
  | logout
  | disk
  | pathForIno (ino : ℕ)
  | inoForPath (path : NasPath)
  /-- Whether the entry is a directory, where the inode cache has it. -/
  | isDir (ino : ℕ)
  | isDirAt (path : NasPath)
  | sizeForIno (ino : ℕ)
  | block (key : BlockKey)

abbrev MountQuery.Answer {F : Type} : MountQuery F → Type
  | .writeAt .. => Except SynoFsError (SmbWriteHandle F)
  | .close _ | .upload .. | .truncate .. | .moveTo .. | .delete _ | .logout =>
      Except SynoFsError Unit
  | .openWrite _ => Except SynoFsError (Option (SmbWriteHandle F))
  | .getInfo _ => Except SynoFsError SynoFileInfo
  | .download .. => Except SynoFsError Bytes
  | .prefetch .. => Option (Except SynoFsError Bytes)
  | .md5 _ => Except SynoFsError String
  | .disk => DiskScript
  | .pathForIno _ => Option NasPath
  | .inoForPath _ | .sizeForIno _ => Option ℕ
  | .isDir _ | .isDirAt _ => Option Bool
  | .block _ => Option Bytes

/-- What a task of the mount does. -/
abbrev MountRoutine (F : Type) :=
  Routine (MountData F) MountGate BlockKey (MountQuery F) MountQuery.Answer

section Data

variable {F : Type}

namespace MountData

/-- A mount without handles. -/
def initial : MountData F :=
  { buffers := [], made := 0, rewrites := fun _ => 0, hashes := fun _ => none, inFlight := 0,
    contents := fun _ =>
      { nasPath := [], ino := 0, sink := .buffered .new, dirty := false, newFile := false,
        streamed := false, broken := false } }

/-- `buffer`. -/
def buffer (d : MountData F) (fh : ℕ) : Option ℕ := (d.buffers.lookup fh).map (·.buffer)

def setBuffer (n : ℕ) (b : HandleBuffer F) (d : MountData F) : MountData F :=
  { d with contents := update d.contents n b }

/-- The handle gets a buffer of its own. -/
def addBuffer (fh : ℕ) (b : HandleBuffer F) (d : MountData F) : MountData F :=
  { d with
    buffers := (fh, ⟨b.nasPath, d.made⟩) :: d.buffers.filter (·.1 != fh)
    contents := update d.contents d.made b
    made := d.made + 1 }

def removeBuffer (fh : ℕ) (d : MountData F) : MountData F :=
  { d with buffers := d.buffers.filter (·.1 != fh) }

/-- `Rewriting::new`. -/
def rewriting (path : NasPath) (d : MountData F) : MountData F :=
  { d with rewrites := update d.rewrites path (d.rewrites path + 1) }

/-- `Rewriting::drop`. -/
def rewritten (path : NasPath) (d : MountData F) : MountData F :=
  { d with rewrites := update d.rewrites path (d.rewrites path - 1) }

/-- `busy`. A buffer that is locked counts as written to: nobody waits to look. -/
def busy (isFree : MountGate → Bool) (d : MountData F) (path : NasPath) : Bool :=
  decide (0 < d.rewrites path) || d.buffers.any fun (_, h) =>
    h.path == path && (!isFree (.buffer h.buffer) ||
      (d.contents h.buffer).dirty || (d.contents h.buffer).broken)

/-- A hash joined, where one runs for the path, and else a new one. -/
def joinHash (path : NasPath) (d : MountData F) : MountData F :=
  { d with hashes := update d.hashes path (some ((d.hashes path).elim 1 (· + 1))) }

def removeHash (path : NasPath) (d : MountData F) : MountData F :=
  { d with hashes := update d.hashes path none }

def fits (d : MountData F) (blocks limit : ℕ) : Bool := decide (d.inFlight + blocks ≤ limit)

/-- `Budget::try_claim`. -/
def tryClaim (blocks limit : ℕ) (d : MountData F) : MountData F :=
  if d.fits blocks limit then { d with inFlight := d.inFlight + blocks } else d

/-- `Claim::drop`. -/
def dropClaim (blocks : ℕ) (d : MountData F) : MountData F :=
  { d with inFlight := d.inFlight - blocks }

end MountData

/-! ### Transfers -/

/-- The claims of a file's blocks: what `invalidate_ino` gives back. -/
def ofIno (ino : ℕ) (key : BlockKey) : Bool := key.1 == ino

namespace Transfers

/-- What is left of `upload` when the NAS has answered. -/
def uploaded (n : ℕ) (done : Except SynoFsError Unit → MountRoutine F) :
    Except SynoFsError Unit → MountRoutine F
  | .error e => .release (.buffer n) (done (.error e))
  | .ok () =>
      .act (fun d => d.setBuffer n { d.contents n with dirty := false, newFile := false })
        fun _ d => .release (.buffer n) (.resolve (ofIno (d.contents n).ino) (done (.ok ())))

/-- `upload`, under the buffer's lock. The slot is taken for the network call, and given
back before the lock. -/
def uploadLocked (n : ℕ) (b : HandleBuffer F) (done : Except SynoFsError Unit → MountRoutine F) :
    MountRoutine F :=
  if b.broken then
    .release (.buffer n) (done (.error (.io
      ("close " ++ pathText b.nasPath ++ ": an earlier write to this file failed"))))
  else if !b.dirty then .release (.buffer n) (done (.ok ()))
  else
    match b.sink with
    | .streamed none => uploaded n done (.ok ())
    | .streamed (some stream) =>
        .act (·.setBuffer n { b with sink := .streamed none }) fun _ _ =>
          .acquire .transfer (.ask (.close stream) fun r => .release .transfer (uploaded n done r))
    | .buffered spill =>
        .ask .disk fun sc =>
          match payloadFor spill sc with
          | .error why => .release (.buffer n) (done (.error (.io why)))
          | .ok payload =>
              match splitNasPath b.nasPath with
              | none => .release (.buffer n) (done (.error .invalidArg))
              | some (parent, filename) =>
                  .acquire .transfer (.ask (.upload parent filename payload (!b.newFile)) fun r =>
                    .release .transfer (uploaded n done r))

/-- `upload`. Lock first, slot second. -/
def upload (fh : ℕ) (done : Except SynoFsError Unit → MountRoutine F) : MountRoutine F :=
  .act id fun _ d =>
    match d.buffer fh with
    | none => done (.ok ())
    | some n => .acquire (.buffer n) (.act id fun _ d => uploadLocked n (d.contents n) done)

/-- `truncate`. -/
def truncate (ino : ℕ) (path : NasPath) (newSize : ℕ)
    (done : Except SynoFsError SynoFileInfo → MountRoutine F) : MountRoutine F :=
  let answer r := .act (·.rewritten path) fun _ _ => done r
  .act (·.rewriting path) fun _ _ =>
    .acquire .transfer (.ask (.truncate path newSize) fun r => .release .transfer (match r with
      | .error e => answer (.error e)
      | .ok () => .resolve (ofIno ino) (.ask (.getInfo path) answer)))

/-- `copy_across_dirs`: a slot for the download and one for the upload. -/
def copyAcrossDirs (oldPath newParent : NasPath) (newName : String)
    (done : Except SynoFsError Unit → MountRoutine F) : MountRoutine F :=
  .acquire .transfer (.ask (.download oldPath 0 0) fun r => .release .transfer (match r with
    | .error e => done (.error e)
    | .ok data =>
        .acquire .transfer (.ask (.upload newParent newName (.memory data) true) fun r =>
          .release .transfer (match r with
            | .error e => done (.error e)
            -- the deletion of the source is best-effort
            | .ok () => .ask (.delete oldPath) fun _ => done (.ok ())))))

/-- `move_or_copy`. -/
def moveOrCopy (oldPath newParent : NasPath) (newName : String)
    (done : Except SynoFsError Unit → MountRoutine F) : MountRoutine F :=
  let unlessDir (isDir : Bool) : MountRoutine F :=
    if isDir then done (.error .notSupported) else copyAcrossDirs oldPath newParent newName done
  .acquire .transfer (.ask (.moveTo oldPath (newParent ++ [newName])) fun r =>
    .release .transfer (match r with
      | .ok () => done (.ok ())
      | .error .notSupported =>
          .ask (.isDirAt oldPath) fun cached =>
            match cached with
            | some isDir => unlessDir isDir
            | none =>
                .ask (.getInfo oldPath) fun info =>
                  match info with
                  | .ok info => unlessDir info.isdir
                  | .error _ => unlessDir false
      | .error e => done (.error e)))

/-- `forget_moved`, of one end. -/
def forgetEnd (path : NasPath) (next : MountRoutine F) : MountRoutine F :=
  .ask (.inoForPath path) fun ino =>
    match ino with
    | some ino => .resolve (ofIno ino) next
    | none => next

/-- `move_across_dirs`. -/
def moveAcrossDirs (oldPath newParent : NasPath) (newName : String)
    (done : Except SynoFsError Unit → MountRoutine F) : MountRoutine F :=
  let newPath := newParent ++ [newName]
  .act (·.rewriting oldPath) fun _ _ => .act (·.rewriting newPath) fun _ _ =>
    moveOrCopy oldPath newParent newName fun r =>
      forgetEnd oldPath (forgetEnd newPath
        (.act (·.rewritten newPath) fun _ _ => .act (·.rewritten oldPath) fun _ _ => done r))

end Transfers

namespace SynologyFS

/-! ### Writes -/

/-- A write to the local buffer, at the end of `write_buffer_at`. -/
def bufferAt (n : ℕ) (b : HandleBuffer F) (spill : SpillBuffer) (offset : ℕ) (data : Bytes)
    (done : Except SynoFsError Unit → MountRoutine F) : MountRoutine F :=
  .ask .disk fun sc =>
    let (r, b') := b.toWriteBuffer.bufferAt spill sc offset data
    .act (·.setBuffer n { b' with ino := b.ino }) fun _ _ => .release (.buffer n) (done r)

/-- `write_buffer_at`, under the buffer's lock. -/
def writeLocked (n : ℕ) (b : HandleBuffer F) (offset : ℕ) (data : Bytes)
    (done : Except SynoFsError Unit → MountRoutine F) : MountRoutine F :=
  match b.sink with
  | .streamed none => .release (.buffer n) (done (.error (.io "write to a closed handle")))
  | .streamed (some stream) =>
      .ask (.writeAt stream offset data) fun r =>
        match r with
        | .ok stream =>
            .act (·.setBuffer n
                { b with sink := .streamed (some stream), streamed := true, dirty := true })
              fun _ _ => .release (.buffer n) (done (.ok ()))
        | .error e =>
            -- Nothing of a new file has left the machine: the buffer can still carry all of it.
            if b.streamed || !b.newFile then
              .act (·.setBuffer n { b with sink := .streamed none, broken := true }) fun _ _ =>
                .release (.buffer n) (done (.error e))
            else bufferAt n b .new offset data done
  | .buffered spill => bufferAt n b spill offset data done

/-- `write_buffer_at`. -/
def writeBufferAt (fh offset : ℕ) (data : Bytes)
    (done : Except SynoFsError Unit → MountRoutine F) : MountRoutine F :=
  .act id fun _ d =>
    match d.buffer fh with
    | none => done (.error (.io ("write to unknown file handle " ++ toString fh)))
    | some n =>
        .acquire (.buffer n) (.act id fun _ d => writeLocked n (d.contents n) offset data done)

/-- `add_write_buffer`. -/
def addWriteBuffer (fh : ℕ) (nasPath : NasPath) (ino : ℕ) (newFile writable : Bool)
    (next : MountRoutine F) : MountRoutine F :=
  let add (sink : WriteSink F) : MountRoutine F :=
    .act (·.addBuffer fh
        { nasPath := nasPath, ino := ino, sink := sink, dirty := newFile, newFile := newFile,
          streamed := false, broken := false })
      fun _ _ => next
  if writable then
    .ask (.openWrite nasPath) fun r =>
      match r with
      | .ok (some stream) => add (.streamed (some stream))
      | .ok none => add (.buffered .new)
      | .error _ => add (.buffered .new)
  else add (.buffered .new)

/-! ### Hashes -/

/-- A hash of one's own. Whether the file is busy is looked at again with the slot. -/
def leadHash (path : NasPath) : MountRoutine F :=
  let finish : MountRoutine F := .act (·.removeHash path) fun _ _ => .done
  .acquire .hash (.act id fun isFree d =>
    if d.busy isFree path then .release .hash finish
    else .ask (.md5 path) fun _ => .release .hash finish)

def joinOrLead (path : NasPath) (size : ℕ) : MountRoutine F :=
  if size = 0 then .done
  else .act (·.joinHash path) fun _ d => if (d.hashes path).isSome then .done else leadHash path

/-- The part of `start_getxattr` that runs on the runtime. -/
def hashTask (path : NasPath) (cachedDir : Option Bool) (size : ℕ) : MountRoutine F :=
  match cachedDir with
  | some _ => joinOrLead path size
  | none =>
      .ask (.getInfo path) fun info =>
        match info with
        | .ok info => if info.isdir then .done else joinOrLead path size
        | .error _ => .done

/-- `start_getxattr`. -/
def startGetxattr (ino : ℕ) (root : Bool) (name : String) (size : ℕ) : MountRoutine F :=
  .ask (.pathForIno ino) fun path => .ask (.isDir ino) fun cachedDir =>
    .act id fun isFree d =>
      match path, answerFromMemory root name path.isSome cachedDir
          (path.any (d.busy isFree ·)) size with
      | some path, none => .fork [] (hashTask path cachedDir size) .done
      | _, _ => .done

/-! ### Reads and prefetch -/

/-- The claims of blocks given back, one after the other. -/
def resolveBlocks (ino : ℕ) (blocks : List ℕ) (next : MountRoutine F) : MountRoutine F :=
  blocks.foldr (fun i next => .resolve (· == (ino, i)) next) next

def maxPrefetchSpan : ℕ := 16

def maxInflightPrefetchBlocks : ℕ := 32

variable (blockSize : ℕ)

/-- The task of `spawn_run`. A download that came back is stored block after block from
`first` on; the guards of one that did not give back the claims that were made. -/
def runTask (ino : ℕ) (path : NasPath) (first : ℕ) (blocks : List ℕ) : MountRoutine F :=
  let finish : MountRoutine F := .act (·.dropClaim blocks.length) fun _ _ => .done
  .ask (.prefetch path (first * blockSize) (blocks.length * blockSize)) fun r =>
    match r with
    | some (.ok _) => resolveBlocks ino (List.range' first blocks.length) finish
    | some (.error _) | none => resolveBlocks ino blocks finish

/-- `spawn_run`. A run that the budget has no room for is dropped. -/
def spawnRun (ino : ℕ) (path : NasPath) (blocks : List ℕ) (connections : ℕ)
    (next : MountRoutine F) : MountRoutine F :=
  match blocks with
  | [] => next
  | first :: _ =>
      let limit := maxInflightPrefetchBlocks * connections
      .act (·.tryClaim blocks.length limit) fun _ d =>
        if d.fits blocks.length limit then
          .fork (blocks.map (ino, ·)) (runTask blockSize ino path first blocks) next
        else resolveBlocks ino blocks next

/-- A block of `spawn_prefetch`, which ends the run so far or is the next of it. -/
def addBlock (ino : ℕ) (path : NasPath) (connections : ℕ) (run : List ℕ) (i : ℕ)
    (next : List ℕ → MountRoutine F) (ours : Bool) : MountRoutine F :=
  let continues := run.getLast?.any (· + 1 == i) && decide (run.length < maxPrefetchSpan)
  if !ours || !continues then
    spawnRun blockSize ino path run connections (next (if ours then [i] else []))
  else next (run ++ [i])

/-- `spawn_prefetch`: the blocks left, and the run so far. -/
def spawnPrefetch (ino : ℕ) (path : NasPath) (connections : ℕ) (next : MountRoutine F) :
    List ℕ → List ℕ → MountRoutine F
  | [], run => spawnRun blockSize ino path run connections next
  | i :: blocks, run =>
      let add := addBlock blockSize ino path connections run i
        (spawnPrefetch ino path connections next blocks)
      .ask (.block (ino, i)) fun cached =>
        if cached.isSome then add false else .claim (ino, i) add

/-- An empty block is the end of the file, and so is a short one. -/
def takeBlock (block : Bytes) (last rest : MountRoutine F) : MountRoutine F :=
  if block = [] ∨ block.length < blockSize then last else rest

/-- The blocks left of `read_range`. `done` is told whether all of it could be read. -/
def readBlocks (ino : ℕ) (path : NasPath) (done : Bool → MountRoutine F) :
    List ℕ → MountRoutine F
  | [] => done true
  | i :: blocks =>
      let take block := takeBlock blockSize block (done true) (readBlocks ino path done blocks)
      .ask (.block (ino, i)) fun cached =>
        match cached with
        | some block => take block
        | none =>
            .claim (ino, i) fun won =>
              if won then
                .ask (.download path (i * blockSize) blockSize) fun r =>
                  .resolve (· == (ino, i)) (match r with
                    | .ok block => take block
                    | .error _ => done false)
              else
                .await (ino, i) (.ask (.block (ino, i)) fun waited =>
                  match waited with
                  | some block => take block
                  | none => done false)

/-- `read_range`. -/
def readRange (ino : ℕ) (path : NasPath) (offset size : ℕ) (done : Bool → MountRoutine F) :
    MountRoutine F :=
  let firstBlock := offset / blockSize
  let lastBlock := (offset + size - 1) / blockSize
  readBlocks blockSize ino path done (List.range' firstBlock (lastBlock + 1 - firstBlock))

/-- The end of `prime_open`. `window` is what `open_window` makes of the first block. -/
def sniffHead (ino : ℕ) (path : NasPath) (window : Bytes → List ℕ) (connections : ℕ)
    (next : MountRoutine F) : MountRoutine F :=
  .ask (.block (ino, 0)) fun head =>
    match head with
    | none => next
    | some head => spawnPrefetch blockSize ino path connections next (window head) []

/-- `prime_open`, for a window that depends on the number of blocks as well. That an empty
first block is evicted is for the cache to answer by. -/
def primeOpen (ino : ℕ) (path : NasPath) (window : ℕ → Bytes → List ℕ) (connections : ℕ)
    (next : MountRoutine F) : MountRoutine F :=
  .ask (.sizeForIno ino) fun size =>
    match size.filter (decide <| 0 < ·) with
    | none => next
    | some size =>
        let totalBlocks := (size + blockSize - 1) / blockSize
        let sniff := sniffHead blockSize ino path (window totalBlocks) connections next
        .ask (.block (ino, 0)) fun cached =>
          if cached.isSome then sniff
          else
            .claim (ino, 0) fun won =>
              if won then
                .ask (.download path 0 blockSize) fun _ => .resolve (· == (ino, 0)) sniff
              else sniff

end SynologyFS

/-! ### Callbacks -/

/-- What the kernel asks for, with what the tables that are no part of this say. -/
inductive MountCall
  | write (fh offset : ℕ) (data : Bytes)
  | flush (fh : ℕ)
  | release (fh : ℕ)
  | setattr (ino : ℕ) (newSize : ℕ)
  /-- To another directory. -/
  | rename (oldPath newParent : NasPath) (newName : String)
  | open (fh ino : ℕ) (writable : Bool) (window : ℕ → Bytes → List ℕ) (connections : ℕ)
  | create (fh ino : ℕ) (path : NasPath) (writable : Bool)
  /-- `ahead` is the read-ahead that the read has earned. -/
  | read (ino offset size : ℕ) (ahead : List ℕ) (connections : ℕ)
  | getxattr (ino : ℕ) (root : Bool) (name : String) (size : ℕ)
  /-- The handles are in the order of the table. -/
  | destroy (order : List ℕ → List ℕ)

namespace SynologyFS

/-- `finish_upload` of one handle after another, and the logout. -/
def finishUploads : List ℕ → MountRoutine F
  | [] => .ask .logout fun _ => .done
  | fh :: fhs => Transfers.upload fh fun _ => finishUploads fhs

/-- `start_upload`. -/
def startUpload (fh : ℕ) (reply : MountRoutine F) : MountRoutine F :=
  .fork [] (Transfers.upload fh fun _ => reply) .done

/-- `start_truncate`. The path is registered before the task is there. -/
def startTruncate (ino : ℕ) (path : NasPath) (newSize : ℕ) : MountRoutine F :=
  .act (·.rewriting path) fun _ _ =>
    .fork [] (Transfers.truncate ino path newSize fun _ =>
      .act (·.rewritten path) fun _ _ => .done) .done

/-- `start_move_across_dirs`. -/
def startMoveAcrossDirs (oldPath newParent : NasPath) (newName : String) : MountRoutine F :=
  let newPath := newParent ++ [newName]
  .act (·.rewriting oldPath) fun _ _ => .act (·.rewriting newPath) fun _ _ =>
    .fork [] (Transfers.moveAcrossDirs oldPath newParent newName fun _ =>
      .act (·.rewritten newPath) fun _ _ => .act (·.rewritten oldPath) fun _ _ => .done) .done

/-- `read`, and the read-ahead that it has earned. -/
def read (blockSize ino offset size : ℕ) (ahead : List ℕ) (connections : ℕ) : MountRoutine F :=
  if size = 0 then .done
  else
    .ask (.pathForIno ino) fun path =>
      match path with
      | none => .done
      | some path =>
          readRange blockSize ino path offset size fun isOk =>
            if isOk then spawnPrefetch blockSize ino path connections .done ahead [] else .done

end SynologyFS

open SynologyFS in
/-- The callback. -/
def MountCall.routine (blockSize : ℕ) : MountCall → MountRoutine F
  | .write fh offset data => writeBufferAt fh offset data fun _ => .done
  | .flush fh => startUpload fh .done
  | .release fh => startUpload fh (.act (·.removeBuffer fh) fun _ _ => .done)
  | .setattr ino newSize =>
      .ask (.pathForIno ino) fun path =>
        match path with
        | none => .done
        | some path => startTruncate ino path newSize
  | .rename oldPath newParent newName => startMoveAcrossDirs oldPath newParent newName
  | .open fh ino writable window connections =>
      .ask (.pathForIno ino) fun path =>
        match path with
        | none => .done
        | some path =>
            primeOpen blockSize ino path window connections
              (addWriteBuffer fh path ino false writable .done)
  | .create fh ino path writable => addWriteBuffer fh path ino true writable .done
  | .read ino offset size ahead connections =>
      SynologyFS.read blockSize ino offset size ahead connections
  | .getxattr ino root name size => startGetxattr ino root name size
  | .destroy order => .act id fun _ d => finishUploads (order (d.buffers.map (·.1)))

/-! ### The mount -/

/-- How many tasks may have what the gate guards. -/
def permitsOf (transfers hashes : ℕ) : MountGate → ℕ
  | .buffer _ => 1
  | .transfer => transfers
  | .hash => hashes

def maxConcurrentTransfers : ℕ := 4

def maxConcurrentHashes : ℕ := 2

/-- The tasks of a mount. -/
abbrev MountCrew (F : Type) :=
  Crew (MountData F) MountGate BlockKey (MountQuery F) MountQuery.Answer

/-- A step of the mount: a callback comes, or a task of an earlier one goes on. -/
abbrev MountStep (blockSize : ℕ) : MountCrew F → Stirring → MountCrew F → Prop :=
  CrewStep fun r => ∃ call : MountCall, call.routine blockSize = r

/-- A mount with nothing to do. -/
def mounted (transfers hashes : ℕ) : MountCrew F := .idle .initial (permitsOf transfers hashes)

end Data

end SynologyFilestation.Fuse
