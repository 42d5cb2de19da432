import SynologyFilestation.Fuse.Durability
import SynologyFilestation.Fuse.ReadCache
import SynologyFilestation.Fuse.ReadTurns
import SynologyFilestation.Library.Segment

/-!
One inode of the mount, its handles written to and read from at once (`read`,
`write`, `flush` and `release` in `fuse/src/fs/callbacks.rs`). Writes go to the
sink of their handle; a read goes to the cache and, past it, to the NAS. The two
meet nowhere but on the NAS, once an upload has landed.

A read's turns, the downloads of the read-ahead, the two halves of `insert`, an
upload and the invalidation it ends with are steps of their own, in any order.
Who may download a block, and who waits for whom, is left out: here anyone may,
and a wait is over when its block is in the cache, so the runs of the mount are
among these.
-/

namespace SynologyFilestation.Fuse

open Function Core Library Smb

/-- `SynologyClient::download`. -/
abbrev RangeDownload (S : Type) := NasPath → ℕ → ℕ → S → Except SynoFsError Bytes × S

/-- What the mount relies on of it: a download that succeeds brings the bytes the file has in
the range. -/
structure RangeDownload.Serves {S : Type} (download : RangeDownload S)
    (file : NasPath → S → Option Bytes) : Prop where
  ok : ∀ {path offset length s data s'}, 0 < length →
    download path offset length s = (.ok data, s') →
      data = (((file path s).getD []).drop offset).take length

/-- `invalidate_ino`, on the blocks. -/
def ReadCache.invalidateIno (c : ReadCache) (ino : ℕ) : ReadCache :=
  (c.inoBlocks ino).foldl (fun c idx => c.evict (ino, idx)) (c.takeList ino)

/-- The inode, the handles open on it, and what is cached of it. -/
structure MountedFile (S F : Type) where
  mount : Mount S F
  /-- `get_path_for_ino` finds its path. -/
  named : Bool
  cache : ReadCache
  /-- Invalidations so far. -/
  begun : ℕ
  /-- Blocks that were downloaded and have yet to be put in the cache. -/
  arrived : List (ℕ × Block)
  /-- Blocks that were put and have yet to be listed. -/
  unlisted : List ℕ
  /-- Uploads that have landed and have yet to invalidate the caches. -/
  owed : ℕ
  reads : ℕ → Option FileRead
  /-- The writes that returned `Ok`, in order. -/
  accepted : List (Write UInt8)

inductive FileEvent
  | create (fh : ℕ) (writable : Bool)
  | openFile (fh : ℕ) (writable : Bool)
  | write (fh : ℕ) (sc : DiskScript) (offset : ℕ) (data : Bytes)
  | flush (fh : ℕ) (sc : DiskScript)
  | release (fh : ℕ) (sc : DiskScript)
  | settle
  | name
  | ask (read offset size : ℕ)
  | hit (read : ℕ)
  | download (read : ℕ)
  | downloadFails (read : ℕ)
  | waitFails (read : ℕ)
  | prefetch (first count : ℕ)
  | put (idx : ℕ)
  | list (idx : ℕ)
  | evict (idx : ℕ)
  | unlist (idx : ℕ)
  | elsewhere

namespace MountedFile

variable {S F : Type} (client : NasClient S F)

/-- A mount that has just started. -/
def initial (world : S) : MountedFile S F where
  mount := { buffers := fun _ => none, world := world }
  named := true
  cache := .new
  begun := 0
  arrived := []
  unlisted := []
  owed := 0
  reads := fun _ => none
  accepted := []

/-- The `write` callback. -/
def write (fh : ℕ) (sc : DiskScript) (offset : ℕ) (data : Bytes) (s : MountedFile S F) :
    MountedFile S F :=
  let (r, mount) := s.mount.writeBufferAt client fh sc offset data
  { s with mount := mount,
           accepted := if r.isOk then s.accepted ++ [(offset, data)] else s.accepted }

/-- Whether an upload of the handle has something to send. -/
def isDirty (fh : ℕ) (s : MountedFile S F) : Bool := (s.mount.buffers fh).any (·.dirty)

/-- The transfer of a `flush`. -/
def flush (fh : ℕ) (sc : DiskScript) (s : MountedFile S F) : MountedFile S F :=
  let (r, mount) := s.mount.upload client fh sc
  { s with mount := mount, owed := if r.isOk && s.isDirty fh then s.owed + 1 else s.owed }

/-- The transfer of a `release`, and the handle forgotten. -/
def release (fh : ℕ) (sc : DiskScript) (s : MountedFile S F) : MountedFile S F :=
  let (r, mount) := s.mount.release client fh sc
  { s with mount := mount, owed := if r.isOk && s.isDirty fh then s.owed + 1 else s.owed }

/-- What a successful upload ends with: `invalidate_path` and `invalidate_ino`. -/
def settle (ino : ℕ) (s : MountedFile S F) : MountedFile S F :=
  { s with named := false, cache := s.cache.invalidateIno ino, begun := s.begun + 1,
           owed := s.owed - 1 }

def setRead (n : ℕ) (r : FileRead) (s : MountedFile S F) : MountedFile S F :=
  { s with reads := update s.reads n (some r) }

/-- The NAS after a call, whatever it answered. -/
def setWorld (world : S) (s : MountedFile S F) : MountedFile S F :=
  { s with mount := { s.mount with world := world } }

/-- Blocks that a download brought. -/
def arrive (blocks : List (ℕ × Bytes)) (s : MountedFile S F) : MountedFile S F :=
  { s with arrived := s.arrived ++ blocks.map fun p => (p.1, { data := p.2, began := s.begun }) }

end MountedFile

/-- A run of blocks, cut out of the answer for all of them. -/
def piecesOf (blockSize first count : ℕ) (data : Bytes) : List (ℕ × Bytes) :=
  (List.range count).map fun k => (first + k, (data.drop (k * blockSize)).take blockSize)

section Steps

variable {S F : Type} (client : NasClient S F) (download : RangeDownload S) (path : NasPath)
  (ino blockSize : ℕ)

inductive FileStep (s : MountedFile S F) : FileEvent → MountedFile S F → Prop
  | create {fh writable} (hnew : s.mount.buffers fh = none) :
      FileStep s (.create fh writable)
        { s with mount := s.mount.addWriteBuffer client fh path true writable, named := true }
  | openFile {fh writable} (hnew : s.mount.buffers fh = none) (hnamed : s.named = true) :
      FileStep s (.openFile fh writable)
        { s with mount := s.mount.addWriteBuffer client fh path false writable }
  | write {fh sc offset data} :
      FileStep s (.write fh sc offset data) (s.write client fh sc offset data)
  | flush {fh sc} : FileStep s (.flush fh sc) (s.flush client fh sc)
  | release {fh sc} : FileStep s (.release fh sc) (s.release client fh sc)
  | settle (howed : 0 < s.owed) : FileStep s .settle (s.settle ino)
  /-- A lookup or a listing that was under way puts the path back. -/
  | name : FileStep s .name { s with named := true }
  | ask {n offset size} (hnew : s.reads n = none) :
      FileStep s (.ask n offset size)
        (s.setRead n (.ask blockSize s.named s.accepted offset size))
  /-- The read finds its block in the cache: at once, or after a wait. -/
  | hit {n r block} (hr : s.reads n = some r) (hopen : r.reply = none)
      (hget : s.cache.get (ino, r.blockIdx) = some block) :
      FileStep s (.hit n) (s.setRead n (r.take blockSize block.data))
  | download {n r data world} (hr : s.reads n = some r) (hopen : r.reply = none)
      (hdown : download path (r.blockIdx * blockSize) blockSize s.mount.world =
        (.ok data, world)) :
      FileStep s (.download n)
        (((s.setWorld world).arrive [(r.blockIdx, data)]).setRead n (r.take blockSize data))
  | downloadFails {n r e world} (hr : s.reads n = some r) (hopen : r.reply = none)
      (hdown : download path (r.blockIdx * blockSize) blockSize s.mount.world =
        (.error e, world)) :
      FileStep s (.downloadFails n) ((s.setWorld world).setRead n (r.fail e))
  | waitFails {n r} (hr : s.reads n = some r) (hopen : r.reply = none) :
      FileStep s (.waitFails n) (s.setRead n (r.fail (.io "block download failed")))
  /-- A run of the read-ahead, or block 0 at open. -/
  | prefetch {first count data world} (hcount : 0 < count)
      (hdown : download path (first * blockSize) (count * blockSize) s.mount.world =
        (.ok data, world)) :
      FileStep s (.prefetch first count)
        ((s.setWorld world).arrive (piecesOf blockSize first count data))
  | put {idx block before after} (harrived : s.arrived = before ++ (idx, block) :: after) :
      FileStep s (.put idx)
        { s with cache := s.cache.put (ino, idx) block, arrived := before ++ after,
                 unlisted := idx :: s.unlisted }
  | list {idx} (hunlisted : idx ∈ s.unlisted) :
      FileStep s (.list idx)
        { s with cache := s.cache.list (ino, idx), unlisted := s.unlisted.erase idx }
  | evict {idx} : FileStep s (.evict idx) { s with cache := s.cache.evict (ino, idx) }
  | unlist {idx} : FileStep s (.unlist idx) { s with cache := s.cache.unlist (ino, idx) }
  /-- The NAS goes on by itself: transfers under way, other files, other clients. -/
  | elsewhere {world} : FileStep s .elsewhere (s.setWorld world)

end Steps

/-- Every read that was answered was answered rightly. -/
def ReadsBack {S F : Type} (base : Bytes) (s : MountedFile S F) : Prop :=
  ∀ n r, s.reads n = some r → r.Right base

/-- What is at hand is the file as written. A read is asked for while the inode has a path; the
block it turns to shows the file in the range, the cached one where it takes that, and the one
the NAS has then where it downloads. -/
def AtHand {S F : Type} (file : NasPath → S → Option Bytes) (path : NasPath) (ino blockSize : ℕ)
    (base : Bytes) (s : MountedFile S F) : FileEvent → Prop
  | .ask _ _ size => size = 0 ∨ s.named = true
  | .hit n => ∀ r block, s.reads n = some r → s.cache.get (ino, r.blockIdx) = some block →
      Shows blockSize (r.file base) r.offset r.size r.blockIdx block.data
  | .download n => ∀ r, s.reads n = some r →
      Shows blockSize (r.file base) r.offset r.size r.blockIdx
        (blockOf blockSize ((file path s.mount.world).getD []) r.blockIdx)
  | _ => True

section Runs

variable {S F : Type} {client : NasClient S F} {download : RangeDownload S} {path : NasPath}
  {ino blockSize : ℕ} {file : NasPath → S → Option Bytes} {base : Bytes}
  {s t : MountedFile S F} {e : FileEvent}

/-- What a step does to the reads. -/
theorem FileStep.forall_reads {P : FileRead → Prop}
    (h : FileStep client download path ino blockSize s e t)
    (hs : ∀ n r, s.reads n = some r → P r)
    (hask : ∀ n offset size, e = .ask n offset size →
      P (.ask blockSize s.named s.accepted offset size))
    (hhit : ∀ n r block, e = .hit n → s.reads n = some r → r.reply = none →
      s.cache.get (ino, r.blockIdx) = some block → P (r.take blockSize block.data))
    (hdownload : ∀ n r data world, e = .download n → s.reads n = some r → r.reply = none →
      download path (r.blockIdx * blockSize) blockSize s.mount.world = (.ok data, world) →
        P (r.take blockSize data))
    (hfail : ∀ n r why, s.reads n = some r → P (r.fail why)) :
    ∀ n r, t.reads n = some r → P r := by
  -- A step sets one read at most, and leaves the others.
  have hset : ∀ {n r'}, P r' → ∀ k r, update s.reads n (some r') k = some r → P r := by
    intro n r' hr' k r hk
    rcases update_eq_some hk with ⟨-, rfl⟩ | ⟨-, hold⟩
    · exact hr'
    · exact hs k r hold
  cases h with
  | ask hnew => exact hset (hask _ _ _ rfl)
  | hit hr hopen hget => exact hset (hhit _ _ _ rfl hr hopen hget)
  | download hr hopen hdown => exact hset (hdownload _ _ _ _ rfl hr hopen hdown)
  | downloadFails hr hopen hdown => exact hset (hfail _ _ _ hr)
  | waitFails hr hopen => exact hset (hfail _ _ _ hr)
  | _ => exact hs

/-- Every read is sound, whatever happens. -/
theorem FileStep.sound (hpos : 0 < blockSize)
    (h : FileStep client download path ino blockSize s e t)
    (hs : ∀ n r, s.reads n = some r → r.Sound blockSize base) :
    ∀ n r, t.reads n = some r → r.Sound blockSize base := by
  have hturning : ∀ n r, s.reads n = some r → r.reply = none → r.Turning blockSize base := by
    intro n r hr hopen
    have hsound := hs n r hr
    rwa [FileRead.Sound, hopen] at hsound
  refine h.forall_reads hs ?_ ?_ ?_ ?_
  · intro n offset size _
    exact FileRead.ask_sound base s.named s.accepted offset size
  · intro n r block _ hr hopen _
    exact (hturning n r hr hopen).take hopen hpos block.data
  · intro n r data world _ hr hopen _
    exact (hturning n r hr hopen).take hopen hpos data
  · intro n r why _
    exact FileRead.Sound.fail why

theorem FileRead.Informed.take {r : FileRead} {block : Bytes} (h : r.Informed blockSize base)
    (hshows : Shows blockSize (r.file base) r.offset r.size r.blockIdx block) :
    (r.take blockSize block).Informed blockSize base := by
  obtain ⟨-, -, hsize, hnamed⟩ := FileRead.take_unchanged blockSize block r
  refine ⟨?_, allShow_take.mpr ⟨h.2, hshows⟩⟩
  rw [hsize, hnamed]
  exact h.1

/-- Where what is at hand is the file as written, every read is informed. -/
theorem FileStep.informed (hserves : download.Serves file) (hpos : 0 < blockSize)
    (h : FileStep client download path ino blockSize s e t)
    (hathand : AtHand file path ino blockSize base s e)
    (hs : ∀ n r, s.reads n = some r → r.Informed blockSize base) :
    ∀ n r, t.reads n = some r → r.Informed blockSize base := by
  refine h.forall_reads hs ?_ ?_ ?_ ?_
  · rintro n offset size rfl
    exact ⟨hathand, fun p hp => by simp [FileRead.ask] at hp⟩
  · rintro n r block rfl hr _ hget
    exact (hs n r hr).take (hathand r block hr hget)
  · rintro n r data world rfl hr _ hdown
    refine (hs n r hr).take ?_
    rw [hserves.ok hpos hdown]
    exact hathand r hr
  · intro n r why hr
    exact hs n r hr

end Runs

/-! ### What is saved, and what is not -/

section Saved

variable {S F : Type} {client : NasClient S F} {path : NasPath} {blockSize blockIdx : ℕ}
  {file : NasPath → S → Option Bytes} {base : Bytes} {b : WriteBuffer F} {sc : DiskScript}
  {offset size : ℕ}

/-- A write to the local buffer changes neither the cache nor the NAS. -/
theorem MountedFile.write_buffered {s : MountedFile S F} {fh : ℕ} {spill : SpillBuffer}
    (hb : s.mount.buffers fh = some b) (hsink : b.sink = .buffered spill) (start : ℕ)
    (data : Bytes) :
    (s.write client fh sc start data).mount.world = s.mount.world ∧
      (s.write client fh sc start data).cache = s.cache := by
  simp [MountedFile.write, Mount.writeBufferAt, hb, WriteBuffer.writeAt, hsink]

/-- **Unsaved, and unread.** A byte that is still in the local buffer is not at hand, unless the
NAS has the same. -/
theorem buffered_write_unread {s : MountedFile S F} {fh : ℕ} {spill : SpillBuffer}
    (hb : s.mount.buffers fh = some b) (hsink : b.sink = .buffered spill) {start i : ℕ}
    {data : Bytes} {byte : UInt8}
    (hbyte : lastByte (s.write client fh sc start data).accepted i = some byte)
    (hstored : ((file path s.mount.world).getD [])[i]? ≠ some byte)
    (hlow : offset ≤ i) (hhigh : i < offset + size) (hbegun : blockIdx * blockSize ≤ i)
    (hends : i < (blockIdx + 1) * blockSize) :
    ¬ Shows blockSize (patchAll base (s.write client fh sc start data).accepted) offset size
      blockIdx
      (blockOf blockSize ((file path (s.write client fh sc start data).mount.world).getD [])
        blockIdx) := by
  -- What the NAS has in this range is what it had before the write.
  rw [shows_blockOf_iff, (MountedFile.write_buffered hb hsink start data).1]
  intro hshows
  have hwritten := patchAll_holds base _ i byte hbyte
  exact hstored ((hshows i hhigh hlow hbegun hends).trans hwritten)

/-- **Saved, and at hand.** Once the upload of the one handle that wrote has reported success,
the NAS shows the file as written wherever the handle's writes cover the range. -/
theorem upload_shows (hclient : client.Stores file) (hpath : b.nasPath = path)
    {ws : List (Write UInt8)} {world : S} (h : Keeps client file path base b ws world)
    (hhalf : b.halfClosed = false) (hok : (b.upload client sc world).1 = .ok ())
    (hcovered : ∀ i < offset + size, offset ≤ i → (lastByte ws i).isSome) :
    Shows blockSize (patchAll base ws) offset size blockIdx
      (blockOf blockSize ((file path (b.upload client sc world).2.2).getD []) blockIdx) := by
  have hstored := (upload_keeps hclient hpath h hhalf sc).2 hok
  rw [shows_blockOf_iff]
  intro i hhigh hlow _ _
  obtain ⟨byte, hbyte⟩ := Option.isSome_iff_exists.mp (hcovered i hhigh hlow)
  obtain ⟨content, hfile, hcontent⟩ := hstored i byte hbyte
  rw [hfile, Option.getD_some, hcontent, patchAll_holds base ws i byte hbyte]

end Saved

/-! ### Two runs -/

/-- A NAS that serves what it has. -/
def nasDownload : RangeDownload Nas := fun path offset length nas =>
  match nas.file path with
  | some content => (.ok ((content.drop offset).take length), nas)
  | none => (.error .notFound, nas)

theorem nasDownload_serves : nasDownload.Serves Nas.file where
  ok := by
    intro path offset length nas data nas' _ h
    rw [nasDownload] at h
    split at h
    case h_1 content hfile =>
      rw [hfile]
      exact (Except.ok.inj (Prod.mk.inj h).1).symm
    case h_2 => cases h

/-- A NAS with one file of one byte. -/
def oneByte : Nas := { files := [(["share", "f"], [1])] }

end SynologyFilestation.Fuse
