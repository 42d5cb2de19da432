import SynologyFilestation.Fuse.Handle
import SynologyFilestation.Library.Transition

/-!
A file of the WebDAV front end (`SynoDavFile` in `fuse/src/webdav.rs`). Its writes collect in
a buffer that a flush uploads whole.

A name is the last component of a path; how a URL becomes a path is not part of this.
-/

namespace SynologyFilestation.Fuse

open Core Library Smb

/-- The errors of `dav_server` that this front end answers with. -/
inductive FsError
  | notImplemented
  | generalFailure
  | exists
  | notFound
  | forbidden
  | insufficientStorage
  deriving DecidableEq, Repr

/-- `syno_err`. -/
def synoErr : SynoFsError → FsError
  | .notFound => .notFound
  | .permissionDenied => .forbidden
  | .alreadyExists => .exists
  | .noSpace => .insufficientStorage
  | .apiError 408 | .apiError 414 | .apiError 415 => .notFound
  | .apiError 418 => .exists
  | .apiError 419 => .insufficientStorage
  | _ => .generalFailure

/-- `is_apple_double`. -/
def isAppleDouble (nasPath : NasPath) : Bool :=
  nasPath.getLast?.any fun name => ['.', '_'].isPrefixOf name.toList

/-- `split_path`. -/
def splitPath (path : NasPath) : NasPath × String := (splitNasPath path).getD ([], "")

/-- `OpenOptions`, as far as an open reads them, and the flag that it does not. -/
structure OpenOptions where
  write : Bool
  create : Bool
  truncate : Bool

/-- `SynoDavFile`; of the entry's information the size. -/
structure SynoDavFile where
  nasPath : NasPath
  size : Option ℕ
  offset : ℕ
  writeBuf : Option SpillBuffer
  isNew : Bool

inductive SeekFrom
  | start (o : ℕ)
  | current (o : ℤ)
  | stop (o : ℤ)

/-- A `u64` cast to `i64`. -/
def asI64 (n : ℕ) : ℤ := if n < 2 ^ 63 then n else n - 2 ^ 64

/-- `i64::saturating_add`. -/
def saturatingAdd (a b : ℤ) : ℤ := max (-2 ^ 63) (min (2 ^ 63 - 1) (a + b))

/-- `SynologyDavFs::open`, with what `get_info` answers: an entry's size, or an error. -/
def davOpen (getInfo : NasPath → Except SynoFsError (Option ℕ)) (nas : NasPath)
    (options : OpenOptions) : Except FsError SynoDavFile :=
  if options.write || options.create then
    if isAppleDouble nas then
      .ok { nasPath := nas, size := none, offset := 0, writeBuf := some .new, isNew := false }
    else
      match getInfo nas with
      | .ok size =>
          .ok { nasPath := nas, size := size, offset := 0, writeBuf := some .new, isNew := false }
      | .error _ =>
          .ok { nasPath := nas, size := none, offset := 0, writeBuf := some .new, isNew := true }
  else
    match getInfo nas with
    | .ok size =>
        .ok { nasPath := nas, size := size, offset := 0, writeBuf := none, isNew := false }
    | .error e => .error (synoErr e)

namespace DavFile

/-- What `write_buf` and `write_bytes` do with a chunk. -/
def append (f : SynoDavFile) (sc : DiskScript) (chunk : Bytes) :
    Except FsError Unit × SynoDavFile :=
  let sink := f.writeBuf.getD .new
  let (r, sink) := sink.writeAt sc sink.len chunk
  (r.mapError fun _ => .generalFailure, { f with writeBuf := some sink })

/-- `write_buf`, whose buffer may be in several pieces. -/
def writeBuf (f : SynoDavFile) (sc : DiskScript) (buf : List Bytes) :
    Except FsError Unit × SynoDavFile :=
  append f sc buf.flatten

/-- `write_bytes`. -/
def writeBytes (f : SynoDavFile) (sc : DiskScript) (buf : Bytes) :
    Except FsError Unit × SynoDavFile :=
  append f sc buf

/-- `seek`. -/
def seek (f : SynoDavFile) (pos : SeekFrom) : ℕ × SynoDavFile :=
  let newOffset := match pos with
    | .start o => o
    | .current o => (max (saturatingAdd (asI64 f.offset) o) 0).toNat
    | .stop o => (max (saturatingAdd (asI64 (f.size.getD 0)) o) 0).toNat
  (newOffset, { f with offset := newOffset })

section Flush

variable {S F : Type} (client : NasClient S F)

/-- `flush`. -/
def flush (f : SynoDavFile) (sc : DiskScript) (s : S) : Except FsError Unit × SynoDavFile × S :=
  match f.writeBuf with
  | none => (.ok (), f, s)
  | some buf =>
      let f := { f with writeBuf := none }
      if isAppleDouble f.nasPath then (.ok (), f, s)
      else
        match payloadFor buf sc with
        | .error _ => (.error .generalFailure, f, s)
        | .ok payload =>
            let (parent, filename) := splitPath f.nasPath
            let (r, s) := client.uploadPayload parent filename payload (!f.isNew) s
            (r.mapError synoErr, f, s)

end Flush

end DavFile

/-! ### What a buffer written at its end holds -/

/-- What stays in a buffer of a chunk written at its length. A temp file that fails keeps what
it stored before. -/
def SpillBuffer.taken (b : SpillBuffer) (sc : DiskScript) (chunk : Bytes) : Bytes :=
  if 2 ^ 64 ≤ b.len + chunk.length then []
  else
    match b.spillPast sc (b.len + chunk.length) with
    | (.error _, _) => []
    | (.ok (), b) =>
        match b.store, sc.seeks, sc.stores with
        | .memory _, _, _ => chunk
        | .spilled _, some _, _ => []
        | .spilled _, none, .done => chunk
        | .spilled _, none, .failed stored _ => chunk.take stored

/-- In memory a buffer's length is that of its bytes. -/
def SpillBuffer.Counted (b : SpillBuffer) : Prop := b.isSpilled = false → b.len = b.bytes.length

theorem SpillBuffer.counted_new : SpillBuffer.new.Counted := fun _ => rfl

theorem SpillBuffer.place_end {b : SpillBuffer} (hcounted : b.Counted) (sc : DiskScript)
    (chunk : Bytes) :
    (b.place sc b.len chunk).2.Counted ∧
      (b.place sc b.len chunk).2.bytes = patch b.bytes b.len
        (match b.store, sc.seeks, sc.stores with
          | .memory _, _, _ => chunk
          | .spilled _, some _, _ => []
          | .spilled _, none, .done => chunk
          | .spilled _, none, .failed stored _ => chunk.take stored) := by
  obtain ⟨store, len, spillAt⟩ := b
  cases store with
  | memory v =>
      have hlen : len = v.length := hcounted rfl
      subst hlen
      have hstretch : (if v.length < v.length + chunk.length then resize v (v.length + chunk.length)
          else v) = v ++ List.replicate chunk.length 0 := by
        by_cases hchunk : 0 < chunk.length
        · rw [if_pos (by omega), resize, List.take_of_length_le (by omega)]
          congr 2
          omega
        · have hnone : chunk.length = 0 := by omega
          simp [hnone]
      have hplaced : (place ⟨.memory v, v.length, spillAt⟩ sc v.length chunk).2.bytes =
          v ++ chunk := by
        simp only [place, bytes, hstretch, List.take_left]
        rw [List.drop_eq_nil_of_le (by simp), List.append_nil]
      have hpatch : patch v v.length chunk = v ++ chunk := by
        cases chunk with
        | nil => simp
        | cons byte chunk =>
            rw [patch_of_ne_nil (by simp), resize, List.take_length, Nat.sub_self,
              List.drop_eq_nil_of_le (by omega)]
            simp
      refine ⟨fun _ => ?_, hplaced.trans hpatch.symm⟩
      rw [hplaced, List.length_append]
      simp [place]
  | spilled file =>
      refine ⟨?_, ?_⟩
      · cases hseeks : sc.seeks <;> cases hstores : sc.stores <;>
          simp [place, hseeks, hstores, FsOutcome.write, Counted, isSpilled]
      · cases hseeks : sc.seeks <;> cases hstores : sc.stores <;>
          simp [place, hseeks, hstores, FsOutcome.write, bytes]

/-- What a write at the end leaves, accepted or not. -/
theorem SpillBuffer.writeAt_end {b : SpillBuffer} (hcounted : b.Counted) (sc : DiskScript)
    (chunk : Bytes) :
    (b.writeAt sc b.len chunk).2.Counted ∧
      (b.writeAt sc b.len chunk).2.bytes = patch b.bytes b.len (b.taken sc chunk) := by
  by_cases hfit : 2 ^ 64 ≤ b.len + chunk.length
  · have hwrite : b.writeAt sc b.len chunk = (.error "attempt to add with overflow", b) := by
      rw [writeAt, if_pos hfit]
    have htaken : b.taken sc chunk = [] := by rw [taken, if_pos hfit]
    rw [hwrite, htaken, patch_nil]
    exact ⟨hcounted, rfl⟩
  simp only [writeAt, taken, if_neg hfit]
  rcases b.spillPast_spec sc (b.len + chunk.length) with hok | ⟨why, herr⟩
  · rw [hok]
    by_cases hdisk : (b.isSpilled || decide (b.spillAt < b.len + chunk.length)) = true
    · have hcounted : SpillBuffer.Counted { b with store := .spilled b.bytes } := by
        simp [Counted, isSpilled]
      rw [if_pos hdisk]
      exact place_end hcounted sc chunk
    · rw [if_neg hdisk]
      exact place_end hcounted sc chunk
  · simp [herr, hcounted]

/-! ### A run of calls on one file -/

/-- A file and the world behind it, with what its client knows: the position that it is at and
the writes that were accepted. `laid` is where the writes since the last flush went, and `owed`
whether one that failed has given a buffer away. -/
structure DavSession (S : Type) where
  handle : SynoDavFile
  world : S
  position : ℕ
  accepted : List (Write UInt8)
  laid : List (Write UInt8)
  owed : Bool

inductive DavCall
  | writeBuf (sc : DiskScript) (buf : List Bytes)
  | writeBytes (sc : DiskScript) (buf : Bytes)
  | seek (pos : SeekFrom)
  | flush (sc : DiskScript)

def DavSession.start {S : Type} (handle : SynoDavFile) (world : S) : DavSession S :=
  { handle := handle, world := world, position := 0, accepted := [], laid := [], owed := false }

section Session

variable {S F : Type} (client : NasClient S F)

/-- A write, with its answer. One that is accepted moves the position past what it wrote. -/
def DavSession.write (d : DavSession S) (sc : DiskScript) (chunk : Bytes)
    (call : Except FsError Unit × SynoDavFile) : DavSession S :=
  let sink := d.handle.writeBuf.getD .new
  { d with
    handle := call.2
    position := if call.1.isOk then d.position + chunk.length else d.position
    accepted := if call.1.isOk then d.accepted ++ [(d.position, chunk)] else d.accepted
    laid := d.laid ++ [(sink.len, sink.taken sc chunk)] }

def DavSession.call (d : DavSession S) : DavCall → DavSession S
  | .writeBuf sc buf => d.write sc buf.flatten (DavFile.writeBuf d.handle sc buf)
  | .writeBytes sc buf => d.write sc buf (DavFile.writeBytes d.handle sc buf)
  | .seek pos =>
      let (position, handle) := DavFile.seek d.handle pos
      { d with handle := handle, position := position }
  | .flush sc =>
      let (r, handle, world) := DavFile.flush client d.handle sc d.world
      { d with
        handle := handle
        world := world
        laid := []
        owed := if d.handle.writeBuf.isSome then !r.isOk else d.owed }

variable (file : NasPath → S → Option Bytes) (path : NasPath) (base : Bytes)

/-- A flush that answers `Ok` leaves the file with every accepted write at its position. -/
def DavSession.FlushesRight (d : DavSession S) : DavCall → Prop
  | .flush sc =>
      (DavFile.flush client d.handle sc d.world).1 = .ok () →
        file path (DavFile.flush client d.handle sc d.world).2.2 =
          some (patchAll base d.accepted)
  | _ => True

/-- Where the chunks were laid one behind the other reads like the accepted writes at their
positions over what the file held; and a flush with nothing to send answers for no buffer that
was given away. -/
def DavSession.LaidInPlace (d : DavSession S) : DavCall → Prop
  | .flush sc =>
      (DavFile.flush client d.handle sc d.world).1 = .ok () →
        if d.handle.writeBuf.isSome then
          extent d.laid = max base.length (extent d.accepted) ∧
            ∀ i, (lastByte d.laid i).getD 0 = (lastByte d.accepted i).getD (base.getD i 0)
        else d.owed = true → file path d.world = some (patchAll base d.accepted)
  | _ => True

/-- What is the case between two calls: the buffer holds what was laid, and without one the
file is as it should be, if no flush gave a buffer away. -/
structure DavSession.Tracked (d : DavSession S) : Prop where
  nasPath : d.handle.nasPath = path
  buffer : ∀ b, d.handle.writeBuf = some b → b.Counted ∧ b.bytes = patchAll [] d.laid
  flushed : d.handle.writeBuf = none → d.laid = [] ∧
    (d.owed = false → file path d.world = some (patchAll base d.accepted))

variable {client} {file} {path} {base}

/-- The buffer a write goes to, which is a new one after a flush. -/
theorem DavSession.Tracked.sink {d : DavSession S} (h : d.Tracked file path base) :
    (d.handle.writeBuf.getD .new).Counted ∧
      (d.handle.writeBuf.getD .new).bytes = patchAll [] d.laid := by
  cases hbuf : d.handle.writeBuf with
  | none =>
      rw [(h.flushed hbuf).1]
      exact ⟨SpillBuffer.counted_new, rfl⟩
  | some b => exact h.buffer b hbuf

theorem DavSession.Tracked.write {d : DavSession S} (h : d.Tracked file path base)
    (sc : DiskScript) (chunk : Bytes) :
    (d.write sc chunk (DavFile.append d.handle sc chunk)).Tracked file path base := by
  obtain ⟨hcounted, hbytes⟩ := h.sink
  obtain ⟨hcounted', hbytes'⟩ := SpillBuffer.writeAt_end hcounted sc chunk
  rw [hbytes] at hbytes'
  refine ⟨h.nasPath, ?_, by simp [DavSession.write, DavFile.append]⟩
  intro b hb
  cases hb
  refine ⟨hcounted', hbytes'.trans ?_⟩
  change _ = patchAll [] (d.laid ++ [_])
  rw [patchAll_append, patchAll_cons, patchAll_nil]

variable {parent : NasPath} {name : String}

/-- A flush of a buffer that answers `Ok` has stored it. -/
theorem flush_ok (hclient : client.StoresUploads file) {f : SynoDavFile}
    (hpath : f.nasPath = parent ++ [name]) (hname : isAppleDouble (parent ++ [name]) = false)
    {buf : SpillBuffer} (hbuf : f.writeBuf = some buf) {sc : DiskScript} {s : S}
    (hok : (DavFile.flush client f sc s).1 = .ok ()) :
    file (parent ++ [name]) (DavFile.flush client f sc s).2.2 = some buf.bytes := by
  have hsplit : splitPath (parent ++ [name]) = (parent, name) := by
    rw [splitPath, splitNasPath_concat, Option.getD_some]
  simp only [DavFile.flush, hbuf, hpath, hname, Bool.false_eq_true, if_false] at hok ⊢
  cases hpayload : payloadFor buf sc with
  | error why => simp [hpayload] at hok
  | ok payload =>
      simp only [hpayload, hsplit] at hok ⊢
      cases hsent : client.uploadPayload parent name payload (!f.isNew) s with
      | mk r s' =>
          rw [hsent] at hok
          cases r with
          | error e => simp [Except.mapError] at hok
          | ok u => exact uploadPayload_ok hclient hpayload hsent

/-- A flush takes the buffer away, whatever it answers. -/
theorem flush_handle (f : SynoDavFile) (sc : DiskScript) (s : S) :
    (DavFile.flush client f sc s).2.1 = { f with writeBuf := none } := by
  obtain ⟨nasPath, size, offset, writeBuf, isNew⟩ := f
  cases writeBuf with
  | none => rfl
  | some buf =>
      simp only [DavFile.flush]
      split
      · rfl
      · cases payloadFor buf sc <;> rfl

/-- Without a buffer a flush does nothing and answers `Ok`. -/
theorem flush_none {f : SynoDavFile} (hbuf : f.writeBuf = none) (sc : DiskScript) (s : S) :
    DavFile.flush client f sc s = (.ok (), f, s) := by
  simp [DavFile.flush, hbuf]

theorem DavSession.Tracked.flushesRight_iff (hclient : client.StoresUploads file)
    (hname : isAppleDouble (parent ++ [name]) = false) {d : DavSession S}
    (h : d.Tracked file (parent ++ [name]) base) (call : DavCall) :
    d.FlushesRight client file (parent ++ [name]) base call ↔
      d.LaidInPlace client file (parent ++ [name]) base call := by
  cases call with
  | flush sc =>
      refine imp_congr_right fun hok => ?_
      cases hbuf : d.handle.writeBuf with
      | none =>
          rw [flush_none hbuf]
          simp only [Option.isSome_none, Bool.false_eq_true, if_false]
          constructor
          · exact fun hfile _ => hfile
          · intro hfile
            cases howed : d.owed with
            | false => exact (h.flushed hbuf).2 howed
            | true => exact hfile howed
      | some buf =>
          rw [flush_ok hclient h.nasPath hname hbuf hok, (h.buffer buf hbuf).2]
          simp only [Option.isSome_some, if_true, Option.some.injEq]
          rw [patchAll_eq_iff]
          simp
  | _ => exact Iff.rfl

/-- What one call keeps. -/
theorem DavSession.Tracked.call {d : DavSession S} (h : d.Tracked file path base)
    {call : DavCall} (hright : d.FlushesRight client file path base call) :
    (d.call client call).Tracked file path base := by
  cases call with
  | writeBuf sc buf => exact h.write sc buf.flatten
  | writeBytes sc buf => exact h.write sc buf
  | seek pos => exact ⟨h.nasPath, h.buffer, h.flushed⟩
  | flush sc =>
      have hhandle := @flush_handle _ _ client d.handle sc d.world
      refine ⟨?_, ?_, fun _ => ⟨rfl, ?_⟩⟩
      · simp only [DavSession.call, hhandle, h.nasPath]
      · simp [DavSession.call, hhandle]
      · intro howed
        cases hbuf : d.handle.writeBuf with
        | none =>
            simp only [DavSession.call, flush_none hbuf, hbuf, Option.isSome_none] at howed ⊢
            exact (h.flushed hbuf).2 (by simpa using howed)
        | some buf =>
            simp only [DavSession.call, hbuf, Option.isSome_some, if_true] at howed ⊢
            cases hanswer : (DavFile.flush client d.handle sc d.world).1 with
            | error e => simp [hanswer, Except.isOk, Except.toBool] at howed
            | ok u => exact hright hanswer

/-- An open for writing starts with an empty buffer, whatever the file holds. -/
theorem davOpen_ok {getInfo : NasPath → Except SynoFsError (Option ℕ)} {nas : NasPath}
    {options : OpenOptions} {handle : SynoDavFile}
    (hwrite : (options.write || options.create) = true)
    (hopen : davOpen getInfo nas options = .ok handle) :
    handle.nasPath = nas ∧ handle.writeBuf = some .new := by
  rw [davOpen, if_pos hwrite] at hopen
  by_cases hname : isAppleDouble nas = true
  · rw [if_pos hname] at hopen
    cases hopen
    exact ⟨rfl, rfl⟩
  · rw [if_neg hname] at hopen
    cases hinfo : getInfo nas with
    | ok size =>
        rw [hinfo] at hopen
        cases hopen
        exact ⟨rfl, rfl⟩
    | error e =>
        rw [hinfo] at hopen
        cases hopen
        exact ⟨rfl, rfl⟩

end Session

/-- A file of three bytes. -/
def threeBytes : Nas := { files := [(["share", "f"], [1, 2, 3])] }

def openedFile : SynoDavFile :=
  { nasPath := ["share", "f"], size := some 3, offset := 0, writeBuf := some .new, isNew := false }

end SynologyFilestation.Fuse
