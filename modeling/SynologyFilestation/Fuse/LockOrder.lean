import SynologyFilestation.Fuse.Transfers
import SynologyFilestation.Library.Ranks

/-!
The order in which the mount's tasks take locks and slots: a buffer's lock first, and
a transfer slot under it. A task with a slot asks for nothing but an answer of the
NAS, and so does one that has claimed blocks.
-/

namespace SynologyFilestation.Fuse

open Core Function Library Smb Relation

/-- Buffers before slots. -/
def lockRank : MountGate → ℕ
  | .buffer _ => 1
  | .transfer => 0
  | .hash => 0

def holdingNone : MountGate → ℕ := fun _ => 0

/-- One buffer locked. -/
def holdingBuffer (n : ℕ) : MountGate → ℕ :=
  update holdingNone (.buffer n) (holdingNone (.buffer n) + 1)

theorem holdingNone_lt (g : MountGate) : ∀ h, 0 < holdingNone h → lockRank g < lockRank h :=
  fun _ h => absurd h (lt_irrefl 0)

theorem holdingBuffer_lt (n : ℕ) :
    ∀ h, 0 < holdingBuffer n h → lockRank .transfer < lockRank h := by
  intro h hpos
  by_cases heq : h = .buffer n
  · rw [heq]
    exact Nat.zero_lt_one
  · rw [holdingBuffer, update_of_ne heq] at hpos
    exact absurd hpos (lt_irrefl 0)

variable {F : Type} {done : Except SynoFsError Unit → MountRoutine F} {next : MountRoutine F}
  {n : ℕ}

theorem ranked_done : (.done : MountRoutine F).Ranked lockRank holdingNone ∅ :=
  ⟨fun _ => rfl, rfl⟩

/-! ### Transfers -/

namespace Transfers

theorem ranked_uploaded (hdone : ∀ r, (done r).Ranked lockRank holdingNone ∅)
    (r : Except SynoFsError Unit) : (uploaded n done r).Ranked lockRank (holdingBuffer n) ∅ := by
  cases r with
  | error e => exact (hdone _).release
  | ok _ => exact fun _ _ => (hdone _).resolve.release

/-- The slot is asked for with the buffer locked, never the other way round. -/
theorem ranked_uploadLocked (hdone : ∀ r, (done r).Ranked lockRank holdingNone ∅)
    (b : HandleBuffer F) : (uploadLocked n b done).Ranked lockRank (holdingBuffer n) ∅ := by
  unfold uploadLocked
  split
  · exact (hdone _).release
  split
  · exact (hdone _).release
  split
  · exact ranked_uploaded hdone _
  · exact fun _ _ => .guarded (holdingBuffer_lt n) (ranked_uploaded hdone)
  · intro sc
    dsimp only
    split
    · exact (hdone _).release
    split
    · exact (hdone _).release
    · exact .guarded (holdingBuffer_lt n) (ranked_uploaded hdone)

theorem ranked_upload (hdone : ∀ r, (done r).Ranked lockRank holdingNone ∅) (fh : ℕ) :
    (upload fh done).Ranked lockRank holdingNone ∅ := by
  intro isFree d
  dsimp only
  split
  · exact hdone _
  · exact ⟨holdingNone_lt _, rfl, fun _ d => ranked_uploadLocked hdone _⟩

theorem ranked_truncate {done : Except SynoFsError SynoFileInfo → MountRoutine F}
    (hdone : ∀ r, (done r).Ranked lockRank holdingNone ∅) (ino : ℕ) (path : NasPath)
    (newSize : ℕ) : (truncate ino path newSize done).Ranked lockRank holdingNone ∅ := by
  intro _ _
  refine .guarded (holdingNone_lt _) fun r => ?_
  cases r with
  | error e => exact fun _ _ => hdone _
  | ok _ =>
      refine Routine.Ranked.resolve ?_
      exact fun _ _ _ => hdone _

theorem ranked_copyAcrossDirs (hdone : ∀ r, (done r).Ranked lockRank holdingNone ∅)
    (oldPath newParent : NasPath) (newName : String) :
    (copyAcrossDirs oldPath newParent newName done).Ranked lockRank holdingNone ∅ := by
  refine .guarded (holdingNone_lt _) fun r => ?_
  cases r with
  | error e => exact hdone _
  | ok data =>
      refine .guarded (holdingNone_lt _) fun r => ?_
      cases r with
      | error e => exact hdone _
      | ok _ => exact fun _ => hdone _

theorem ranked_moveOrCopy (hdone : ∀ r, (done r).Ranked lockRank holdingNone ∅)
    (oldPath newParent : NasPath) (newName : String) :
    (moveOrCopy oldPath newParent newName done).Ranked lockRank holdingNone ∅ := by
  refine .guarded (holdingNone_lt _) fun r => ?_
  have hunless : ∀ isDir : Bool, (if isDir then done (.error .notSupported)
      else copyAcrossDirs oldPath newParent newName done).Ranked lockRank holdingNone ∅ := by
    intro isDir
    split
    · exact hdone _
    · exact ranked_copyAcrossDirs hdone ..
  split
  · exact hdone _
  · intro cached
    cases cached with
    | some isDir => exact hunless isDir
    | none =>
        intro info
        cases info with
        | ok info => exact hunless _
        | error e => exact hunless false
  · exact hdone _

theorem ranked_forgetEnd (hnext : next.Ranked lockRank holdingNone ∅) (path : NasPath) :
    (forgetEnd path next).Ranked lockRank holdingNone ∅ := by
  intro ino
  cases ino with
  | some ino => exact hnext.resolve
  | none => exact hnext

theorem ranked_moveAcrossDirs (hdone : ∀ r, (done r).Ranked lockRank holdingNone ∅)
    (oldPath newParent : NasPath) (newName : String) :
    (moveAcrossDirs oldPath newParent newName done).Ranked lockRank holdingNone ∅ := by
  intro _ _ _ _
  refine ranked_moveOrCopy (fun r => ?_) ..
  refine ranked_forgetEnd (ranked_forgetEnd ?_ _) _
  exact fun _ _ _ _ => hdone _

end Transfers

namespace SynologyFS

/-! ### Writes and hashes -/

theorem ranked_bufferAt (hdone : ∀ r, (done r).Ranked lockRank holdingNone ∅) (b : HandleBuffer F)
    (spill : SpillBuffer) (offset : ℕ) (data : Bytes) :
    (bufferAt n b spill offset data done).Ranked lockRank (holdingBuffer n) ∅ :=
  fun _ _ _ => (hdone _).release

/-- A write waits for the server with the buffer locked, and asks for no slot. -/
theorem ranked_writeLocked (hdone : ∀ r, (done r).Ranked lockRank holdingNone ∅)
    (b : HandleBuffer F) (offset : ℕ) (data : Bytes) :
    (writeLocked n b offset data done).Ranked lockRank (holdingBuffer n) ∅ := by
  unfold writeLocked
  split
  · exact (hdone _).release
  · intro r
    cases r with
    | ok stream => exact fun _ _ => (hdone _).release
    | error e =>
        dsimp only
        split
        · exact fun _ _ => (hdone _).release
        · exact ranked_bufferAt hdone _ _ _ _
  · exact ranked_bufferAt hdone _ _ _ _

theorem ranked_writeBufferAt (hdone : ∀ r, (done r).Ranked lockRank holdingNone ∅)
    (fh offset : ℕ) (data : Bytes) :
    (writeBufferAt fh offset data done).Ranked lockRank holdingNone ∅ := by
  intro isFree d
  dsimp only
  split
  · exact hdone _
  · exact ⟨holdingNone_lt _, rfl, fun _ d => ranked_writeLocked hdone ..⟩

theorem ranked_addWriteBuffer (hnext : next.Ranked lockRank holdingNone ∅) (fh : ℕ)
    (nasPath : NasPath) (ino : ℕ) (newFile writable : Bool) :
    (addWriteBuffer fh nasPath ino newFile writable next).Ranked lockRank holdingNone ∅ := by
  unfold addWriteBuffer
  split
  · intro r
    dsimp only
    split <;> exact fun _ _ => hnext
  · exact fun _ _ => hnext

/-- Whether the path is busy is looked at without a wait, in the slot for hashes. -/
theorem ranked_leadHash (path : NasPath) :
    (leadHash path : MountRoutine F).Ranked lockRank holdingNone ∅ := by
  have hfinish : (Routine.act (·.removeHash path) fun _ _ => .done : MountRoutine F).Ranked
      lockRank holdingNone ∅ := fun _ _ => ranked_done
  refine ⟨holdingNone_lt _, rfl, fun isFree d => ?_⟩
  dsimp only
  split
  · exact hfinish.release
  · exact fun _ => hfinish.release

theorem ranked_joinOrLead (path : NasPath) (size : ℕ) :
    (joinOrLead path size : MountRoutine F).Ranked lockRank holdingNone ∅ := by
  unfold joinOrLead
  split
  · exact ranked_done
  · intro _ d
    dsimp only
    split
    · exact ranked_done
    · exact ranked_leadHash path

theorem ranked_hashTask (path : NasPath) (cachedDir : Option Bool) (size : ℕ) :
    (hashTask path cachedDir size : MountRoutine F).Ranked lockRank holdingNone ∅ := by
  cases cachedDir with
  | some isDir => exact ranked_joinOrLead path size
  | none =>
      intro info
      cases info with
      | error e => exact ranked_done
      | ok info =>
          dsimp only
          split
          · exact ranked_done
          · exact ranked_joinOrLead path size

theorem ranked_startGetxattr (ino : ℕ) (root : Bool) (name : String) (size : ℕ) :
    (startGetxattr ino root name size : MountRoutine F).Ranked lockRank holdingNone ∅ := by
  intro path cachedDir isFree d
  dsimp only
  split
  · exact (ranked_hashTask ..).spawn ranked_done
  · exact ranked_done

/-! ### Reads and prefetch -/

/-- The claims on some blocks of a file. -/
def claimsOn (ino : ℕ) (blocks : List ℕ) : Set BlockKey := {key | key.1 = ino ∧ key.2 ∈ blocks}

/-- Claims given back, those that are left are dealt with after them. -/
theorem ranked_resolveBlocks {held : MountGate → ℕ} {owned rest : Set BlockKey} {ino : ℕ}
    {blocks : List ℕ} (h : next.Ranked lockRank held rest)
    (howned : owned ⊆ claimsOn ino blocks ∪ rest) :
    (resolveBlocks ino blocks next).Ranked lockRank held owned := by
  induction blocks generalizing owned with
  | nil =>
      refine h.anti fun key hkey => ?_
      rcases howned hkey with ⟨_, hnone⟩ | hrest
      · cases hnone
      · exact hrest
  | cons i blocks ih =>
      refine ih fun key ⟨hkey, hother⟩ => ?_
      rcases howned hkey with ⟨hino, hin⟩ | hrest
      · refine .inl ⟨hino, (List.mem_cons.mp hin).resolve_left fun heq => ?_⟩
        rw [show key = (ino, i) from Prod.ext hino heq] at hother
        simp at hother
      · exact .inr hrest

/-- Blocks that follow each other. -/
def IsRun (blocks : List ℕ) : Prop := ∃ first, blocks = List.range' first blocks.length

theorem isRun_nil : IsRun [] := ⟨0, rfl⟩

theorem isRun_singleton (i : ℕ) : IsRun [i] := ⟨i, rfl⟩

theorem IsRun.eq_range' {first : ℕ} {blocks : List ℕ} (h : IsRun (first :: blocks)) :
    first :: blocks = List.range' first (first :: blocks).length := by
  obtain ⟨first', h⟩ := h
  obtain rfl : first = first' := (List.cons.inj h).1
  exact h

theorem IsRun.concat {run : List ℕ} (h : IsRun run) {i : ℕ}
    (hlast : run.getLast?.any (· + 1 == i) = true) : IsRun (run ++ [i]) := by
  obtain ⟨first, h⟩ := h
  refine ⟨first, ?_⟩
  rw [h, List.getLast?_range'] at hlast
  split at hlast
  · cases hlast
  · have hi : i = first + run.length := by
      simp only [Option.any_some, beq_iff_eq] at hlast
      omega
    rw [List.length_append, List.length_singleton, List.range'_1_concat, ← h, hi]

variable {blockSize ino : ℕ} {path : NasPath} {connections : ℕ} {run : List ℕ}
  {owned : Set BlockKey}

/-- However the download ends, the run's claims are given back. -/
theorem ranked_runTask {first : ℕ} {blocks : List ℕ} (hrun : IsRun (first :: blocks)) :
    (runTask blockSize ino path first (first :: blocks) : MountRoutine F).Ranked lockRank
      holdingNone (claimsOn ino (first :: blocks)) := by
  have hover : (Routine.act (·.dropClaim (first :: blocks).length) fun _ _ => .done :
      MountRoutine F).Ranked lockRank holdingNone ∅ := fun _ _ => ranked_done
  intro r
  dsimp only
  split
  · exact ranked_resolveBlocks hover (hrun.eq_range' ▸ Set.subset_union_left)
  · exact ranked_resolveBlocks hover Set.subset_union_left
  · exact ranked_resolveBlocks hover Set.subset_union_left

/-- The claims of a run are its task's, or given back at once. -/
theorem ranked_spawnRun {rest : Set BlockKey} (hrun : IsRun run)
    (h : next.Ranked lockRank holdingNone rest) (howned : owned ⊆ claimsOn ino run ∪ rest) :
    (spawnRun blockSize ino path run connections next).Ranked lockRank holdingNone owned := by
  cases run with
  | nil =>
      refine h.anti fun key hkey => ?_
      rcases howned hkey with ⟨_, hnone⟩ | hrest
      · cases hnone
      · exact hrest
  | cons first blocks =>
      intro isFree d
      dsimp only
      split
      · refine ⟨(ranked_runTask hrun).anti fun key hkey => ?_, h.anti fun key hkey => ?_⟩
        · obtain ⟨i, hi, rfl⟩ := List.mem_map.mp hkey.2
          exact ⟨rfl, hi⟩
        · rcases howned hkey.1 with ⟨hino, hin⟩ | hrest
          · exact absurd (List.mem_map.mpr ⟨key.2, hin, Prod.ext hino.symm rfl⟩ :
              key ∈ (first :: blocks).map (ino, ·)) hkey.2
          · exact hrest
      · exact ranked_resolveBlocks h howned

theorem ranked_addBlock {next : List ℕ → MountRoutine F} {i : ℕ} {ours : Bool} (hrun : IsRun run)
    (hnext : ∀ run', IsRun run' → (next run').Ranked lockRank holdingNone (claimsOn ino run'))
    (howned : owned ⊆ claimsOn ino run ∪ claimsOn ino (if ours then [i] else [])) :
    (addBlock blockSize ino path connections run i next ours).Ranked lockRank holdingNone
      owned := by
  unfold addBlock
  dsimp only
  split
  · refine ranked_spawnRun hrun (hnext _ ?_) howned
    split
    · exact isRun_singleton i
    · exact isRun_nil
  next hboth =>
    simp only [Bool.or_eq_true, Bool.not_eq_true', not_or, Bool.not_eq_false,
      Bool.and_eq_true] at hboth
    refine (hnext _ (hrun.concat hboth.2.1)).anti fun key hkey => ?_
    rcases howned hkey with ⟨hino, hin⟩ | ⟨hino, hin⟩
    · exact ⟨hino, List.mem_append_left _ hin⟩
    · exact ⟨hino, List.mem_append_right _ (by simpa [hboth.1] using hin)⟩

/-- Between two blocks, what is claimed is the run so far. -/
theorem ranked_spawnPrefetch (hnext : next.Ranked lockRank holdingNone ∅) (blocks : List ℕ)
    (hrun : IsRun run) :
    (spawnPrefetch blockSize ino path connections next blocks run).Ranked lockRank holdingNone
      (claimsOn ino run) := by
  induction blocks generalizing run with
  | nil => exact ranked_spawnRun hrun hnext Set.subset_union_left
  | cons i blocks ih =>
      have hlost : (addBlock blockSize ino path connections run i
          (spawnPrefetch blockSize ino path connections next blocks) false).Ranked lockRank
            holdingNone (claimsOn ino run) :=
        ranked_addBlock hrun (fun _ => ih) Set.subset_union_left
      intro cached
      dsimp only
      split
      · exact hlost
      · refine ⟨ranked_addBlock hrun (fun _ => ih) fun key hkey => ?_, hlost⟩
        rcases hkey with rfl | hold
        · exact .inr ⟨rfl, List.mem_singleton_self i⟩
        · exact .inl hold

/-- A claim won and given back is none. -/
theorem claimed_resolved (key : BlockKey) :
    {key' ∈ insert key (∅ : Set BlockKey) | (key' == key) = false} ⊆ ∅ := by
  rintro key' ⟨rfl | hnone, hother⟩
  · simp at hother
  · exact hnone

/-- A read waits for another's block with no claim of its own. -/
theorem ranked_readBlocks {done : Bool → MountRoutine F}
    (hdone : ∀ r, (done r).Ranked lockRank holdingNone ∅) (blocks : List ℕ) :
    (readBlocks blockSize ino path done blocks).Ranked lockRank holdingNone ∅ := by
  induction blocks with
  | nil => exact hdone true
  | cons i blocks ih =>
      have htake : ∀ block : Bytes, (takeBlock blockSize block (done true)
          (readBlocks blockSize ino path done blocks)).Ranked lockRank holdingNone ∅ := by
        intro block
        unfold takeBlock
        split
        · exact hdone true
        · exact ih
      intro cached
      cases cached with
      | some block => exact htake block
      | none =>
          refine ⟨fun r => ?_, rfl, fun waited => ?_⟩
          · cases r with
            | ok block => exact (htake block).anti (claimed_resolved _)
            | error e => exact (hdone false).anti (claimed_resolved _)
          · cases waited with
            | some block => exact htake block
            | none => exact hdone false

theorem ranked_primeOpen (hnext : next.Ranked lockRank holdingNone ∅)
    (window : ℕ → Bytes → List ℕ) :
    (primeOpen blockSize ino path window connections next).Ranked lockRank holdingNone ∅ := by
  have hsniff : ∀ window : Bytes → List ℕ, (sniffHead blockSize ino path window connections
      next).Ranked lockRank holdingNone ∅ := by
    intro window head
    cases head with
    | none => exact hnext
    | some head =>
        exact (ranked_spawnPrefetch hnext _ isRun_nil).anti (Set.empty_subset _)
  intro size
  dsimp only
  split
  · exact hnext
  · intro cached
    dsimp only
    split
    · exact hsniff _
    · exact ⟨fun _ => (hsniff _).anti (claimed_resolved _), hsniff _⟩

/-! ### Callbacks -/

theorem ranked_finishUploads (fhs : List ℕ) :
    (finishUploads fhs : MountRoutine F).Ranked lockRank holdingNone ∅ := by
  induction fhs with
  | nil => exact fun _ => ranked_done
  | cons fh fhs ih => exact Transfers.ranked_upload (fun _ => ih) fh

theorem ranked_startUpload (hnext : next.Ranked lockRank holdingNone ∅) (fh : ℕ) :
    (startUpload fh next).Ranked lockRank holdingNone ∅ :=
  (Transfers.ranked_upload (fun _ => hnext) fh).spawn ranked_done

theorem ranked_read (blockSize ino offset size : ℕ) (ahead : List ℕ) (connections : ℕ) :
    (read blockSize ino offset size ahead connections : MountRoutine F).Ranked lockRank
      holdingNone ∅ := by
  unfold read
  split
  · exact ranked_done
  · intro path
    cases path with
    | none => exact ranked_done
    | some path =>
        refine ranked_readBlocks (fun isOk => ?_) _
        split
        · exact (ranked_spawnPrefetch ranked_done _ isRun_nil).anti (Set.empty_subset _)
        · exact ranked_done

end SynologyFS

open SynologyFS in
/-- Every callback keeps to the order. -/
theorem ranked_routine (blockSize : ℕ) (call : MountCall) :
    (call.routine blockSize : MountRoutine F).Ranked lockRank holdingNone ∅ := by
  cases call with
  | write fh offset data => exact ranked_writeBufferAt (fun _ => ranked_done) _ _ _
  | flush fh => exact ranked_startUpload ranked_done fh
  | release fh => exact ranked_startUpload (.act fun _ _ => ranked_done) fh
  | setattr ino newSize =>
      intro path
      cases path with
      | none => exact ranked_done
      | some path =>
          refine .act fun _ _ => .spawn ?_ ranked_done
          exact Transfers.ranked_truncate (fun _ => .act fun _ _ => ranked_done) _ _ _
  | rename oldPath newParent newName =>
      refine .act fun _ _ => .act fun _ _ => .spawn ?_ ranked_done
      exact Transfers.ranked_moveAcrossDirs
        (fun _ => .act fun _ _ => .act fun _ _ => ranked_done) _ _ _
  | «open» fh ino writable window connections =>
      intro path
      cases path with
      | none => exact ranked_done
      | some path => exact ranked_primeOpen (ranked_addWriteBuffer ranked_done _ _ _ _ _) window
  | create fh ino path writable => exact ranked_addWriteBuffer ranked_done _ _ _ _ _
  | read ino offset size ahead connections => exact ranked_read _ _ _ _ _ _
  | getxattr ino root name size => exact ranked_startGetxattr _ _ _ _
  | destroy order => exact .act fun _ _ => ranked_finishUploads _

/-! ### The mount never hangs -/

/-- What the order of locks and slots is for. -/
structure Unblocked (s : MountCrew F) : Prop where
  /-- Nobody waits for a buffer with a transfer slot in hand. -/
  slotLast {t n r} (ht : s.tasks t = some (.queued (.buffer n) r)) :
    t ∉ (s.gates .transfer).holders
  noCircle (t) : ¬TransGen s.Waits t t
  /-- An unfinished task can go on, or the one that it waits for in the end can. -/
  goesOn {t} (ht : s.Unfinished t) : ∃ u, ReflTransGen s.Waits t u ∧ s.CanTurn u

theorem nonempty_answer (q : MountQuery F) : Nonempty q.Answer := by
  cases q with
  | prefetch | pathForIno | inoForPath | sizeForIno | isDir | isDirAt | block => exact ⟨none⟩
  | disk => exact ⟨{}⟩
  | _ => exact ⟨.error .notFound⟩

theorem permitsOf_pos {transfers hashes : ℕ} (htransfers : 0 < transfers) (hhashes : 0 < hashes)
    (g : MountGate) : 0 < permitsOf transfers hashes g := by
  cases g with
  | buffer n => exact Nat.one_pos
  | transfer => exact htransfers
  | hash => exact hhashes

theorem ranked_reached {transfers hashes blockSize : ℕ} {s : MountCrew F}
    (h : Reaches (MountStep blockSize) unrestricted (mounted transfers hashes) s) :
    s.Ranked lockRank (permitsOf transfers hashes) := by
  refine h.invariant (Crew.ranked_idle ..) fun hs _ hstep => hs.step ?_ hstep
  rintro _ ⟨call, rfl⟩
  exact ranked_routine blockSize call

/-- Whatever is asked of the mount, in whatever order its tasks go on, nobody waits for
good, with any number of slots. -/
theorem transfers_unblocked {transfers hashes blockSize : ℕ} (htransfers : 0 < transfers)
    (hhashes : 0 < hashes) {s : MountCrew F}
    (h : Reaches (MountStep blockSize) unrestricted (mounted transfers hashes) s) :
    Unblocked s := by
  have hranked := ranked_reached h
  refine ⟨fun {t n r} ht hslot => ?_, fun t => hranked.not_circular, fun ht =>
    hranked.progress (permitsOf_pos htransfers hhashes) nonempty_answer ht⟩
  exact absurd (hranked.queued_lt ht hslot) (Nat.not_lt_zero _)

/-- A file is uploaded at its close, and closed once more meanwhile: the second upload waits
for the buffer of the first, which has a transfer slot. -/
theorem second_close_waits : ∃ s : MountCrew ℕ, Unblocked s ∧
    (∃ r, s.tasks 4 = some (.queued (.buffer 0) r)) ∧ (s.gates .transfer).holders = [2] := by
  have h₀ : Reaches (MountStep (F := ℕ) 4096) unrestricted
      (mounted maxConcurrentTransfers maxConcurrentHashes) _ := .start
  have h₁ := h₀.next (e := .start) trivial (.start ⟨.create 7 3 ["photos", "a.txt"] false, rfl⟩)
  have h₂ := h₁.next (e := .turn 0) trivial (.turn (.act rfl))
  have h₃ := h₂.next (e := .start) trivial (.start ⟨.flush 7, rfl⟩)
  have h₄ := h₃.next (e := .turn 1) trivial (.turn (.fork rfl))
  have h₅ := h₄.next (e := .turn 2) trivial (.turn (.act rfl))
  have h₆ := h₅.next (e := .turn 2) trivial (.turn (.take rfl (by decide)))
  have h₇ := h₆.next (e := .turn 2) trivial (.turn (.act rfl))
  have h₈ := h₇.next (e := .turn 2) trivial (.turn (.ask rfl {}))
  have h₉ := h₈.next (e := .turn 2) trivial (.turn (.take rfl (by decide)))
  have h₁₀ := h₉.next (e := .start) trivial (.start ⟨.flush 7, rfl⟩)
  have h₁₁ := h₁₀.next (e := .turn 3) trivial (.turn (.fork rfl))
  have h₁₂ := h₁₁.next (e := .turn 4) trivial (.turn (.act rfl))
  have h₁₃ := h₁₂.next (e := .turn 4) trivial (.turn (.lineUp rfl rfl))
  exact ⟨_, transfers_unblocked (by decide) (by decide) h₁₃, ⟨_, rfl⟩, rfl⟩

end SynologyFilestation.Fuse
