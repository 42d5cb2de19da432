import SynologyFilestation.Fuse.Inodes
import SynologyFilestation.Library.Transition

/-!
Inode numbers in the kernel's hands. The callbacks in `fuse/src/fs/callbacks.rs`
and the transfers in `fuse/src/fs/transfer.rs` hand numbers out, and invalidate
paths to be rid of what is known of them; an invalidation takes the number too.

The steps are whole callbacks. What the NAS does is told by flags: whether an
entry was removed or moved there, and whether the answer said so. `held` is the
kernel's side: every number it was given, with the path the file now has, until
the file is removed. No step depends on it.
-/

namespace SynologyFilestation.Fuse

open Function Core Library

/-- A file handle, and its path as of when it was opened. -/
structure OpenFile where
  path : NasPath
  dirty : Bool
  deriving DecidableEq, Repr

structure NumberSystem where
  table : InodeTable Unit
  handles : ℕ → Option OpenFile
  held : ℕ → Option NasPath

inductive NumberEvent
  | lookup (path : NasPath)
  | entry (path : NasPath)
  | dotDot (parent : NasPath)
  | getattr (ino : ℕ)
  | expire (ino : ℕ)
  | create (path : NasPath) (fh : ℕ)
  | open (ino fh : ℕ)
  | write (fh : ℕ)
  | flush (fh : ℕ)
  | release (fh : ℕ)
  | unlink (path : NasPath) (ran ok : Bool)
  | rmdir (path : NasPath) (ran ok : Bool)
  | rename (old new : NasPath) (removed renamed ok : Bool)
  | move (old new : NasPath) (removed moved : Bool)

section System

variable (fold : String → String)

/-- `path` is `top` or below it. -/
def IsUnder (top path : NasPath) : Prop := top.map fold <+: path.map fold

instance (top path : NasPath) : Decidable (IsUnder fold top path) :=
  inferInstanceAs (Decidable (_ <+: _))

/-- The files that are left when what is under `top` is removed. -/
def dropUnder (top : NasPath) (held : ℕ → Option NasPath) : ℕ → Option NasPath := fun ino =>
  (held ino).filter fun path => !IsUnder fold top path

/-- What is under `old` is under `new` now. -/
def carryUnder (old new : NasPath) (held : ℕ → Option NasPath) : ℕ → Option NasPath := fun ino =>
  (held ino).map fun path => if IsUnder fold old path then new ++ path.drop old.length else path

namespace InodeTable

variable {A : Type}

/-- A number for what is found under a path. -/
def register (e : InodeEntry A) (t : InodeTable A) : ℕ × InodeTable A :=
  ((t.getOrAllocIno fold e.path).1,
    (t.getOrAllocIno fold e.path).2.insert fold (t.getOrAllocIno fold e.path).1 e)

/-- What the same-directory half of `rename` does here. -/
def renameIn (e : InodeEntry A) (old : NasPath) (ok : Bool) (t : InodeTable A) : InodeTable A :=
  let cleared := if old = e.path then t else t.invalidatePath fold e.path
  if ok then ((cleared.invalidatePath fold old).register fold e).2 else cleared

/-- What `forget_moved` does here, to one end of the move. -/
def forgetEnd (path : NasPath) (t : InodeTable A) : InodeTable A :=
  (t.invalidatePath fold path).invalidatePrefix fold (trimEnd path ++ [""])

/-- `forget_moved`. -/
def forgetMoved (old new : NasPath) (t : InodeTable A) : InodeTable A :=
  (t.forgetEnd fold old).forgetEnd fold new

end InodeTable

namespace NumberSystem

def initial : NumberSystem :=
  { table := InodeTable.new.seedRoot fold (), handles := fun _ => none
    held := fun ino => if ino = rootIno then some virtualRootPath else none }

/-- A number is found for a path and given to the kernel. -/
def give (path : NasPath) (s : NumberSystem) : NumberSystem :=
  { s with
    table := (s.table.register fold ⟨path, ()⟩).2
    held := update s.held (s.table.register fold ⟨path, ()⟩).1 (some path) }

/-- What the kernel's numbers are of when a rename or move has come to pass. -/
def heldAfter (old new : NasPath) (removed moved : Bool) (held : ℕ → Option NasPath) :
    ℕ → Option NasPath :=
  let left := if removed then dropUnder fold new held else held
  if moved then carryUnder fold old new left else left

end NumberSystem

/-- The callbacks. -/
inductive NumberStep (s : NumberSystem) : NumberEvent → NumberSystem → Prop
  | lookupHit {path e}
      (he : s.table.byIno (s.table.getOrAllocIno fold path).1 = some e) :
      NumberStep s (.lookup path)
        { s with
          table := (s.table.getOrAllocIno fold path).2
          held := update s.held (s.table.getOrAllocIno fold path).1 (some path) }
  | lookupAbsent {path} (he : s.table.byIno (s.table.getOrAllocIno fold path).1 = none) :
      NumberStep s (.lookup path) { s with table := (s.table.getOrAllocIno fold path).2 }
  /-- The NAS may spell the path otherwise. -/
  | lookupFound {path path'} (hspelled : path'.map fold = path.map fold)
      (he : s.table.byIno (s.table.getOrAllocIno fold path).1 = none) :
      NumberStep s (.lookup path) (s.give fold path')
  /-- An entry that `readdir` hands out, or a folder that `mkdir` made. -/
  | entry {path} : NumberStep s (.entry path) (s.give fold path)
  /-- `readdir` finds a number for `..`, which is left at that. -/
  | dotDot {parent} (hparent : parent ≠ virtualRootPath) :
      NumberStep s (.dotDot parent)
        { s with
          table := (s.table.getOrAllocIno fold parent).2
          held := update s.held (s.table.getOrAllocIno fold parent).1 (some parent) }
  | getattr {ino path path'} (hunknown : s.table.byIno ino = none)
      (hpath : s.table.getPathForIno ino = some path)
      (hspelled : path'.map fold = path.map fold) :
      NumberStep s (.getattr ino) { s with table := s.table.insert fold ino ⟨path', ()⟩ }
  | expire {ino} : NumberStep s (.expire ino) { s with table := s.table.expire ino }
  | create {path fh} (hnew : s.handles fh = none) :
      NumberStep s (.create path fh)
        { s.give fold path with handles := update s.handles fh (some ⟨path, true⟩) }
  | open {ino fh path} (hnew : s.handles fh = none)
      (hpath : s.table.getPathForIno ino = some path) :
      NumberStep s (.open ino fh) { s with handles := update s.handles fh (some ⟨path, false⟩) }
  | write {fh file} (hfile : s.handles fh = some file) :
      NumberStep s (.write fh)
        { s with handles := update s.handles fh (some { file with dirty := true }) }
  /-- The upload on close. -/
  | flush {fh file} (hfile : s.handles fh = some file) (hdirty : file.dirty = true) :
      NumberStep s (.flush fh)
        { s with
          table := s.table.invalidatePath fold file.path
          handles := update s.handles fh (some { file with dirty := false }) }
  | release {fh} : NumberStep s (.release fh) { s with handles := update s.handles fh none }
  | unlink {path ran ok} (hok : ok = true → ran = true) :
      NumberStep s (.unlink path ran ok)
        { s with
          table := if ok then s.table.invalidatePath fold path else s.table
          held := if ran then dropUnder fold path s.held else s.held }
  | rmdir {path ran ok} (hok : ok = true → ran = true) :
      NumberStep s (.rmdir path ran ok)
        { s with
          table := if ok then s.table.invalidatePrefix fold path else s.table
          held := if ran then dropUnder fold path s.held else s.held }
  /-- In one directory. The name it goes to is deleted first, if it is another. -/
  | rename {old new removed renamed ok} (hok : ok = true → renamed = true)
      (hremoved : removed = true → old ≠ new) :
      NumberStep s (.rename old new removed renamed ok)
        { s with
          table := s.table.renameIn fold ⟨new, ()⟩ old ok
          held := NumberSystem.heldAfter fold old new removed renamed s.held }
  /-- Across directories, whatever comes of it. -/
  | move {old new removed moved} :
      NumberStep s (.move old new removed moved)
        { s with
          table := s.table.forgetMoved fold old new
          held := NumberSystem.heldAfter fold old new removed moved s.held }

/-! ### Numbers that resolve -/

/-- Every number the kernel holds leads to where its file is. -/
def NumbersResolve (s : NumberSystem) : Prop :=
  ∀ ino path, s.held ino = some path →
    ∃ found, s.table.getPathForIno ino = some found ∧ found.map fold = path.map fold

/-- What `forget_moved` sweeps at one end of a move. -/
def isSwept (path key : NasPath) : Bool :=
  key = path.map fold || isStart fold (trimEnd path ++ [""]) key

/-- No file that the kernel has a number for is moved, and no invalidation meets
the path of one that is not removed with it. -/
def Spares (s : NumberSystem) : NumberEvent → Prop
  | .dotDot parent => ∃ ino found, s.table.getInoForPath fold parent = some ino ∧
      s.table.getPathForIno ino = some found
  | .flush fh => ∀ file ino path, s.handles fh = some file → s.held ino = some path →
      path.map fold ≠ file.path.map fold
  | .rmdir top _ ok => ok = true → ∀ ino path, s.held ino = some path →
      isStart fold top (path.map fold) = true → IsUnder fold top path
  | .rename old new removed renamed _ => ∀ ino path,
      (if removed then dropUnder fold new s.held else s.held) ino = some path →
        (renamed = true → ¬IsUnder fold old path) ∧
        (old ≠ new → path.map fold ≠ new.map fold)
  | .move old new removed moved => ∀ ino path,
      (if removed then dropUnder fold new s.held else s.held) ino = some path →
        (moved = true → ¬IsUnder fold old path) ∧
        isSwept fold old (path.map fold) = false ∧ isSwept fold new (path.map fold) = false
  | _ => True

/-- A number whose path the cache keeps. -/
def InodeTable.Keeps {A : Type} (t : InodeTable A) (ino : ℕ) (path : NasPath) : Prop :=
  t.getInoForPath fold path = some ino ∧ (t.inoToPath ino).isSome

/-- Every number with details has a path of its own as well. -/
def InodeTable.Stored {A : Type} (t : InodeTable A) : Prop :=
  ∀ ino e, t.byIno ino = some e → (t.inoToPath ino).isSome

/-- The cache against the kernel's numbers, in a run that meets the condition. -/
structure Numbered (s : NumberSystem) : Prop where
  table : s.table.Consistent fold
  stored : s.table.Stored
  held : ∀ ino path, s.held ino = some path → s.table.Keeps fold ino path

end System

section Tables

variable {A : Type} {fold : String → String} {t : InodeTable A} {ino ino' : ℕ}
  {path path' key : NasPath} {e : InodeEntry A}

namespace InodeTable

theorem Keeps.getOrAllocIno (h : t.Keeps fold ino path) :
    (t.getOrAllocIno fold path').2.Keeps fold ino path :=
  ⟨lookup_getOrAllocIno h.1, by rw [getOrAllocIno_inoToPath]; exact h.2⟩

theorem Keeps.insert (h : t.Keeps fold ino path)
    (hfound : t.getInoForPath fold e.path = some ino') :
    (t.insert fold ino' e).Keeps fold ino path := by
  refine ⟨(lookup_insert hfound).trans h.1, ?_⟩
  change (update t.inoToPath ino' (some e.path) ino).isSome
  rcases eq_or_ne ino ino' with rfl | hne
  · rw [update_self]
    rfl
  · rw [update_of_ne hne]
    exact h.2

theorem Keeps.register (h : t.Keeps fold ino path) :
    (t.register fold e).2.Keeps fold ino path :=
  h.getOrAllocIno.insert getInoForPath_getOrAllocIno

/-- An entry that is put in keeps its number. -/
theorem keeps_register : (t.register fold e).2.Keeps fold (t.register fold e).1 e.path := by
  refine ⟨(lookup_insert getInoForPath_getOrAllocIno).trans getInoForPath_getOrAllocIno, ?_⟩
  rw [register, insert_inoToPath, update_self]
  rfl

theorem Keeps.forget (h : t.Keeps fold ino path) (ht : t.Consistent fold)
    (hne : path.map fold ≠ key) : (t.forget key).Keeps fold ino path := by
  have hother : t.pathToIno.lookup key ≠ some ino :=
    fun hkey => hne (ht.injective _ _ ino h.1 hkey)
  exact ⟨lookup_forget_of_ne h.1 hother, by rw [forget_inoToPath hother]; exact h.2⟩

theorem Keeps.invalidatePrefix (h : t.Keeps fold ino path) (ht : t.Consistent fold)
    (hne : isStart fold path' (path.map fold) = false) :
    (t.invalidatePrefix fold path').Keeps fold ino path := by
  unfold InodeTable.invalidatePrefix
  have hkeys : ∀ key ∈ t.pathToIno.keys.filter (isStart fold path'), path.map fold ≠ key := by
    rintro key hkey rfl
    cases hne.symm.trans (List.mem_filter.mp hkey).2
  generalize t.pathToIno.keys.filter (isStart fold path') = keys at hkeys
  induction keys generalizing t with
  | nil => exact h
  | cons key keys ih =>
      exact ih (h.forget ht (hkeys key List.mem_cons_self)) (ht.forget key)
        fun key' hkey' => hkeys key' (List.mem_cons_of_mem _ hkey')

theorem Stored.getOrAllocIno (h : t.Stored) : (t.getOrAllocIno fold path).2.Stored := by
  intro ino e he
  rw [getOrAllocIno_byIno] at he
  rw [getOrAllocIno_inoToPath]
  exact h ino e he

theorem Stored.insert (h : t.Stored) : (t.insert fold ino e).Stored := by
  intro ino' e' he'
  change update t.byIno ino (some e) ino' = some e' at he'
  change (update t.inoToPath ino (some e.path) ino').isSome
  rcases eq_or_ne ino' ino with rfl | hne
  · rw [update_self]
    rfl
  · rw [update_of_ne hne] at he' ⊢
    exact h ino' e' he'

theorem Stored.forget (h : t.Stored) (key : NasPath) : (t.forget key).Stored := by
  intro ino e he
  obtain ⟨he, hother⟩ := forget_byIno_some he
  rw [forget_inoToPath hother]
  exact h ino e he

theorem Stored.invalidatePrefix (h : t.Stored) (path : NasPath) :
    (t.invalidatePrefix fold path).Stored := by
  unfold InodeTable.invalidatePrefix
  generalize t.pathToIno.keys.filter (isStart fold path) = keys
  induction keys generalizing t with
  | nil => exact h
  | cons key keys ih => exact ih (h.forget key)

theorem Stored.inoToPath (h : t.Stored) (hpath : t.getPathForIno ino = some path) :
    (t.inoToPath ino).isSome := by
  unfold getPathForIno at hpath
  split at hpath
  case h_1 e he => exact h ino e he
  case h_2 => rw [hpath]; rfl

/-- A number that is kept leads to its path. -/
theorem Keeps.resolves (h : t.Keeps fold ino path) (ht : t.Consistent fold) :
    ∃ found, t.getPathForIno ino = some found ∧ found.map fold = path.map fold := by
  obtain ⟨found, hfound⟩ : ∃ found, t.getPathForIno ino = some found := by
    unfold getPathForIno
    split
    · exact ⟨_, rfl⟩
    · exact Option.isSome_iff_exists.mp h.2
  exact ⟨found, hfound, ht.injective _ _ ino (ht.getInoForPath hfound) h.1⟩

end InodeTable

end Tables

section Steps

variable {fold : String → String} {s s' : NumberSystem} {e : NumberEvent} {t : InodeTable Unit}
  {ino : ℕ} {path : NasPath}

theorem numbered_initial : Numbered fold (.initial fold) where
  table := InodeTable.consistent_seedRoot ()
  stored ino e h := by
    obtain ⟨rfl, rfl⟩ := update_empty_eq_some h
    change (update (fun _ => none) rootIno (some virtualRootPath) rootIno).isSome
    rw [update_self]
    rfl
  held ino path h := by
    change (if ino = rootIno then some virtualRootPath else none) = some path at h
    split at h
    case isTrue heq =>
      rw [heq, ← Option.some.inj h]
      exact ⟨InodeTable.lookup_seedRoot, by
        change (update (fun _ => none) rootIno (some virtualRootPath) rootIno).isSome
        rw [update_self]
        rfl⟩
    case isFalse => cases h

/-- A number is given out. -/
theorem Numbered.hand (hs : Numbered fold s) (ht : t.Consistent fold) (hstored : t.Stored)
    (hkept : ∀ {ino path}, s.table.Keeps fold ino path → t.Keeps fold ino path)
    (hnew : t.Keeps fold ino path) :
    Numbered fold { s with table := t, held := update s.held ino (some path) } where
  table := ht
  stored := hstored
  held ino' path' h := by
    rcases update_eq_some h with ⟨rfl, rfl⟩ | ⟨_, h⟩
    · exact hnew
    · exact hkept (hs.held ino' path' h)

theorem Numbered.give (hs : Numbered fold s) (path : NasPath) : Numbered fold (s.give fold path) :=
  hs.hand (hs.table.getOrAllocIno.insert InodeTable.getInoForPath_getOrAllocIno)
    hs.stored.getOrAllocIno.insert InodeTable.Keeps.register InodeTable.keeps_register

theorem Numbered.alloc (hs : Numbered fold s) (path : NasPath) :
    Numbered fold { s with table := (s.table.getOrAllocIno fold path).2 } where
  table := hs.table.getOrAllocIno
  stored := hs.stored.getOrAllocIno
  held ino path' h := (hs.held ino path' h).getOrAllocIno

/-- What is dropped is not held, what is left was held before. -/
theorem of_dropUnder {top : NasPath} {held : ℕ → Option NasPath}
    (h : dropUnder fold top held ino = some path) :
    held ino = some path ∧ ¬IsUnder fold top path := by
  unfold dropUnder at h
  obtain ⟨hheld, hunder⟩ := Option.filter_eq_some_iff.mp h
  exact ⟨hheld, by simpa using hunder⟩

theorem ne_of_not_isUnder {top : NasPath} (h : ¬IsUnder fold top path) :
    path.map fold ≠ top.map fold := by
  intro heq
  rw [IsUnder, heq] at h
  exact h List.prefix_rfl

/-- What is left when the destination of a move is gone, and no file of it was
carried along. -/
theorem of_heldAfter {old new : NasPath} {removed moved : Bool} {held : ℕ → Option NasPath}
    (hstays : ∀ ino path, (if removed then dropUnder fold new held else held) ino = some path →
      moved = true → ¬IsUnder fold old path)
    (h : NumberSystem.heldAfter fold old new removed moved held ino = some path) :
    (if removed then dropUnder fold new held else held) ino = some path := by
  unfold NumberSystem.heldAfter at h
  cases moved with
  | false => exact h
  | true =>
    obtain ⟨path', hpath', hcarried⟩ := Option.map_eq_some_iff.mp h
    rw [if_neg (hstays ino path' hpath' rfl)] at hcarried
    rwa [← hcarried]

theorem of_left {new : NasPath} {removed : Bool} {held : ℕ → Option NasPath}
    (h : (if removed then dropUnder fold new held else held) ino = some path) :
    held ino = some path := by
  cases removed with
  | false => exact h
  | true => exact (of_dropUnder h).1

theorem InodeTable.Keeps.forgetEnd {end_ : NasPath} (h : t.Keeps fold ino path)
    (ht : t.Consistent fold) (hswept : isSwept fold end_ (path.map fold) = false) :
    (t.forgetEnd fold end_).Keeps fold ino path := by
  simp only [isSwept, Bool.or_eq_false_iff, decide_eq_false_iff_not] at hswept
  exact (h.forget ht hswept.1).invalidatePrefix (ht.forget _) hswept.2

theorem Numbered.rename (hs : Numbered fold s) {old new : NasPath} {removed renamed ok : Bool}
    (hok : ok = true → renamed = true)
    (hmeets : Spares fold s (.rename old new removed renamed ok)) :
    Numbered fold { s with
      table := s.table.renameIn fold ⟨new, ()⟩ old ok
      held := NumberSystem.heldAfter fold old new removed renamed s.held } := by
  -- Both halves keep what the condition spares.
  obtain ⟨t, ht, hconsistent, hstored, hkept⟩ : ∃ t : InodeTable Unit,
      t = (if old = new then s.table else s.table.invalidatePath fold new) ∧
      t.Consistent fold ∧ t.Stored ∧ ∀ ino path, s.table.Keeps fold ino path →
        (old ≠ new → path.map fold ≠ new.map fold) → t.Keeps fold ino path := by
    refine ⟨_, rfl, ?_⟩
    split
    case isTrue => exact ⟨hs.table, hs.stored, fun _ _ h _ => h⟩
    case isFalse hne =>
      exact ⟨hs.table.forget _, hs.stored.forget _,
        fun _ _ h hother => h.forget hs.table (hother hne)⟩
  have hheld : ∀ ino path, NumberSystem.heldAfter fold old new removed renamed s.held ino =
      some path → t.Keeps fold ino path ∧ (ok = true → path.map fold ≠ old.map fold) := by
    intro ino path h
    have hleft := of_heldAfter (fun ino path h => (hmeets ino path h).1) h
    obtain ⟨hstays, hother⟩ := hmeets ino path hleft
    exact ⟨hkept ino path (hs.held ino path (of_left hleft)) hother,
      fun h => ne_of_not_isUnder (hstays (hok h))⟩
  unfold InodeTable.renameIn
  rw [← ht]
  cases ok with
  | false => exact ⟨hconsistent, hstored, fun ino path h => (hheld ino path h).1⟩
  | true =>
    exact ⟨(hconsistent.forget _).getOrAllocIno.insert InodeTable.getInoForPath_getOrAllocIno,
      (hstored.forget _).getOrAllocIno.insert,
      fun ino path h =>
        ((hheld ino path h).1.forget hconsistent ((hheld ino path h).2 rfl)).register⟩

theorem Numbered.move (hs : Numbered fold s) {old new : NasPath} {removed moved : Bool}
    (hmeets : Spares fold s (.move old new removed moved)) :
    Numbered fold { s with
      table := s.table.forgetMoved fold old new
      held := NumberSystem.heldAfter fold old new removed moved s.held } where
  table := ((hs.table.forget _).invalidatePrefix _).forget _ |>.invalidatePrefix _
  stored := ((hs.stored.forget _).invalidatePrefix _).forget _ |>.invalidatePrefix _
  held ino path h := by
    have hleft := of_heldAfter (fun ino path h => (hmeets ino path h).1) h
    obtain ⟨_, hold, hnew⟩ := hmeets ino path hleft
    exact ((hs.held ino path (of_left hleft)).forgetEnd hs.table hold).forgetEnd
      ((hs.table.forget _).invalidatePrefix _) hnew

theorem Numbered.remove (hs : Numbered fold s) {ran ok : Bool} {top : NasPath}
    (hok : ok = true → ran = true) (ht : t.Consistent fold) (hstored : t.Stored)
    (hkept : ok = true → ∀ ino path, s.held ino = some path → ¬IsUnder fold top path →
      t.Keeps fold ino path) :
    Numbered fold { s with
      table := if ok then t else s.table
      held := if ran then dropUnder fold top s.held else s.held } := by
  cases ok with
  | false => exact ⟨hs.table, hs.stored, fun ino path h => hs.held ino path (of_left h)⟩
  | true =>
    refine ⟨ht, hstored, fun ino path h => ?_⟩
    rw [hok rfl, if_pos rfl] at h
    exact hkept rfl ino path (of_dropUnder h).1 (of_dropUnder h).2

theorem Numbered.step (hs : Numbered fold s) (hmeets : Spares fold s e)
    (h : NumberStep fold s e s') : Numbered fold s' := by
  cases h with
  | lookupHit he =>
    refine hs.hand hs.table.getOrAllocIno hs.stored.getOrAllocIno InodeTable.Keeps.getOrAllocIno
      ⟨InodeTable.getInoForPath_getOrAllocIno, ?_⟩
    rw [InodeTable.getOrAllocIno_inoToPath]
    exact hs.stored _ _ he
  | lookupAbsent he => exact hs.alloc _
  | lookupFound hspelled he => exact hs.give _
  | entry => exact hs.give _
  | dotDot hparent =>
    obtain ⟨ino, found, hino, hfound⟩ := hmeets
    rw [InodeTable.getOrAllocIno_found hino]
    exact hs.hand hs.table hs.stored id ⟨hino, hs.stored.inoToPath hfound⟩
  | getattr hunknown hpath hspelled =>
    have hfound := hs.table.getInoForPath hpath
    rw [← InodeTable.getInoForPath_congr hspelled] at hfound
    exact ⟨hs.table.insert hfound, hs.stored.insert,
      fun ino path h => (hs.held ino path h).insert hfound⟩
  | expire =>
    exact ⟨hs.table.expire _, fun ino e h => hs.stored ino e (InodeTable.expire_byIno_some h),
      hs.held⟩
  | create hnew => exact { hs.give _ with }
  | «open» hnew hpath => exact { hs with }
  | write hfile => exact { hs with }
  | flush hfile hdirty =>
    exact ⟨hs.table.forget _, hs.stored.forget _, fun ino path h =>
      (hs.held ino path h).forget hs.table (hmeets _ ino path hfile h)⟩
  | release => exact { hs with }
  | unlink hok =>
    exact hs.remove hok (hs.table.forget _) (hs.stored.forget _) fun _ ino path h hother =>
      (hs.held ino path h).forget hs.table (ne_of_not_isUnder hother)
  | rmdir hok =>
    refine hs.remove hok (hs.table.invalidatePrefix _) (hs.stored.invalidatePrefix _) ?_
    intro hanswer ino path h hother
    refine (hs.held ino path h).invalidatePrefix hs.table ?_
    by_contra hstart
    exact hother (hmeets hanswer ino path h (by simpa using hstart))
  | rename hok hremoved => exact hs.rename hok hmeets
  | move => exact hs.move hmeets

theorem numbers_resolve (h : Reaches (NumberStep fold) (Spares fold) (.initial fold) s) :
    NumbersResolve fold s := by
  have hs : Numbered fold s := h.invariant numbered_initial Numbered.step
  exact fun ino path hheld => (hs.held ino path hheld).resolves hs.table

end Steps

/-- A file is found, opened and closed. Its details are gone by then, its path is
not. -/
theorem opened_then_closed : ∃ s, NumbersResolve id s ∧ s.held 2 = some ["a"] ∧
    s.table.getPathForIno 2 = some ["a"] := by
  have h := (Reaches.start : Reaches (NumberStep id) (Spares id) (.initial id) (.initial id))
  have h := h.next (by trivial) (@NumberStep.lookupFound _ _ ["a"] ["a"] rfl rfl)
  have h := h.next (by trivial) (@NumberStep.expire _ _ 2)
  have h := h.next (by trivial) (@NumberStep.open _ _ 2 0 ["a"] rfl rfl)
  have h := h.next (by trivial) (@NumberStep.release _ _ 0)
  exact ⟨_, numbers_resolve h, rfl, rfl⟩

/-- A file is made, written and closed: the kernel's number for it leads nowhere. -/
theorem closed_number_lost : ∃ s, Reaches (NumberStep id) unrestricted (.initial id) s ∧
    ¬NumbersResolve id s := by
  have h := (Reaches.start : Reaches (NumberStep id) unrestricted (.initial id) (.initial id))
  have h := h.next (by trivial) (@NumberStep.create _ _ ["a"] 0 rfl)
  have h := h.next (by trivial) (@NumberStep.write _ _ 0 _ rfl)
  have h := h.next (by trivial) (@NumberStep.flush _ _ 0 _ rfl rfl)
  refine ⟨_, h, fun hresolve => ?_⟩
  obtain ⟨found, hfound, _⟩ := hresolve 2 ["a"] rfl
  cases hfound

end SynologyFilestation.Fuse
