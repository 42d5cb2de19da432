import SynologyFilestation.Fuse.Inodes
import SynologyFilestation.Library.Transition
import Mathlib.Order.Lattice

/-!
Attributes under invalidation: `lookup` and `getattr` in `fuse/src/fs/callbacks.rs`
and the entries `readdir` hands out in `fuse/src/fs/dirs.rs`, all of which put what
they read into the inode cache, against the mutations that invalidate paths of it.

An entry that `create`, `mkdir` or `rename` puts in goes the way of one that
`readdir` hands out. Shares, which are looked up in a listing, are left out.

The steps are the accesses to the cache and the requests to the NAS. `epoch`
counts the invalidations of each path that have completed, and what is known of a
file is the epoch of its path when the request for it was sent. A reader carries
the epochs of when it was asked; no step depends on them.
-/

namespace SynologyFilestation.Fuse

open Function Core Library

inductive AttrPhase
  | lookup (path : NasPath)
  /-- A lookup with a number, whose details it is about to look at. -/
  | numbered (path : NasPath) (ino : ℕ)
  | getattr (ino : ℕ)
  /-- A getattr that has found no details. -/
  | unknown (ino : ℕ)
  /-- About to ask the NAS. A getattr has its number, and the epoch of the path
  when it read the path. -/
  | resolved (number : Option (ℕ × ℕ)) (path : NasPath)
  | fetching (number : Option (ℕ × ℕ)) (path : NasPath) (began : ℕ)
  | fetched (number : Option (ℕ × ℕ)) (e : InodeEntry ℕ)
  /-- In `insert`, with tables to go. -/
  | storing (ino mark : ℕ) (e : InodeEntry ℕ) (left : ℕ)
  | answered (e : InodeEntry ℕ)
  | errored

structure AttrReader where
  since : NasPath → ℕ
  phase : AttrPhase

structure AttrSystem where
  table : InodeTable ℕ
  /-- By lowercase path. -/
  epoch : NasPath → ℕ
  readers : ℕ → Option AttrReader

inductive AttrEvent
  | ask (n : ℕ)
  | number (n : ℕ)
  | read (n : ℕ)
  | send (n : ℕ)
  | receive (n : ℕ)
  | store (n : ℕ)
  | invalidatePath (path : NasPath)
  | invalidatePrefix (path : NasPath)
  | expire (ino : ℕ)

section System

variable (fold : String → String)

def AttrSystem.initial : AttrSystem :=
  { table := InodeTable.new.seedRoot fold 0, epoch := fun _ => 0, readers := fun _ => none }

def AttrSystem.setReader (s : AttrSystem) (n : ℕ) (phase : AttrPhase) (since : NasPath → ℕ) :
    AttrSystem :=
  { s with readers := update s.readers n (some ⟨since, phase⟩) }

/-- The steps of readers and invalidations. -/
inductive AttrStep (s : AttrSystem) : AttrEvent → AttrSystem → Prop
  | lookup {n path} (hnew : s.readers n = none) :
      AttrStep s (.ask n) (s.setReader n (.lookup path) s.epoch)
  | getattr {n ino} (hnew : s.readers n = none) :
      AttrStep s (.ask n) (s.setReader n (.getattr ino) s.epoch)
  /-- An entry of a listing that is read now, for a `readdir` to hand out later. -/
  | list {n path} (hnew : s.readers n = none) :
      AttrStep s (.ask n) (s.setReader n (.fetched none ⟨path, s.epoch (path.map fold)⟩) s.epoch)
  | lookupNumber {n since path} (hr : s.readers n = some ⟨since, .lookup path⟩) :
      AttrStep s (.number n)
        ({ s with table := (s.table.getOrAllocIno fold path).2 }.setReader n
          (.numbered path (s.table.getOrAllocIno fold path).1) since)
  | lookupHit {n since path ino e} (hr : s.readers n = some ⟨since, .numbered path ino⟩)
      (he : s.table.byIno ino = some e) :
      AttrStep s (.read n) (s.setReader n (.answered e) since)
  | lookupMiss {n since path ino} (hr : s.readers n = some ⟨since, .numbered path ino⟩)
      (he : s.table.byIno ino = none) :
      AttrStep s (.read n) (s.setReader n (.resolved none path) since)
  | getattrHit {n since ino e} (hr : s.readers n = some ⟨since, .getattr ino⟩)
      (he : s.table.byIno ino = some e) :
      AttrStep s (.read n) (s.setReader n (.answered e) since)
  | getattrMiss {n since ino} (hr : s.readers n = some ⟨since, .getattr ino⟩)
      (he : s.table.byIno ino = none) :
      AttrStep s (.read n) (s.setReader n (.unknown ino) since)
  | resolve {n since ino path} (hr : s.readers n = some ⟨since, .unknown ino⟩)
      (hpath : s.table.getPathForIno ino = some path) :
      AttrStep s (.read n)
        (s.setReader n (.resolved (some (ino, s.epoch (path.map fold))) path) since)
  | unresolved {n since ino} (hr : s.readers n = some ⟨since, .unknown ino⟩)
      (hpath : s.table.getPathForIno ino = none) :
      AttrStep s (.read n) (s.setReader n .errored since)
  | send {n since number path} (hr : s.readers n = some ⟨since, .resolved number path⟩) :
      AttrStep s (.send n)
        (s.setReader n (.fetching number path (s.epoch (path.map fold))) since)
  /-- The NAS answers for the path, which it may spell otherwise. -/
  | receive {n since number path began path'}
      (hr : s.readers n = some ⟨since, .fetching number path began⟩)
      (hspelled : path'.map fold = path.map fold) :
      AttrStep s (.receive n) (s.setReader n (.fetched number ⟨path', began⟩) since)
  | fail {n since number path began}
      (hr : s.readers n = some ⟨since, .fetching number path began⟩) :
      AttrStep s (.receive n) (s.setReader n .errored since)
  /-- A lookup, or an entry that is handed out. -/
  | number {n since e} (hr : s.readers n = some ⟨since, .fetched none e⟩) :
      AttrStep s (.number n)
        ({ s with table := (s.table.getOrAllocIno fold e.path).2 }.setReader n
          (.storing (s.table.getOrAllocIno fold e.path).1 e.info e 3) since)
  | numberKnown {n since ino mark e}
      (hr : s.readers n = some ⟨since, .fetched (some (ino, mark)) e⟩) :
      AttrStep s (.number n) (s.setReader n (.storing ino mark e 3) since)
  | storeEntry {n since ino mark e} (hr : s.readers n = some ⟨since, .storing ino mark e 3⟩) :
      AttrStep s (.store n)
        ({ s with table := s.table.storeEntry ino e }.setReader n (.storing ino mark e 2) since)
  | storeIno {n since ino mark e} (hr : s.readers n = some ⟨since, .storing ino mark e 2⟩) :
      AttrStep s (.store n)
        ({ s with table := s.table.storeIno fold ino e.path }.setReader n
          (.storing ino mark e 1) since)
  | storePath {n since ino mark e} (hr : s.readers n = some ⟨since, .storing ino mark e 1⟩) :
      AttrStep s (.store n)
        ({ s with table := s.table.storePath ino e.path }.setReader n (.answered e) since)
  | invalidatePath {path} :
      AttrStep s (.invalidatePath path)
        { s with
          table := s.table.invalidatePath fold path
          epoch := update s.epoch (path.map fold) (s.epoch (path.map fold) + 1) }
  | invalidatePrefix {path} :
      AttrStep s (.invalidatePrefix path)
        { s with
          table := s.table.invalidatePrefix fold path
          epoch := fun key => if isStart fold path key then s.epoch key + 1 else s.epoch key }
  | expire {ino} : AttrStep s (.expire ino) { s with table := s.table.expire ino }

/-! ### Freshness -/

/-- What a reader answers with was asked for after the invalidations of its path
that had completed when the reader was asked. -/
def AttrsFresh (s : AttrSystem) : Prop :=
  ∀ n since e, s.readers n = some ⟨since, .answered e⟩ → since (e.path.map fold) ≤ e.info

/-- No path has two numbers, and no number two paths. -/
structure OneNumber (t : InodeTable ℕ) : Prop where
  path : ∀ ino ino' path path', t.getPathForIno ino = some path →
    t.getPathForIno ino' = some path' → path.map fold = path'.map fold → ino = ino'
  number : ∀ path path' ino, t.getInoForPath fold path = some ino →
    t.getInoForPath fold path' = some ino → path.map fold = path'.map fold
  inverse : ∀ ino path, t.getPathForIno ino = some path → t.getInoForPath fold path = some ino

/-- Nothing is put into the cache that was read, or whose number was, before an
invalidation of its path that has completed. -/
def Unspoiled (s : AttrSystem) : AttrEvent → Prop
  | .store n => ∀ since ino mark e left, s.readers n = some ⟨since, .storing ino mark e left⟩ →
      s.epoch (e.path.map fold) = mark
  | _ => True

/-- A number that a reader has had since an epoch of its path. -/
def Known (s : AttrSystem) (path : NasPath) (ino mark : ℕ) : Prop :=
  mark ≤ s.epoch (path.map fold) ∧
    (s.epoch (path.map fold) = mark → s.table.getInoForPath fold path = some ino)

def AttrReader.Sound (s : AttrSystem) (r : AttrReader) : Prop :=
  match r.phase with
  | .resolved number path => ∀ ino mark, number = some (ino, mark) → Known fold s path ino mark
  | .fetching number path began => r.since (path.map fold) ≤ began ∧
      began ≤ s.epoch (path.map fold) ∧
      ∀ ino mark, number = some (ino, mark) → mark ≤ began ∧ Known fold s path ino mark
  | .fetched number e => r.since (e.path.map fold) ≤ e.info ∧
      e.info ≤ s.epoch (e.path.map fold) ∧
      ∀ ino mark, number = some (ino, mark) → mark ≤ e.info ∧ Known fold s e.path ino mark
  | .storing ino mark e _ => r.since (e.path.map fold) ≤ e.info ∧ mark ≤ e.info ∧
      Known fold s e.path ino mark
  | .answered e => r.since (e.path.map fold) ≤ e.info
  | _ => True

/-- The cache and its readers, in a run that meets the condition. -/
structure FreshCache (s : AttrSystem) : Prop where
  table : s.table.Consistent fold
  byIno : ∀ ino e, s.table.byIno ino = some e → s.epoch (e.path.map fold) ≤ e.info
  since_le : ∀ n r key, s.readers n = some r → r.since key ≤ s.epoch key
  sound : ∀ n r, s.readers n = some r → r.Sound fold s

end System

section Steps

variable {fold : String → String} {s s' : AttrSystem} {e : AttrEvent} {n : ℕ} {r : AttrReader}

theorem freshCache_initial : FreshCache fold (.initial fold) where
  table := InodeTable.consistent_seedRoot 0
  byIno _ _ _ := Nat.zero_le _
  since_le _ _ _ h := by cases h
  sound _ _ h := by cases h

/-- Epochs only grow, and readers lose no number that is still good. -/
theorem AttrReader.Sound.mono (h : r.Sound fold s) (hepoch : ∀ key, s.epoch key ≤ s'.epoch key)
    (hknown : ∀ path ino mark, Known fold s path ino mark → Known fold s' path ino mark) :
    r.Sound fold s' := by
  unfold AttrReader.Sound at h ⊢
  cases hphase : r.phase with
  | lookup | numbered | getattr | unknown | errored => trivial
  | resolved number path =>
    simp only [hphase] at h
    exact fun ino mark hnumber => hknown path ino mark (h ino mark hnumber)
  | fetching number path began =>
    simp only [hphase] at h
    obtain ⟨hsince, hbegan, hnumber⟩ := h
    exact ⟨hsince, hbegan.trans (hepoch _), fun ino mark hmark =>
      ⟨(hnumber ino mark hmark).1, hknown path ino mark (hnumber ino mark hmark).2⟩⟩
  | fetched number e =>
    simp only [hphase] at h
    obtain ⟨hsince, hbegan, hnumber⟩ := h
    exact ⟨hsince, hbegan.trans (hepoch _), fun ino mark hmark =>
      ⟨(hnumber ino mark hmark).1, hknown e.path ino mark (hnumber ino mark hmark).2⟩⟩
  | storing ino mark e left =>
    simp only [hphase] at h
    exact ⟨h.1, h.2.1, hknown e.path ino mark h.2.2⟩
  | answered e =>
    simp only [hphase] at h
    exact h

theorem FreshCache.setReader (hs : FreshCache fold s) {phase : AttrPhase} {since : NasPath → ℕ}
    (hsince : ∀ key, since key ≤ s.epoch key) (hsound : AttrReader.Sound fold s ⟨since, phase⟩) :
    FreshCache fold (s.setReader n phase since) where
  table := hs.table
  byIno := hs.byIno
  since_le m r key hr := by
    rcases update_eq_some hr with ⟨_, rfl⟩ | ⟨_, hr⟩
    · exact hsince key
    · exact hs.since_le m r key hr
  sound m r hr := by
    have hkept : ∀ {r : AttrReader}, r.Sound fold s → r.Sound fold (s.setReader n phase since) :=
      fun h => h.mono (fun _ => Nat.le_refl _) fun _ _ _ h => h
    rcases update_eq_some hr with ⟨_, rfl⟩ | ⟨_, hr⟩
    · exact hkept hsound
    · exact hkept (hs.sound m r hr)

/-- The table changes, and the numbers in it stay. -/
theorem FreshCache.setTable (hs : FreshCache fold s) {t : InodeTable ℕ} (ht : t.Consistent fold)
    (hbyIno : ∀ ino e, t.byIno ino = some e → s.epoch (e.path.map fold) ≤ e.info)
    (hlookup : ∀ key ino, s.table.pathToIno.lookup key = some ino →
      t.pathToIno.lookup key = some ino) : FreshCache fold { s with table := t } where
  table := ht
  byIno := hbyIno
  since_le := hs.since_le
  sound n r hr := (hs.sound n r hr).mono (fun _ => Nat.le_refl _)
    fun _ _ _ h => ⟨h.1, fun hmark => hlookup _ _ (h.2 hmark)⟩

theorem FreshCache.alloc (hs : FreshCache fold s) (path : NasPath) :
    FreshCache fold { s with table := (s.table.getOrAllocIno fold path).2 } :=
  hs.setTable hs.table.getOrAllocIno
    (fun ino e he => hs.byIno ino e (by rwa [InodeTable.getOrAllocIno_byIno] at he))
    fun _ _ => InodeTable.lookup_getOrAllocIno

/-- An invalidation: the doomed paths lose their numbers and come to a new epoch. -/
theorem FreshCache.invalidate (hs : FreshCache fold s) {t : InodeTable ℕ} {epoch : NasPath → ℕ}
    (doomed : NasPath → Prop) (ht : t.Consistent fold)
    (hbyIno : ∀ ino e, t.byIno ino = some e → s.table.byIno ino = some e)
    (hdoomed : ∀ key, doomed key → t.pathToIno.lookup key = none ∧ epoch key = s.epoch key + 1)
    (hother : ∀ key, ¬doomed key →
      t.pathToIno.lookup key = s.table.pathToIno.lookup key ∧ epoch key = s.epoch key) :
    FreshCache fold { s with table := t, epoch := epoch } := by
  have hepoch : ∀ key, s.epoch key ≤ epoch key := by
    intro key
    by_cases h : doomed key
    · exact (hdoomed key h).2 ▸ Nat.le_succ _
    · exact (hother key h).2.ge
  constructor
  case table => exact ht
  case byIno =>
    intro ino e he
    have hfound : t.pathToIno.lookup (e.path.map fold) = some ino := ht.byIno ino e he
    by_cases h : doomed (e.path.map fold)
    · cases hfound.symm.trans (hdoomed _ h).1
    · exact (hother _ h).2.trans_le (hs.byIno ino e (hbyIno ino e he))
  case since_le => exact fun n r key hr => (hs.since_le n r key hr).trans (hepoch key)
  case sound =>
    intro n r hr
    refine (hs.sound n r hr).mono hepoch ?_
    rintro path ino mark ⟨hle, hfound⟩
    refine ⟨hle.trans (hepoch _), fun hmark => ?_⟩
    change epoch (path.map fold) = mark at hmark
    by_cases h : doomed (path.map fold)
    · rw [(hdoomed _ h).2] at hmark
      exact absurd hle (by omega)
    · rw [(hother _ h).2] at hmark
      exact (hother _ h).1.trans (hfound hmark)

/-- What is put into the cache then goes under the number that stands there. -/
theorem FreshCache.storing (hs : FreshCache fold s) {since : NasPath → ℕ} {ino mark left : ℕ}
    {e : InodeEntry ℕ} (hr : s.readers n = some ⟨since, .storing ino mark e left⟩)
    (hmeets : Unspoiled fold s (.store n)) :
    s.table.getInoForPath fold e.path = some ino ∧ s.epoch (e.path.map fold) ≤ e.info := by
  obtain ⟨_, hmark, _, hfound⟩ := hs.sound n _ hr
  have hnow := hmeets since ino mark e left hr
  exact ⟨hfound hnow, hnow.trans_le hmark⟩

theorem FreshCache.step (hs : FreshCache fold s) (hmeets : Unspoiled fold s e)
    (h : AttrStep fold s e s') : FreshCache fold s' := by
  cases h with
  | lookup hnew => exact hs.setReader (fun _ => le_rfl) trivial
  | getattr hnew => exact hs.setReader (fun _ => le_rfl) trivial
  | list hnew => exact hs.setReader (fun _ => le_rfl) ⟨le_rfl, le_rfl, nofun⟩
  | lookupNumber hr => exact (hs.alloc _).setReader (hs.since_le _ _ · hr) trivial
  | lookupHit hr he =>
    exact hs.setReader (hs.since_le _ _ · hr) ((hs.since_le _ _ _ hr).trans (hs.byIno _ _ he))
  | lookupMiss hr he => exact hs.setReader (hs.since_le _ _ · hr) (by nofun)
  | getattrHit hr he =>
    exact hs.setReader (hs.since_le _ _ · hr) ((hs.since_le _ _ _ hr).trans (hs.byIno _ _ he))
  | getattrMiss hr he => exact hs.setReader (hs.since_le _ _ · hr) trivial
  | resolve hr hpath =>
    refine hs.setReader (hs.since_le _ _ · hr) ?_
    rintro _ _ ⟨⟩
    exact ⟨le_rfl, fun _ => hs.table.getInoForPath hpath⟩
  | unresolved hr hpath => exact hs.setReader (hs.since_le _ _ · hr) trivial
  | send hr =>
    have hsound := hs.sound _ _ hr
    have hsince := fun key => hs.since_le _ _ key hr
    exact hs.setReader hsince ⟨hsince _, le_rfl,
      fun ino mark hnumber => ⟨(hsound ino mark hnumber).1, hsound ino mark hnumber⟩⟩
  | receive hr hspelled =>
    have hsound := hs.sound _ _ hr
    refine hs.setReader (hs.since_le _ _ · hr) ?_
    simp only [AttrReader.Sound, Known, hspelled, InodeTable.getInoForPath_congr hspelled]
    exact hsound
  | fail hr => exact hs.setReader (hs.since_le _ _ · hr) trivial
  | number hr =>
    have hsound := hs.sound _ _ hr
    exact (hs.alloc _).setReader (hs.since_le _ _ · hr) ⟨hsound.1, le_rfl, hsound.2.1,
      fun _ => InodeTable.getInoForPath_getOrAllocIno⟩
  | numberKnown hr =>
    have hsound := hs.sound _ _ hr
    exact hs.setReader (hs.since_le _ _ · hr) ⟨hsound.1, hsound.2.2 _ _ rfl⟩
  | storeEntry hr =>
    obtain ⟨hfound, hinfo⟩ := hs.storing hr hmeets
    refine FreshCache.setReader (hs.setTable (hs.table.storeEntry hfound) ?_ fun _ _ h => h)
      (hs.since_le _ _ · hr) (hs.sound _ _ hr)
    intro ino' e' he'
    rcases update_eq_some he' with ⟨rfl, rfl⟩ | ⟨_, he'⟩
    · exact hinfo
    · exact hs.byIno ino' e' he'
  | storeIno hr =>
    have hfound := (hs.storing hr hmeets).1
    have hlookup := fun key => @InodeTable.lookup_storeIno _ _ _ _ key _ hfound
    exact (hs.setTable (hs.table.storeIno hfound) hs.byIno
      fun key _ => (hlookup key).trans).setReader (hs.since_le _ _ · hr)
      ⟨(hs.sound _ _ hr).1, (hs.sound _ _ hr).2.1, (hs.sound _ _ hr).2.2.1,
        fun _ => (hlookup _).trans hfound⟩
  | storePath hr =>
    have hfound := (hs.storing hr hmeets).1
    exact (hs.setTable (hs.table.storePath hfound) hs.byIno fun _ _ h => h).setReader
      (hs.since_le _ _ · hr) (hs.sound _ _ hr).1
  | @invalidatePath path =>
    refine hs.invalidate (· = path.map fold) (hs.table.forget _)
      (fun ino e he => (InodeTable.forget_byIno_some he).1) ?_ ?_
    · rintro _ rfl
      exact ⟨InodeTable.lookup_forget.trans (if_pos rfl), update_self ..⟩
    · intro key hkey
      exact ⟨InodeTable.lookup_forget.trans (if_neg hkey), update_of_ne hkey ..⟩
  | @invalidatePrefix path =>
    refine hs.invalidate (fun key => isStart fold path key = true)
      (hs.table.invalidatePrefix path)
      (fun ino e he => InodeTable.invalidatePrefix_byIno_some he) ?_ ?_
    · intro key hkey
      exact ⟨InodeTable.lookup_invalidatePrefix.trans (if_pos hkey), if_pos hkey⟩
    · intro key hkey
      exact ⟨InodeTable.lookup_invalidatePrefix.trans (if_neg hkey), if_neg hkey⟩
  | expire =>
    refine hs.setTable (hs.table.expire _) (fun ino e he => hs.byIno ino e ?_) fun _ _ h => h
    exact InodeTable.expire_byIno_some he

/-- The cache hands out fresh attributes under numbers that are the path's own. -/
theorem attrs_fresh (h : Reaches (AttrStep fold) (Unspoiled fold) (.initial fold) s) :
    AttrsFresh fold s ∧ OneNumber fold s.table := by
  have hs : FreshCache fold s := h.invariant freshCache_initial FreshCache.step
  refine ⟨fun n since e hr => hs.sound n _ hr, ?_, ?_, ?_⟩
  · intro ino ino' path path' hpath hpath' hsame
    have hfound := hs.table.getInoForPath hpath
    rw [InodeTable.getInoForPath_congr hsame] at hfound
    exact Option.some.inj (hfound.symm.trans (hs.table.getInoForPath hpath'))
  · exact fun path path' ino => hs.table.injective _ _ ino
  · exact fun ino path => hs.table.getInoForPath

end Steps

/-- A file is looked up, changed, and looked up again. -/
theorem changed_then_looked_up : ∃ s since e,
    (AttrsFresh id s ∧ OneNumber id s.table) ∧ s.readers 1 = some ⟨since, .answered e⟩ ∧
      since ["a"] = 1 ∧ e = ⟨["a"], 1⟩ := by
  have h := (Reaches.start : Reaches (AttrStep id) (Unspoiled id) (.initial id) (.initial id))
  have h := h.next (by trivial) (@AttrStep.lookup _ _ 0 ["a"] rfl)
  have h := h.next (by trivial) (@AttrStep.lookupNumber _ _ 0 _ _ rfl)
  have h := h.next (by trivial) (@AttrStep.invalidatePath _ _ ["a"])
  have h := h.next (by trivial) (@AttrStep.lookup _ _ 1 ["a"] rfl)
  have h := h.next (by trivial) (@AttrStep.lookupNumber _ _ 1 _ _ rfl)
  have h := h.next (by trivial) (@AttrStep.lookupMiss _ _ 1 _ _ _ rfl rfl)
  have h := h.next (by trivial) (@AttrStep.send _ _ 1 _ _ _ rfl)
  have h := h.next (by trivial) (@AttrStep.receive _ _ 1 _ _ _ _ ["a"] rfl rfl)
  have h := h.next (by trivial) (@AttrStep.number _ _ 1 _ _ rfl)
  have h := h.next (by rintro _ _ _ _ _ ⟨⟩; rfl) (@AttrStep.storeEntry _ _ 1 _ _ _ _ rfl)
  have h := h.next (by rintro _ _ _ _ _ ⟨⟩; rfl) (@AttrStep.storeIno _ _ 1 _ _ _ _ rfl)
  have h := h.next (by rintro _ _ _ _ _ ⟨⟩; rfl) (@AttrStep.storePath _ _ 1 _ _ _ _ rfl)
  exact ⟨_, _, _, attrs_fresh h, rfl, rfl, rfl⟩

/-- A lookup is on its way when its path is invalidated. It puts what it read
into the cache, and the next lookup finds it there. -/
theorem lookup_outlives_invalidation : ∃ s, Reaches (AttrStep id) unrestricted (.initial id) s ∧
    ¬(AttrsFresh id s ∧ OneNumber id s.table) := by
  have h := (Reaches.start : Reaches (AttrStep id) unrestricted (.initial id) (.initial id))
  have h := h.next (by trivial) (@AttrStep.lookup _ _ 0 ["a"] rfl)
  have h := h.next (by trivial) (@AttrStep.lookupNumber _ _ 0 _ _ rfl)
  have h := h.next (by trivial) (@AttrStep.lookupMiss _ _ 0 _ _ _ rfl rfl)
  have h := h.next (by trivial) (@AttrStep.send _ _ 0 _ _ _ rfl)
  have h := h.next (by trivial) (@AttrStep.invalidatePath _ _ ["a"])
  have h := h.next (by trivial) (@AttrStep.receive _ _ 0 _ _ _ _ ["a"] rfl rfl)
  have h := h.next (by trivial) (@AttrStep.number _ _ 0 _ _ rfl)
  have h := h.next (by trivial) (@AttrStep.storeEntry _ _ 0 _ _ _ _ rfl)
  have h := h.next (by trivial) (@AttrStep.storeIno _ _ 0 _ _ _ _ rfl)
  have h := h.next (by trivial) (@AttrStep.storePath _ _ 0 _ _ _ _ rfl)
  have h := h.next (by trivial) (@AttrStep.lookup _ _ 1 ["a"] rfl)
  have h := h.next (by trivial) (@AttrStep.lookupNumber _ _ 1 _ _ rfl)
  have h := h.next (by trivial) (@AttrStep.lookupHit _ _ 1 _ _ _ ⟨["a"], 0⟩ rfl rfl)
  exact ⟨_, h, fun hfresh => absurd (hfresh.1 1 _ _ rfl) (by decide)⟩

end SynologyFilestation.Fuse
