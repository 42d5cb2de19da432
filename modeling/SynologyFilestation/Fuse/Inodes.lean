import SynologyFilestation.Core.Path
import SynologyFilestation.Library.Table
import Mathlib.Data.List.AList

/-!
The inode cache (`InodeCache` in `fuse/src/cache.rs`): numbers for paths. A path
goes by its lowercase form, whose numbers are kept until they are invalidated;
the details of a number also expire by themselves.

`fold` is `to_lowercase`, of one component. What is known of a file besides its
path is a parameter.
-/

namespace SynologyFilestation.Fuse

open Function Core Library

/-- `InodeEntry`. -/
structure InodeEntry (A : Type) where
  path : NasPath
  info : A
  deriving DecidableEq, Repr

structure InodeTable (A : Type) where
  nextIno : ℕ
  byIno : ℕ → Option (InodeEntry A)
  /-- By lowercase path. -/
  pathToIno : AList fun _ : NasPath => ℕ
  inoToPath : ℕ → Option NasPath

def rootIno : ℕ := 1

/-- `VIRTUAL_ROOT_PATH`. -/
def virtualRootPath : NasPath := []

/-- `starts_with`, on lowercase text: `/a/photos` is a start of `/a/photos2`. -/
def isStart (fold : String → String) (path key : NasPath) : Bool :=
  (pathText (path.map fold)).toList.isPrefixOf (pathText key).toList

namespace InodeTable

variable {A : Type} (fold : String → String)

def new : InodeTable A :=
  { nextIno := 2, byIno := fun _ => none, pathToIno := ∅, inoToPath := fun _ => none }

def getInoForPath (path : NasPath) (t : InodeTable A) : Option ℕ :=
  t.pathToIno.lookup (path.map fold)

def getOrAllocIno (path : NasPath) (t : InodeTable A) : ℕ × InodeTable A :=
  match t.getInoForPath fold path with
  | some ino => (ino, t)
  | none => (t.nextIno, { t with
      nextIno := t.nextIno + 1, pathToIno := t.pathToIno.insert (path.map fold) t.nextIno })

def storeEntry (ino : ℕ) (e : InodeEntry A) (t : InodeTable A) : InodeTable A :=
  { t with byIno := update t.byIno ino (some e) }

def storeIno (ino : ℕ) (path : NasPath) (t : InodeTable A) : InodeTable A :=
  { t with pathToIno := t.pathToIno.insert (path.map fold) ino }

def storePath (ino : ℕ) (path : NasPath) (t : InodeTable A) : InodeTable A :=
  { t with inoToPath := update t.inoToPath ino (some path) }

/-- `insert`: the three tables in turn. -/
def insert (ino : ℕ) (e : InodeEntry A) (t : InodeTable A) : InodeTable A :=
  ((t.storeEntry ino e).storeIno fold ino e.path).storePath ino e.path

def seedRoot (info : A) (t : InodeTable A) : InodeTable A :=
  t.insert fold rootIno ⟨virtualRootPath, info⟩

/-- The details of a number are dropped: too old, or one too many. -/
def expire (ino : ℕ) (t : InodeTable A) : InodeTable A :=
  { t with byIno := update t.byIno ino none }

def getPathForIno (ino : ℕ) (t : InodeTable A) : Option NasPath :=
  match t.byIno ino with
  | some e => some e.path
  | none => t.inoToPath ino

/-- What the two invalidations do to one lowercase path. -/
def forget (key : NasPath) (t : InodeTable A) : InodeTable A :=
  match t.pathToIno.lookup key with
  | some ino =>
      { t with
        byIno := update t.byIno ino none
        pathToIno := t.pathToIno.erase key
        inoToPath := update t.inoToPath ino none }
  | none => t

def invalidatePath (path : NasPath) (t : InodeTable A) : InodeTable A := t.forget (path.map fold)

def invalidatePrefix (path : NasPath) (t : InodeTable A) : InodeTable A :=
  (t.pathToIno.keys.filter (isStart fold path)).foldl (fun t key => t.forget key) t

end InodeTable

/-! ### One number a path -/

/-- The tables against each other: no two paths share a number, and a number
leads back to the path it is found under. -/
structure InodeTable.Consistent {A : Type} (fold : String → String) (t : InodeTable A) :
    Prop where
  lt : ∀ key ino, t.pathToIno.lookup key = some ino → ino < t.nextIno
  injective : ∀ key key' ino, t.pathToIno.lookup key = some ino →
    t.pathToIno.lookup key' = some ino → key = key'
  byIno : ∀ ino e, t.byIno ino = some e → t.getInoForPath fold e.path = some ino
  inoToPath : ∀ ino path, t.inoToPath ino = some path → t.getInoForPath fold path = some ino

section Lemmas

variable {A : Type} {fold : String → String} {t : InodeTable A} {path : NasPath} {key : NasPath}
  {ino : ℕ} {e : InodeEntry A}

namespace InodeTable

theorem getInoForPath_congr {path' : NasPath} (h : path'.map fold = path.map fold) :
    t.getInoForPath fold path' = t.getInoForPath fold path := by
  rw [getInoForPath, getInoForPath, h]

theorem lookup_seedRoot {info : A} :
    (new.seedRoot fold info).pathToIno.lookup key =
      if key = virtualRootPath then some rootIno else none := by
  change ((∅ : AList fun _ : NasPath => ℕ).insert virtualRootPath rootIno).lookup key = _
  split
  case isTrue h => rw [h, AList.lookup_insert]
  case isFalse h => rw [AList.lookup_insert_ne h, AList.lookup_empty]

theorem consistent_seedRoot (info : A) : (new.seedRoot fold info).Consistent fold where
  lt key ino h := by
    rw [lookup_seedRoot] at h
    split at h
    · rw [← Option.some.inj h]
      exact Nat.lt_succ_self 1
    · cases h
  injective key key' ino h h' := by
    rw [lookup_seedRoot] at h h'
    split at h
    case isTrue heq =>
      split at h'
      case isTrue heq' => exact heq.trans heq'.symm
      case isFalse => cases h'
    case isFalse => cases h
  byIno ino e h := by
    obtain ⟨rfl, rfl⟩ := update_empty_eq_some h
    exact lookup_seedRoot
  inoToPath ino path h := by
    obtain ⟨rfl, rfl⟩ := update_empty_eq_some h
    exact lookup_seedRoot

/-- What the fallback table does not say, the details do. -/
theorem Consistent.getInoForPath (ht : t.Consistent fold)
    (h : t.getPathForIno ino = some path) : t.getInoForPath fold path = some ino := by
  unfold getPathForIno at h
  split at h
  case h_1 e he =>
    rw [← Option.some.inj h]
    exact ht.byIno ino e he
  case h_2 => exact ht.inoToPath ino path h

/-! #### Numbers given out -/

theorem getOrAllocIno_found (h : t.getInoForPath fold path = some ino) :
    t.getOrAllocIno fold path = (ino, t) := by
  rw [getOrAllocIno, h]

theorem getInoForPath_getOrAllocIno :
    (t.getOrAllocIno fold path).2.getInoForPath fold path =
      some (t.getOrAllocIno fold path).1 := by
  unfold getOrAllocIno
  split
  case h_1 ino h => exact h
  case h_2 h => exact AList.lookup_insert t.pathToIno

/-- The numbers that were there stay. -/
theorem lookup_getOrAllocIno (h : t.pathToIno.lookup key = some ino) :
    (t.getOrAllocIno fold path).2.pathToIno.lookup key = some ino := by
  unfold getOrAllocIno
  split
  case h_1 => exact h
  case h_2 hnone =>
    have hne : key ≠ path.map fold := by
      rintro rfl
      cases h.symm.trans hnone
    exact (AList.lookup_insert_ne hne).trans h

@[simp] theorem getOrAllocIno_byIno : (t.getOrAllocIno fold path).2.byIno = t.byIno := by
  unfold getOrAllocIno
  split <;> rfl

@[simp] theorem getOrAllocIno_inoToPath :
    (t.getOrAllocIno fold path).2.inoToPath = t.inoToPath := by
  unfold getOrAllocIno
  split <;> rfl

theorem of_lookup_getOrAllocIno
    (h : (t.getOrAllocIno fold path).2.pathToIno.lookup key = some ino) :
    t.pathToIno.lookup key = some ino ∨ key = path.map fold ∧ ino = t.nextIno ∧
      (t.getOrAllocIno fold path).2.nextIno = t.nextIno + 1 := by
  unfold getOrAllocIno at h ⊢
  split at h
  case h_1 hfound => exact Or.inl h
  case h_2 hnone =>
    rcases eq_or_ne key (path.map fold) with rfl | hne
    · rw [AList.lookup_insert] at h
      exact Or.inr ⟨rfl, (Option.some.inj h).symm, rfl⟩
    · rw [AList.lookup_insert_ne hne] at h
      exact Or.inl h

theorem nextIno_le_getOrAllocIno : t.nextIno ≤ (t.getOrAllocIno fold path).2.nextIno := by
  unfold getOrAllocIno
  split
  · exact Nat.le_refl _
  · exact Nat.le_succ _

theorem Consistent.getOrAllocIno (ht : t.Consistent fold) :
    (t.getOrAllocIno fold path).2.Consistent fold where
  lt := by
    intro key ino h
    rcases of_lookup_getOrAllocIno h with h | ⟨_, rfl, hnext⟩
    · exact (ht.lt key ino h).trans_le nextIno_le_getOrAllocIno
    · exact hnext ▸ Nat.lt_succ_self _
  injective := by
    intro key key' ino h h'
    rcases of_lookup_getOrAllocIno h with h | ⟨rfl, rfl, _⟩
    · rcases of_lookup_getOrAllocIno h' with h' | ⟨_, rfl, _⟩
      · exact ht.injective key key' ino h h'
      · exact absurd (ht.lt key _ h) (Nat.lt_irrefl _)
    · rcases of_lookup_getOrAllocIno h' with h' | ⟨rfl, _, _⟩
      · exact absurd (ht.lt key' _ h') (Nat.lt_irrefl _)
      · rfl
  byIno ino e h := lookup_getOrAllocIno (ht.byIno ino e (by rwa [getOrAllocIno_byIno] at h))
  inoToPath ino path h :=
    lookup_getOrAllocIno (ht.inoToPath ino path (by rwa [getOrAllocIno_inoToPath] at h))

/-! #### Entries put in -/

theorem Consistent.storeEntry (ht : t.Consistent fold)
    (h : t.getInoForPath fold e.path = some ino) : (t.storeEntry ino e).Consistent fold :=
  { ht with
    byIno := by
      intro ino' e' he'
      change update t.byIno ino (some e) ino' = some e' at he'
      rcases eq_or_ne ino' ino with rfl | hne
      · rw [update_self] at he'
        rwa [← Option.some.inj he']
      · rw [update_of_ne hne] at he'
        exact ht.byIno ino' e' he' }

/-- A number that is found under the path already. -/
theorem lookup_storeIno (h : t.getInoForPath fold path = some ino) :
    (t.storeIno fold ino path).pathToIno.lookup key = t.pathToIno.lookup key := by
  change (t.pathToIno.insert (path.map fold) ino).lookup key = _
  rcases eq_or_ne key (path.map fold) with rfl | hne
  · rw [AList.lookup_insert]
    exact h.symm
  · exact AList.lookup_insert_ne hne

theorem Consistent.storeIno (ht : t.Consistent fold)
    (h : t.getInoForPath fold path = some ino) : (t.storeIno fold ino path).Consistent fold where
  lt key ino' h' := ht.lt key ino' (by rwa [lookup_storeIno h] at h')
  injective key key' ino' h' h'' := ht.injective key key' ino'
    (by rwa [lookup_storeIno h] at h') (by rwa [lookup_storeIno h] at h'')
  byIno ino' e h' := (lookup_storeIno h).trans (ht.byIno ino' e h')
  inoToPath ino' path h' := (lookup_storeIno h).trans (ht.inoToPath ino' path h')

theorem Consistent.storePath (ht : t.Consistent fold)
    (h : t.getInoForPath fold path = some ino) : (t.storePath ino path).Consistent fold :=
  { ht with
    inoToPath := by
      intro ino' path' hpath'
      change update t.inoToPath ino (some path) ino' = some path' at hpath'
      rcases eq_or_ne ino' ino with rfl | hne
      · rw [update_self] at hpath'
        rwa [← Option.some.inj hpath']
      · rw [update_of_ne hne] at hpath'
        exact ht.inoToPath ino' path' hpath' }

theorem Consistent.insert (ht : t.Consistent fold)
    (h : t.getInoForPath fold e.path = some ino) : (t.insert fold ino e).Consistent fold := by
  have hentry := ht.storeEntry h
  have hino :=
    hentry.storeIno (show (t.storeEntry ino e).getInoForPath fold e.path = some ino from h)
  exact hino.storePath ((lookup_storeIno (t := t.storeEntry ino e) h).trans h)

theorem lookup_insert (h : t.getInoForPath fold e.path = some ino) :
    (t.insert fold ino e).pathToIno.lookup key = t.pathToIno.lookup key :=
  lookup_storeIno (t := t.storeEntry ino e) h

theorem insert_inoToPath : (t.insert fold ino e).inoToPath = update t.inoToPath ino (some e.path) :=
  rfl

/-! #### Entries dropped -/

theorem expire_byIno_some {ino' : ℕ} (h : (t.expire ino').byIno ino = some e) :
    t.byIno ino = some e :=
  (update_none_eq_some h).2

theorem Consistent.expire (ht : t.Consistent fold) (ino : ℕ) : (t.expire ino).Consistent fold :=
  { ht with byIno := fun ino' e h => ht.byIno ino' e (expire_byIno_some h) }

theorem lookup_forget {key' : NasPath} : (t.forget key).pathToIno.lookup key' =
    if key' = key then none else t.pathToIno.lookup key' := by
  unfold forget
  split
  case h_1 ino h =>
    split
    case isTrue heq => rw [heq, AList.lookup_erase]
    case isFalse hne => exact AList.lookup_erase_ne hne
  case h_2 h =>
    split
    case isTrue heq => rw [heq, h]
    case isFalse hne => rfl

/-- Another number's path stays. -/
theorem forget_inoToPath (h : t.pathToIno.lookup key ≠ some ino) :
    (t.forget key).inoToPath ino = t.inoToPath ino := by
  unfold forget
  split
  case h_1 ino' h' =>
    refine update_of_ne ?_ _ _
    rintro rfl
    exact h h'
  case h_2 => rfl

theorem forget_byIno_some (h : (t.forget key).byIno ino = some e) :
    t.byIno ino = some e ∧ t.pathToIno.lookup key ≠ some ino := by
  unfold forget at h
  split at h
  case h_1 ino' h' =>
    obtain ⟨hne, hkept⟩ := update_none_eq_some h
    exact ⟨hkept, fun heq => hne (Option.some.inj (heq.symm.trans h'))⟩
  case h_2 h' => exact ⟨h, fun heq => by cases h'.symm.trans heq⟩

theorem forget_inoToPath_some (h : (t.forget key).inoToPath ino = some path) :
    t.inoToPath ino = some path ∧ t.pathToIno.lookup key ≠ some ino := by
  unfold forget at h
  split at h
  case h_1 ino' h' =>
    obtain ⟨hne, hkept⟩ := update_none_eq_some h
    exact ⟨hkept, fun heq => hne (Option.some.inj (heq.symm.trans h'))⟩
  case h_2 h' => exact ⟨h, fun heq => by cases h'.symm.trans heq⟩

/-- A number that is found under another path is found there still. -/
theorem lookup_forget_of_ne {key' : NasPath} (h : t.pathToIno.lookup key' = some ino)
    (hne : t.pathToIno.lookup key ≠ some ino) :
    (t.forget key).pathToIno.lookup key' = some ino := by
  rw [lookup_forget, if_neg]
  · exact h
  · rintro rfl
    exact hne h

theorem Consistent.forget (ht : t.Consistent fold) (key : NasPath) :
    (t.forget key).Consistent fold where
  lt key' ino h := by
    have hlt : ino < t.nextIno := by
      rw [lookup_forget] at h
      split at h
      · cases h
      · exact ht.lt key' ino h
    unfold InodeTable.forget
    split <;> exact hlt
  injective key' key'' ino h h' := by
    rw [lookup_forget] at h h'
    split at h
    · cases h
    · split at h'
      · cases h'
      · exact ht.injective key' key'' ino h h'
  byIno ino e h := by
    obtain ⟨he, hne⟩ := forget_byIno_some h
    exact lookup_forget_of_ne (ht.byIno ino e he) hne
  inoToPath ino path h := by
    obtain ⟨hpath, hne⟩ := forget_inoToPath_some h
    exact lookup_forget_of_ne (ht.inoToPath ino path hpath) hne

theorem lookup_forget_foldl (keys : List NasPath) :
    (keys.foldl (fun t key => t.forget key) t).pathToIno.lookup key =
      if key ∈ keys then none else t.pathToIno.lookup key := by
  induction keys generalizing t with
  | nil => simp
  | cons first keys ih =>
      rw [List.foldl_cons, ih, lookup_forget]
      by_cases hmem : key ∈ keys <;> by_cases heq : key = first <;> simp [hmem, heq]

theorem lookup_invalidatePrefix : (t.invalidatePrefix fold path).pathToIno.lookup key =
    if isStart fold path key then none else t.pathToIno.lookup key := by
  rw [invalidatePrefix, lookup_forget_foldl]
  cases hlookup : t.pathToIno.lookup key with
  | none => simp
  | some ino =>
      have hmem : key ∈ t.pathToIno.keys :=
        AList.mem_keys.mp (AList.lookup_isSome.mp (by rw [hlookup]; rfl))
      simp [List.mem_filter, hmem]

theorem invalidatePrefix_byIno_some (h : (t.invalidatePrefix fold path).byIno ino = some e) :
    t.byIno ino = some e := by
  unfold invalidatePrefix at h
  generalize t.pathToIno.keys.filter (isStart fold path) = keys at h
  induction keys generalizing t with
  | nil => exact h
  | cons key keys ih => exact (forget_byIno_some (ih h)).1

theorem Consistent.invalidatePrefix (ht : t.Consistent fold) (path : NasPath) :
    (t.invalidatePrefix fold path).Consistent fold := by
  unfold InodeTable.invalidatePrefix
  generalize t.pathToIno.keys.filter (isStart fold path) = keys
  induction keys generalizing t with
  | nil => exact ht
  | cons key keys ih => exact ih (ht.forget key)

end InodeTable

end Lemmas

end SynologyFilestation.Fuse
