import SynologyFilestation.Fuse.Callbacks
import SynologyFilestation.Fuse.Numbers

/-!
What the caches forget when a directory is removed, renamed or moved: `rmdir` and
`rename` in `fuse/src/fs/callbacks.rs`, `forget_moved` in `fuse/src/fs/transfer.rs`,
over `InodeCache` and `DirCache` in `fuse/src/cache.rs`. Blocks of files go by
number and are left out.
-/

namespace SynologyFilestation.Fuse

open Function Core Library

/-- Listings, by lowercase path. -/
structure DirCache (L : Type) where
  enabled : Bool
  listings : NasPath → Option L

/-- `key` starts with `top` and a separator, both as lowercase text. -/
def isBelow (fold : String → String) (top key : NasPath) : Bool :=
  (pathText (top.map fold) ++ "/").toList.isPrefixOf (pathText key).toList

def isAtOrBelow (fold : String → String) (top key : NasPath) : Bool :=
  key = top.map fold || isBelow fold top key

namespace DirCache

variable {L : Type}

/-- What `get` answers for a lowercase path. -/
def answer (key : NasPath) (c : DirCache L) : Option L :=
  if c.enabled then c.listings key else none

def invalidate (fold : String → String) (path : NasPath) (c : DirCache L) : DirCache L :=
  { c with listings := update c.listings (path.map fold) none }

def invalidatePrefix (fold : String → String) (path : NasPath) (c : DirCache L) : DirCache L :=
  { c with
    listings := fun key =>
      if key = path.map fold || isBelow fold path key then none else c.listings key }

end DirCache

/-- The listing of the directory that `path` sits in: that of the virtual root for
a share. -/
def forgetParentListing {L : Type} (fold : String → String) (path : NasPath) (c : DirCache L) :
    DirCache L :=
  c.invalidate fold path.dropLast

structure MountCaches (A L : Type) where
  inodes : InodeTable A
  dirs : DirCache L

namespace MountCaches

variable {A L : Type} (fold : String → String)

/-- `rmdir`, once the NAS has removed the directory. -/
def rmdir (path : NasPath) (s : MountCaches A L) : MountCaches A L :=
  { inodes := s.inodes.invalidatePrefix fold path
    dirs := forgetParentListing fold path (s.dirs.invalidatePrefix fold path) }

/-- What `rename` forgets of a path it clears or leaves, within a directory. -/
def forgetName (path : NasPath) (s : MountCaches A L) : MountCaches A L :=
  { inodes := s.inodes.invalidatePath fold path
    dirs := forgetParentListing fold path s.dirs }

/-- The same-directory half of `rename`, on a NAS that answers with `info`. -/
def renameIn (old new : NasPath) (info : InodeEntry A) (s : MountCaches A L) :
    MountCaches A L :=
  let cleared := if old = new then s else s.forgetName fold new
  let left := cleared.forgetName fold old
  let (ino, inodes) := left.inodes.getOrAllocIno fold new
  { left with inodes := inodes.insert fold ino info }

def forgetEnd (path : NasPath) (s : MountCaches A L) : MountCaches A L :=
  { inodes := s.inodes.forgetEnd fold path
    dirs := forgetParentListing fold path (s.dirs.invalidatePrefix fold path) }

/-- `forget_moved`, which a move between directories does whatever comes of it. -/
def forgetMoved (old new : NasPath) (s : MountCaches A L) : MountCaches A L :=
  (s.forgetEnd fold old).forgetEnd fold new

end MountCaches

/-- A directory that is removed, renamed or moved, as the kernel names it: by the
path of its directory and a name. -/
inductive DirRemoval (A : Type)
  | rmdir (parent : NasPath) (name : FileName)
  | rename (parent : NasPath) (name newName : FileName) (info : InodeEntry A)
  | move (parent : NasPath) (name : FileName) (newParent : NasPath) (newName : FileName)

namespace DirRemoval

variable {A L : Type} (fold : String → String)

def old : DirRemoval A → NasPath
  | .rmdir parent name | .rename parent name _ _ | .move parent name _ _ =>
      joinPath parent name.text

def new : DirRemoval A → Option NasPath
  | .rmdir .. => none
  | .rename parent _ newName _ => some (joinPath parent newName.text)
  | .move _ _ newParent newName => some (joinPath newParent newName.text)

def apply (s : MountCaches A L) : DirRemoval A → MountCaches A L
  | .rmdir parent name => s.rmdir fold (joinPath parent name.text)
  | .rename parent name newName info =>
      s.renameIn fold (joinPath parent name.text) (joinPath parent newName.text) info
  | .move parent name newParent newName =>
      s.forgetMoved fold (joinPath parent name.text) (joinPath newParent newName.text)

end DirRemoval

/-! ### Forgetting a set of paths -/

/-- The numbers of some paths are forgotten, and whatever was known of those
numbers. -/
structure InodeTable.Forgot {A : Type} (swept : NasPath → Prop) (t t' : InodeTable A) :
    Prop where
  gone : ∀ key, swept key → t'.pathToIno.lookup key = none
  kept : ∀ key, ¬swept key → t'.pathToIno.lookup key = t.pathToIno.lookup key
  dropped : ∀ key ino, swept key → t.pathToIno.lookup key = some ino →
    t'.byIno ino = none ∧ t'.inoToPath ino = none
  spared : ∀ ino, (∀ key, swept key → t.pathToIno.lookup key ≠ some ino) →
    t'.byIno ino = t.byIno ino ∧ t'.inoToPath ino = t.inoToPath ino
  nextIno : t'.nextIno = t.nextIno

section Forgot

variable {A : Type} {fold : String → String} {swept swept' : NasPath → Prop}
  {t t' t'' : InodeTable A} {path key : NasPath} {ino : ℕ}

namespace InodeTable

theorem Forgot.refl : Forgot (fun _ => False) t t where
  gone _ h := h.elim
  kept _ _ := rfl
  dropped _ _ h := h.elim
  spared _ _ := ⟨rfl, rfl⟩
  nextIno := rfl

theorem Forgot.forget (key : NasPath) : Forgot (· = key) t (t.forget key) where
  gone other h := by rw [lookup_forget, if_pos h]
  kept other h := by rw [lookup_forget, if_neg h]
  dropped other ino h hlookup := by
    rw [h] at hlookup
    simp [InodeTable.forget, hlookup]
  spared ino h := by
    have hne := h key rfl
    refine ⟨?_, forget_inoToPath hne⟩
    unfold InodeTable.forget
    split
    case h_1 ino' h' =>
      refine update_of_ne ?_ _ _
      rintro rfl
      exact hne h'
    case h_2 => rfl
  nextIno := by
    unfold InodeTable.forget
    split <;> rfl

theorem Forgot.trans (h : Forgot swept t t') (h' : Forgot swept' t' t'') :
    Forgot (fun key => swept key ∨ swept' key) t t'' := by
  -- What the first forgets stays forgotten.
  have hgone : ∀ key, swept key → t''.pathToIno.lookup key = none := by
    intro key hkey
    by_cases hkey' : swept' key
    · exact h'.gone key hkey'
    · rw [h'.kept key hkey', h.gone key hkey]
  have hdropped : ∀ ino, t'.byIno ino = none ∧ t'.inoToPath ino = none →
      t''.byIno ino = none ∧ t''.inoToPath ino = none := by
    intro ino hnone
    by_cases hmet : ∃ key, swept' key ∧ t'.pathToIno.lookup key = some ino
    · obtain ⟨key, hkey, hlookup⟩ := hmet
      exact h'.dropped key ino hkey hlookup
    · simp only [not_exists, not_and] at hmet
      rw [(h'.spared ino hmet).1, (h'.spared ino hmet).2]
      exact hnone
  refine ⟨?_, ?_, ?_, ?_, h'.nextIno.trans h.nextIno⟩
  · rintro key (hkey | hkey)
    · exact hgone key hkey
    · exact h'.gone key hkey
  · intro key hkey
    rw [not_or] at hkey
    rw [h'.kept key hkey.2, h.kept key hkey.1]
  · intro key ino hkey hlookup
    by_cases hfirst : swept key
    · exact hdropped ino (h.dropped key ino hfirst hlookup)
    · rw [← h.kept key hfirst] at hlookup
      exact h'.dropped key ino (hkey.resolve_left hfirst) hlookup
  · intro ino hother
    have hfirst := h.spared ino fun key hkey => hother key (Or.inl hkey)
    have hsecond := h'.spared ino fun key hkey hlookup => by
      by_cases hkey' : swept key
      · rw [h.gone key hkey'] at hlookup
        cases hlookup
      · rw [h.kept key hkey'] at hlookup
        exact hother key (Or.inr hkey) hlookup
    exact ⟨hsecond.1.trans hfirst.1, hsecond.2.trans hfirst.2⟩

/-- Which paths without a number are among them makes no difference. -/
theorem Forgot.congr (h : Forgot swept t t')
    (hsame : ∀ key ino, t.pathToIno.lookup key = some ino → (swept key ↔ swept' key)) :
    Forgot swept' t t' := by
  refine ⟨?_, ?_, ?_, ?_, h.nextIno⟩
  · intro key hkey
    by_cases hswept : swept key
    · exact h.gone key hswept
    · rw [h.kept key hswept, Option.eq_none_iff_forall_ne_some]
      exact fun ino hlookup => hswept ((hsame key ino hlookup).mpr hkey)
  · intro key hkey
    by_cases hswept : swept key
    · rw [h.gone key hswept, eq_comm, Option.eq_none_iff_forall_ne_some]
      exact fun ino hlookup => hkey ((hsame key ino hlookup).mp hswept)
    · exact h.kept key hswept
  · exact fun key ino hkey hlookup =>
      h.dropped key ino ((hsame key ino hlookup).mpr hkey) hlookup
  · exact fun ino hother => h.spared ino fun key hkey hlookup =>
      hother key ((hsame key ino hlookup).mp hkey) hlookup

theorem Forgot.foldl (keys : List NasPath) :
    Forgot (· ∈ keys) t (keys.foldl (fun t key => t.forget key) t) := by
  induction keys generalizing t with
  | nil => simpa using Forgot.refl
  | cons first keys ih => simpa using (Forgot.forget first).trans (ih (t := t.forget first))

theorem Forgot.invalidatePath (path : NasPath) :
    Forgot (· = path.map fold) t (t.invalidatePath fold path) :=
  Forgot.forget _

theorem Forgot.invalidatePrefix (path : NasPath) :
    Forgot (fun key => isStart fold path key = true) t (t.invalidatePrefix fold path) := by
  refine (Forgot.foldl (t.pathToIno.keys.filter (isStart fold path))).congr ?_
  intro key ino hlookup
  have hkey : key ∈ t.pathToIno.keys :=
    AList.mem_keys.mp (AList.lookup_isSome.mp (by rw [hlookup]; rfl))
  simp [List.mem_filter, hkey]

theorem Forgot.forgetEnd (path : NasPath) :
    Forgot (fun key => isSwept fold path key = true) t (t.forgetEnd fold path) := by
  have hpath : Forgot (· = path.map fold) t (t.invalidatePath fold path) :=
    Forgot.invalidatePath path
  have hunder : Forgot (fun key => isStart fold (trimEnd path ++ [""]) key = true)
      (t.invalidatePath fold path) (t.forgetEnd fold path) := Forgot.invalidatePrefix _
  exact (hpath.trans hunder).congr fun key ino _ => by simp [isSwept]

theorem Forgot.forgetMoved (old new : NasPath) :
    Forgot (fun key => isSwept fold old key = true ∨ isSwept fold new key = true) t
      (t.forgetMoved fold old new) :=
  (Forgot.forgetEnd old).trans (Forgot.forgetEnd new)

end InodeTable

end Forgot

/-! ### Paths and their text -/

section Text

variable {fold : String → String} {path parent key : NasPath} {name : String}

theorem isStart_self : isStart fold path (path.map fold) = true := by
  simp [isStart]

/-- What is at or below a path starts with its text. -/
theorem isStart_of_isAtOrBelow (h : isAtOrBelow fold path key = true) :
    isStart fold path key = true := by
  rw [isAtOrBelow, Bool.or_eq_true, decide_eq_true_eq] at h
  rcases h with rfl | h
  · exact isStart_self
  · rw [isBelow, List.isPrefixOf_iff_prefix, String.toList_append] at h
    rw [isStart, List.isPrefixOf_iff_prefix]
    exact (List.prefix_append _ _).trans h

/-- A trailing separator leaves what is below. -/
theorem isStart_separator (hfold : fold "" = "") :
    isStart fold (path ++ [""]) key = isBelow fold path key := by
  simp [isStart, isBelow, hfold, pathText]

theorem trimEnd_joinPath (hname : name ≠ "") :
    trimEnd (joinPath parent name) = joinPath parent name := by
  simp [trimEnd, joinPath, hname]

theorem isSwept_joinPath (hfold : fold "" = "") (hname : name ≠ "") :
    isSwept fold (joinPath parent name) key = isAtOrBelow fold (joinPath parent name) key := by
  rw [isSwept, trimEnd_joinPath hname, isStart_separator hfold, isAtOrBelow]

theorem isAtOrBelow_self : isAtOrBelow fold path (path.map fold) = true := by
  simp [isAtOrBelow]

theorem isBelow_self : isBelow fold path (path.map fold) = false := by
  rw [isBelow, ← Bool.not_eq_true, List.isPrefixOf_iff_prefix]
  intro hprefix
  have hle := hprefix.length_le
  simp only [String.toList_append, List.length_append, String.reduceToList,
    List.length_singleton] at hle
  omega

/-- A directory is not below what sits in it. -/
theorem isAtOrBelow_parent :
    isAtOrBelow fold (joinPath parent name) ((joinPath parent name).dropLast.map fold) = false := by
  have hlength : (pathText ((trimEnd parent).map fold)).toList.length <
      (pathText ((joinPath parent name).map fold)).toList.length := by
    simp [joinPath, pathText]
  rw [joinPath, List.dropLast_concat, ← joinPath, isAtOrBelow, Bool.or_eq_false_iff]
  constructor
  · rw [decide_eq_false_iff_not]
    intro heq
    rw [heq] at hlength
    exact Nat.lt_irrefl _ hlength
  · rw [isBelow, ← Bool.not_eq_true, List.isPrefixOf_iff_prefix]
    intro hprefix
    have hle := hprefix.length_le
    rw [String.toList_append, List.length_append] at hle
    omega

end Text

/-! ### Forgetting only the directory -/

section Only

variable {A L : Type} (fold : String → String)

/-- Neither the directory and what is below it, nor where it goes. -/
def Apart (old : NasPath) (new : Option NasPath) (key : NasPath) : Prop :=
  isAtOrBelow fold old key = false ∧ ∀ path ∈ new, isAtOrBelow fold path key = false

/-- The directories it leaves and comes to. -/
def IsParent (old : NasPath) (new : Option NasPath) (key : NasPath) : Prop :=
  key = old.dropLast.map fold ∨ ∃ path ∈ new, key = path.dropLast.map fold

/-- Nothing cached answers for the directory or below it, and apart from the two
ends every number, what is known of it, and every listing is kept. -/
structure ForgetsOnly (old : NasPath) (new : Option NasPath) (before after : MountCaches A L) :
    Prop where
  no_number : ∀ key, isAtOrBelow fold old key = true → after.inodes.pathToIno.lookup key = none
  no_listing : ∀ key, isAtOrBelow fold old key = true → after.dirs.answer key = none
  numbers : ∀ key, Apart fold old new key →
    after.inodes.pathToIno.lookup key = before.inodes.pathToIno.lookup key
  attributes : ∀ key ino, Apart fold old new key → before.inodes.pathToIno.lookup key = some ino →
    after.inodes.byIno ino = before.inodes.byIno ino ∧
      after.inodes.inoToPath ino = before.inodes.inoToPath ino
  listings : ∀ key, Apart fold old new key → ¬IsParent fold old new key →
    after.dirs.answer key = before.dirs.answer key

/-- No entry that is to stay, and of which anything but its path is known, has the
number of one that goes. -/
def InodeTable.Unshared (swept stays : NasPath → Prop) (t : InodeTable A) : Prop :=
  ∀ key key' ino, stays key → swept key' → t.pathToIno.lookup key = some ino →
    t.pathToIno.lookup key' = some ino → t.byIno ino = none ∧ t.inoToPath ino = none

/-- When the callbacks forget the directory and nothing else. Of `rmdir`: no path
with a number begins with the directory's name and goes on otherwise. Of a rename
within a directory: nothing is cached below the directory, nor a listing of it, and
the new path, which the NAS answers with, is another one than the old. -/
def DirRemoval.Clean (s : MountCaches A L) : DirRemoval A → Prop
  | .rmdir parent name =>
      let old := joinPath parent name.text
      (∀ key, isStart fold old key = true → isAtOrBelow fold old key = false →
        s.inodes.pathToIno.lookup key = none) ∧
      s.inodes.Unshared (isAtOrBelow fold old · = true) (Apart fold old none)
  | .rename parent name newName info =>
      let old := joinPath parent name.text
      let new := joinPath parent newName.text
      isAtOrBelow fold old (new.map fold) = false ∧
      isAtOrBelow fold old (info.path.map fold) = false ∧
      isAtOrBelow fold new (info.path.map fold) = true ∧
      (∀ key, isBelow fold old key = true → s.inodes.pathToIno.lookup key = none) ∧
      (∀ key, isAtOrBelow fold old key = true → s.dirs.answer key = none) ∧
      s.inodes.Unshared (fun key => key = old.map fold ∨ key = new.map fold)
        (Apart fold old (some new))
  | .move parent name newParent newName =>
      let old := joinPath parent name.text
      let new := joinPath newParent newName.text
      s.inodes.Unshared (fun key => isAtOrBelow fold old key = true ∨
        isAtOrBelow fold new key = true) (Apart fold old (some new))

end Only

/-! #### What each of them forgets -/

section Removal

variable {A L : Type} {fold : String → String} {s : MountCaches A L} {swept stays : NasPath → Prop}
  {t t' : InodeTable A} {old new path key : NasPath}

/-- Of a table that has forgotten some paths: the others keep what is known of them
exactly if no number is shared. -/
theorem InodeTable.Forgot.attributes_iff (h : t.Forgot swept t') :
    (∀ key ino, stays key → t.pathToIno.lookup key = some ino →
      t'.byIno ino = t.byIno ino ∧ t'.inoToPath ino = t.inoToPath ino) ↔
    t.Unshared swept stays := by
  constructor
  · intro hkept key key' ino hkey hkey' hlookup hlookup'
    have hsame := hkept key ino hkey hlookup
    have hnone := h.dropped key' ino hkey' hlookup'
    exact ⟨hsame.1.symm.trans hnone.1, hsame.2.symm.trans hnone.2⟩
  · intro hunshared key ino hkey hlookup
    by_cases hmet : ∃ key', swept key' ∧ t.pathToIno.lookup key' = some ino
    · obtain ⟨key', hkey', hlookup'⟩ := hmet
      have hnone := hunshared key key' ino hkey hkey' hlookup hlookup'
      have hdropped := h.dropped key' ino hkey' hlookup'
      exact ⟨hdropped.1.trans hnone.1.symm, hdropped.2.trans hnone.2.symm⟩
    · simp only [not_exists, not_and] at hmet
      exact h.spared ino hmet

theorem InodeTable.Consistent.register (ht : t.Consistent fold) {e : InodeEntry A} :
    (t.register fold e).2.Consistent fold :=
  ht.getOrAllocIno.insert InodeTable.getInoForPath_getOrAllocIno

/-- Tables in step with themselves share no numbers. -/
theorem InodeTable.Consistent.unshared (ht : t.Consistent fold)
    (hstays : ∀ key, stays key → ¬swept key) : t.Unshared swept stays := by
  intro key key' ino hkey hkey' hlookup hlookup'
  obtain rfl := ht.injective key key' ino hlookup hlookup'
  exact absurd hkey' (hstays key hkey)

theorem DirCache.answer_invalidate {c : DirCache L} : (c.invalidate fold path).answer key =
    if key = path.map fold then none else c.answer key := by
  rw [answer, invalidate, answer]
  by_cases h : key = path.map fold <;> simp [h]

theorem DirCache.answer_invalidatePrefix {c : DirCache L} :
    (c.invalidatePrefix fold path).answer key =
      if isAtOrBelow fold path key = true then none else c.answer key := by
  by_cases h : isAtOrBelow fold path key = true
  · have hkey : (key = path.map fold || isBelow fold path key) = true := h
    simp only [answer, invalidatePrefix, if_pos h, if_pos hkey, ite_self]
  · have hkey : ¬(key = path.map fold || isBelow fold path key) = true := h
    simp only [answer, invalidatePrefix, if_neg h, if_neg hkey]

/-- A directory, everything below it, and the listing it is in. -/
theorem answer_forgetParentListing {c : DirCache L} :
    (forgetParentListing fold path (c.invalidatePrefix fold path)).answer key =
      if key = path.dropLast.map fold ∨ isAtOrBelow fold path key = true then none
      else c.answer key := by
  rw [forgetParentListing, DirCache.answer_invalidate, DirCache.answer_invalidatePrefix]
  by_cases hparent : key = path.dropLast.map fold
  · rw [if_pos hparent, if_pos (Or.inl hparent)]
  · simp only [hparent, if_false, false_or]

/-- Where a set of paths is forgotten that has the directory in it, the rest is kept
exactly if it has no number under those paths, and shares none with them. -/
theorem ForgetsOnly.iff_of_forgot {new : Option NasPath} {after : MountCaches A L}
    (hforgot : s.inodes.Forgot swept after.inodes)
    (hcover : ∀ key, isAtOrBelow fold old key = true → swept key)
    (hgone : ∀ key, isAtOrBelow fold old key = true → after.dirs.answer key = none)
    (hkept : ∀ key, Apart fold old new key → ¬IsParent fold old new key →
      after.dirs.answer key = s.dirs.answer key) :
    ForgetsOnly fold old new s after ↔
      (∀ key, Apart fold old new key → swept key → s.inodes.pathToIno.lookup key = none) ∧
      s.inodes.Unshared swept (Apart fold old new) := by
  rw [← hforgot.attributes_iff]
  constructor
  · intro h
    refine ⟨fun key hapart hswept => ?_, h.attributes⟩
    rw [← h.numbers key hapart, hforgot.gone key hswept]
  · rintro ⟨hnone, hattributes⟩
    refine ⟨fun key hkey => hforgot.gone key (hcover key hkey), hgone, ?_, hattributes, hkept⟩
    intro key hapart
    by_cases hswept : swept key
    · rw [hforgot.gone key hswept, hnone key hapart hswept]
    · exact hforgot.kept key hswept

theorem forgetsOnly_rmdir {parent : NasPath} {name : FileName} :
    ForgetsOnly fold (joinPath parent name.text) none s
      (s.rmdir fold (joinPath parent name.text)) ↔
    DirRemoval.Clean fold s (.rmdir parent name) := by
  simp only [DirRemoval.Clean]
  generalize joinPath parent name.text = old
  have hdirs : ∀ key, (s.rmdir fold old).dirs.answer key =
      if key = old.dropLast.map fold ∨ isAtOrBelow fold old key = true then none
      else s.dirs.answer key := fun _ => answer_forgetParentListing
  rw [ForgetsOnly.iff_of_forgot (InodeTable.Forgot.invalidatePrefix old)
    fun key => isStart_of_isAtOrBelow]
  · have hapart : ∀ key, Apart fold old none key ↔ isAtOrBelow fold old key = false := by
      simp [Apart]
    constructor
    · rintro ⟨hnone, hunshared⟩
      refine ⟨fun key hstart hkey => hnone key ((hapart key).mpr hkey) hstart, ?_⟩
      exact fun key key' ino hkey hkey' =>
        hunshared key key' ino hkey (isStart_of_isAtOrBelow hkey')
    · rintro ⟨hnone, hunshared⟩
      refine ⟨fun key hkey hstart => hnone key hstart ((hapart key).mp hkey), ?_⟩
      intro key key' ino hkey hstart hlookup hlookup'
      refine hunshared key key' ino hkey ?_ hlookup hlookup'
      by_contra hother
      rw [hnone key' hstart (by simpa using hother)] at hlookup'
      cases hlookup'
  · intro key hkey
    rw [hdirs, if_pos (Or.inr hkey)]
  · intro key hkey hparent
    rw [hdirs, if_neg]
    rintro (hown | hbelow)
    · exact hparent (Or.inl hown)
    · exact absurd hbelow (by simp [hkey.1])

theorem forgetsOnly_move (hfold : fold "" = "") {parent newParent : NasPath}
    {name newName : FileName} :
    ForgetsOnly fold (joinPath parent name.text) (some (joinPath newParent newName.text)) s
      (s.forgetMoved fold (joinPath parent name.text) (joinPath newParent newName.text)) ↔
    DirRemoval.Clean fold s (.move parent name newParent newName) := by
  have hforgot : s.inodes.Forgot (fun key =>
      isAtOrBelow fold (joinPath parent name.text) key = true ∨
        isAtOrBelow fold (joinPath newParent newName.text) key = true)
      (s.forgetMoved fold (joinPath parent name.text)
        (joinPath newParent newName.text)).inodes := by
    simp only [← isSwept_joinPath hfold name.nonempty, ← isSwept_joinPath hfold newName.nonempty]
    exact .forgetMoved _ _
  simp only [DirRemoval.Clean]
  revert hforgot
  generalize joinPath parent name.text = old
  generalize joinPath newParent newName.text = new
  intro hforgot
  have hdirs : ∀ key, (s.forgetMoved fold old new).dirs.answer key =
      if key = new.dropLast.map fold ∨ isAtOrBelow fold new key = true then none
      else if key = old.dropLast.map fold ∨ isAtOrBelow fold old key = true then none
      else s.dirs.answer key := by
    intro key
    rw [MountCaches.forgetMoved, MountCaches.forgetEnd, answer_forgetParentListing,
      MountCaches.forgetEnd, answer_forgetParentListing]
  rw [ForgetsOnly.iff_of_forgot hforgot fun key => Or.inl]
  · refine and_iff_right fun key hapart hswept => ?_
    rcases hswept with hold | hnew
    · exact absurd hold (by simp [hapart.1])
    · exact absurd hnew (by simp [hapart.2 new rfl])
  · intro key hkey
    rw [hdirs]
    simp [hkey]
  · intro key hkey hparent
    rw [hdirs, if_neg, if_neg]
    · rintro (hown | hbelow)
      · exact hparent (Or.inl hown)
      · exact absurd hbelow (by simp [hkey.1])
    · rintro (hown | hbelow)
      · exact hparent (Or.inr ⟨new, rfl, hown⟩)
      · exact absurd hbelow (by simp [hkey.2 new rfl])

/-! #### A rename within a directory -/

/-- What the table has once both names are forgotten. -/
def MountCaches.bothForgotten (fold : String → String) (old new : NasPath)
    (s : MountCaches A L) : MountCaches A L :=
  (if old = new then s else s.forgetName fold new).forgetName fold old

theorem forgot_bothForgotten (fold : String → String) (old new : NasPath)
    (s : MountCaches A L) :
    s.inodes.Forgot (fun key => key = old.map fold ∨ key = new.map fold)
      (s.bothForgotten fold old new).inodes := by
  rw [MountCaches.bothForgotten]
  split_ifs with heq
  · subst heq
    exact (InodeTable.Forgot.invalidatePath old).congr fun key ino _ => or_self_iff.symm
  · have hnew : s.inodes.Forgot (· = new.map fold) (s.forgetName fold new).inodes :=
      .invalidatePath new
    have hold : (s.forgetName fold new).inodes.Forgot (· = old.map fold)
        ((s.forgetName fold new).forgetName fold old).inodes := .invalidatePath old
    exact (hnew.trans hold).congr fun key ino _ => or_comm

/-- The new name gets a number that is not in use. -/
theorem renameIn_inodes {info : InodeEntry A} : (s.renameIn fold old new info).inodes =
    ({ (s.bothForgotten fold old new).inodes with
        nextIno := s.inodes.nextIno + 1
        pathToIno := (s.bothForgotten fold old new).inodes.pathToIno.insert (new.map fold)
          s.inodes.nextIno } : InodeTable A).insert fold s.inodes.nextIno info := by
  have hforgot := forgot_bothForgotten fold old new s
  have hnone : (s.bothForgotten fold old new).inodes.getInoForPath fold new = none :=
    hforgot.gone _ (Or.inr rfl)
  have halloc : (s.bothForgotten fold old new).inodes.getOrAllocIno fold new =
      (s.inodes.nextIno, { (s.bothForgotten fold old new).inodes with
        nextIno := s.inodes.nextIno + 1
        pathToIno := (s.bothForgotten fold old new).inodes.pathToIno.insert (new.map fold)
          s.inodes.nextIno }) := by
    rw [InodeTable.getOrAllocIno, hnone, hforgot.nextIno]
  rw [MountCaches.renameIn, ← MountCaches.bothForgotten, halloc]

section Rename

variable {info : InodeEntry A} {ino : ℕ}

/-- The new name leads to the new number, and so does the path that the NAS answers
with. -/
theorem renameIn_lookup (h : key = info.path.map fold ∨ key = new.map fold) :
    (s.renameIn fold old new info).inodes.pathToIno.lookup key = some s.inodes.nextIno := by
  rw [renameIn_inodes]
  change ((_ : AList fun _ : NasPath => ℕ).insert (info.path.map fold) _).lookup key = _
  by_cases hinfo : key = info.path.map fold
  · rw [hinfo, AList.lookup_insert]
  · rw [AList.lookup_insert_ne hinfo, h.resolve_left hinfo]
    exact AList.lookup_insert _

theorem renameIn_lookup_other (hinfo : key ≠ info.path.map fold) (hnew : key ≠ new.map fold) :
    (s.renameIn fold old new info).inodes.pathToIno.lookup key =
      if key = old.map fold then none else s.inodes.pathToIno.lookup key := by
  have hforgot := forgot_bothForgotten fold old new s
  rw [renameIn_inodes]
  change (((_ : AList fun _ : NasPath => ℕ).insert (new.map fold) _).insert
    (info.path.map fold) _).lookup key = _
  rw [AList.lookup_insert_ne hinfo, AList.lookup_insert_ne hnew]
  split_ifs with hold
  · exact hforgot.gone key (Or.inl hold)
  · exact hforgot.kept key (by simp [hold, hnew])

theorem renameIn_attributes (h : ino ≠ s.inodes.nextIno) :
    (s.renameIn fold old new info).inodes.byIno ino =
        (s.bothForgotten fold old new).inodes.byIno ino ∧
      (s.renameIn fold old new info).inodes.inoToPath ino =
        (s.bothForgotten fold old new).inodes.inoToPath ino := by
  rw [renameIn_inodes]
  exact ⟨update_of_ne h .., update_of_ne h ..⟩

/-- Nothing at or below the old name is left a number exactly if neither the new name nor
the path that the NAS answers with is there, and nothing below had one. -/
theorem renameIn_no_number_iff :
    (∀ key, isAtOrBelow fold old key = true →
      (s.renameIn fold old new info).inodes.pathToIno.lookup key = none) ↔
    isAtOrBelow fold old (new.map fold) = false ∧
      isAtOrBelow fold old (info.path.map fold) = false ∧
      ∀ key, isBelow fold old key = true → s.inodes.pathToIno.lookup key = none := by
  constructor
  · intro h
    have hnumber : ∀ key, key = info.path.map fold ∨ key = new.map fold →
        isAtOrBelow fold old key = false := by
      intro key hkey
      rw [← Bool.not_eq_true]
      intro hbelow
      cases (h key hbelow).symm.trans (renameIn_lookup hkey)
    refine ⟨hnumber _ (Or.inr rfl), hnumber _ (Or.inl rfl), fun key hbelow => ?_⟩
    have hat : isAtOrBelow fold old key = true := by simp [isAtOrBelow, hbelow]
    have hother : ¬(key = info.path.map fold ∨ key = new.map fold) := fun hkey => by
      simp [hnumber key hkey] at hat
    have hold : key ≠ old.map fold := by
      rintro rfl
      simp [isBelow_self] at hbelow
    rw [not_or] at hother
    have hnone := h key hat
    rwa [renameIn_lookup_other hother.1 hother.2, if_neg hold] at hnone
  · rintro ⟨hnew, hinfo, hnone⟩ key hkey
    have hneInfo : key ≠ info.path.map fold := by
      rintro rfl
      simp [hinfo] at hkey
    have hneNew : key ≠ new.map fold := by
      rintro rfl
      simp [hnew] at hkey
    rw [renameIn_lookup_other hneInfo hneNew]
    split_ifs with hold
    · rfl
    · exact hnone key (by simpa [isAtOrBelow, hold] using hkey)

/-- What is apart keeps its numbers exactly if the NAS answers with a path at or below
the new name. -/
theorem renameIn_numbers_iff
    (hnumbered : ∀ key ino, s.inodes.pathToIno.lookup key = some ino → ino < s.inodes.nextIno)
    (hinfo : isAtOrBelow fold old (info.path.map fold) = false) :
    (∀ key, Apart fold old (some new) key →
      (s.renameIn fold old new info).inodes.pathToIno.lookup key =
        s.inodes.pathToIno.lookup key) ↔
    isAtOrBelow fold new (info.path.map fold) = true := by
  constructor
  · intro h
    by_contra hapart
    have hkept := h (info.path.map fold) ⟨hinfo, by simpa using hapart⟩
    rw [renameIn_lookup (Or.inl rfl)] at hkept
    exact Nat.lt_irrefl _ (hnumbered _ _ hkept.symm)
  · intro hspelled key hapart
    have hnew : isAtOrBelow fold new key = false := hapart.2 new rfl
    have hneInfo : key ≠ info.path.map fold := by
      rintro rfl
      simp [hspelled] at hnew
    have hneNew : key ≠ new.map fold := by
      rintro rfl
      simp [isAtOrBelow_self] at hnew
    have hneOld : key ≠ old.map fold := by
      rintro rfl
      simp [Apart, isAtOrBelow_self] at hapart
    rw [renameIn_lookup_other hneInfo hneNew, if_neg hneOld]

/-- A number in use is not the new one. -/
theorem renameIn_attributes_iff
    (hnumbered : ∀ key ino, s.inodes.pathToIno.lookup key = some ino → ino < s.inodes.nextIno) :
    (∀ key ino, stays key → s.inodes.pathToIno.lookup key = some ino →
      (s.renameIn fold old new info).inodes.byIno ino = s.inodes.byIno ino ∧
        (s.renameIn fold old new info).inodes.inoToPath ino = s.inodes.inoToPath ino) ↔
    s.inodes.Unshared (fun key => key = old.map fold ∨ key = new.map fold) stays := by
  rw [← (forgot_bothForgotten fold old new s).attributes_iff]
  refine forall₄_congr fun key ino _ hlookup => ?_
  obtain ⟨hbyIno, hpath⟩ : (s.renameIn fold old new info).inodes.byIno ino = _ ∧
      (s.renameIn fold old new info).inodes.inoToPath ino = _ :=
    renameIn_attributes (hnumbered key ino hlookup).ne
  rw [hbyIno, hpath]

end Rename

theorem renameIn_answer {parent : NasPath} {name newName : String} {info : InodeEntry A} :
    (s.renameIn fold (joinPath parent name) (joinPath parent newName) info).dirs.answer key =
      if key = (joinPath parent name).dropLast.map fold then none else s.dirs.answer key := by
  have hparent : (joinPath parent newName).dropLast = (joinPath parent name).dropLast := by
    rw [joinPath, joinPath, List.dropLast_concat, List.dropLast_concat]
  change (forgetParentListing fold _ (if _ then s else s.forgetName fold _).dirs).answer key = _
  rw [forgetParentListing, DirCache.answer_invalidate]
  split_ifs with hkey hsame
  · rfl
  · rfl
  · change (forgetParentListing fold (joinPath parent newName) s.dirs).answer key = _
    rw [forgetParentListing, DirCache.answer_invalidate, hparent, if_neg hkey]

/-- A rename within a directory drops no listing at or below the old name. -/
theorem renameIn_listings_iff {parent : NasPath} {name newName : String} {info : InodeEntry A} :
    (∀ key, isAtOrBelow fold (joinPath parent name) key = true →
      (s.renameIn fold (joinPath parent name) (joinPath parent newName) info).dirs.answer key =
        none) ↔
    ∀ key, isAtOrBelow fold (joinPath parent name) key = true → s.dirs.answer key = none := by
  refine forall₂_congr fun key hkey => ?_
  rw [renameIn_answer, if_neg]
  rintro rfl
  rw [isAtOrBelow_parent] at hkey
  cases hkey

theorem forgetsOnly_rename {parent : NasPath} {name newName : FileName} {info : InodeEntry A}
    (hnumbered : ∀ key ino, s.inodes.pathToIno.lookup key = some ino → ino < s.inodes.nextIno) :
    ForgetsOnly fold (joinPath parent name.text) (some (joinPath parent newName.text)) s
      (s.renameIn fold (joinPath parent name.text) (joinPath parent newName.text) info) ↔
    DirRemoval.Clean fold s (.rename parent name newName info) := by
  simp only [DirRemoval.Clean]
  constructor
  · intro h
    obtain ⟨hnew, hinfo, hnone⟩ := renameIn_no_number_iff.mp h.no_number
    exact ⟨hnew, hinfo, (renameIn_numbers_iff hnumbered hinfo).mp h.numbers, hnone,
      renameIn_listings_iff.mp h.no_listing, (renameIn_attributes_iff hnumbered).mp h.attributes⟩
  · rintro ⟨hnew, hinfo, hspelled, hnone, hnoListing, hunshared⟩
    refine ⟨renameIn_no_number_iff.mpr ⟨hnew, hinfo, hnone⟩,
      renameIn_listings_iff.mpr hnoListing, (renameIn_numbers_iff hnumbered hinfo).mpr hspelled,
      (renameIn_attributes_iff hnumbered).mpr hunshared, ?_⟩
    intro key _ hparent
    rw [renameIn_answer, if_neg fun hkey => hparent (Or.inl hkey)]

end Removal

/-- Caches whose numbers were all given out. -/
structure LiveCaches (A L : Type) extends MountCaches A L where
  numbered : ∀ key ino, inodes.pathToIno.lookup key = some ino → ino < inodes.nextIno

section Live

variable {A L : Type} {fold : String → String}

theorem InodeTable.Forgot.numbered {swept : NasPath → Prop} {t t' : InodeTable A}
    (h : t.Forgot swept t')
    (ht : ∀ key ino, t.pathToIno.lookup key = some ino → ino < t.nextIno) :
    ∀ key ino, t'.pathToIno.lookup key = some ino → ino < t'.nextIno := by
  intro key ino hlookup
  rw [h.nextIno]
  by_cases hkey : swept key
  · rw [h.gone key hkey] at hlookup
    cases hlookup
  · rw [h.kept key hkey] at hlookup
    exact ht key ino hlookup

/-- A removal of any kind leaves only numbers that were given out. -/
theorem DirRemoval.apply_numbered (s : LiveCaches A L) (d : DirRemoval A) (key : NasPath)
    (ino : ℕ) (h : (d.apply fold s.toMountCaches).inodes.pathToIno.lookup key = some ino) :
    ino < (d.apply fold s.toMountCaches).inodes.nextIno := by
  cases d with
  | rmdir parent name =>
      exact (InodeTable.Forgot.invalidatePrefix (joinPath parent name.text)).numbered s.numbered
        key ino h
  | move parent name newParent newName =>
      exact (InodeTable.Forgot.forgetMoved (joinPath parent name.text)
        (joinPath newParent newName.text)).numbered s.numbered key ino h
  | rename parent name newName info =>
      have hnext : ((DirRemoval.rename parent name newName info).apply fold
          s.toMountCaches).inodes.nextIno = s.inodes.nextIno + 1 := by
        rw [DirRemoval.apply, renameIn_inodes]
        rfl
      rw [hnext]
      rw [DirRemoval.apply] at h
      by_cases hkey : key = info.path.map fold ∨ key = (joinPath parent newName.text).map fold
      · rw [renameIn_lookup hkey] at h
        rw [← Option.some.inj h]
        exact Nat.lt_succ_self _
      · rw [not_or] at hkey
        rw [renameIn_lookup_other hkey.1 hkey.2] at h
        split_ifs at h
        exact (s.numbered key ino h).trans (Nat.lt_succ_self _)

def DirRemoval.run (fold : String → String) (s : LiveCaches A L) (d : DirRemoval A) :
    LiveCaches A L :=
  { d.apply fold s.toMountCaches with numbered := d.apply_numbered s }

/-- **Forgetting a directory forgets only it**, exactly when its removal is a clean
one. -/
theorem directory_forgotten_iff (hfold : fold "" = "") (s : LiveCaches A L)
    (d : DirRemoval A) : ForgetsOnly fold d.old d.new s.toMountCaches
      (d.run fold s).toMountCaches ↔ d.Clean fold s.toMountCaches := by
  cases d with
  | rmdir parent name => exact forgetsOnly_rmdir
  | rename parent name newName info => exact forgetsOnly_rename s.numbered
  | move parent name newParent newName => exact forgetsOnly_move hfold

/-- A move is clean over tables that are in step. -/
theorem DirRemoval.clean_move {s : MountCaches A L} (hs : s.inodes.Consistent fold)
    (parent newParent : NasPath) (name newName : FileName) :
    (DirRemoval.move parent name newParent newName).Clean fold s := by
  refine hs.unshared fun key hapart => ?_
  rintro (hold | hnew)
  · simp [hapart.1] at hold
  · simp [hapart.2 _ rfl] at hnew

end Live

/-! Two shares, of which one's name begins with the other's. -/

def photosTable : InodeTable ℕ :=
  (((InodeTable.new.seedRoot id 0).register id ⟨["photos"], 1⟩).2.register id
    ⟨["photostudio"], 2⟩).2

theorem photosTable_consistent : photosTable.Consistent id := by
  have hroot : (InodeTable.new.seedRoot id 0).Consistent id := InodeTable.consistent_seedRoot 0
  have hphotos := hroot.register (e := ⟨["photos"], 1⟩)
  exact hphotos.register

def photosCaches : LiveCaches ℕ ℕ :=
  { inodes := photosTable
    dirs := ⟨true, fun _ => none⟩
    numbered := photosTable_consistent.lt }

/-- A share is moved into the other, which is not forgotten. -/
theorem photos_moved :
    let d : DirRemoval ℕ := .move [] ⟨"photos", by decide⟩ ["photostudio"] ⟨"old", by decide⟩
    ForgetsOnly id d.old d.new photosCaches.toMountCaches (d.run id photosCaches).toMountCaches :=
  (directory_forgotten_iff rfl _ _).mpr
    (DirRemoval.clean_move photosTable_consistent _ _ _ _)

/-- A share is removed, and the other has lost its number. -/
theorem photos_removed :
    let d : DirRemoval ℕ := .rmdir [] ⟨"photos", by decide⟩
    ¬ForgetsOnly id d.old d.new photosCaches.toMountCaches
      (d.run id photosCaches).toMountCaches := by
  intro d h
  have hkept := h.numbers ["photostudio"] ⟨by decide, by simp [d, DirRemoval.new]⟩
  revert hkept
  decide

end SynologyFilestation.Fuse
