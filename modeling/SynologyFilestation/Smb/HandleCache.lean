import SynologyFilestation.Core.Path
import Mathlib.Data.List.Nodup
import Mathlib.Data.Nat.Notation

/-!
Open read handles, kept between reads (`smb/src/handles.rs`): at most one for a
path and no more than the capacity, the least recently used first. Handles
parked until a read lets go of them are on their way to being closed, and no
read finds them; they are left out.
-/

namespace SynologyFilestation.Smb

open Core

/-- `path` is `top` or lies under it; separators at the end of `top` do not count. -/
def under (path top : NasPath) : Bool := (trimEnd top).isPrefixOf path

structure HandleCache (H : Type) where
  capacity : ℕ
  entries : List (NasPath × H)
  onePerPath : (entries.map Prod.fst).Nodup
  bounded : entries.length ≤ capacity

namespace HandleCache

variable {H : Type} {c : HandleCache H} {path key : NasPath} {h h' : H}

def new (capacity : ℕ) : HandleCache H :=
  { capacity := capacity, entries := [], onePerPath := List.nodup_nil, bounded := Nat.zero_le _ }

/-- The handle that is open for the path. -/
def find (c : HandleCache H) (path : NasPath) : Option H :=
  (c.entries.find? fun e => e.1 = path).map Prod.snd

/-- The entries that are kept. -/
def retain (c : HandleCache H) (keeps : NasPath → Bool) : HandleCache H where
  capacity := c.capacity
  entries := c.entries.filter fun e => keeps e.1
  onePerPath := c.onePerPath.sublist (List.filter_sublist.map _)
  bounded := Nat.le_trans (List.length_filter_le ..) c.bounded

/-- Entries in the order of their use, the oldest dropped until the rest fits. -/
def evict (c : HandleCache H) (entries : List (NasPath × H))
    (honce : (entries.map Prod.fst).Nodup) : HandleCache H where
  capacity := c.capacity
  entries := entries.drop (entries.length - c.capacity)
  onePerPath := honce.sublist ((List.drop_sublist ..).map _)
  bounded := by rw [List.length_drop]; omega

/-- The other paths' entries, and one for `path` behind them. -/
def used (c : HandleCache H) (path : NasPath) (h : H) : List (NasPath × H) :=
  (c.entries.filter fun e => e.1 ≠ path) ++ [(path, h)]

theorem nodup_used (c : HandleCache H) (path : NasPath) (h : H) :
    ((c.used path h).map Prod.fst).Nodup := by
  rw [used, List.map_append, List.nodup_append]
  refine ⟨c.onePerPath.sublist (List.filter_sublist.map _), List.nodup_singleton _, ?_⟩
  intro key hkey key' hkey' heq
  obtain ⟨e, he, rfl⟩ := List.mem_map.mp hkey
  have hother := (List.mem_filter.mp he).2
  simp_all

/-- `get`: a use, when there is one. -/
def get (c : HandleCache H) (path : NasPath) : Option H × HandleCache H :=
  match c.find path with
  | some h => (some h, c.evict (c.used path h) (c.nodup_used path h))
  | none => (none, c)

/-- `insert_or_existing`: the handle to read through. -/
def insertOrExisting (c : HandleCache H) (path : NasPath) (h : H) : H × HandleCache H :=
  if c.capacity = 0 then (h, c)
  else
    match c.find path with
    | some existing => (existing, c.evict (c.used path existing) (c.nodup_used path existing))
    | none => (h, c.evict (c.used path h) (c.nodup_used path h))

def invalidate (c : HandleCache H) (path : NasPath) : HandleCache H := c.retain (· ≠ path)

/-- `invalidate_prefix`. -/
def invalidateUnder (c : HandleCache H) (top : NasPath) : HandleCache H :=
  c.retain fun path => !under path top

def clear (c : HandleCache H) : HandleCache H := c.retain fun _ => false

/-! ### What a cache holds -/

def Holds (c : HandleCache H) (path : NasPath) (h : H) : Prop := (path, h) ∈ c.entries

theorem not_holds_new {capacity : ℕ} : ¬(new capacity : HandleCache H).Holds path h :=
  List.not_mem_nil

theorem holds_of_find (hfind : c.find path = some h) : c.Holds path h := by
  rw [find, Option.map_eq_some_iff] at hfind
  obtain ⟨e, he, rfl⟩ := hfind
  have hpath : e.1 = path := by simpa using List.find?_some he
  rw [Holds, ← hpath]
  exact List.mem_of_find?_eq_some he

theorem holds_retain {keeps : NasPath → Bool} (hholds : (c.retain keeps).Holds key h) :
    c.Holds key h ∧ keeps key = true :=
  List.mem_filter.mp hholds

/-- What is held after a use was held before, or is what is used. -/
theorem holds_evict (hholds : (c.evict (c.used path h') (c.nodup_used path h')).Holds key h) :
    c.Holds key h ∨ key = path ∧ h = h' := by
  rcases List.mem_append.mp (List.mem_of_mem_drop hholds) with hkept | hused
  · exact .inl (List.mem_filter.mp hkept).1
  · obtain ⟨rfl, rfl⟩ := Prod.mk.inj (List.mem_singleton.mp hused)
    exact .inr ⟨rfl, rfl⟩

theorem get_fst (c : HandleCache H) (path : NasPath) : (c.get path).1 = c.find path := by
  unfold get
  split <;> simp [*]

theorem holds_get (hholds : (c.get path).2.Holds key h) : c.Holds key h := by
  unfold get at hholds
  split at hholds
  case h_1 existing hfind =>
    rcases holds_evict hholds with hheld | ⟨rfl, rfl⟩
    · exact hheld
    · exact holds_of_find hfind
  case h_2 => exact hholds

/-- The handle to read through was held, or is the one that was opened. -/
theorem insertOrExisting_fst (c : HandleCache H) (path : NasPath) (h : H) :
    c.Holds path (c.insertOrExisting path h).1 ∨ (c.insertOrExisting path h).1 = h := by
  unfold insertOrExisting
  split
  · exact .inr rfl
  · split
    case h_1 existing hfind => exact .inl (holds_of_find hfind)
    case h_2 => exact .inr rfl

theorem holds_insertOrExisting (hholds : (c.insertOrExisting path h').2.Holds key h) :
    c.Holds key h ∨ key = path ∧ h = h' := by
  unfold insertOrExisting at hholds
  split at hholds
  · exact .inl hholds
  · split at hholds
    case h_1 existing hfind =>
      rcases holds_evict hholds with hheld | ⟨rfl, rfl⟩
      · exact .inl hheld
      · exact .inl (holds_of_find hfind)
    case h_2 => exact holds_evict hholds

/-- Where one is open already, or none is kept, what was opened is not kept. -/
theorem holds_insertOrExisting_of_kept (hkept : c.find path ≠ none ∨ c.capacity = 0)
    (hholds : (c.insertOrExisting path h').2.Holds key h) : c.Holds key h := by
  unfold insertOrExisting at hholds
  split at hholds
  case isTrue => exact hholds
  case isFalse hcapacity =>
    split at hholds
    case h_1 existing hfind =>
      rcases holds_evict hholds with hheld | ⟨rfl, rfl⟩
      · exact hheld
      · exact holds_of_find hfind
    case h_2 hfind => exact (hkept.elim (fun hfound => hfound hfind) hcapacity).elim

theorem not_holds_clear : ¬c.clear.Holds key h := by
  intro hholds
  cases (holds_retain hholds).2

end HandleCache

end SynologyFilestation.Smb
