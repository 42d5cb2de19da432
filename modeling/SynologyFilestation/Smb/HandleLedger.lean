import SynologyFilestation.Library.Transition
import Mathlib.Data.List.Perm.Basic
import Mathlib.Data.List.Nodup
import Mathlib.Data.List.Pairwise
import Mathlib.Tactic.Common

/-!
Where the read handles are (`smb/src/handles.rs`).

The cache keeps its keys twice, in the order of their use and with their handles, and it parks
handles that are still read through. The ledger beside it says which handles were handed over to
be closed. Every call moves handles between the three places, and none appears or is lost.
-/

namespace SynologyFilestation.Smb

open Library

/-- A logical path, as the code has it. -/
abbrev PathText := List Char

/-- `State`, with the capacity of the cache that it is the state of. -/
structure CacheState (H : Type) where
  capacity : ℕ
  order : List PathText
  handles : List (PathText × H)
  deferred : List H

namespace CacheState

variable {H : Type}

/-- `HandleCache::new`. -/
def new (capacity : ℕ) : CacheState H := ⟨capacity, [], [], []⟩

/-- `handles.get`. -/
def find (handles : List (PathText × H)) (path : PathText) : Option H :=
  (handles.find? (·.1 = path)).map Prod.snd

/-- `handles.remove`, but for what it returns. -/
def remove (handles : List (PathText × H)) (path : PathText) : List (PathText × H) :=
  handles.filter (·.1 ≠ path)

/-- `trim_end_matches('/')`. -/
def trimSeparators (path : PathText) : PathText := (path.reverse.dropWhile (· = '/')).reverse

/-- `under`. -/
def under (path top : PathText) : Bool :=
  path = trimSeparators top ||
    (trimSeparators top).isPrefixOf path && path[(trimSeparators top).length]? = some '/'

/-- `State::touch`. -/
def touch (order : List PathText) (path : PathText) : List PathText :=
  order.filter (· ≠ path) ++ [path]

/-- The loop of `insert_or_existing`: what is kept and what is evicted, or nothing where the
code would take from an empty order. -/
def evict (capacity : ℕ) :
    List PathText → List (PathText × H) → Option (List PathText × List (PathText × H) × List H)
  | [], handles => if handles.length ≤ capacity then some ([], handles, []) else none
  | oldest :: order, handles =>
      if handles.length ≤ capacity then some (oldest :: order, handles, [])
      else (evict capacity order (remove handles oldest)).map fun (order, kept, evicted) =>
        (order, kept, (find handles oldest).toList ++ evicted)

variable (s : CacheState H)

/-- `get`. -/
def get (path : PathText) : Option H × CacheState H :=
  match find s.handles path with
  | some handle => (some handle, { s with order := touch s.order path })
  | none => (none, s)

/-- `insert_or_existing`: the handle to read through, those to close, and the cache. -/
def insertOrExisting (path : PathText) (handle : H) : Option (H × List H × CacheState H) :=
  if s.capacity = 0 then some (handle, [handle], s)
  else
    match find s.handles path with
    | some existing => some (existing, [handle], { s with order := touch s.order path })
    | none =>
        (evict s.capacity (touch s.order path) (s.handles ++ [(path, handle)])).map
          fun (order, handles, evicted) =>
            (handle, evicted, { s with order := order, handles := handles })

/-- `invalidate`. -/
def invalidate (path : PathText) : List H × CacheState H :=
  ((find s.handles path).toList,
    { s with order := s.order.filter (· ≠ path), handles := remove s.handles path })

/-- `invalidate_prefix`. -/
def invalidateUnder (top : PathText) : List H × CacheState H :=
  ((s.handles.filter fun e => under e.1 top).map Prod.snd,
    { s with
      order := s.order.filter fun key => !under key top
      handles := s.handles.filter fun e => !under e.1 top })

/-- `clear`. -/
def clear : List H × CacheState H :=
  (s.handles.map Prod.snd ++ s.deferred, { s with order := [], handles := [], deferred := [] })

/-- `defer`. -/
def defer (handle : H) : CacheState H := { s with deferred := s.deferred ++ [handle] }

/-- `take_free`, told which handles nobody else holds. -/
def takeFree (isFree : H → Bool) : List H × CacheState H :=
  (s.deferred.filter isFree, { s with deferred := s.deferred.filter fun h => !isFree h })

/-- The two collections mirror each other, and the order is that of the last uses: the paths that
were used come latest first. -/
structure Tidy (uses : List PathText) : Prop where
  mirrored : s.order.Perm (s.handles.map Prod.fst)
  once : s.order.Nodup
  bounded : s.handles.length ≤ s.capacity
  recency : s.order.Pairwise fun older newer => uses.idxOf newer < uses.idxOf older

variable {s} {uses order : List PathText} {handles : List (PathText × H)} {path key : PathText}
  {handle : H} {capacity : ℕ}

theorem find_eq_some (honce : (handles.map Prod.fst).Nodup) :
    find handles path = some handle ↔ (path, handle) ∈ handles := by
  induction handles with
  | nil => simp [find]
  | cons e handles ih =>
      obtain ⟨key, other⟩ := e
      simp only [List.map_cons, List.nodup_cons] at honce
      by_cases hkey : key = path
      · subst hkey
        have hnone : (key, handle) ∉ handles := fun hmem =>
          honce.1 (List.mem_map_of_mem (f := Prod.fst) hmem)
        simp [find, hnone, eq_comm]
      · have hrest := ih honce.2
        simp only [find] at hrest ⊢
        simp [hkey, hrest, Ne.symm hkey]

theorem find_eq_none : find handles path = none ↔ path ∉ handles.map Prod.fst := by
  simp only [find, Option.map_eq_none_iff, List.find?_eq_none, List.mem_map, decide_eq_true_eq,
    not_exists, not_and]

/-- The entry of a path, in front of the others. -/
theorem perm_remove (honce : (handles.map Prod.fst).Nodup) (hmem : (path, handle) ∈ handles) :
    handles.Perm ((path, handle) :: remove handles path) := by
  induction handles with
  | nil => cases hmem
  | cons e handles ih =>
      simp only [List.map_cons, List.nodup_cons] at honce
      rcases List.mem_cons.mp hmem with rfl | hrest
      · have hothers : handles.filter (·.1 ≠ path) = handles := by
          refine List.filter_eq_self.mpr fun e he => decide_eq_true ?_
          rintro rfl
          exact honce.1 (List.mem_map.mpr ⟨e, he, rfl⟩)
        rw [remove, List.filter_cons_of_neg (by simp), hothers]
      · have hne : e.1 ≠ path := by
          rintro rfl
          exact honce.1 (List.mem_map.mpr ⟨_, hrest, rfl⟩)
        rw [remove, List.filter_cons_of_pos (by simpa using hne)]
        exact ((ih honce.2 hrest).cons e).trans (List.Perm.swap ..)

theorem length_remove (honce : (handles.map Prod.fst).Nodup) (hmem : (path, handle) ∈ handles) :
    (remove handles path).length + 1 = handles.length :=
  (perm_remove honce hmem).length_eq.symm

theorem touch_new (h : path ∉ order) : touch order path = order ++ [path] := by
  have hothers : order.filter (· ≠ path) = order :=
    List.filter_eq_self.mpr fun key hkey => decide_eq_true fun heq => h (heq ▸ hkey)
  rw [touch, hothers]

theorem nodup_touch (path : PathText) (h : order.Nodup) : (touch order path).Nodup := by
  rw [touch, List.nodup_append]
  refine ⟨h.filter _, List.nodup_singleton _, fun key hkey other hother => ?_⟩
  rw [List.mem_singleton.mp hother]
  simpa using (List.mem_filter.mp hkey).2

theorem perm_touch (honce : order.Nodup) (h : path ∈ order) : (touch order path).Perm order := by
  refine (List.perm_ext_iff_of_nodup (nodup_touch path honce) honce).mpr fun key => ?_
  by_cases hkey : key = path
  · simp [touch, hkey, h]
  · simp [touch, hkey]

/-- What is used is the latest, and the others stay in their order. -/
theorem recency_touch (path : PathText)
    (h : order.Pairwise fun older newer => uses.idxOf newer < uses.idxOf older) :
    (touch order path).Pairwise fun older newer =>
      (path :: uses).idxOf newer < (path :: uses).idxOf older := by
  have hlater : ∀ key, key ≠ path → (path :: uses).idxOf key = uses.idxOf key + 1 :=
    fun key hkey => List.idxOf_cons_ne _ hkey.symm
  rw [touch, List.pairwise_append]
  refine ⟨?_, List.pairwise_singleton .., fun key hkey other hother => ?_⟩
  · refine (h.filter _).imp_of_mem fun hold hnew hless => ?_
    rw [hlater _ (by simpa using (List.mem_filter.mp hnew).2),
      hlater _ (by simpa using (List.mem_filter.mp hold).2)]
    omega
  · rw [List.mem_singleton.mp hother, List.idxOf_cons_self,
      hlater _ (by simpa using (List.mem_filter.mp hkey).2)]
    omega

/-- A use of a path that is there. -/
theorem Tidy.touch (h : s.Tidy uses) (hpath : path ∈ s.order) :
    Tidy { s with order := touch s.order path } (path :: uses) where
  mirrored := (perm_touch h.once hpath).trans h.mirrored
  once := nodup_touch path h.once
  bounded := h.bounded
  recency := recency_touch path h.recency

theorem evict_fits (h : handles.length ≤ capacity) :
    evict capacity order handles = some (order, handles, []) := by
  cases order <;> simp [evict, h]

/-- One handle too many: the first of the order goes. -/
theorem evict_over (honce : (handles.map Prod.fst).Nodup) (hmem : (key, handle) ∈ handles)
    (hlength : handles.length = capacity + 1) :
    evict capacity (key :: order) handles = some (order, remove handles key, [handle]) := by
  have hless := length_remove honce hmem
  have hfind : find handles key = some handle := (find_eq_some honce).mpr hmem
  rw [evict, if_neg (by omega), evict_fits (by omega), hfind]
  rfl

theorem Tidy.nodup_keys (h : s.Tidy uses) : (s.handles.map Prod.fst).Nodup :=
  h.mirrored.nodup_iff.mp h.once

/-- What a use of a new path does: the handle is kept, and the least recently used one goes if
there was no room. -/
theorem Tidy.insert_new (h : s.Tidy uses) (handle : H) (hcapacity : s.capacity ≠ 0)
    (hnone : find s.handles path = none) :
    ∃ closing cache, s.insertOrExisting path handle = some (handle, closing, cache) ∧
      cache.Tidy (path :: uses) ∧ cache.capacity = s.capacity ∧ cache.deferred = s.deferred ∧
      (path, handle) ∈ cache.handles ∧ (cache.handles.map Prod.snd ++ closing).Perm
        (handle :: s.handles.map Prod.snd) ∧
        (closing = [] ∧ s.handles.length < s.capacity ∨
          ∃ oldest gone, closing = [gone] ∧ (oldest, gone) ∈ s.handles ∧ oldest ≠ path ∧
            ∀ e ∈ s.handles, e.1 ≠ oldest → uses.idxOf e.1 < uses.idxOf oldest) := by
  have hnew : path ∉ s.handles.map Prod.fst := find_eq_none.mp hnone
  have hnew' : path ∉ s.order := fun hmem => hnew (h.mirrored.subset hmem)
  have hkeys : ((s.handles ++ [(path, handle)]).map Prod.fst).Nodup := by
    rw [List.map_append, List.nodup_append]
    refine ⟨h.nodup_keys, List.nodup_singleton _, ?_⟩
    rintro key hkey _ hpath rfl
    obtain rfl : key = path := by simpa using hpath
    exact hnew hkey
  have hmirrored : (CacheState.touch s.order path).Perm
      ((s.handles ++ [(path, handle)]).map Prod.fst) := by
    rw [touch_new hnew', List.map_append]
    exact h.mirrored.append_right _
  have hrecency := recency_touch path h.recency
  have honce := nodup_touch path h.once
  rw [insertOrExisting, if_neg hcapacity, hnone]
  dsimp only
  by_cases hroom : s.handles.length < s.capacity
  · have hfits : (s.handles ++ [(path, handle)]).length ≤ s.capacity := by
      rw [List.length_append, List.length_singleton]
      omega
    rw [evict_fits hfits]
    refine ⟨[], _, rfl, ⟨hmirrored, honce, hfits, hrecency⟩, rfl, rfl, by simp, ?_,
      .inl ⟨rfl, hroom⟩⟩
    rw [List.append_nil, List.map_append]
    exact List.perm_append_singleton ..
  · have hfull : s.handles.length = s.capacity := by
      have := h.bounded
      omega
    obtain ⟨oldest, order, horder⟩ : ∃ oldest order, s.order = oldest :: order := by
      refine List.exists_cons_of_length_pos ?_
      rw [h.mirrored.length_eq, List.length_map]
      omega
    obtain ⟨⟨first, gone⟩, hgone, hfirst⟩ : ∃ e ∈ s.handles, e.1 = oldest := by
      refine List.mem_map.mp (h.mirrored.subset ?_)
      rw [horder]
      exact List.mem_cons_self
    obtain rfl : oldest = first := hfirst.symm
    have hne : oldest ≠ path := by
      rintro rfl
      exact hnew (List.mem_map.mpr ⟨_, hgone, rfl⟩)
    rw [touch_new hnew', horder, List.cons_append] at hmirrored honce hrecency ⊢
    have hin := List.mem_append_left [(path, handle)] hgone
    have hlength : (s.handles ++ [(path, handle)]).length = s.capacity + 1 := by
      rw [List.length_append, List.length_singleton, hfull]
    have hremoved := perm_remove hkeys hin
    rw [evict_over hkeys hin hlength]
    refine ⟨[gone], _, rfl,
      ⟨?_, (List.nodup_cons.mp honce).2, ?_, (List.pairwise_cons.mp hrecency).2⟩,
      rfl, rfl, ?_, ?_, .inr ⟨oldest, gone, rfl, hgone, hne, fun e he hother => ?_⟩⟩
    · exact (hmirrored.trans (hremoved.map Prod.fst)).cons_inv
    · have hless := length_remove hkeys hin
      dsimp only
      omega
    · exact List.mem_filter.mpr ⟨by simp, by simpa using hne.symm⟩
    · refine (List.perm_append_singleton ..).trans ((hremoved.map Prod.snd).symm.trans ?_)
      rw [List.map_append]
      exact List.perm_append_singleton ..
    · have hmem : e.1 ∈ s.order := h.mirrored.symm.subset (List.mem_map.mpr ⟨e, he, rfl⟩)
      have hsorted := h.recency
      rw [horder] at hmem hsorted
      exact (List.pairwise_cons.mp hsorted).1 _ ((List.mem_cons.mp hmem).resolve_left hother)

/-- The keys that are forgotten go from both collections. -/
theorem Tidy.filter (h : s.Tidy uses) (keeps : PathText → Bool) :
    Tidy { s with
      order := s.order.filter keeps
      handles := s.handles.filter fun e => keeps e.1 } uses where
  mirrored := by
    have hkeys : (s.handles.filter fun e => keeps e.1).map Prod.fst =
        (s.handles.map Prod.fst).filter keeps := by
      rw [List.filter_map]
      rfl
    show (s.order.filter keeps).Perm _
    rw [hkeys]
    exact h.mirrored.filter _
  once := h.once.filter _
  bounded := Nat.le_trans (List.length_filter_le ..) h.bounded
  recency := h.recency.filter _

theorem perm_aside {kept parked closing before : List H} (h : (kept ++ closing).Perm before) :
    (kept ++ parked ++ closing).Perm (before ++ parked) := by
  rw [List.append_assoc]
  refine (List.perm_append_comm.append_left _).trans ?_
  rw [← List.append_assoc]
  exact h.append_right _

end CacheState

/-- The calls of the cache. -/
inductive CacheCall (H : Type)
  | get (path : PathText)
  | insertOrExisting (path : PathText) (handle : H)
  | invalidate (path : PathText)
  | invalidateUnder (top : PathText)
  | clear
  | defer (handle : H)
  | takeFree (isFree : H → Bool)

/-- What a call hands over to be closed, and the cache after it. -/
def CacheState.call {H : Type} (s : CacheState H) : CacheCall H → Option (List H × CacheState H)
  | .get path => some ([], (s.get path).2)
  | .insertOrExisting path handle => (s.insertOrExisting path handle).map Prod.snd
  | .invalidate path => some (s.invalidate path)
  | .invalidateUnder top => some (s.invalidateUnder top)
  | .clear => some s.clear
  | .defer handle => some ([], s.defer handle)
  | .takeFree isFree => some (s.takeFree isFree)

/-- The path that a call uses, if it does: a hit, or a handle that is kept or found. -/
def CacheState.usedBy {H : Type} (s : CacheState H) : CacheCall H → Option PathText
  | .get path => if (find s.handles path).isSome then some path else none
  | .insertOrExisting path _ => if s.capacity = 0 then none else some path
  | _ => none

/-- The handle that a call brings in. -/
def CacheCall.brought {H : Type} : CacheCall H → List H
  | .insertOrExisting _ handle => [handle]
  | .defer handle => [handle]
  | _ => []

/-- **No call panics, and none loses a handle**: what was there and what is brought in is there
afterwards, or handed over. -/
theorem CacheState.Tidy.call {H : Type} {s : CacheState H} {uses : List PathText} (h : s.Tidy uses)
    (call : CacheCall H) : ∃ closing cache, s.call call = some (closing, cache) ∧
      cache.Tidy ((s.usedBy call).toList ++ uses) ∧ cache.capacity = s.capacity ∧
      (cache.handles.map Prod.snd ++ cache.deferred ++ closing).Perm
        (call.brought ++ s.handles.map Prod.snd ++ s.deferred) := by
  cases call with
  | get path =>
      refine ⟨[], _, rfl, ?_⟩
      unfold get usedBy
      dsimp only
      split
      case h_1 handle hfind =>
        have hmem : path ∈ s.order := by
          refine h.mirrored.symm.subset (List.mem_map.mpr ⟨(path, handle), ?_, rfl⟩)
          exact (find_eq_some h.nodup_keys).mp hfind
        rw [hfind]
        exact ⟨h.touch hmem, rfl, by simp [CacheCall.brought]⟩
      case h_2 hnone =>
        rw [hnone]
        exact ⟨h, rfl, by simp [CacheCall.brought]⟩
  | insertOrExisting path handle =>
      unfold CacheState.call usedBy
      dsimp only
      by_cases hcapacity : s.capacity = 0
      · rw [insertOrExisting, if_pos hcapacity, if_pos hcapacity]
        refine ⟨[handle], s, rfl, h, rfl, ?_⟩
        exact List.perm_append_singleton ..
      · rw [if_neg hcapacity]
        cases hfind : find s.handles path with
        | some existing =>
            have hmem : path ∈ s.order := by
              refine h.mirrored.symm.subset (List.mem_map.mpr ⟨(path, existing), ?_, rfl⟩)
              exact (find_eq_some h.nodup_keys).mp hfind
            rw [insertOrExisting, if_neg hcapacity, hfind]
            exact ⟨[handle], _, rfl, h.touch hmem, rfl, List.perm_append_singleton ..⟩
        | none =>
            obtain ⟨closing, cache, hcall, htidy, hsame, hdeferred, -, hperm, -⟩ :=
              h.insert_new handle hcapacity hfind
            rw [hcall]
            refine ⟨closing, cache, rfl, htidy, hsame, ?_⟩
            rw [hdeferred]
            exact perm_aside hperm
  | invalidate path =>
      refine ⟨_, _, rfl, h.filter (· ≠ path), rfl, perm_aside ?_⟩
      cases hfind : find s.handles path with
      | some handle =>
          have hmem := (find_eq_some h.nodup_keys).mp hfind
          exact (List.perm_append_singleton ..).trans
            ((perm_remove h.nodup_keys hmem).map Prod.snd).symm
      | none =>
          have hothers : remove s.handles path = s.handles := by
            refine List.filter_eq_self.mpr fun e he => decide_eq_true fun heq => ?_
            exact find_eq_none.mp hfind (List.mem_map.mpr ⟨e, he, heq⟩)
          simp [CacheCall.brought, hothers]
  | invalidateUnder top =>
      refine ⟨_, _, rfl, h.filter fun key => !under key top, rfl, perm_aside ?_⟩
      rw [← List.map_append]
      have hall := List.filter_append_perm (fun e : PathText × H => under e.1 top) s.handles
      exact (List.perm_append_comm.trans hall).map Prod.snd
  | clear =>
      refine ⟨_, _, rfl, ⟨.refl _, List.nodup_nil, Nat.zero_le _, .nil⟩, rfl, ?_⟩
      simp [CacheCall.brought]
  | defer handle =>
      refine ⟨[], _, rfl, ⟨h.mirrored, h.once, h.bounded, h.recency⟩, rfl, ?_⟩
      show (s.handles.map Prod.snd ++ (s.deferred ++ [handle]) ++ []).Perm _
      rw [List.append_nil, ← List.append_assoc]
      exact List.perm_append_singleton ..
  | takeFree isFree =>
      refine ⟨_, _, rfl, ⟨h.mirrored, h.once, h.bounded, h.recency⟩, rfl, ?_⟩
      show (s.handles.map Prod.snd ++ s.deferred.filter (fun h => !isFree h) ++
        s.deferred.filter isFree).Perm _
      rw [List.append_assoc]
      exact (List.perm_append_comm.trans (List.filter_append_perm isFree _)).append_left _

/-- A cache, and the history of its handles: those it was given, those the caller has to close,
how often each was handed over and parked; and the paths that were used, the latest first. -/
structure HandleLedger (H : Type) where
  cache : CacheState H
  inserted : List H
  out : List H
  handedOver : List H
  parked : List H
  uses : List PathText

namespace HandleLedger

open CacheState

variable {H : Type}

def new (capacity : ℕ) : HandleLedger H := ⟨.new capacity, [], [], [], [], []⟩

variable [DecidableEq H]

/-- A handle is inserted once, and parked only by who has to close it. -/
def Allowed (l : HandleLedger H) : CacheCall H → Prop
  | .insertOrExisting _ handle => handle ∉ l.inserted
  | .defer handle => handle ∈ l.out
  | _ => True

/-- What a call brings in and what it parks. -/
def note (l : HandleLedger H) : CacheCall H → HandleLedger H
  | .insertOrExisting _ handle => { l with inserted := handle :: l.inserted }
  | .defer handle => { l with out := l.out.erase handle, parked := handle :: l.parked }
  | _ => l

/-- The ledger after a call. -/
def after (l : HandleLedger H) (call : CacheCall H) : Option (HandleLedger H) :=
  (l.cache.call call).map fun (closing, cache) => { l.note call with
    cache := cache
    out := (l.note call).out ++ closing
    handedOver := l.handedOver ++ closing
    uses := (l.cache.usedBy call).toList ++ l.uses }

def Step (l : HandleLedger H) (call : CacheCall H) (l' : HandleLedger H) : Prop :=
  l.after call = some l'

/-- Every handle is in one place, and was handed over once more than it was parked if it is with
the caller. -/
structure Balanced (l : HandleLedger H) : Prop where
  tidy : l.cache.Tidy l.uses
  placed : (l.cache.handles.map Prod.snd ++ l.cache.deferred ++ l.out).Perm l.inserted
  fresh : l.inserted.Nodup
  counted : ∀ handle, l.handedOver.count handle = l.parked.count handle + l.out.count handle

/-- What an insertion hands over to be closed: the newcomer itself, where one is open already or
none is kept, or what is over the capacity. That is at most one handle, another key's than the one
just inserted, and no other key was used longer ago. -/
def EvictsOldest (l : HandleLedger H) (path : PathText) (handle : H) : Prop :=
  ∃ closing cache, l.cache.call (.insertOrExisting path handle) = some (closing, cache) ∧
    ((l.cache.capacity = 0 ∨ (find l.cache.handles path).isSome) ∧ closing = [handle] ∧
        cache.handles = l.cache.handles ∨
      (path, handle) ∈ cache.handles ∧
        (closing = [] ∧ l.cache.handles.length < l.cache.capacity ∨
          ∃ oldest gone, closing = [gone] ∧ (oldest, gone) ∈ l.cache.handles ∧ oldest ≠ path ∧
            ∀ e ∈ l.cache.handles, e.1 ≠ oldest → l.uses.idxOf e.1 < l.uses.idxOf oldest))

variable {l l' : HandleLedger H} {call : CacheCall H} {path : PathText} {handle : H} {capacity : ℕ}

theorem balanced_new : (new capacity : HandleLedger H).Balanced where
  tidy := ⟨.refl _, List.nodup_nil, Nat.zero_le _, .nil⟩
  placed := .refl _
  fresh := List.nodup_nil
  counted _ := rfl

/-- What is brought in is new, or comes from the caller. -/
theorem Balanced.note (h : l.Balanced) (hallowed : l.Allowed call) :
    (call.brought ++ l.cache.handles.map Prod.snd ++ l.cache.deferred ++
        (l.note call).out).Perm (l.note call).inserted ∧
      (l.note call).inserted.Nodup ∧
      ∀ handle, l.handedOver.count handle =
        (l.note call).parked.count handle + (l.note call).out.count handle := by
  cases call with
  | insertOrExisting path handle =>
      exact ⟨h.placed.cons handle, List.nodup_cons.mpr ⟨hallowed, h.fresh⟩, h.counted⟩
  | defer handle =>
      have hmem : handle ∈ l.out := hallowed
      have hout := List.perm_cons_erase hmem
      refine ⟨?_, h.fresh, fun other => ?_⟩
      · refine (List.perm_middle.symm.trans (hout.symm.append_left _)).trans h.placed
      · have hcount := hout.count_eq other
        have hbefore := h.counted other
        simp only [HandleLedger.note, List.count_cons] at hcount ⊢
        omega
  | _ => exact ⟨h.placed, h.fresh, h.counted⟩

/-- A call moves handles between the three places. -/
theorem Balanced.step (h : l.Balanced) (hallowed : l.Allowed call) :
    ∃ l', l.after call = some l' ∧ l'.Balanced ∧ l'.cache.capacity = l.cache.capacity := by
  obtain ⟨closing, cache, hcall, htidy, hsame, hperm⟩ := h.tidy.call call
  obtain ⟨hplaced, hfresh, hcounted⟩ := h.note hallowed
  rw [after, hcall]
  refine ⟨_, rfl, ⟨htidy, ?_, hfresh, fun handle => ?_⟩, hsame⟩
  · have hmoved := (hperm.append_right (l.note call).out).trans hplaced
    refine List.Perm.trans ?_ hmoved
    show (cache.handles.map Prod.snd ++ cache.deferred ++ ((l.note call).out ++ closing)).Perm _
    rw [List.append_assoc _ closing]
    exact List.perm_append_comm.append_left _
  · have hcount := hcounted handle
    simp only [List.count_append]
    omega

theorem Balanced.evictsOldest (h : l.Balanced) (path : PathText) (handle : H) :
    l.EvictsOldest path handle := by
  unfold EvictsOldest CacheState.call
  dsimp only
  by_cases hcapacity : l.cache.capacity = 0
  · rw [insertOrExisting, if_pos hcapacity]
    exact ⟨_, _, rfl, .inl ⟨.inl hcapacity, rfl, rfl⟩⟩
  · cases hfind : find l.cache.handles path with
    | some existing =>
        rw [insertOrExisting, if_neg hcapacity, hfind]
        exact ⟨_, _, rfl, .inl ⟨.inr rfl, rfl, rfl⟩⟩
    | none =>
        obtain ⟨closing, cache, hcall, -, -, -, hkept, -, holdest⟩ :=
          h.tidy.insert_new handle hcapacity hfind
        rw [hcall]
        exact ⟨closing, cache, rfl, .inr ⟨hkept, holdest⟩⟩

/-- **Every handle is accounted for**, in every run: none of the calls panics, the order is that of
the cached keys, no more are cached than the capacity, the oldest goes first, and every handle is
cached, parked or with the caller, who was given it once more than it was parked. -/
theorem handles_accounted (capacity : ℕ)
    (h : Reaches Step Allowed (new capacity : HandleLedger H) l) :
    (l.cache.order.Perm (l.cache.handles.map Prod.fst) ∧ l.cache.order.Nodup) ∧
      l.cache.handles.length ≤ capacity ∧
      (∀ path handle, handle ∉ l.inserted → l.EvictsOldest path handle) ∧
      (∀ call, l.Allowed call → ∃ l', l.Step call l') ∧
      (l.cache.handles.map Prod.snd ++ l.cache.deferred ++ l.out).Perm l.inserted ∧
      (l.cache.handles.map Prod.snd ++ l.cache.deferred ++ l.out).Nodup ∧
      ∀ handle, l.handedOver.count handle =
        l.parked.count handle + if handle ∈ l.out then 1 else 0 := by
  obtain ⟨hbalanced, hcapacity⟩ : l.Balanced ∧ l.cache.capacity = capacity := by
    refine h.invariant (P := fun l : HandleLedger H => l.Balanced ∧ l.cache.capacity = capacity)
      ⟨balanced_new, rfl⟩ fun {before call after} hbefore hallowed hstep => ?_
    obtain ⟨l', hafter, hl', hsame⟩ := hbefore.1.step hallowed
    obtain rfl : after = l' := Option.some.inj (Eq.trans (Eq.symm hstep) hafter)
    exact ⟨hl', hsame.trans hbefore.2⟩
  have honce := hbalanced.placed.nodup_iff.mpr hbalanced.fresh
  refine ⟨⟨hbalanced.tidy.mirrored, hbalanced.tidy.once⟩, hcapacity ▸ hbalanced.tidy.bounded,
    fun path handle _ => hbalanced.evictsOldest path handle, fun call hallowed => ?_,
    hbalanced.placed, honce, fun handle => ?_⟩
  · obtain ⟨l', hafter, -⟩ := hbalanced.step hallowed
    exact ⟨l', hafter⟩
  · rw [hbalanced.counted handle]
    have hout := (List.nodup_append.mp honce).2.1
    split
    case isTrue hmem => rw [List.count_eq_one_of_mem hout hmem]
    case isFalse hmem => rw [List.count_eq_zero_of_not_mem hmem]

/-- Two handles go through a cache that keeps one: the first is evicted and parked. -/
def evictedOnce : HandleLedger ℕ where
  cache := ⟨1, [['/', 'b']], [(['/', 'b'], 2)], [1]⟩
  inserted := [2, 1]
  out := []
  handedOver := [1]
  parked := [1]
  uses := [['/', 'b'], ['/', 'a']]

theorem evicted_then_parked :
    Reaches Step Allowed (new 1) evictedOnce ∧
      (evictedOnce.cache.handles.map Prod.snd ++ evictedOnce.cache.deferred ++
        evictedOnce.out).Perm evictedOnce.inserted ∧
      ∀ handle, evictedOnce.handedOver.count handle =
        evictedOnce.parked.count handle + if handle ∈ evictedOnce.out then 1 else 0 := by
  have hkept : Step (new 1) (.insertOrExisting ['/', 'a'] 1)
      ⟨⟨1, [['/', 'a']], [(['/', 'a'], 1)], []⟩, [1], [], [], [], [['/', 'a']]⟩ := rfl
  have hevicted : Step
      ⟨⟨1, [['/', 'a']], [(['/', 'a'], 1)], []⟩, [1], [], [], [], [['/', 'a']]⟩
      (.insertOrExisting ['/', 'b'] 2) { evictedOnce with
        cache := ⟨1, [['/', 'b']], [(['/', 'b'], 2)], []⟩, out := [1], parked := [] } := rfl
  have hparked : Step { evictedOnce with
        cache := ⟨1, [['/', 'b']], [(['/', 'b'], 2)], []⟩, out := [1], parked := [] }
      (.defer 1) evictedOnce := rfl
  have hreach : Reaches Step Allowed (new 1) evictedOnce :=
    ((Reaches.start.next List.not_mem_nil hkept).next (by simp [Allowed]) hevicted).next
      List.mem_cons_self hparked
  obtain ⟨-, -, -, -, hplaced, -, hcounted⟩ := handles_accounted 1 hreach
  exact ⟨hreach, hplaced, hcounted⟩

end HandleLedger

end SynologyFilestation.Smb
