import Mathlib.Data.List.Basic
import Mathlib.Data.Nat.Notation

/-!
Trees of named entries, as a file server holds them.

A directory is a list of entries, and two names are the same to the server when
`fold` takes them to one key: a case-insensitive server folds case away, and
still keeps each name as it was spelled. A path is the list of names down from
the root. `dirAt` looks a directory up, `alterDir` changes one, and
`dirAt_alterDir` says that the two agree.
-/

namespace SynologyFilestation.Library

inductive FileTree (N C : Type)
  | file (content : C)
  | dir (children : List (N × FileTree N C))

namespace FileTree

variable {N K C : Type} [DecidableEq K] (fold : N → K)

/-- A directory with entries. -/
def isFull : FileTree N C → Bool
  | .dir (_ :: _) => true
  | _ => false

mutual

/-- There is a file in the tree. -/
def holdsFile : FileTree N C → Bool
  | .file _ => true
  | .dir children => anyFile children

def anyFile : List (N × FileTree N C) → Bool
  | [] => false
  | (_, t) :: rest => t.holdsFile || anyFile rest

end

/-! ### One directory -/

section Directory

variable (children : List (N × FileTree N C)) (name : N)

def findEntry : Option (N × FileTree N C) :=
  children.find? fun e => fold e.1 = fold name

def eraseEntry : List (N × FileTree N C) :=
  children.filter fun e => fold e.1 ≠ fold name

/-- The entry keeps its place and what is under it, and is spelled anew. -/
def renameEntry (name' : N) : List (N × FileTree N C) :=
  children.map fun e => if fold e.1 = fold name then (name', e.2) else e

/-- What is under the entries of one name is changed, the names are not. -/
def alterEntry (f : FileTree N C → FileTree N C) : List (N × FileTree N C) :=
  children.map fun e => if fold e.1 = fold name then (e.1, f e.2) else e

/-- Something else under a name: in place of what is there, or as a new entry. -/
def putEntry (t : FileTree N C) : List (N × FileTree N C) :=
  if (findEntry fold children name).isSome then alterEntry fold children name fun _ => t
  else children ++ [(name, t)]

end Directory

section DirectoryLemmas

variable {fold} {children : List (N × FileTree N C)} {name name' other : N}
  {e : N × FileTree N C}

theorem find?_congr {α : Type} {l : List α} {p q : α → Bool} (h : ∀ a ∈ l, p a = q a) :
    l.find? p = l.find? q := by
  induction l with
  | nil => rfl
  | cons a l ih =>
      rw [List.find?_cons, List.find?_cons, h a List.mem_cons_self,
        ih fun b hb => h b (List.mem_cons_of_mem a hb)]

theorem fold_of_findEntry (h : findEntry fold children name = some e) : fold e.1 = fold name := by
  simpa using List.find?_some h

theorem findEntry_congr (h : fold name = fold name') :
    findEntry fold children name = findEntry fold children name' := by
  simp only [findEntry, h]

theorem findEntry_eraseEntry (other : N) :
    findEntry fold (eraseEntry fold children name) other =
      if fold other = fold name then none else findEntry fold children other := by
  rw [findEntry, eraseEntry, List.find?_filter]
  split
  case isTrue h => simp [h]
  case isFalse h =>
    congr 1
    funext e
    by_cases he : fold e.1 = fold other
    · simp [he, h]
    · simp [he]

theorem findEntry_alterEntry (f : FileTree N C → FileTree N C) (other : N) :
    findEntry fold (alterEntry fold children name f) other =
      if fold other = fold name then
        (findEntry fold children other).map fun e => (e.1, f e.2)
      else findEntry fold children other := by
  rw [findEntry, alterEntry, List.find?_map]
  have hkey : ((fun e : N × FileTree N C => decide (fold e.1 = fold other)) ∘
      fun e => if fold e.1 = fold name then (e.1, f e.2) else e) =
      fun e => decide (fold e.1 = fold other) := by
    funext e
    by_cases he : fold e.1 = fold name <;> simp [he]
  rw [hkey]
  change (findEntry fold children other).map _ = _
  cases hfind : findEntry fold children other with
  | none => simp
  | some e =>
      have he := fold_of_findEntry hfind
      by_cases h : fold other = fold name <;> simp [he, h]

/-- Under the new name stands what stood under the old one, if the new name was
free or is the old one spelled otherwise. -/
theorem findEntry_renameEntry
    (hfree : fold name' = fold name ∨ findEntry fold children name' = none) (other : N) :
    findEntry fold (renameEntry fold children name name') other =
      if fold other = fold name' then (findEntry fold children name).map fun e => (name', e.2)
      else if fold other = fold name then none
      else findEntry fold children other := by
  rw [findEntry, renameEntry, List.find?_map]
  split
  case isTrue hnew =>
    have hold : children.find? ((fun e => decide (fold e.1 = fold other)) ∘
        fun e => if fold e.1 = fold name then (name', e.2) else e) =
        findEntry fold children name := by
      apply find?_congr
      intro e he
      by_cases hkey : fold e.1 = fold name
      · simp [hkey, hnew]
      · have hother : fold e.1 ≠ fold other := by
          intro heq
          rcases hfree with hsame | hnone
          · exact hkey (heq.trans (hnew.trans hsame))
          · simpa [heq, hnew] using List.find?_eq_none.mp hnone e he
        simp [hkey, hother]
    rw [hold]
    cases hfind : findEntry fold children name with
    | none => rfl
    | some e => simp [fold_of_findEntry hfind]
  case isFalse hnew =>
    split
    case isTrue hname =>
      rw [Option.map_eq_none_iff, List.find?_eq_none]
      intro e he
      by_cases hkey : fold e.1 = fold name
      · simpa [hkey] using Ne.symm hnew
      · simp [hkey, hname]
    case isFalse hname =>
      have hold : children.find? ((fun e => decide (fold e.1 = fold other)) ∘
          fun e => if fold e.1 = fold name then (name', e.2) else e) =
          findEntry fold children other := by
        apply find?_congr
        intro e he
        by_cases hkey : fold e.1 = fold name
        · simp [hkey, Ne.symm hnew, Ne.symm hname]
        · simp [hkey]
      rw [hold]
      cases hfind : findEntry fold children other with
      | none => rfl
      | some e => simp [fold_of_findEntry hfind, hname]

/-- An entry that is spelled anew under its own key is found again, and is spelled so already. -/
theorem renameEntry_renameEntry (hsame : fold name' = fold name) :
    renameEntry fold (renameEntry fold children name name') name name' =
      renameEntry fold children name name' := by
  rw [renameEntry, renameEntry, List.map_map]
  apply List.map_congr_left
  intro e _
  by_cases he : fold e.1 = fold name <;> simp [he, hsame]

theorem findEntry_concat (hfree : findEntry fold children name = none) (t : FileTree N C) :
    findEntry fold (children ++ [(name, t)]) name = some (name, t) := by
  rw [findEntry] at hfree ⊢
  rw [List.find?_append, hfree]
  simp

theorem findEntry_putEntry (t : FileTree N C) :
    (findEntry fold (putEntry fold children name t) name).map (·.2) = some t := by
  rw [putEntry]
  split
  case isTrue h =>
    obtain ⟨e, he⟩ := Option.isSome_iff_exists.mp h
    simp [findEntry_alterEntry, he]
  case isFalse h =>
    rw [findEntry_concat (by simpa using h)]
    rfl

end DirectoryLemmas

/-! ### Paths -/

/-- The entries of the directory at a path. -/
def dirAt : List N → FileTree N C → Option (List (N × FileTree N C))
  | _, .file _ => none
  | [], .dir children => some children
  | name :: rest, .dir children => (findEntry fold children name).bind fun e => dirAt rest e.2

/-- Change the entries of the directory at a path. -/
def alterDir (f : List (N × FileTree N C) → List (N × FileTree N C)) :
    List N → FileTree N C → FileTree N C
  | _, .file content => .file content
  | [], .dir children => .dir (f children)
  | name :: rest, .dir children => .dir (alterEntry fold children name (alterDir f rest))

theorem dirAt_alterDir (f : List (N × FileTree N C) → List (N × FileTree N C)) (path : List N)
    (t : FileTree N C) : dirAt fold path (alterDir fold f path t) = (dirAt fold path t).map f := by
  induction path generalizing t with
  | nil => cases t <;> rfl
  | cons name rest ih =>
      cases t with
      | file content => rfl
      | dir children =>
          rw [alterDir, dirAt, dirAt, findEntry_alterEntry, if_pos rfl, Option.bind_map,
            Option.map_bind]
          congr 1
          funext e
          exact ih e.2

/-- One change of a directory and then another. -/
theorem alterDir_alterDir (f g : List (N × FileTree N C) → List (N × FileTree N C))
    (path : List N) (t : FileTree N C) :
    alterDir fold f path (alterDir fold g path t) = alterDir fold (f ∘ g) path t := by
  induction path generalizing t with
  | nil => cases t <;> rfl
  | cons name rest ih =>
      cases t with
      | file content => rfl
      | dir children =>
          rw [alterDir, alterDir, alterDir, alterEntry, alterEntry, List.map_map]
          congr 1
          apply List.map_congr_left
          intro e _
          by_cases he : fold e.1 = fold name <;> simp [he, ih]

/-- Make the directories of a path that are not there. A file in the way stays. -/
def ensureDir : List N → FileTree N C → FileTree N C
  | _, .file content => .file content
  | [], .dir children => .dir children
  | name :: rest, .dir children =>
      match findEntry fold children name with
      | some _ => .dir (alterEntry fold children name (ensureDir rest))
      | none => .dir (children ++ [(name, ensureDir rest (.dir []))])

/-- A directory that was made is empty, one that was there is as it was. -/
theorem dirAt_ensureDir {path : List N} {t : FileTree N C} {children : List (N × FileTree N C)}
    (h : dirAt fold path (ensureDir fold path t) = some children) :
    (dirAt fold path t).getD [] = children := by
  induction path generalizing t with
  | nil =>
      cases t with
      | file content => cases h
      | dir entries => exact Option.some.inj h
  | cons name rest ih =>
      cases t with
      | file content => cases h
      | dir entries =>
          rw [ensureDir] at h
          cases hfind : findEntry fold entries name with
          | some e =>
              rw [hfind] at h
              simp only [dirAt, findEntry_alterEntry, if_pos, hfind, Option.map_some,
                Option.bind_some] at h ⊢
              exact ih h
          | none =>
              simp only [hfind, dirAt, findEntry_concat hfind, Option.bind_some,
                Option.bind_none] at h ⊢
              rw [← ih h]
              cases rest <;> rfl

theorem dirAt_ensureDir_of_some {path : List N} {t : FileTree N C}
    {children : List (N × FileTree N C)} (h : dirAt fold path t = some children) :
    dirAt fold path (ensureDir fold path t) = some children := by
  induction path generalizing t with
  | nil => cases t <;> exact h
  | cons name rest ih =>
      cases t with
      | file content => cases h
      | dir entries =>
          rw [dirAt] at h
          obtain ⟨e, he, hbelow⟩ := Option.bind_eq_some_iff.mp h
          rw [ensureDir, he]
          simp only [dirAt, findEntry_alterEntry, if_pos, he, Option.map_some, Option.bind_some]
          exact ih hbelow

end FileTree

end SynologyFilestation.Library
