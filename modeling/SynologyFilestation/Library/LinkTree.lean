import Mathlib.Data.List.Basic
import Mathlib.Data.Set.Finite.Basic
import Mathlib.Data.Set.Finite.Lattice

/-!
Trees of files with symbolic links, and how a path is followed in one.

A location is the names on the way to it, the last first. `trail` is the whole way of
a path: the places it comes to, each with the components that are left there, links
replaced by what they stand for. The path leads to a location if the trail comes there
with nothing left; the last component need not be there yet.
-/

namespace SynologyFilestation.Library.LinkTree

inductive Component (α : Type*)
  | name (n : α)
  | up
  deriving DecidableEq, Repr

inductive Entry (α : Type*)
  | directory
  | file
  /-- A target that is not rooted counts from the directory the link is in. -/
  | link (rooted : Bool) (target : List (Component α))
  deriving DecidableEq, Repr

abbrev Location (α : Type*) := List α

/-- The root is a directory in any case. -/
abbrev Files (α : Type*) := Location α → Option (Entry α)

/-- A place on the way, and what is left from there. -/
abbrev Stop (α : Type*) := Location α × List (Component α)

section Definitions

variable {α : Type*}

/-- The trail up to the first link, which is left to `follow`. -/
def trailFrom (t : Files α) (follow : Location α → List (Component α) → List (Stop α)) :
    Location α → List (Component α) → List (Stop α)
  | l, [] => [(l, [])]
  | l, .up :: rest => (l, .up :: rest) :: trailFrom t follow l.tail rest
  | l, .name n :: rest =>
      (l, .name n :: rest) ::
        match t (n :: l) with
        | some .directory => trailFrom t follow (n :: l) rest
        | some (.link rooted target) => follow (if rooted then [] else l) (target ++ rest)
        | some .file | none => if rest.isEmpty then [(n :: l, [])] else []

/-- At most so many links are followed. -/
def trail (t : Files α) : ℕ → Location α → List (Component α) → List (Stop α)
  | 0 => trailFrom t fun _ _ => []
  | links + 1 => trailFrom t (trail t links)

/-- From so far below a directory the components lead up out of it: some beginning of
them has more `up` than it has names, and than there are directories in between. -/
def Climbs : ℕ → List (Component α) → Prop
  | _, [] => False
  | depth, .name _ :: rest => Climbs (depth + 1) rest
  | 0, .up :: _ => True
  | depth + 1, .up :: rest => Climbs depth rest

instance Climbs.decidable : ∀ depth (path : List (Component α)), Decidable (Climbs depth path)
  | _, [] => .isFalse id
  | depth, .name _ :: rest => Climbs.decidable (depth + 1) rest
  | 0, .up :: _ => .isTrue trivial
  | depth + 1, .up :: rest => Climbs.decidable depth rest

/-- Every entry is there that is there in the other, if not as a file then as a directory. -/
def Widens (t t' : Files α) : Prop :=
  ∀ l, t' l = t l ∨ t' l = some .directory ∧ ∀ rooted target, t l ≠ some (.link rooted target)

/-- What is missing is a directory. -/
def fill (t : Files α) : Files α := fun l => some ((t l).getD .directory)

def directories : Files α := fun _ => some .directory

def Linkless (t : Files α) : Prop := ∀ l rooted target, t l ≠ some (.link rooted target)

def IsDirectory (t : Files α) (l : Location α) : Prop := l = [] ∨ t l = some .directory

/-- Directories were made where nothing was. -/
structure Grows (t t' : Files α) : Prop where
  made : ∀ l, t' l = t l ∨ t l = none ∧ t' l = some .directory
  finite : {l | t' l ≠ t l}.Finite

variable [DecidableEq α]

/-- At and below a location is what is mounted there. -/
def mounted (t : Files α) (top : Location α) (serves : Files α) : Files α := fun l =>
  if top <:+ l then
    if l = top then some .directory else serves (l.take (l.length - top.length))
  else t l

/-- Whatever directories are made, and whatever is mounted where the one path then leads:
the other path does not lead there, or below. -/
def StaysOut (t : Files α) (links : ℕ) (mountpoint path : List (Component α)) : Prop :=
  ∀ now, Grows t now → ∀ top, IsDirectory now top → (top, []) ∈ trail now links [] mountpoint →
    ∀ serves, Linkless serves → {l | serves l ≠ none}.Finite → ∀ l, top <:+ l →
      (l, []) ∉ trail (mounted now top serves) links [] path

/-- Each time the path comes to where the other leads, the components left lead up out
of it. What is missing is taken to be a directory, and so is all that may be mounted. -/
def Skirts (t : Files α) (links : ℕ) (mountpoint path : List (Component α)) : Prop :=
  ∀ top, IsDirectory (fill t) top → (top, []) ∈ trail (fill t) links [] mountpoint →
    ∀ left, (top, left) ∈ trail (mounted (fill t) top directories) links [] path →
      Climbs 0 left

end Definitions

section Trails

variable {α : Type*} {t t' : Files α} {links : ℕ} {l l' top : Location α} {p : Stop α}
  {path path' : List (Component α)}
  {follow follow' : Location α → List (Component α) → List (Stop α)}

theorem trailFrom_mono (h : Widens t t') (hfollow : ∀ l path, follow l path ⊆ follow' l path) :
    trailFrom t follow l path ⊆ trailFrom t' follow' l path := by
  induction path generalizing l with
  | nil => exact List.Subset.refl _
  | cons c rest ih =>
      cases c with
      | up => exact List.cons_subset_cons _ ih
      | name n =>
          refine List.cons_subset_cons _ ?_
          rcases h (n :: l) with heq | ⟨hdirectory, hnot⟩
          · rw [heq]
            split
            · exact ih
            · exact hfollow _ _
            all_goals exact List.Subset.refl _
          · rw [hdirectory]
            split
            · exact ih
            next rooted target hlink => exact absurd hlink (hnot rooted target)
            all_goals
              cases rest with
              | nil => exact List.Subset.refl _
              | cons => exact List.nil_subset _

theorem trail_mono (h : Widens t t') : trail t links l path ⊆ trail t' links l path := by
  induction links generalizing l path with
  | zero => exact trailFrom_mono h fun _ _ => List.Subset.refl _
  | succ links ih => exact trailFrom_mono h fun _ _ => ih

/-- The trail goes on from a stop as the trail from there does, at a link with fewer
links to follow. -/
theorem trailFrom_suffix (h : (l', path') ∈ trailFrom t follow l path) :
    trailFrom t follow l' path' ⊆ trailFrom t follow l path ∨
      ∃ base rest, (l', path') ∈ follow base rest ∧
        follow base rest ⊆ trailFrom t follow l path := by
  induction path generalizing l with
  | nil =>
      obtain ⟨rfl, rfl⟩ := Prod.mk.inj (List.mem_singleton.mp h)
      exact Or.inl (List.Subset.refl _)
  | cons c rest ih =>
      cases c with
      | up =>
          rcases List.mem_cons.mp h with heq | htail
          · obtain ⟨rfl, rfl⟩ := Prod.mk.inj heq
            exact Or.inl (List.Subset.refl _)
          · refine (ih htail).imp (List.subset_cons_of_subset _) ?_
            rintro ⟨base, rest', hmem, hsub⟩
            exact ⟨base, rest', hmem, List.subset_cons_of_subset _ hsub⟩
      | name n =>
          rcases List.mem_cons.mp h with heq | htail
          · obtain ⟨rfl, rfl⟩ := Prod.mk.inj heq
            exact Or.inl (List.Subset.refl _)
          · rw [trailFrom]
            split at htail
            · refine (ih htail).imp (List.subset_cons_of_subset _) ?_
              rintro ⟨base, rest', hmem, hsub⟩
              exact ⟨base, rest', hmem, List.subset_cons_of_subset _ hsub⟩
            · exact Or.inr ⟨_, _, htail, List.subset_cons_self _ _⟩
            all_goals
              split_ifs at htail ⊢
              · obtain ⟨rfl, rfl⟩ := Prod.mk.inj (List.mem_singleton.mp htail)
                exact Or.inl (List.subset_cons_self _ _)
              · cases htail

theorem trail_suffix (h : (l', path') ∈ trail t links l path) :
    ∃ fewer, trail t fewer l' path' ⊆ trail t links l path := by
  induction links generalizing l path with
  | zero =>
      rcases trailFrom_suffix h with hsub | ⟨_, _, hmem, _⟩
      · exact ⟨0, hsub⟩
      · cases hmem
  | succ links ih =>
      rcases trailFrom_suffix h with hsub | ⟨base, rest, hmem, hsub⟩
      · exact ⟨links + 1, hsub⟩
      · obtain ⟨fewer, hfewer⟩ := ih hmem
        exact ⟨fewer, List.Subset.trans hfewer hsub⟩

theorem trailFrom_start : (l, path) ∈ trailFrom t follow l path := by
  match path with
  | [] => exact List.mem_singleton_self _
  | .up :: rest => exact List.mem_cons_self ..
  | .name n :: rest => exact List.mem_cons_self ..

theorem trail_start : (l, path) ∈ trail t links l path := by
  cases links <;> exact trailFrom_start

/-- What ends below a directory has come to it with components left that do not climb out
of it again, or was below from the start. There are no links below. -/
theorem trailFrom_enters (hlinks : ∀ l, top <:+ l → ∀ rooted target,
      t l ≠ some (.link rooted target))
    (hfollow : ∀ base rest, (l', []) ∈ follow base rest →
      (∃ left, (top, left) ∈ follow base rest ∧ ¬Climbs 0 left) ∨
        ∃ stack, base = stack ++ top ∧ ¬Climbs stack.length rest)
    (hin : top <:+ l') (h : (l', []) ∈ trailFrom t follow l path) :
    (∃ left, (top, left) ∈ trailFrom t follow l path ∧ ¬Climbs 0 left) ∨
      ∃ stack, l = stack ++ top ∧ ¬Climbs stack.length path := by
  induction path generalizing l with
  | nil =>
      obtain ⟨rfl, -⟩ := Prod.mk.inj (List.mem_singleton.mp h)
      obtain ⟨stack, rfl⟩ := hin
      exact Or.inr ⟨stack, rfl, id⟩
  | cons c rest ih =>
      cases c with
      | up =>
          have htail : (l', []) ∈ trailFrom t follow l.tail rest := by
            simpa [trailFrom] using h
          rcases ih htail with ⟨left, hmem, hclimbs⟩ | ⟨stack, hl, hclimbs⟩
          · exact Or.inl ⟨left, List.mem_cons_of_mem _ hmem, hclimbs⟩
          · match l, hl with
            | [], hl =>
                -- The root is its own parent.
                obtain ⟨rfl, rfl⟩ := List.append_eq_nil_iff.mp hl.symm
                exact Or.inl ⟨rest, List.mem_cons_of_mem _ trailFrom_start, hclimbs⟩
            | n :: l, hl => exact Or.inr ⟨n :: stack, congrArg (n :: ·) hl, hclimbs⟩
      | name n =>
          -- By the name the trail comes to the directory itself, or further below it.
          have hname : ∀ {stops : List (Stop α)} stack, (n :: l, rest) ∈ stops →
              n :: l = stack ++ top → ¬Climbs stack.length rest →
              (∃ left, (top, left) ∈ (l, .name n :: rest) :: stops ∧ ¬Climbs 0 left) ∨
                ∃ stack, l = stack ++ top ∧ ¬Climbs stack.length (.name n :: rest) := by
            intro stops stack hmem hl hclimbs
            match stack, hl with
            | [], hl =>
                obtain rfl : n :: l = top := hl
                exact Or.inl ⟨rest, List.mem_cons_of_mem _ hmem, hclimbs⟩
            | m :: stack, hl => exact Or.inr ⟨stack, (List.cons.inj hl).2, hclimbs⟩
          rw [trailFrom] at h ⊢
          rcases List.mem_cons.mp h with heq | htail
          · cases heq
          split at htail
          next =>
            rcases ih htail with ⟨left, hmem, hclimbs⟩ | ⟨stack, hl, hclimbs⟩
            · exact Or.inl ⟨left, List.mem_cons_of_mem _ hmem, hclimbs⟩
            · exact hname stack trailFrom_start hl hclimbs
          next rooted target hlink =>
            rcases hfollow _ _ htail with ⟨left, hmem, hclimbs⟩ | ⟨stack, hbase, _⟩
            · exact Or.inl ⟨left, List.mem_cons_of_mem _ hmem, hclimbs⟩
            · -- There would be a link below the directory.
              refine absurd hlink (hlinks _ ?_ rooted target)
              cases rooted with
              | true =>
                  obtain ⟨-, rfl⟩ := List.append_eq_nil_iff.mp hbase.symm
                  exact List.nil_suffix
              | false => exact ⟨n :: stack, congrArg (n :: ·) hbase.symm⟩
          all_goals
            split_ifs at htail ⊢ with hempty
            · obtain rfl := List.isEmpty_iff.mp hempty
              obtain ⟨rfl, -⟩ := Prod.mk.inj (List.mem_singleton.mp htail)
              obtain ⟨stack, hstack⟩ := hin
              exact hname stack (List.mem_singleton_self _) hstack.symm id
            · cases htail

theorem trail_enters (hlinks : ∀ l, top <:+ l → ∀ rooted target, t l ≠ some (.link rooted target))
    (hin : top <:+ l') (h : (l', []) ∈ trail t links l path) :
    (∃ left, (top, left) ∈ trail t links l path ∧ ¬Climbs 0 left) ∨
      ∃ stack, l = stack ++ top ∧ ¬Climbs stack.length path := by
  induction links generalizing l path with
  | zero => exact trailFrom_enters hlinks (fun _ _ hmem => nomatch hmem) hin h
  | succ links ih => exact trailFrom_enters hlinks (fun _ _ => ih) hin h

/-- Below a directory that has only directories below it, and with components left that
do not climb out of it, the trail ends there. -/
theorem trailFrom_stays (hdirectory : ∀ l, top <:+ l → t l = some .directory)
    (stack : List α) (h : ¬Climbs stack.length path) :
    ∃ l', top <:+ l' ∧ (l', []) ∈ trailFrom t follow (stack ++ top) path := by
  induction path generalizing stack with
  | nil => exact ⟨stack ++ top, ⟨stack, rfl⟩, List.mem_singleton_self _⟩
  | cons c rest ih =>
      match c, stack with
      | .up, [] => exact absurd trivial h
      | .up, m :: stack =>
          obtain ⟨l', hin, hmem⟩ := ih stack h
          exact ⟨l', hin, List.mem_cons_of_mem _ hmem⟩
      | .name n, stack =>
          obtain ⟨l', hin, hmem⟩ := ih (n :: stack) h
          refine ⟨l', hin, ?_⟩
          rw [trailFrom, hdirectory (n :: (stack ++ top)) ⟨n :: stack, rfl⟩]
          exact List.mem_cons_of_mem _ hmem

/-- The trail ends below such a directory if and only if it comes to it with components
left that do not climb out. -/
theorem trail_inside_iff (hdirectory : ∀ l, top <:+ l → t l = some .directory) :
    (∃ l', top <:+ l' ∧ (l', []) ∈ trail t links [] path) ↔
      ∃ left, (top, left) ∈ trail t links [] path ∧ ¬Climbs 0 left := by
  constructor
  · rintro ⟨l', hin, hmem⟩
    have hlinks : ∀ l, top <:+ l → ∀ rooted target, t l ≠ some (.link rooted target) := by
      intro l hl rooted target hlink
      cases (hdirectory l hl).symm.trans hlink
    rcases trail_enters hlinks hin hmem with hleft | ⟨stack, htop, hclimbs⟩
    · exact hleft
    · obtain ⟨rfl, rfl⟩ := List.append_eq_nil_iff.mp htop.symm
      exact ⟨path, trail_start, hclimbs⟩
  · rintro ⟨left, hmem, hclimbs⟩
    obtain ⟨fewer, hsub⟩ := trail_suffix hmem
    obtain ⟨l', hin, hend⟩ : ∃ l', top <:+ l' ∧ (l', []) ∈ trail t fewer top left := by
      cases fewer <;> exact trailFrom_stays hdirectory [] hclimbs
    exact ⟨l', hin, hsub hend⟩

/-- A stop of the trail depends on finitely many entries. -/
theorem trailFrom_support {F : Files α → Location α → List (Component α) → List (Stop α)}
    (hfollow : ∀ base rest, p ∈ F t base rest →
      ∃ S : List (Location α), ∀ t', (∀ l ∈ S, t' l = t l) → p ∈ F t' base rest)
    (h : p ∈ trailFrom t (F t) l path) :
    ∃ S : List (Location α), ∀ t', (∀ l ∈ S, t' l = t l) → p ∈ trailFrom t' (F t') l path := by
  induction path generalizing l with
  | nil => exact ⟨[], fun _ _ => h⟩
  | cons c rest ih =>
      cases c with
      | up =>
          rcases List.mem_cons.mp h with rfl | htail
          · exact ⟨[], fun _ _ => List.mem_cons_self ..⟩
          · obtain ⟨S, hS⟩ := ih htail
            exact ⟨S, fun t' hagree => List.mem_cons_of_mem _ (hS t' hagree)⟩
      | name n =>
          rw [trailFrom] at h
          rcases List.mem_cons.mp h with rfl | htail
          · exact ⟨[], fun _ _ => trailFrom_start⟩
          suffices hlater : ∃ S : List (Location α), ∀ t', (∀ l ∈ S, t' l = t l) →
              t' (n :: l) = t (n :: l) → p ∈ trailFrom t' (F t') l (.name n :: rest) by
            obtain ⟨S, hS⟩ := hlater
            refine ⟨(n :: l) :: S, fun t' hagree => ?_⟩
            rw [List.forall_mem_cons] at hagree
            exact hS t' hagree.2 hagree.1
          split at htail
          next hentry =>
            obtain ⟨S, hS⟩ := ih htail
            refine ⟨S, fun t' hagree hsame => ?_⟩
            rw [trailFrom, hsame, hentry]
            exact List.mem_cons_of_mem _ (hS t' hagree)
          next rooted target hentry =>
            obtain ⟨S, hS⟩ := hfollow _ _ htail
            refine ⟨S, fun t' hagree hsame => ?_⟩
            rw [trailFrom, hsame, hentry]
            exact List.mem_cons_of_mem _ (hS t' hagree)
          all_goals
            next hentry =>
              refine ⟨[], fun t' _ hsame => ?_⟩
              rw [trailFrom, hsame, hentry]
              exact List.mem_cons_of_mem _ htail

theorem trail_support (h : p ∈ trail t links l path) :
    ∃ S : List (Location α), ∀ t', (∀ l ∈ S, t' l = t l) → p ∈ trail t' links l path := by
  induction links generalizing l path with
  | zero => exact trailFrom_support (F := fun _ _ _ => []) (fun _ _ hmem => nomatch hmem) h
  | succ links ih => exact trailFrom_support (F := fun t => trail t links) (fun _ _ => ih) h

theorem widens_fill : Widens t (fill t) := by
  intro l
  rw [fill]
  cases h : t l with
  | none => exact Or.inr ⟨rfl, fun _ _ hlink => nomatch hlink⟩
  | some entry => exact Or.inl rfl

theorem Grows.refl (t : Files α) : Grows t t where
  made _ := Or.inl rfl
  finite := by simp

theorem Grows.trans {t₁ t₂ t₃ : Files α} (h : Grows t₁ t₂) (h' : Grows t₂ t₃) : Grows t₁ t₃ where
  made l := by
    rcases h'.made l with heq | ⟨hnone, hmade⟩
    · rw [heq]
      exact h.made l
    · rcases h.made l with heq | ⟨_, hmade'⟩
      · exact Or.inr ⟨heq ▸ hnone, hmade⟩
      · cases hnone.symm.trans hmade'
  finite := by
    refine (h.finite.union h'.finite).subset fun l hl => ?_
    by_cases heq : t₂ l = t₁ l
    · exact Or.inr fun heq' => hl (heq'.trans heq)
    · exact Or.inl heq

theorem Grows.fill_eq (h : Grows t t') : fill t' = fill t := by
  ext1 l
  rcases h.made l with heq | ⟨hnone, hmade⟩
  · simp [fill, heq]
  · simp [fill, hnone, hmade]

/-- Names alone are followed one by one, where none of them is a link. -/
theorem trailFrom_names {names : List α}
    (hplain : ∀ pre, pre <+: names → ∀ rooted target,
      t (pre.reverse ++ l) ≠ some (.link rooted target))
    (h : (l', path) ∈ trailFrom t follow l (names.map .name)) :
    ∃ pre rest, names = pre ++ rest ∧ l' = pre.reverse ++ l ∧ path = rest.map .name := by
  induction names generalizing l with
  | nil =>
      obtain ⟨rfl, rfl⟩ := Prod.mk.inj (List.mem_singleton.mp h)
      exact ⟨[], [], rfl, rfl, rfl⟩
  | cons n names ih =>
      rw [List.map_cons, trailFrom] at h
      rcases List.mem_cons.mp h with heq | htail
      · obtain ⟨rfl, rfl⟩ := Prod.mk.inj heq
        exact ⟨[], n :: names, rfl, rfl, rfl⟩
      split at htail
      next =>
        obtain ⟨pre, rest, rfl, rfl, rfl⟩ := ih (fun pre hpre => by
          simpa using hplain (n :: pre) (List.cons_prefix_cons.mpr ⟨rfl, hpre⟩)) htail
        exact ⟨n :: pre, rest, rfl, by simp, rfl⟩
      next rooted target hlink =>
        exact absurd hlink (hplain [n] ⟨names, rfl⟩ rooted target)
      all_goals
        split_ifs at htail with hempty
        · obtain ⟨rfl, rfl⟩ := Prod.mk.inj (List.mem_singleton.mp htail)
          obtain rfl := List.map_eq_nil_iff.mp (List.isEmpty_iff.mp hempty)
          exact ⟨[n], [], rfl, rfl, rfl⟩
        · cases htail

theorem trail_names {names : List α}
    (hplain : ∀ pre, pre <+: names → ∀ rooted target,
      t pre.reverse ≠ some (.link rooted target))
    (h : (l, path) ∈ trail t links [] (names.map .name)) :
    ∃ pre rest, names = pre ++ rest ∧ l = pre.reverse ∧ path = rest.map .name := by
  have hnames := fun follow (h : (l, path) ∈ trailFrom t follow [] (names.map .name)) =>
    trailFrom_names (by simpa using hplain) h
  simp only [List.append_nil] at hnames
  cases links <;> exact hnames _ h

end Trails

section Mounts

variable {α : Type*} [DecidableEq α] {t t' serves : Files α} {links : ℕ} {l top : Location α}
  {mountpoint path : List (Component α)}

theorem grows_make (h : t l = none) :
    Grows t (Function.update t l (some .directory)) where
  made l' := by
    rcases eq_or_ne l' l with rfl | hne
    · exact Or.inr ⟨h, Function.update_self ..⟩
    · exact Or.inl (Function.update_of_ne hne ..)
  finite := by
    refine (Set.finite_singleton l).subset fun l' hl' => ?_
    by_contra hne
    exact hl' (Function.update_of_ne hne ..)

/-- Directories where a path needs them. -/
theorem grows_fill (t : Files α) (S : List (Location α)) :
    Grows t fun l => if l ∈ S then fill t l else t l where
  made l := by
    by_cases hmem : l ∈ S
    · cases h : t l <;> simp [hmem, fill, h]
    · exact Or.inl (if_neg hmem)
  finite := by
    refine S.finite_toSet.subset fun l hl => ?_
    by_contra hmem
    exact hl (if_neg hmem)

theorem mounted_below (h : top <:+ l) :
    mounted t top directories l = some .directory := by
  rw [mounted, if_pos h]
  split_ifs <;> rfl

theorem Widens.mounted (h : Widens t t') (hserves : Linkless serves) :
    Widens (mounted t top serves) (mounted t' top directories) := by
  intro l
  by_cases hin : top <:+ l
  · refine Or.inr ⟨mounted_below hin, fun rooted target => ?_⟩
    rw [LinkTree.mounted, if_pos hin]
    split_ifs
    · exact fun hlink => nomatch hlink
    · exact hserves _ rooted target
  · simp only [LinkTree.mounted, if_neg hin]
    exact h l

theorem Grows.skirts_iff (h : Grows t t') :
    Skirts t' links mountpoint path ↔ Skirts t links mountpoint path := by
  rw [Skirts, Skirts, h.fill_eq]

/-- The criterion for a path to stay out of what is mounted. -/
theorem staysOut_iff (t : Files α) (links : ℕ) (mountpoint path : List (Component α)) :
    StaysOut t links mountpoint path ↔ Skirts t links mountpoint path := by
  constructor
  · intro hout top hdirectory hmount left hmem
    by_contra hclimbs
    -- The path does end below; the entries it takes are as many directories to make.
    obtain ⟨l, hin, hend⟩ :=
      (trail_inside_iff fun _ => mounted_below).mpr ⟨left, hmem, hclimbs⟩
    obtain ⟨S, hS⟩ := trail_support hmount
    obtain ⟨S', hS'⟩ := trail_support hend
    let needed := top :: (S ++ S')
    let serves : Files α := fun rel => if rel ++ top ∈ S' then some .directory else none
    have hserves : Linkless serves := by
      intro rel rooted target
      simp only [serves]
      split_ifs <;> simp
    have hfinite : {rel | serves rel ≠ none}.Finite := by
      have hinj := List.append_left_injective top
      refine (S'.finite_toSet.preimage hinj.injOn).subset fun rel h => ?_
      by_contra hmem
      exact h (if_neg hmem)
    refine hout _ (grows_fill t needed) top ?_ (hS _ fun l hl => if_pos ?_) serves hserves
      hfinite l hin (hS' _ fun l hl => ?_)
    · refine hdirectory.imp_right fun hfill => ?_
      simpa [needed] using hfill
    · simp [needed, hl]
    · by_cases hbelow : top <:+ l
      · obtain ⟨rel, rfl⟩ := hbelow
        rw [mounted_below ⟨rel, rfl⟩, mounted, if_pos ⟨rel, rfl⟩]
        simp [serves, hl]
      · rw [mounted, mounted, if_neg hbelow, if_neg hbelow]
        exact if_pos (by simp [needed, hl])
  · intro hskirts now hgrows top hdirectory hmount serves hserves _ l hin hend
    have hwidens : Widens now (fill t) := by
      rw [← hgrows.fill_eq]
      exact widens_fill
    have hend' : (l, []) ∈ trail (mounted (fill t) top directories) links [] path :=
      trail_mono (hwidens.mounted hserves) hend
    obtain ⟨left, hmem, hclimbs⟩ := (trail_inside_iff fun _ => mounted_below).mp ⟨l, hin, hend'⟩
    refine hclimbs (hskirts top ?_ (trail_mono hwidens hmount) left hmem)
    refine hdirectory.imp_right fun hnow => ?_
    rcases hwidens top with heq | ⟨hfill, _⟩
    · rw [heq, hnow]
    · exact hfill

/-- Two paths of names, neither of which meets a link: the one stays out unless it begins
with the other. -/
theorem skirts_of_plain {names names' : List α} (hnot : ¬names <+: names')
    (hplain : ∀ pre, pre <+: names → ∀ rooted target, t pre.reverse ≠ some (.link rooted target))
    (hplain' : ∀ pre, pre <+: names' → ∀ rooted target,
      t pre.reverse ≠ some (.link rooted target)) :
    Skirts t links (names.map .name) (names'.map .name) := by
  have hfill : ∀ {l rooted target}, t l ≠ some (.link rooted target) →
      fill t l ≠ some (.link rooted target) := by
    intro l rooted target hnot hlink
    rw [fill] at hlink
    cases h : t l <;> simp_all
  intro top _ hmount left hmem
  obtain ⟨pre, rest, rfl, rfl, hrest⟩ :=
    trail_names (fun pre hpre rooted target => hfill (hplain pre hpre rooted target)) hmount
  obtain rfl := List.map_eq_nil_iff.mp hrest.symm
  rw [List.append_nil] at hnot
  have hmounted : ∀ pre', pre' <+: names' → ∀ rooted target,
      mounted (fill t) pre.reverse directories pre'.reverse ≠ some (.link rooted target) := by
    intro pre' hpre' rooted target
    by_cases hbelow : pre.reverse <:+ pre'.reverse
    · rw [mounted_below hbelow]
      exact fun hlink => nomatch hlink
    · rw [mounted, if_neg hbelow]
      exact hfill (hplain' pre' hpre' rooted target)
  obtain ⟨pre', rest', rfl, htop, _⟩ := trail_names hmounted hmem
  obtain rfl := List.reverse_injective htop
  exact absurd (List.prefix_append pre rest') hnot

end Mounts

end SynologyFilestation.Library.LinkTree
