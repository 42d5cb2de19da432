import Mathlib.Data.List.Nodup
import Mathlib.Order.Basic
import Mathlib.Data.UInt

/-!
Maps that are kept in the order of their keys.

A map is the list of its entries. The list is sorted by key and holds a key at
most once, so that its head is the entry of the least key.
-/

namespace SynologyFilestation.Library

/-- The entries of a map, in the order of their keys. -/
structure OrderedMap (κ β : Type*) [LinearOrder κ] where
  entries : List (κ × β)
  sorted : entries.Pairwise fun a b => a.1 < b.1

namespace OrderedMap

variable {κ β : Type*} [LinearOrder κ]

def empty : OrderedMap κ β := ⟨[], .nil⟩

variable (m : OrderedMap κ β) (k : κ) (b : β)

/-- The entry of a key is replaced, or takes its place in the order. -/
def insert : OrderedMap κ β where
  entries := m.entries.filter (·.1 < k) ++ (k, b) :: m.entries.filter (k < ·.1)
  sorted := by
    refine List.pairwise_append.mpr ⟨m.sorted.filter _, ?_, ?_⟩
    · refine List.pairwise_cons.mpr ⟨fun e he => ?_, m.sorted.filter _⟩
      exact of_decide_eq_true (List.mem_filter.mp he).2
    · intro d hd e he
      have hlt : d.1 < k := of_decide_eq_true (List.mem_filter.mp hd).2
      rcases List.mem_cons.mp he with rfl | he
      · exact hlt
      · exact hlt.trans (of_decide_eq_true (List.mem_filter.mp he).2)

def erase : OrderedMap κ β where
  entries := m.entries.filter (·.1 ≠ k)
  sorted := m.sorted.filter _

/-- Every value changes, each with its key. -/
def mapValues (f : κ → β → β) : OrderedMap κ β where
  entries := m.entries.map fun e => (e.1, f e.1 e.2)
  sorted := List.pairwise_map.mpr m.sorted

/-- The value of a key changes, if it has one. -/
def modify (f : β → β) : OrderedMap κ β :=
  m.mapValues fun k' b => if k' = k then f b else b

/-- The entries that are to be kept. -/
def retain (keep : κ → β → Bool) : OrderedMap κ β where
  entries := m.entries.filter fun e => keep e.1 e.2
  sorted := m.sorted.filter _

def get? : Option β := (m.entries.find? (·.1 = k)).map Prod.snd

variable {m k b} {c : β} {e : κ × β} {f : κ → β → β}

@[simp] theorem mem_empty : e ∉ (empty : OrderedMap κ β).entries := List.not_mem_nil

theorem eq_empty_iff : m = empty ↔ ∀ e, e ∉ m.entries := by
  obtain ⟨entries, sorted⟩ := m
  rw [empty, mk.injEq]
  exact List.eq_nil_iff_forall_not_mem

theorem mem_insert : e ∈ (m.insert k b).entries ↔ e = (k, b) ∨ e.1 ≠ k ∧ e ∈ m.entries := by
  simp only [insert, List.mem_append, List.mem_cons, List.mem_filter, decide_eq_true_eq]
  constructor
  · rintro (⟨he, hlt⟩ | rfl | ⟨he, hlt⟩)
    · exact .inr ⟨hlt.ne, he⟩
    · exact .inl rfl
    · exact .inr ⟨hlt.ne', he⟩
  · rintro (rfl | ⟨hne, he⟩)
    · exact .inr (.inl rfl)
    · rcases lt_or_gt_of_ne hne with hlt | hgt
      · exact .inl ⟨he, hlt⟩
      · exact .inr (.inr ⟨he, hgt⟩)

theorem mem_erase : e ∈ (m.erase k).entries ↔ e.1 ≠ k ∧ e ∈ m.entries := by
  rw [erase, List.mem_filter, decide_eq_true_eq, and_comm]

theorem length_erase_lt (h : (k, b) ∈ m.entries) :
    (m.erase k).entries.length < m.entries.length :=
  List.length_filter_lt_length_iff_exists.mpr ⟨(k, b), h, by simp⟩

theorem mem_mapValues :
    e ∈ (m.mapValues f).entries ↔ ∃ c, (e.1, c) ∈ m.entries ∧ f e.1 c = e.2 := by
  obtain ⟨k, b⟩ := e
  simp only [mapValues, List.mem_map, Prod.mk.injEq, Prod.exists]
  constructor
  · rintro ⟨_, c, hc, rfl, rfl⟩
    exact ⟨c, hc, rfl⟩
  · rintro ⟨c, hc, rfl⟩
    exact ⟨k, c, hc, rfl, rfl⟩

/-- A key has one value. -/
theorem value_unique (h : (k, b) ∈ m.entries) (h' : (k, c) ∈ m.entries) : b = c := by
  have hkeys : (m.entries.map Prod.fst).Nodup :=
    List.pairwise_map.mpr (m.sorted.imp fun hlt => hlt.ne)
  have hsame := List.inj_on_of_nodup_map hkeys h h' rfl
  exact congrArg Prod.snd hsame

/-- A key that is there stays where it is. -/
theorem keys_insert (h : (k, c) ∈ m.entries) :
    (m.insert k b).entries.map Prod.fst = m.entries.map Prod.fst := by
  obtain ⟨entries, hsorted⟩ := m
  show (entries.filter (·.1 < k) ++ (k, b) :: entries.filter (k < ·.1)).map Prod.fst =
    entries.map Prod.fst
  induction entries with
  | nil => cases h
  | cons e entries ih =>
      obtain ⟨hbelow, hrest⟩ := List.pairwise_cons.mp hsorted
      rcases List.mem_cons.mp h with rfl | hmem
      · have hnone : entries.filter (·.1 < k) = [] := by
          rw [List.filter_eq_nil_iff]
          intro e he
          simp [(hbelow e he).le]
        have hall : entries.filter (k < ·.1) = entries := by
          rw [List.filter_eq_self]
          intro e he
          simpa using hbelow e he
        simp [hnone, hall]
      · have hless : e.1 < k := hbelow _ hmem
        have hkept := ih hrest hmem
        rw [List.filter_cons_of_pos (by simpa using hless),
          List.filter_cons_of_neg (by simpa using hless.le), List.cons_append, List.map_cons, hkept,
          List.map_cons]

theorem get?_eq_some : m.get? k = some b ↔ (k, b) ∈ m.entries := by
  simp only [get?, Option.map_eq_some_iff, Prod.exists]
  constructor
  · rintro ⟨k', _, hfind, rfl⟩
    obtain rfl : k' = k := by simpa using List.find?_some hfind
    exact List.mem_of_find?_eq_some hfind
  · intro h
    obtain ⟨⟨k', c⟩, hfind⟩ : ∃ e, m.entries.find? (·.1 = k) = some e :=
      Option.isSome_iff_exists.mp (List.find?_isSome.mpr ⟨_, h, decide_eq_true rfl⟩)
    obtain rfl : k' = k := by simpa using List.find?_some hfind
    exact ⟨k', c, hfind, value_unique (List.mem_of_find?_eq_some hfind) h⟩

theorem get?_eq_none : m.get? k = none ↔ ∀ b, (k, b) ∉ m.entries := by
  rw [Option.eq_none_iff_forall_not_mem]
  exact forall_congr' fun b => not_congr get?_eq_some

theorem get?_insert (k' : κ) : (m.insert k b).get? k' = if k' = k then some b else m.get? k' := by
  ext c
  rw [get?_eq_some, mem_insert]
  split_ifs with heq
  · simp [heq, eq_comm]
  · simp [heq, get?_eq_some]

theorem get?_erase (k' : κ) : (m.erase k).get? k' = if k' = k then none else m.get? k' := by
  ext c
  rw [get?_eq_some, mem_erase]
  split_ifs with heq
  · simp [heq]
  · simp [heq, get?_eq_some]

theorem get?_mapValues : (m.mapValues f).get? k = (m.get? k).map (f k) := by
  ext c
  simp [get?_eq_some, mem_mapValues]

theorem get?_modify {f : β → β} (k' : κ) :
    (m.modify k f).get? k' = if k' = k then (m.get? k).map f else m.get? k' := by
  rw [modify, get?_mapValues]
  split_ifs with heq
  · rw [heq]
  · exact Option.map_id'

theorem get?_retain {keep : κ → β → Bool} :
    (m.retain keep).get? k = (m.get? k).filter (keep k) := by
  ext c
  simp [get?_eq_some, retain, Option.filter_eq_some_iff]

/-- The entries of a key are the one it has, if any. -/
theorem filter_key (m : OrderedMap κ β) (k : κ) :
    m.entries.filter (·.1 = k) = (m.get? k).toList.map (k, ·) := by
  have hsorted := m.sorted.filter (·.1 = k)
  have hmem : ∀ e, e ∈ m.entries.filter (·.1 = k) ↔ ∃ b, m.get? k = some b ∧ e = (k, b) := by
    rintro ⟨k', c⟩
    simp only [List.mem_filter, decide_eq_true_eq, get?_eq_some, Prod.mk.injEq]
    constructor
    · rintro ⟨h, rfl⟩
      exact ⟨c, h, rfl, rfl⟩
    · rintro ⟨b, h, rfl, rfl⟩
      exact ⟨h, rfl⟩
  match h : m.entries.filter (·.1 = k), hget : m.get? k with
  | [], none => rw [h, Option.toList_none, List.map_nil]
  | [], some b => simpa [h, hget] using hmem (k, b)
  | [e], none => simpa [h, hget] using hmem e
  | [e], some b =>
      obtain ⟨c, hc, rfl⟩ := (hmem e).mp (by simp [h])
      cases hget.symm.trans hc
      rw [h, Option.toList_some, List.map_singleton]
  | e :: e' :: _, _ =>
      -- Two entries of one key are not in order.
      obtain ⟨b, _, rfl⟩ := (hmem e).mp (by simp [h])
      obtain ⟨b', _, rfl⟩ := (hmem e').mp (by simp [h])
      simp [h] at hsorted

theorem nodup (m : OrderedMap κ β) : m.entries.Nodup :=
  m.sorted.imp fun hlt heq => hlt.ne (congrArg Prod.fst heq)

/-- An entry that is put before those of the other keys. -/
theorem nodup_cons_erase (m : OrderedMap κ β) (k : κ) (b : β) :
    ((k, b) :: (m.erase k).entries).Nodup :=
  List.nodup_cons.mpr ⟨fun h => (mem_erase.mp h).1 rfl, nodup _⟩

theorem perm_insert (m : OrderedMap κ β) (k : κ) (b : β) :
    (m.insert k b).entries.Perm ((k, b) :: (m.erase k).entries) := by
  refine (List.perm_ext_iff_of_nodup (nodup _) (m.nodup_cons_erase k b)).mpr fun e => ?_
  rw [mem_insert, List.mem_cons, mem_erase]

/-- The entry of a key, and the others. -/
theorem perm_of_get? (h : m.get? k = some b) :
    m.entries.Perm ((k, b) :: (m.erase k).entries) := by
  have hentry : (k, b) ∈ m.entries := get?_eq_some.mp h
  refine (List.perm_ext_iff_of_nodup (nodup _) (m.nodup_cons_erase k b)).mpr fun e => ?_
  rw [List.mem_cons, mem_erase]
  constructor
  · intro he
    rcases eq_or_ne e.1 k with rfl | hne
    · exact .inl (Prod.ext rfl (value_unique he hentry))
    · exact .inr ⟨hne, he⟩
  · rintro (rfl | ⟨-, he⟩)
    · exact hentry
    · exact he

theorem entries_erase_of_none (h : m.get? k = none) : (m.erase k).entries = m.entries := by
  refine List.filter_eq_self.mpr fun e he => decide_eq_true fun heq => ?_
  exact get?_eq_none.mp h e.2 (heq ▸ he)

/-- The head has the least key. -/
theorem head_le {least : κ × β} (hleast : m.entries.head? = some least) (he : e ∈ m.entries) :
    least.1 ≤ e.1 := by
  obtain ⟨rest, hentries⟩ := List.head?_eq_some_iff.mp hleast
  have hsorted := m.sorted
  rw [hentries] at he hsorted
  rcases List.mem_cons.mp he with rfl | he
  · exact le_rfl
  · exact ((List.pairwise_cons.mp hsorted).1 e he).le

/-! ### Counting entries -/

variable {q : κ × β → Bool}

theorem countP_erase_le : (m.erase k).entries.countP q ≤ m.entries.countP q :=
  List.Sublist.countP_le (List.filter_sublist ..)

/-- An entry that goes is one less. -/
theorem countP_erase_of_mem (h : (k, b) ∈ m.entries) :
    (m.erase k).entries.countP q + (if q (k, b) then 1 else 0) ≤ m.entries.countP q := by
  split
  case isTrue hq =>
    rw [List.countP_eq_length_filter, List.countP_eq_length_filter, erase, List.filter_comm]
    refine List.length_filter_lt_length_iff_exists.mpr ⟨(k, b), ?_, by simp⟩
    exact List.mem_filter.mpr ⟨h, hq⟩
  case isFalse => exact countP_erase_le

theorem countP_erase_add (m : OrderedMap κ β) (k : κ) : (m.erase k).entries.countP q +
    ((m.get? k).toList.map (k, ·)).countP q = m.entries.countP q := by
  rw [← filter_key, erase, m.entries.countP_eq_countP_filter_add q (·.1 ≠ k)]
  simp

/-- An entry that is inserted is counted once, instead of the one of its key. -/
theorem countP_insert : (m.insert k b).entries.countP q =
    (m.erase k).entries.countP q + if q (k, b) then 1 else 0 := by
  have hsplit : ∀ l : List (κ × β),
      (l.filter (·.1 < k)).countP q + (l.filter (k < ·.1)).countP q =
        (l.filter (·.1 ≠ k)).countP q := by
    intro l
    induction l with
    | nil => rfl
    | cons e l ih =>
        simp only [ne_eq] at ih
        rcases lt_trichotomy e.1 k with hlt | heq | hgt
        · simp only [List.filter_cons, hlt, hlt.not_gt, hlt.ne, decide_true, decide_false, ne_eq,
            not_false_eq_true, if_true, if_false, List.countP_cons, Bool.false_eq_true]
          omega
        · simp only [List.filter_cons, heq, lt_irrefl, decide_false, ne_eq, not_true_eq_false,
            if_false, Bool.false_eq_true]
          exact ih
        · simp only [List.filter_cons, hgt, hgt.not_gt, hgt.ne', decide_true, decide_false, ne_eq,
            not_false_eq_true, if_true, if_false, List.countP_cons, Bool.false_eq_true]
          omega
  rw [insert, List.countP_append, List.countP_cons, erase, ← hsplit m.entries, Nat.add_assoc]

theorem countP_mapValues {q : κ → Bool} :
    (m.mapValues f).entries.countP (fun e => q e.1) = m.entries.countP fun e => q e.1 :=
  List.countP_map ..

end OrderedMap

end SynologyFilestation.Library
