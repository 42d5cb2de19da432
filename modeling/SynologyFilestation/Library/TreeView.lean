import SynologyFilestation.Library.FileTree

/-!
What a client can see of a tree: under each path, how the entry is spelled and
what its content is if it is a file.

A change of one directory is seen in that directory and below it, and nowhere
else (`seen_alterDir_elsewhere`); below an entry one sees what is in its tree
(`entryIn_append`).
-/

namespace SynologyFilestation.Library.FileTree

variable {N K C : Type} [DecidableEq K] {fold : N → K}

def content : FileTree N C → Option C
  | .file content => some content
  | .dir _ => none

section Definitions

variable (fold)

/-- The entry under a path. -/
def entryIn : List N → FileTree N C → Option (N × FileTree N C)
  | [], _ => none
  | _ :: _, .file _ => none
  | [name], .dir children => findEntry fold children name
  | name :: next :: rest, .dir children =>
      (findEntry fold children name).bind fun e => entryIn (next :: rest) e.2

/-- What is seen under a path. -/
def seen (path : List N) (t : FileTree N C) : Option (N × Option C) :=
  (entryIn fold path t).map fun e => (e.1, e.2.content)

end Definitions

variable {path rest : List N} {name : N} {t : FileTree N C}

@[simp] theorem entryIn_file (path : List N) (c : C) :
    entryIn fold path (.file c : FileTree N C) = none := by
  cases path <;> rfl

@[simp] theorem entryIn_empty (path : List N) :
    entryIn fold path (.dir [] : FileTree N C) = none := by
  cases path with
  | nil => rfl
  | cons name rest => cases rest <;> rfl

theorem entryIn_cons (hrest : rest ≠ []) (children : List (N × FileTree N C)) :
    entryIn fold (name :: rest) (.dir children) =
      (findEntry fold children name).bind fun e => entryIn fold rest e.2 := by
  cases rest with
  | nil => exact (hrest rfl).elim
  | cons next rest => rfl

theorem entryIn_concat (path : List N) (name : N) (t : FileTree N C) :
    entryIn fold (path ++ [name]) t =
      (dirAt fold path t).bind fun children => findEntry fold children name := by
  induction path generalizing t with
  | nil => cases t <;> rfl
  | cons first rest ih =>
      cases t with
      | file c => rfl
      | dir children =>
          rw [List.cons_append, entryIn_cons (by simp), dirAt, Option.bind_assoc]
          congr 1
          funext e
          exact ih e.2

/-- Below an entry one sees what is in its tree. -/
theorem entryIn_append (hpath : path ≠ []) (hrest : rest ≠ []) (t : FileTree N C) :
    entryIn fold (path ++ rest) t =
      (entryIn fold path t).bind fun e => entryIn fold rest e.2 := by
  induction path generalizing t with
  | nil => exact (hpath rfl).elim
  | cons name path ih =>
      cases t with
      | file c => rfl
      | dir children =>
          cases path with
          | nil => exact entryIn_cons hrest children
          | cons next path =>
              rw [List.cons_append, entryIn_cons (by simp), entryIn_cons (by simp),
                Option.bind_assoc]
              congr 1
              funext e
              exact ih (by simp) e.2

theorem entryIn_congr {path' : List N} (h : path.map fold = path'.map fold)
    (t : FileTree N C) : entryIn fold path t = entryIn fold path' t := by
  induction path generalizing path' t with
  | nil =>
      obtain rfl : path' = [] := List.map_eq_nil_iff.mp h.symm
      rfl
  | cons name rest ih =>
      cases path' with
      | nil => cases h
      | cons name' rest' =>
          obtain ⟨hname, hrest⟩ := List.cons.inj h
          cases t with
          | file c => rfl
          | dir children =>
              rcases eq_or_ne rest [] with rfl | hne
              · obtain rfl : rest' = [] := List.map_eq_nil_iff.mp hrest.symm
                exact findEntry_congr hname
              · have hne' : rest' ≠ [] := by
                  rintro rfl
                  exact hne (List.map_eq_nil_iff.mp hrest)
                rw [entryIn_cons hne, entryIn_cons hne', findEntry_congr hname]
                congr 1
                funext e
                exact ih hrest e.2

theorem content_alterDir (f : List (N × FileTree N C) → List (N × FileTree N C))
    (path : List N) (t : FileTree N C) : (alterDir fold f path t).content = t.content := by
  cases t with
  | file c => cases path <;> rfl
  | dir children => cases path <;> rfl

/-- In the directory that is changed, and in what is under it. -/
theorem entryIn_alterDir (f : List (N × FileTree N C) → List (N × FileTree N C))
    (parent : List N) (name : N) (t : FileTree N C) :
    entryIn fold (parent ++ [name]) (alterDir fold f parent t) =
      (dirAt fold parent t).bind fun children => findEntry fold (f children) name := by
  rw [entryIn_concat, dirAt_alterDir, Option.bind_map]
  rfl

/-- A change of one directory is not seen outside it. -/
theorem seen_alterDir_elsewhere (f : List (N × FileTree N C) → List (N × FileTree N C))
    {parent : List N} (hout : ¬ parent.map fold <+: path.map fold) (name : N)
    (t : FileTree N C) :
    seen fold (path ++ [name]) (alterDir fold f parent t) = seen fold (path ++ [name]) t := by
  induction parent generalizing path t with
  | nil => exact (hout (List.nil_prefix)).elim
  | cons first parent ih =>
      cases t with
      | file c => rfl
      | dir children =>
          rw [alterDir]
          cases path with
          | nil =>
              simp only [seen, List.nil_append, entryIn, findEntry_alterEntry]
              split
              case isTrue =>
                rw [Option.map_map]
                congr 1
                funext e
                exact congrArg (Prod.mk e.1) (content_alterDir f parent e.2)
              case isFalse => rfl
          | cons next path =>
              simp only [seen, List.cons_append, entryIn_cons (by simp : path ++ [name] ≠ []),
                findEntry_alterEntry]
              split
              case isTrue hkey =>
                have hin : ¬ parent.map fold <+: path.map fold := by
                  intro hprefix
                  apply hout
                  rw [List.map_cons, List.map_cons, hkey]
                  exact (List.prefix_cons_inj _).mpr hprefix
                rw [Option.bind_map, Option.map_bind, Option.map_bind]
                congr 1
                funext e
                exact ih hin e.2
              case isFalse => rfl

omit [DecidableEq K] in
/-- A path that leads through a directory is, by its keys, one from there on. -/
theorem exists_below {dir : List N} (h : dir.map fold <+: path.map fold) (name : N) :
    ∃ first rest, (path ++ [name]).map fold = (dir ++ [first] ++ rest).map fold := by
  obtain ⟨keys, hkeys⟩ := h
  rw [eq_comm, List.map_eq_append_iff] at hkeys
  obtain ⟨front, back, rfl, hfront, _⟩ := hkeys
  cases back with
  | nil => exact ⟨name, [], by simp [hfront]⟩
  | cons first back => exact ⟨first, back ++ [name], by simp [hfront]⟩

/-- A change under one name is not seen but under that name. -/
theorem seen_alterDir_beside {f : List (N × FileTree N C) → List (N × FileTree N C)}
    (hf : ∀ children other, fold other ≠ fold name →
      findEntry fold (f children) other = findEntry fold children other)
    {parent : List N} (hpath : ¬ (parent ++ [name]).map fold <+: path.map fold)
    (t : FileTree N C) : seen fold path (alterDir fold f parent t) = seen fold path t := by
  rcases List.eq_nil_or_concat path with rfl | ⟨path, last, rfl⟩
  · rfl
  rw [List.concat_eq_append] at hpath ⊢
  by_cases hin : parent.map fold <+: path.map fold
  · obtain ⟨first, rest, hkeys⟩ := exists_below hin last
    have hother : fold first ≠ fold name := by
      intro hsame
      apply hpath
      rw [hkeys]
      exact ⟨rest.map fold, by simp [hsame]⟩
    have hentry : entryIn fold (parent ++ [first]) (alterDir fold f parent t) =
        entryIn fold (parent ++ [first]) t := by
      rw [entryIn_alterDir, entryIn_concat]
      congr 1
      funext children
      exact hf children first hother
    rw [seen, seen, entryIn_congr hkeys, entryIn_congr hkeys]
    rcases eq_or_ne rest [] with rfl | hrest
    · rw [List.append_nil, hentry]
    · rw [entryIn_append (by simp) hrest, entryIn_append (by simp) hrest, hentry]
  · exact seen_alterDir_elsewhere f hin last t

/-- A change under one name keeps every entry that is neither above nor below that name. -/
theorem entryIn_alterDir_apart {f : List (N × FileTree N C) → List (N × FileTree N C)}
    (hf : ∀ children other, fold other ≠ fold name →
      findEntry fold (f children) other = findEntry fold children other)
    {parent : List N} (hpath : ¬ (parent ++ [name]).map fold <+: path.map fold)
    (habove : ¬ path.map fold <+: (parent ++ [name]).map fold) (t : FileTree N C) :
    entryIn fold path (alterDir fold f parent t) = entryIn fold path t := by
  induction parent generalizing path t with
  | nil =>
      cases t with
      | file c => rfl
      | dir children =>
          cases path with
          | nil => rfl
          | cons first rest =>
              have hother : fold first ≠ fold name := by
                intro hsame
                apply hpath
                simp [hsame]
              rw [alterDir]
              rcases eq_or_ne rest [] with rfl | hrest
              · exact hf children first hother
              · rw [entryIn_cons hrest, entryIn_cons hrest, hf children first hother]
  | cons next parent ih =>
      cases t with
      | file c => rfl
      | dir children =>
          cases path with
          | nil => rfl
          | cons first rest =>
              have hrest : fold first = fold next → rest ≠ [] := by
                rintro hsame rfl
                apply habove
                simp [hsame]
              rw [alterDir]
              by_cases hkey : fold first = fold next
              · rw [entryIn_cons (hrest hkey), entryIn_cons (hrest hkey), findEntry_alterEntry,
                  if_pos hkey, Option.bind_map]
                congr 1
                funext e
                apply ih
                · intro hprefix
                  apply hpath
                  simpa [hkey, List.prefix_cons_inj] using hprefix
                · intro hprefix
                  apply habove
                  simpa [hkey, List.prefix_cons_inj] using hprefix
              · rcases eq_or_ne rest [] with rfl | hnil
                · rw [entryIn, entryIn, findEntry_alterEntry, if_neg hkey]
                · rw [entryIn_cons hnil, entryIn_cons hnil, findEntry_alterEntry, if_neg hkey]

theorem findEntry_append_of_ne {other : N} (h : fold other ≠ fold name)
    (children : List (N × FileTree N C)) (t : FileTree N C) :
    findEntry fold (children ++ [(name, t)]) other = findEntry fold children other := by
  rw [findEntry, List.find?_append]
  simp [findEntry, Ne.symm h]

theorem findEntry_putEntry_of_ne {other : N} (h : fold other ≠ fold name)
    (children : List (N × FileTree N C)) (t : FileTree N C) :
    findEntry fold (putEntry fold children name t) other = findEntry fold children other := by
  rw [putEntry]
  split
  case isTrue => rw [findEntry_alterEntry, if_neg h]
  case isFalse => exact findEntry_append_of_ne h children t

theorem seen_eq_none {t : FileTree N C} : seen fold path t = none ↔ entryIn fold path t = none :=
  Option.map_eq_none_iff

/-- A directory that is not the root is an entry without content. -/
theorem dirAt_isSome (hpath : path ≠ []) :
    (dirAt fold path t).isSome ↔ ∃ name, seen fold path t = some (name, none) := by
  induction path generalizing t with
  | nil => exact (hpath rfl).elim
  | cons name rest ih =>
      cases t with
      | file c => simp [dirAt, seen]
      | dir children =>
          rcases eq_or_ne rest [] with rfl | hrest
          · rw [dirAt, seen, entryIn]
            rcases findEntry fold children name with _ | ⟨spelled, c | entries⟩ <;>
              simp [dirAt, content]
          · rw [dirAt, seen, entryIn_cons hrest]
            cases findEntry fold children name with
            | none => simp
            | some e => exact ih hrest

/-! ### Directories that are made -/

/-- Making the directories of a path is not seen off that path. -/
theorem seen_ensureDir {parent : List N} (hout : ¬ path.map fold <+: parent.map fold)
    (t : FileTree N C) : seen fold path (ensureDir fold parent t) = seen fold path t := by
  induction parent generalizing path t with
  | nil => cases t <;> rfl
  | cons name rest ih =>
      cases t with
      | file c => rfl
      | dir children =>
          cases path with
          | nil => exact (hout List.nil_prefix).elim
          | cons first below =>
              have hstep : fold first = fold name → ¬ below.map fold <+: rest.map fold := by
                intro hkey hprefix
                apply hout
                rw [List.map_cons, List.map_cons, hkey]
                exact (List.prefix_cons_inj _).mpr hprefix
              have hbelow : fold first = fold name → below ≠ [] := by
                rintro hkey rfl
                exact hstep hkey List.nil_prefix
              rw [ensureDir]
              split
              case h_1 =>
                rcases eq_or_ne below [] with rfl | hne
                · rw [seen, seen, entryIn, entryIn, findEntry_alterEntry,
                    if_neg fun hkey => hbelow hkey rfl]
                · rw [seen, seen, entryIn_cons hne, entryIn_cons hne, findEntry_alterEntry]
                  split
                  case isTrue hkey =>
                    rw [Option.bind_map, Option.map_bind, Option.map_bind]
                    congr 1
                    funext e
                    exact ih (hstep hkey) e.2
                  case isFalse => rfl
              case h_2 hnone =>
                by_cases hkey : fold first = fold name
                · rw [seen, seen, entryIn_cons (hbelow hkey), entryIn_cons (hbelow hkey),
                    findEntry_congr hkey, findEntry_congr hkey, findEntry_concat hnone, hnone]
                  refine (ih (hstep hkey) (.dir [])).trans ?_
                  simp [seen]
                · rcases eq_or_ne below [] with rfl | hne
                  · rw [seen, seen, entryIn, entryIn, findEntry_append_of_ne hkey]
                  · rw [seen, seen, entryIn_cons hne, entryIn_cons hne,
                      findEntry_append_of_ne hkey]

/-- Only a file in the way keeps the directories of a path from being made. -/
theorem dirAt_ensureDir_eq_none (path : List N) (t : FileTree N C) :
    dirAt fold path (ensureDir fold path t) = none ↔ (∃ c, t = .file c) ∨
      ∃ front name c, front.map fold <+: path.map fold ∧
        entryIn fold front t = some (name, .file c) := by
  induction path generalizing t with
  | nil =>
      cases t with
      | file c => exact iff_of_true rfl (Or.inl ⟨c, rfl⟩)
      | dir children =>
          refine iff_of_false nofun ?_
          rintro (⟨c, hc⟩ | ⟨front, name, c, hfront, hentry⟩)
          · cases hc
          · obtain rfl : front = [] :=
              List.map_eq_nil_iff.mp (List.prefix_nil.mp hfront)
            cases hentry
  | cons name rest ih =>
      cases t with
      | file c => exact iff_of_true rfl (Or.inl ⟨c, rfl⟩)
      | dir children =>
          rw [ensureDir]
          split
          case h_1 e he =>
            rw [dirAt, findEntry_alterEntry, if_pos rfl, he]
            refine (ih e.2).trans ⟨?_, ?_⟩
            · rintro (⟨c, hc⟩ | ⟨front, name', c, hfront, hentry⟩)
              · refine Or.inr ⟨[name], e.1, c, ?_, he.trans ?_⟩
                · exact (List.prefix_cons_inj _).mpr List.nil_prefix
                · rw [← hc]
              · have hne : front ≠ [] := by
                  rintro rfl
                  cases hentry
                refine Or.inr ⟨name :: front, name', c, (List.prefix_cons_inj _).mpr hfront, ?_⟩
                rw [entryIn_cons hne, he]
                exact hentry
            · rintro (⟨c, hc⟩ | ⟨front, name', c, hfront, hentry⟩)
              · cases hc
              · cases front with
                | nil => cases hentry
                | cons first front =>
                    obtain ⟨hkey, hprefix⟩ := List.cons_prefix_cons.mp hfront
                    rcases eq_or_ne front [] with rfl | hne
                    · rw [entryIn, findEntry_congr hkey, he] at hentry
                      exact Or.inl ⟨c, congrArg Prod.snd (Option.some.inj hentry)⟩
                    · rw [entryIn_cons hne, findEntry_congr hkey, he] at hentry
                      exact Or.inr ⟨front, name', c, hprefix, hentry⟩
          case h_2 hnone =>
            rw [dirAt, findEntry_concat hnone]
            refine iff_of_false (fun hrest => ?_) ?_
            · rcases (ih (.dir [])).mp hrest with ⟨c, hc⟩ | ⟨front, name', c, _, hentry⟩
              · cases hc
              · rw [entryIn_empty] at hentry
                cases hentry
            · rintro (⟨c, hc⟩ | ⟨front, name', c, hfront, hentry⟩)
              · cases hc
              · cases front with
                | nil => cases hentry
                | cons first front =>
                    obtain ⟨hkey, -⟩ := List.cons_prefix_cons.mp hfront
                    cases front with
                    | nil =>
                        rw [entryIn, findEntry_congr hkey, hnone] at hentry
                        cases hentry
                    | cons next more =>
                        rw [entryIn, findEntry_congr hkey, hnone] at hentry
                        cases hentry

end SynologyFilestation.Library.FileTree
