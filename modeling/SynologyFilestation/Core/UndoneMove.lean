import SynologyFilestation.Core.Moves

/-!
What a move leaves behind that says it did nothing (`move_to` in
`core/src/client/moves.rs`). Over HTTP a move is up to three requests, and a
request that failed may have been carried out: an answer was lost, and what was
asked for again was done already. One rename is put back, where the code tells
that nothing else ran; a folder that was cleared away is not.
-/

namespace SynologyFilestation.Core

open Library

variable {fold : String → String}

/-! ### The same names -/

/-- Nobody can tell the one from the other by its names and files. -/
def SameNames (fold : String → String) (v w : Volume) : Prop :=
  ∀ path, v.root.seen fold path = w.root.seen fold path

/-- Under one path. -/
def SameUnder (fold : String → String) (path : NasPath) (v w : Volume) : Prop :=
  ∀ rest, v.root.seen fold (path ++ rest) = w.root.seen fold (path ++ rest)

/-- Outside one directory. -/
def SameOutside (fold : String → String) (dir : NasPath) (v w : Volume) : Prop :=
  ∀ path name, ¬ dir.map fold <+: path.map fold →
    w.root.seen fold (path ++ [name]) = v.root.seen fold (path ++ [name])

section Same

variable {v w x : Volume} {dir path rest : NasPath} {name newName : String}

theorem SameNames.trans (h : SameNames fold v w) (h' : SameNames fold w x) :
    SameNames fold v x := fun path => (h path).trans (h' path)

theorem SameNames.under (h : SameNames fold v w) (path : NasPath) : SameUnder fold path v w :=
  fun rest => h (path ++ rest)

theorem SameOutside.trans (h : SameOutside fold dir v w) (h' : SameOutside fold dir w x) :
    SameOutside fold dir v x :=
  fun path name hout => (h' path name hout).trans (h path name hout)

theorem Volume.seen_eq (v : Volume) (path : NasPath) :
    v.root.seen fold path = (v.entryAt fold path).map fun e => (e.1, e.2.content) := by
  rw [FileTree.seen, Volume.entryAt_eq_entryIn]

/-- Below an entry one sees what is in its tree. -/
theorem Volume.entryAt_append (hpath : path ≠ []) (hrest : rest ≠ []) :
    v.entryAt fold (path ++ rest) =
      (v.treeAt fold path).bind fun t => FileTree.entryIn fold rest t := by
  rw [Volume.treeAt, Volume.entryAt_eq_entryIn, Volume.entryAt_eq_entryIn,
    FileTree.entryIn_append hpath hrest, Option.bind_map]
  rfl

/-- Two volumes that agree outside a directory and on its entries agree. -/
theorem SameOutside.sameNames (hout : SameOutside fold dir v w)
    (hin : ∀ other, w.entryAt fold (dir ++ [other]) = v.entryAt fold (dir ++ [other])) :
    SameNames fold v w := by
  intro path
  rcases List.eq_nil_or_concat path with rfl | ⟨path, name, rfl⟩
  · rfl
  rw [List.concat_eq_append]
  by_cases hprefix : dir.map fold <+: path.map fold
  · obtain ⟨first, rest, hkeys⟩ := FileTree.exists_below hprefix name
    rw [Volume.seen_eq, Volume.seen_eq, Volume.entryAt_congr hkeys, Volume.entryAt_congr hkeys]
    rcases eq_or_ne rest [] with rfl | hrest
    · rw [List.append_nil, hin]
    · rw [Volume.entryAt_append (by simp) hrest, Volume.entryAt_append (by simp) hrest,
        Volume.treeAt, Volume.treeAt, hin]
  · exact (hout path name hprefix).symm

end Same

/-! ### A rename, and its way back -/

section Rename

variable {v w x : Volume} {dir : NasPath} {name newName : String}

/-- The entry called `name` is one that is spelled `spelled`, and the names have one key. -/
def Called (fold : String → String) (v : Volume) (dir : NasPath) (name spelled : String) : Prop :=
  fold spelled = fold name ∧ (v.entryAt fold (dir ++ [name])).map (·.1) = some spelled

theorem Volume.rename_outside (p : Party) (v : Volume) :
    SameOutside fold dir v (v.rename fold p (dir ++ [name]) newName).2 := by
  intro path other hout
  unfold Volume.rename
  rw [splitNasPath_concat]
  split
  case h_1 parent _ e hsplit _ =>
    obtain ⟨rfl, -⟩ := Prod.mk.inj (Option.some.inj hsplit)
    split
    case isTrue => rfl
    case isFalse => exact FileTree.seen_alterDir_elsewhere _ hout other v.root
  case h_2 => rfl

theorem rename_outside (sc : RequestScript) (c : Client Volume) :
    SameOutside fold dir c.server (rename fold sc (dir ++ [name]) newName c).2.server :=
  request_rule (renameOp fold (dir ++ [name]) newName)
    (P := fun w => SameOutside fold dir c.server w)
    (fun p w h => h.trans (Volume.rename_outside p w)) sc fun _ _ _ => rfl

/-- Renamed to what it was called. -/
theorem Called.sameNames (h : Called fold v dir name newName)
    (hrenamed : v.Renamed fold dir name newName w) (hout : SameOutside fold dir v w) :
    SameNames fold v w := by
  obtain ⟨hkey, hspelled⟩ := h
  apply hout.sameNames
  intro other
  rw [hrenamed other]
  split
  case isTrue hother =>
    rw [Volume.entryAt_congr (show (dir ++ [other]).map fold = (dir ++ [name]).map fold by
      simp [hother, hkey])]
    cases hentry : v.entryAt fold (dir ++ [name]) with
    | none => rfl
    | some e =>
        rw [hentry] at hspelled
        obtain rfl : e.1 = newName := Option.some.inj hspelled
        rfl
  case isFalse hother =>
    rw [if_neg fun hname => hother (hname.trans hkey.symm)]

/-- What is seen of a name after a rename tells whether the name is what it was. -/
theorem called_of_sameUnder (hentry : (v.entryAt fold (dir ++ [name])).isSome)
    (hrenamed : v.Renamed fold dir name newName w)
    (hsame : SameUnder fold (dir ++ [name]) v w) : Called fold v dir name newName := by
  obtain ⟨e, he⟩ := Option.isSome_iff_exists.mp hentry
  have hseen := hsame []
  rw [List.append_nil, Volume.seen_eq, Volume.seen_eq, hrenamed name, he] at hseen
  by_cases hkey : fold name = fold newName
  · rw [if_pos hkey] at hseen
    refine ⟨hkey.symm, ?_⟩
    rw [he]
    exact congrArg (Option.map Prod.fst) hseen
  · rw [if_neg hkey, if_pos rfl] at hseen
    cases hseen

/-- There and back. -/
theorem Volume.Renamed.back (hv : v.CanRename fold dir name newName)
    (h : v.Renamed fold dir name newName w) (h' : w.Renamed fold dir newName name x) :
    v.Renamed fold dir name name x := by
  intro other
  rw [h' other]
  split
  case isTrue =>
    rw [h.entryAt_new, Option.map_map]
    rfl
  case isFalse hother =>
    split
    case isTrue hnew =>
      rw [Volume.entryAt_congr (show (dir ++ [other]).map fold = (dir ++ [newName]).map fold by
        simp [hnew]), hv.2 fun hsame => hother (hnew.trans hsame)]
    case isFalse hnew => rw [h other, if_neg hnew, if_neg hother]

theorem Volume.Renamed.canRename_back (hv : v.CanRename fold dir name newName)
    (h : v.Renamed fold dir name newName w) : w.CanRename fold dir newName name := by
  refine ⟨?_, fun hdistinct => ?_⟩
  · rw [h.entryAt_new, Option.isSome_map]
    exact hv.1
  · rw [h name, if_neg hdistinct, if_pos rfl]

/-- Nothing comes to be below an entry that keeps its tree or goes. -/
theorem entryAt_none_below {path rest : NasPath} {first : String}
    (htree : w.treeAt fold (dir ++ [first]) = v.treeAt fold (dir ++ [first]) ∨
      w.treeAt fold (dir ++ [first]) = none)
    (hkeys : path.map fold = (dir ++ [first] ++ rest).map fold)
    (hnone : v.entryAt fold path = none) : w.entryAt fold path = none := by
  rw [Volume.entryAt_congr hkeys] at hnone ⊢
  rcases eq_or_ne rest [] with rfl | hrest
  · rw [List.append_nil, ← Volume.treeAt_eq_none] at hnone ⊢
    rcases htree with htree | htree
    · rw [htree, hnone]
    · exact htree
  · rw [Volume.entryAt_append (by simp) hrest] at hnone ⊢
    rcases htree with htree | htree
    · rw [htree, hnone]
    · rw [htree, Option.bind_none]

end Rename

/-! ### A backend that was not heard -/

section Unheard

variable {v w : Volume} {old new path : NasPath}

/-- Where there is nothing, there is nothing below. -/
theorem Volume.treeAt_none_below (hpath : path ≠ []) (hnone : v.treeAt fold path = none)
    {below : NasPath} (hbelow : path.map fold <+: below.map fold) :
    v.treeAt fold below = none := by
  obtain ⟨keys, hkeys⟩ := hbelow
  rw [eq_comm, List.map_eq_append_iff] at hkeys
  obtain ⟨front, rest, rfl, hfront, _⟩ := hkeys
  rw [Volume.treeAt_congr (show (front ++ rest).map fold = (path ++ rest).map fold by
    simp [hfront])]
  rcases eq_or_ne rest [] with rfl | hrest
  · rw [List.append_nil, hnone]
  · rw [Volume.treeAt_eq_none, Volume.entryAt_append hpath hrest, hnone, Option.bind_none]

theorem treeAt_none_iff_seen : v.treeAt fold path = none ↔ v.root.seen fold path = none := by
  rw [Volume.treeAt_eq_none, Volume.seen_eq, Option.map_eq_none_iff]

/-- An entry that was hung in elsewhere is not where it was. -/
theorem Volume.relocate_ok (htarget : v.treeAt fold new = none)
    (h : (v.relocate fold old new).1 = .ok ()) :
    (v.relocate fold old new).2.treeAt fold old = none := by
  revert h
  unfold Volume.relocate
  split
  case h_2 => exact nofun
  case h_1 src name dst newName tree hold hnew htree =>
    dsimp only
    split
    case h_1 => exact nofun
    case h_2 children _ =>
      intro _
      have hout : ¬ (dst ++ [newName]).map fold <+: old.map fold := by
        rw [← eq_of_splitNasPath hnew]
        intro hprefix
        have hnew' : new ≠ [] := by
          rintro rfl
          cases hnew
        rw [Volume.treeAt_none_below hnew' htarget hprefix] at htree
        cases htree
      rw [treeAt_none_iff_seen]
      refine (FileTree.seen_alterDir_beside (fun entries other hother =>
        FileTree.findEntry_append_of_ne hother entries tree) hout _).trans ?_
      rw [FileTree.seen_eq_none, eq_of_splitNasPath hold, FileTree.entryIn_alterDir]
      simp [FileTree.findEntry_eraseEntry]

/-- An entry cannot be hung in only under itself. -/
theorem Volume.relocate_stuck {dst : NasPath} {newName : String} {e : SynoFsError}
    (hsource : (v.treeAt fold old).isSome) (hdir : (v.root.dirAt fold dst).isSome)
    (h : (v.relocate fold old (dst ++ [newName])).1 = .error e) :
    old.map fold <+: dst.map fold := by
  by_contra hout
  obtain ⟨tree, htree⟩ := Option.isSome_iff_exists.mp hsource
  revert h
  unfold Volume.relocate
  rw [splitNasPath_concat, htree]
  split
  case h_2 hnone =>
    cases hold : splitNasPath old with
    | none => simp [Volume.treeAt, Volume.entryAt, hold] at htree
    | some split => exact (hnone _ _ _ _ _ hold rfl rfl).elim
  case h_1 src name dst' newName' tree' hold hnew _ =>
    obtain ⟨rfl, rfl⟩ := Prod.mk.inj (Option.some.inj hnew)
    rw [eq_of_splitNasPath hold] at hout
    dsimp only
    split
    case h_2 => rintro ⟨⟩
    case h_1 hgone =>
      exfalso
      rcases eq_or_ne dst [] with rfl | hdst
      · cases hroot : v.root with
        | file c =>
            rw [hroot] at hdir
            cases hdir
        | dir children =>
            rw [hroot] at hgone
            cases src <;> cases hgone
      · rw [FileTree.dirAt_isSome hdst, ← FileTree.seen_alterDir_beside
          (fun entries other hother => (FileTree.findEntry_eraseEntry other).trans
            (if_neg hother)) hout, ← FileTree.dirAt_isSome hdst, hgone] at hdir
        cases hdir

/-- What a backend may have done although it was not heard: nothing, the move, or
the first half of a move that cannot be: it goes into the entry it moves. -/
def Unheard (fold : String → String) (old new : NasPath) (v w : Volume) : Prop :=
  w = v ∨ w.treeAt fold old = none ∨
    (old.map fold <+: new.map fold ∧ v.entryAt fold new ≠ none ∧ w.entryAt fold new = none)

theorem Destination.ofTree_eq_absent {found : Option Tree}
    (h : Destination.ofTree found = .absent) :
    found = none := by
  rcases found with _ | (content | children)
  · rfl
  · cases h
  · cases h

theorem planMove_fresh {isdir : Bool} {dest : Destination} (h : planMove isdir dest = .ok .fresh) :
    dest = .absent := by
  rcases isdir with _ | _ <;> rcases dest with _ | _ | (_ | _) <;> first | rfl | cases h

theorem planMove_replaceEmptyDir {isdir : Bool} {dest : Destination}
    (h : planMove isdir dest = .ok .replaceEmptyDir) : dest = .dir true := by
  rcases isdir with _ | _ <;> rcases dest with _ | _ | (_ | _) <;> first | rfl | cases h

theorem Destination.ofTree_eq_empty {found : Option Tree}
    (h : Destination.ofTree found = .dir true) : found = some (.dir []) := by
  rcases found with _ | (content | (_ | ⟨e, rest⟩))
  · cases h
  · cases h
  · rfl
  · cases h

theorem Volume.moveTo_unheard (old new : NasPath) (v : Volume) :
    Unheard fold old new v (v.moveTo fold old new).2 := by
  unfold Volume.moveTo
  split
  case h_1 => exact Or.inl rfl
  case h_2 tree htree =>
    split
    case h_1 => exact Or.inl rfl
    case h_2 hplan =>
      cases hrel : (v.relocate fold old new).1 with
      | error e => exact Or.inl (Volume.relocate_error hrel).2
      | ok u =>
          exact Or.inr (Or.inl (Volume.relocate_ok
            (Destination.ofTree_eq_absent (planMove_fresh hplan)) hrel))
    case h_3 hplan =>
      have hempty := Destination.ofTree_eq_empty (planMove_replaceEmptyDir hplan)
      cases hrel : ((v.remove fold new).relocate fold old new).1 with
      | ok u => exact Or.inr (Or.inl (Volume.relocate_ok Volume.treeAt_remove hrel))
      | error e =>
          rw [(Volume.relocate_error hrel).2]
          by_cases hsource : (v.remove fold new).treeAt fold old = none
          · exact Or.inr (Or.inl hsource)
          · obtain ⟨dst, newName, hsplit⟩ : ∃ dst newName, splitNasPath new =
                some (dst, newName) := by
              cases hsplit : splitNasPath new with
              | none => simp [Volume.treeAt, Volume.entryAt, hsplit] at hempty
              | some split => exact ⟨split.1, split.2, rfl⟩
            obtain rfl := eq_of_splitNasPath hsplit
            have hdir : ((v.remove fold (dst ++ [newName])).root.dirAt fold dst).isSome := by
              rw [Volume.remove_of_some hempty, FileTree.dirAt_alterDir, Option.isSome_map]
              rw [Volume.treeAt, Volume.entryAt_concat] at hempty
              cases hdst : v.root.dirAt fold dst with
              | none => simp [hdst] at hempty
              | some children => rfl
            have hin := Volume.relocate_stuck (Option.isSome_iff_ne_none.mpr hsource) hdir hrel
            refine Or.inr (Or.inr ⟨hin.trans ?_, ?_, ?_⟩)
            · rw [List.map_append]
              exact List.prefix_append _ _
            · rw [Ne, ← Volume.treeAt_eq_none, hempty]
              exact Option.some_ne_none _
            · exact Volume.treeAt_eq_none.mp Volume.treeAt_remove
    case h_4 hplan =>
      unfold Volume.replaceFile
      split
      case h_1 _ w hrel =>
        refine Or.inr (Or.inl ?_)
        rw [← show ((v.remove fold new).relocate fold old new).2 = w from congrArg Prod.snd hrel]
        exact Volume.relocate_ok Volume.treeAt_remove (congrArg Prod.fst hrel)
      case h_2 => exact Or.inl rfl

/-- However often backends carried the move out unheard. -/
theorem Unheard.again (h : Unheard fold old new v w) :
    Unheard fold old new v (w.moveTo fold old new).2 := by
  rcases h with rfl | hgone | ⟨hin, hthere, habsent⟩
  · exact Volume.moveTo_unheard old new w
  · have hsame : (w.moveTo fold old new).2 = w := by
      rw [Volume.moveTo, hgone]
    rw [hsame]
    exact Or.inr (Or.inl hgone)
  · rcases Volume.moveTo_unheard old new w with hsame | hgone | ⟨_, hthere', _⟩
    · rw [hsame]
      exact Or.inr (Or.inr ⟨hin, hthere, habsent⟩)
    · exact Or.inr (Or.inl hgone)
    · exact (hthere' habsent).elim

end Unheard

/-! ### The look at both ends -/

section Look

variable {c d : Client Volume} {sc : MoveScript} {m : MoveEnds} {plan : MovePlan} {path : NasPath}

theorem Volume.getInfo_ne_notSupported (v : Volume) :
    (v.getInfo fold .http path).1 ≠ .error .notSupported := by
  unfold Volume.getInfo
  split <;> rintro ⟨⟩

theorem Volume.hasEntries_ne_notSupported (v : Volume) :
    (v.hasEntries fold .http path).1 ≠ .error .notSupported := by
  unfold Volume.hasEntries
  split <;> rintro ⟨⟩

/-- The check for entries, over HTTP. -/
theorem hasEntries_spec (http : ℕ → HttpFate) (c : Client Volume) :
    (hasEntries fold (fun op => op) http path c).2.server = c.server ∧
      ((hasEntries fold (fun op => op) http path c).1 = .ok false →
        c.server.treeAt fold path = some (.dir [])) ∧
      (hasEntries fold (fun op => op) http path c).1 ≠ .error .notSupported := by
  refine ⟨sendRetried_rule (hasEntriesOp fold path) (P := (· = c.server))
    (fun p v hv => (Volume.hasEntries_volume p v).trans hv) http (.io "no attempts") 0 3 rfl,
    fun h => ?_, ?_⟩
  case refine_2 =>
    exact @sendRetried_ne_notSupported _ _ (hasEntriesOp fold path)
      (fun v => Volume.hasEntries_ne_notSupported v) http (.io "no attempts") nofun 0 3 c.server
  change (sendRetried (hasEntriesOp fold path) http (.io "no attempts") 0 3 c.server).1 = _ at h
  obtain ⟨p, hrun⟩ := sendRetried_ok (fun p =>
    show ((hasEntriesOp fold path).run p c.server).2 = _ from Volume.hasEntries_volume p c.server) h
  change (c.server.hasEntries fold p path).1 = _ at hrun
  unfold Volume.hasEntries at hrun
  split at hrun
  case h_1 children htree =>
    have hnone : children = [] := by simpa using Except.ok.inj hrun
    rw [htree, hnone]
  case h_2 => cases hrun

theorem destination_spec (info : RequestScript) (entries : ℕ → HttpFate) (c : Client Volume) :
    (destination fold (fun op => op) info entries path c).2.server = c.server ∧
      ((destination fold (fun op => op) info entries path c).1 = .ok (.dir true) →
        c.server.treeAt fold path = some (.dir [])) ∧
      (destination fold (fun op => op) info entries path c).1 ≠ .error .notSupported := by
  have hserver : (request (getInfoOp fold path) info c).2.server = c.server := getInfo_server
  have hfound : (request (getInfoOp fold path) info c).1 ≠ .error .notSupported :=
    request_ne_notSupported (fun v => Volume.getInfo_ne_notSupported v) info c
  unfold destination
  cases hinfo : request (getInfoOp fold path) info c with
  | mk found d =>
      rw [hinfo] at hserver hfound
      rcases found with e | found
      · refine ⟨hserver, ?_, ?_⟩
        · dsimp only
          split <;> exact nofun
        · dsimp only
          split
          case isTrue => exact nofun
          case isFalse => exact fun h => hfound (congrArg _ (Except.error.inj h))
      · dsimp only at hserver ⊢
        split
        case isTrue =>
          obtain ⟨hquiet, hempty, hdeclines⟩ := @hasEntries_spec fold path entries d
          rw [hserver] at hquiet hempty
          dsimp only
          cases hentries : hasEntries fold (fun op => op) entries path d with
          | mk full d' =>
              rw [hentries] at hquiet hempty hdeclines
              refine ⟨hquiet, fun h => hempty ?_, ?_⟩
              · rcases full with e | (_ | _)
                · cases h
                · rfl
                · cases h
              · rcases full with e | full
                · exact fun h => hdeclines (congrArg _ (Except.error.inj h))
                · exact nofun
        case isFalse => exact ⟨hserver, nofun, nofun⟩

theorem planMove_ne_notSupported (isdir : Bool) (dest : Destination) :
    planMove isdir dest ≠ .error .notSupported := by
  unfold planMove
  split <;> exact nofun

theorem lookAtEnds_spec (sc : MoveScript) (m : MoveEnds) (c : Client Volume) :
    (lookAtEnds fold (fun op => op) sc m c).2.server = c.server ∧
      (lookAtEnds fold (fun op => op) sc m c).1 ≠ .error .notSupported ∧
      ∀ plan, (lookAtEnds fold (fun op => op) sc m c).1 = .ok plan →
        (c.server.entryAt fold m.old).isSome ∧
          (plan = .replaceEmptyDir → c.server.treeAt fold m.new = some (.dir [])) := by
  have hserver : (request (getInfoOp fold m.old) sc.source c).2.server = c.server := getInfo_server
  have hfound : (request (getInfoOp fold m.old) sc.source c).1 ≠ .error .notSupported :=
    request_ne_notSupported (fun v => Volume.getInfo_ne_notSupported v) sc.source c
  unfold lookAtEnds
  cases hinfo : request (getInfoOp fold m.old) sc.source c with
  | mk source d =>
      rw [hinfo] at hserver hfound
      rcases source with e | source
      · exact ⟨hserver, fun h => hfound (congrArg _ (Except.error.inj h)), nofun⟩
      · obtain ⟨hquiet, hempty, hdeclines⟩ := @destination_spec fold m.new sc.dest sc.entries d
        obtain ⟨e, he, _⟩ := getInfo_ok (show (getInfo fold sc.source m.old c).1 = _ from
          congrArg Prod.fst hinfo)
        dsimp only at hserver ⊢
        rw [hserver] at hquiet hempty
        refine ⟨hquiet, ?_, fun plan hplan => ⟨Option.isSome_of_mem he, ?_⟩⟩
        · cases hdest : (destination fold (fun op => op) sc.dest sc.entries m.new d).1 with
          | error e =>
              rw [hdest] at hdeclines
              exact fun h => hdeclines (congrArg _ (Except.error.inj h))
          | ok dest => exact planMove_ne_notSupported source.isdir dest
        · rintro rfl
          apply hempty
          cases hdest : (destination fold (fun op => op) sc.dest sc.entries m.new d).1 with
          | error e =>
              rw [hdest] at hplan
              cases hplan
          | ok dest =>
              rw [hdest] at hplan
              rw [planMove_replaceEmptyDir hplan]

/-- A move that ends before it has a plan does not say that nothing was moved. -/
theorem planFirst_error {old new : NasPath} {r : Except SynoFsError Unit}
    (h : planFirst fold (fun op => op) sc old new c = (.error r, d)) :
    r ≠ .error .notSupported := by
  unfold planFirst at h
  cases hvia : viaBackends (moveOp fold old new) sc.backend c.metadataBreakers c.server with
  | mk answer rest =>
      obtain ⟨breakers, s⟩ := rest
      rw [hvia] at h
      rcases answer with _ | answer
      case some =>
        obtain rfl : answer = r := Except.error.inj (congrArg Prod.fst h)
        have hfinal := viaBackends_answer (moveOp fold old new) (congrArg Prod.fst hvia)
        rintro rfl
        cases hfinal
      case none =>
        cases hsplit : MoveEnds.split old new with
        | none =>
            rw [hsplit] at h
            obtain rfl := Except.error.inj (congrArg Prod.fst h)
            exact nofun
        | some m =>
            rw [hsplit] at h
            dsimp only at h
            obtain ⟨_, hdeclines, _⟩ := @lookAtEnds_spec fold sc m
              { c with metadataBreakers := breakers, server := s }
            cases hlook : lookAtEnds fold (fun op => op) sc m
                { c with metadataBreakers := breakers, server := s } with
            | mk plan d' =>
                rw [hlook] at h hdeclines
                rcases plan with e | plan
                · obtain rfl := Except.error.inj (congrArg Prod.fst h)
                  exact fun h => hdeclines (congrArg _ (Except.error.inj h))
                · cases h

/-- What a move with a plan stands on: the source is there, what a folder replaces
is an empty folder, and no backend has done more than go unheard. -/
theorem planFirst_found {old new : NasPath}
    (h : planFirst fold (fun op => op) sc old new c = (.ok (m, plan), d)) :
    (d.server.entryAt fold m.old).isSome ∧
      (plan = .replaceEmptyDir → d.server.treeAt fold m.new = some (.dir [])) ∧
      Unheard fold m.old m.new c.server d.server := by
  obtain ⟨rfl, rfl⟩ := planFirst_ends h
  obtain ⟨_, _, hlook⟩ := planFirst_ok h
  generalize hc' : ({ c with
    metadataBreakers := (viaBackends (moveOp fold m.old m.new) sc.backend c.metadataBreakers
      c.server).2.1
    server := (viaBackends (moveOp fold m.old m.new) sc.backend c.metadataBreakers
      c.server).2.2 } : Client Volume) = c' at hlook
  obtain ⟨hserver, _, hplan⟩ := @lookAtEnds_spec fold sc m c'
  rw [hlook] at hserver hplan
  obtain ⟨hsource, hempty⟩ := hplan plan rfl
  rw [show d.server = c'.server from hserver]
  refine ⟨hsource, hempty, ?_⟩
  rw [← hc']
  exact viaBackends_rule (moveOp fold m.old m.new) (P := Unheard fold m.old m.new c.server)
    (fun _ _ hw => hw.again) sc.backend c.metadataBreakers (Or.inl rfl)

end Look

/-! ### What the requests of a move come to -/

section Requests

variable {sc : MoveScript} {m : MoveEnds} {plan : MovePlan} {c d d' : Client Volume}
  {v w x before : Volume}

/-- The rename in place is carried out, on a source that can be renamed. -/
def TakesName (fold : String → String) (sc : MoveScript) (m : MoveEnds) (c : Client Volume) :
    Prop :=
  c.server.CanRename fold m.srcDir m.oldName m.newName ∧ sc.rename.runs c.metadataBreakers ≠ []

/-- The delete takes the empty folder away. -/
def ClearsAway (fold : String → String) (sc : MoveScript) (m : MoveEnds) (plan : MovePlan)
    (c : Client Volume) : Prop :=
  plan = .replaceEmptyDir ∧
    ∃ p ∈ sc.delete.runs c.metadataBreakers, c.server.yields fold m.new p

/-- `x` is `v` with the source called `last`. -/
structure EndsAs (fold : String → String) (m : MoveEnds) (last : String) (v x : Volume) :
    Prop where
  renamed : v.Renamed fold m.srcDir m.oldName last x
  outside : SameOutside fold m.srcDir v x

/-- Nothing comes to be inside the source. -/
theorem EndsAs.entryAt_none {last : String} (h : EndsAs fold m last v x)
    (hin : m.old.map fold <+: m.new.map fold) (hnone : v.entryAt fold m.new = none) :
    x.entryAt fold m.new = none := by
  obtain ⟨keys, hkeys⟩ := hin
  rw [eq_comm, List.map_eq_append_iff] at hkeys
  obtain ⟨front, rest, hnew, hfront, _⟩ := hkeys
  refine entryAt_none_below ?_ (show m.new.map fold =
    (m.srcDir ++ [m.oldName] ++ rest).map fold by simp [hnew, hfront, MoveEnds.old]) hnone
  rw [Volume.treeAt, Volume.treeAt, h.renamed m.oldName]
  by_cases hkey : fold m.oldName = fold last
  · rw [if_pos hkey, Option.map_map]
    exact Or.inl rfl
  · rw [if_neg hkey, if_pos rfl]
    exact Or.inr rfl

theorem renameFirst_error {e : SynoFsError}
    (h : renameFirst fold (fun op => op) sc.rename m c = (.error e, d)) :
    (TakesName fold sc m c → EndsAs fold m m.newName c.server d.server) ∧
      (¬ TakesName fold sc m c → d.server = c.server) := by
  unfold renameFirst at h
  split at h
  case isTrue => cases h
  case isFalse =>
    have hd : (rename fold sc.rename m.old m.newName c).2 = d := by
      cases hrename : request (renameOp fold m.old m.newName) sc.rename c with
      | mk r d' =>
          rw [hrename] at h
          rcases r with e' | info
          · exact (congrArg Prod.snd hrename).trans (congrArg Prod.snd h)
          · cases h
    rw [← hd]
    constructor
    · rintro ⟨hcan, hruns⟩
      exact ⟨(rename_server_run hcan hruns).1, rename_outside sc.rename c⟩
    · intro hnot
      by_cases hruns : sc.rename.runs c.metadataBreakers = []
      · exact (rename_server_unrun hruns).1
      · exact (rename_server_blocked fun hcan => hnot ⟨hcan, hruns⟩).1

theorem renameFirst_ok {renamed : Option NasPath}
    (h : renameFirst fold (fun op => op) sc.rename m c = (.ok renamed, d)) :
    (m.oldName = m.newName ∧ renamed = none ∧ d = c) ∨
      (m.oldName ≠ m.newName ∧ renamed = some m.renamed ∧
        c.server.CanRename fold m.srcDir m.oldName m.newName ∧
        EndsAs fold m m.newName c.server d.server) := by
  unfold renameFirst at h
  split at h
  case isTrue hsame =>
    obtain ⟨hnone, rfl⟩ := Prod.mk.inj h
    exact Or.inl ⟨hsame, (Except.ok.inj hnone).symm, rfl⟩
  case isFalse hdistinct =>
    refine Or.inr ⟨hdistinct, ?_⟩
    cases hrename : rename fold sc.rename m.old m.newName c with
    | mk r d' =>
        rw [show request (renameOp fold m.old m.newName) sc.rename c = (r, d') from hrename] at h
        rcases r with e | info
        · cases h
        obtain ⟨hsome, rfl⟩ := Prod.mk.inj h
        refine ⟨(Except.ok.inj hsome).symm, ?_⟩
        have hcan : c.server.CanRename fold m.srcDir m.oldName m.newName := by
          by_contra hnot
          have hfailed : (rename fold sc.rename m.old m.newName c).1.isOk = false :=
            (rename_server_blocked hnot).2
          rw [hrename] at hfailed
          cases hfailed
        have hruns : sc.rename.runs c.metadataBreakers ≠ [] := by
          intro hnone
          have hfailed : (rename fold sc.rename m.old m.newName c).1.isOk = false :=
            (rename_server_unrun hnone).2
          rw [hrename] at hfailed
          cases hfailed
        have hserver : (rename fold sc.rename m.old m.newName c).2.server = d'.server := by
          rw [hrename]
        rw [← hserver]
        exact ⟨hcan, (rename_server_run hcan hruns).1, rename_outside sc.rename c⟩

theorem pollTask_ne_notSupported (result : Except SynoFsError Unit) (polls : List PollFate) :
    pollTask result polls ≠ .error .notSupported := by
  induction polls with
  | nil => exact nofun
  | cons poll polls ih =>
      cases poll with
      | running => exact ih
      | finished =>
          unfold pollTask
          split <;> exact nofun
      | lost message => exact nofun
      | refused code => exact nofun

/-- A start that was refused started nothing; any other failure does not say that
the move is not supported. -/
theorem copymove_error {start : HttpFate} {polls : List PollFate} {source destDir : NasPath}
    {overwrite : Bool} {e : SynoFsError} {idle : Bool}
    (h : copymove fold (fun op => op) start polls source destDir overwrite c =
      (.error ⟨e, idle⟩, d)) :
    if idle then d = c else e ≠ .notSupported := by
  unfold copymove at h
  dsimp only at h
  split at h
  case h_1 =>
    cases hpoll : pollTask (Volume.copyMove fold source destDir overwrite c.server).1 polls with
    | ok u =>
        change ((pollTask (Volume.copyMove fold source destDir overwrite c.server).1 polls).mapError
          _, _) = _ at h
        rw [hpoll] at h
        cases h
    | error e' =>
        change ((pollTask (Volume.copyMove fold source destDir overwrite c.server).1 polls).mapError
          _, _) = _ at h
        rw [hpoll] at h
        cases h
        intro he
        exact pollTask_ne_notSupported _ _ (he ▸ hpoll)
  case h_2 => cases h; exact nofun
  case h_3 => cases h; exact nofun
  case h_4 => cases h; rfl

/-- What the move proper leaves behind where it is known not to have run. -/
theorem carryMove_idle {source : NasPath} {e : SynoFsError}
    (h : carryMove fold (fun op => op) sc m plan source c = (.error ⟨e, true⟩, d)) :
    (ClearsAway fold sc m plan c → d.server = c.server.remove fold m.new) ∧
      (¬ ClearsAway fold sc m plan c → d.server = c.server) := by
  unfold carryMove at h
  split at h
  case isTrue hplan =>
    have hserver : d.server = (delete fold sc.delete m.new c).2.server := by
      cases hdelete : request (deleteOp fold m.new) sc.delete c with
      | mk r d' =>
          rw [hdelete] at h
          rw [delete, hdelete]
          rcases r with e' | u
          · exact (congrArg (Client.server ∘ Prod.snd) h).symm
          · rw [show d = d' from copymove_error h]
    rw [hserver, delete_server_runs]
    exact ⟨fun hclears => if_pos hclears.2, fun hnot => if_neg fun hruns => hnot ⟨hplan, hruns⟩⟩
  case isFalse hplan =>
    obtain rfl : d = c := copymove_error h
    exact ⟨fun hclears => (hplan hclears.1).elim, fun _ => rfl⟩

theorem carryMove_ran {source : NasPath} {e : SynoFsError}
    (h : carryMove fold (fun op => op) sc m plan source c = (.error ⟨e, false⟩, d)) :
    e ≠ .notSupported := by
  unfold carryMove at h
  split at h
  case isTrue =>
    cases hdelete : request (deleteOp fold m.new) sc.delete c with
    | mk r d' =>
        rw [hdelete] at h
        rcases r with e' | u
        · cases h
        · exact copymove_error h
  case isFalse => exact copymove_error h

/-- The name of the source when a move that told that nothing ran has ended. -/
def lastName (sc : MoveScript) (m : MoveEnds) (c : Client Volume) : String :=
  if sc.renameBack.runs c.metadataBreakers = [] then m.newName else m.oldName

/-- The way back of a rename. -/
theorem EndsAs.back (hcan : v.CanRename fold m.srcDir m.oldName m.newName)
    (h : EndsAs fold m m.newName v c.server) :
    EndsAs fold m (lastName sc m c) v
      (rename fold sc.renameBack m.renamed m.oldName c).2.server := by
  have hback := h.renamed.canRename_back hcan
  unfold lastName
  split
  case isTrue hruns =>
    rw [(rename_server_unrun hruns).1]
    exact h
  case isFalse hruns =>
    exact ⟨Volume.Renamed.back hcan h.renamed (rename_server_run hback hruns).1,
      h.outside.trans (rename_outside sc.renameBack c)⟩

/-- A folder that was cleared away is not there after the way back either. -/
theorem EndsAs.cleared (h : EndsAs fold m m.newName v w) (hthere : w.entryAt fold m.new ≠ none)
    (hserver : c.server = w.remove fold m.new) :
    (rename fold sc.renameBack m.renamed m.oldName c).2.server.entryAt fold m.new = none := by
  have hgone : c.server.entryAt fold m.new = none := by
    rw [hserver]
    exact Volume.treeAt_eq_none.mp Volume.treeAt_remove
  by_cases hback : c.server.CanRename fold m.srcDir m.newName m.oldName ∧
      sc.renameBack.runs c.metadataBreakers ≠ []
  case neg =>
    rw [not_and_or, not_not] at hback
    rcases hback with hblocked | hruns
    · rw [show (rename fold sc.renameBack m.renamed m.oldName c).2.server = _ from
        (rename_server_blocked hblocked).1]
      exact hgone
    · rw [(rename_server_unrun hruns).1]
      exact hgone
  have hrenamed := (rename_server_run hback.1 hback.2).1
  change c.server.Renamed fold m.srcDir m.newName m.oldName
    (rename fold sc.renameBack m.renamed m.oldName c).2.server at hrenamed
  have hout : SameOutside fold m.srcDir c.server
      (rename fold sc.renameBack m.renamed m.oldName c).2.server :=
    rename_outside sc.renameBack c
  generalize (rename fold sc.renameBack m.renamed m.oldName c).2.server = x at hrenamed hout
  by_cases hin : m.srcDir.map fold <+: m.destDir.map fold
  case neg =>
    have hseen := hout m.destDir m.newName hin
    rw [Volume.seen_eq, Volume.seen_eq] at hseen
    change Option.map _ (x.entryAt fold m.new) = Option.map _ (c.server.entryAt fold m.new) at hseen
    rw [hgone] at hseen
    exact Option.map_eq_none_iff.mp hseen
  obtain ⟨first, rest, hkeys⟩ := FileTree.exists_below hin m.newName
  refine entryAt_none_below ?_ hkeys hgone
  rw [Volume.treeAt, Volume.treeAt, hrenamed first]
  split
  case isTrue hold =>
    left
    by_cases hkey : fold m.newName = fold m.oldName
    · rw [Option.map_map, Volume.entryAt_congr (show (m.srcDir ++ [m.newName]).map fold =
        (m.srcDir ++ [first]).map fold by simp [hkey, hold])]
      rfl
    · -- The old name was free before the delete, and the folder was not below it.
      exfalso
      have hfree : w.treeAt fold (m.srcDir ++ [first]) = none := by
        rw [Volume.treeAt_eq_none, h.renamed first,
          if_neg fun hnew => hkey (hnew.symm.trans hold), if_pos hold]
      apply hthere
      rw [← Volume.treeAt_eq_none]
      apply Volume.treeAt_none_below (by simp) hfree
      exact ⟨rest.map fold, by rw [← List.map_append]; exact hkeys.symm⟩
  case isFalse =>
    split
    case isTrue => exact Or.inr rfl
    case isFalse => exact Or.inl rfl

end Requests

/-! ### Undone or done -/

section Undone

variable {sc : MoveScript} {m : MoveEnds} {plan : MovePlan} {old new : NasPath}
  {c d : Client Volume} {v x before : Volume}

/-- Whether a move with a plan ends where the code takes it that nothing ran: the
rename in place failed, or the task was not started. -/
def endsIdle (fold : String → String) (sc : MoveScript) (m : MoveEnds) (plan : MovePlan)
    (c : Client Volume) : Bool :=
  match renameFirst fold (fun op => op) sc.rename m c with
  | (.error _, _) => true
  | (.ok renamed, c) =>
      match carryMove fold (fun op => op) sc m plan (renamed.getD m.old) c with
      | (.error ⟨_, true⟩, _) => true
      | _ => false

def judgesIdle (fold : String → String) (sc : MoveScript) (old new : NasPath)
    (c : Client Volume) : Bool :=
  match planFirst fold (fun op => op) sc old new c with
  | (.ok (m, plan), c) => endsIdle fold sc m plan c
  | (.error _, _) => false

/-- A move that is not supported has changed no name. One that failed where the
code takes it that nothing ran has left both its ends as they were. -/
structure UndoneOrDone (fold : String → String) (sc : MoveScript) (old new : NasPath)
    (c : Client Volume) : Prop where
  declined : (moveTo fold sc old new c).1 = .error .notSupported →
    SameNames fold c.server (moveTo fold sc old new c).2.server
  idle : judgesIdle fold sc old new c = true →
    SameUnder fold old c.server (moveTo fold sc old new c).2.server ∧
      SameUnder fold new c.server (moveTo fold sc old new c).2.server

/-- Where a move with a plan ends so: no backend had changed a name before it, a
rename in place that failed was not carried out, the empty folder was not cleared
away, and a rename in place that was carried out is put back, to a name spelled as
it was. -/
def LeavesAsFound (fold : String → String) (sc : MoveScript) (m : MoveEnds) (plan : MovePlan)
    (before : Volume) (c : Client Volume) : Prop :=
  match renameFirst fold (fun op => op) sc.rename m c with
  | (.error _, _) => SameNames fold before c.server ∧
      (TakesName fold sc m c → Called fold c.server m.srcDir m.oldName m.newName)
  | (.ok renamed, c') =>
      match carryMove fold (fun op => op) sc m plan (renamed.getD m.old) c' with
      | (.error ⟨_, true⟩, c'') => SameNames fold before c.server ∧
          ¬ ClearsAway fold sc m plan c' ∧
          (m.oldName ≠ m.newName →
            Called fold c.server m.srcDir m.oldName (lastName sc m c''))
      | _ => True

def MoveLeavesAsFound (fold : String → String) (sc : MoveScript) (old new : NasPath)
    (c : Client Volume) : Prop :=
  match planFirst fold (fun op => op) sc old new c with
  | (.ok (m, plan), d) => LeavesAsFound fold sc m plan c.server d
  | (.error _, _) => True

theorem SameNames.refl (v : Volume) : SameNames fold v v := fun _ => rfl

/-- What a backend did unheard shows in the end, and is all that can show besides. -/
theorem undone_iff {C : Prop} (hunheard : Unheard fold m.old m.new before v)
    (hsource : (v.entryAt fold m.old).isSome) (hsame : C → SameNames fold v x)
    (hshows : SameUnder fold m.old v x → SameUnder fold m.new v x → C)
    (hnone : m.old.map fold <+: m.new.map fold → v.entryAt fold m.new = none →
      x.entryAt fold m.new = none) :
    (SameNames fold before v ∧ C → SameNames fold before x) ∧
      (SameUnder fold m.old before x ∧ SameUnder fold m.new before x →
        SameNames fold before v ∧ C) := by
  refine ⟨fun ⟨hbefore, hc⟩ => hbefore.trans (hsame hc), fun ⟨hold, hnew⟩ => ?_⟩
  rcases hunheard with rfl | hgone | ⟨hin, hthere, habsent⟩
  · exact ⟨SameNames.refl v, hshows hold hnew⟩
  · rw [Volume.treeAt_eq_none] at hgone
    rw [hgone] at hsource
    cases hsource
  · have hseen := hnew []
    rw [List.append_nil, Volume.seen_eq, Volume.seen_eq, hnone hin habsent] at hseen
    exact (hthere (Option.map_eq_none_iff.mp hseen)).elim

theorem EndsAs.sameNames {last : String} (h : EndsAs fold m last v x)
    (hcalled : Called fold v m.srcDir m.oldName last) : SameNames fold v x :=
  hcalled.sameNames h.renamed h.outside

theorem EndsAs.called {last : String} (h : EndsAs fold m last v x)
    (hsource : (v.entryAt fold m.old).isSome) (hsame : SameUnder fold m.old v x) :
    Called fold v m.srcDir m.oldName last :=
  called_of_sameUnder hsource h.renamed hsame

/-- A rename in place that failed, and what it may have done. -/
theorem rename_undone_iff {e : SynoFsError} (hunheard : Unheard fold m.old m.new before c.server)
    (hsource : (c.server.entryAt fold m.old).isSome)
    (h : renameFirst fold (fun op => op) sc.rename m c = (.error e, d)) :
    (SameNames fold before c.server ∧
        (TakesName fold sc m c → Called fold c.server m.srcDir m.oldName m.newName) →
      SameNames fold before d.server) ∧
    (SameUnder fold m.old before d.server ∧ SameUnder fold m.new before d.server →
      SameNames fold before c.server ∧
        (TakesName fold sc m c → Called fold c.server m.srcDir m.oldName m.newName)) := by
  obtain ⟨htakes, hnot⟩ := renameFirst_error h
  refine undone_iff hunheard hsource (fun hcalled => ?_)
    (fun hold _ hran => (htakes hran).called hsource hold) fun hin habsent => ?_
  · by_cases hran : TakesName fold sc m c
    · exact (htakes hran).sameNames (hcalled hran)
    · rw [hnot hran]
      exact SameNames.refl _
  · by_cases hran : TakesName fold sc m c
    · exact (htakes hran).entryAt_none hin habsent
    · rw [hnot hran]
      exact habsent

/-- A task that was not started, and what was done before it. -/
theorem carry_undone_iff {renamed : Option NasPath} {e : SynoFsError} {d' : Client Volume}
    {source : NasPath} (hunheard : Unheard fold m.old m.new before c.server)
    (hsource : (c.server.entryAt fold m.old).isSome)
    (hempty : plan = .replaceEmptyDir → c.server.treeAt fold m.new = some (.dir []))
    (hrename : renameFirst fold (fun op => op) sc.rename m c = (.ok renamed, d))
    (hcarry : carryMove fold (fun op => op) sc m plan source d = (.error ⟨e, true⟩, d')) :
    (SameNames fold before c.server ∧ ¬ ClearsAway fold sc m plan d ∧
        (m.oldName ≠ m.newName → Called fold c.server m.srcDir m.oldName (lastName sc m d')) →
      SameNames fold before
        (settleMove fold (fun op => op) sc m renamed (.error ⟨e, true⟩) d').2.server) ∧
    (SameUnder fold m.old before
        (settleMove fold (fun op => op) sc m renamed (.error ⟨e, true⟩) d').2.server ∧
      SameUnder fold m.new before
        (settleMove fold (fun op => op) sc m renamed (.error ⟨e, true⟩) d').2.server →
      SameNames fold before c.server ∧ ¬ ClearsAway fold sc m plan d ∧
        (m.oldName ≠ m.newName →
          Called fold c.server m.srcDir m.oldName (lastName sc m d'))) := by
  obtain ⟨hcleared, hkept⟩ := carryMove_idle hcarry
  generalize hx : (settleMove fold (fun op => op) sc m renamed (.error ⟨e, true⟩) d').2.server = x
  have hrenamed := renameFirst_ok hrename
  by_cases hclears : ClearsAway fold sc m plan d
  case pos =>
    -- The folder was there when it was looked at, and is not in the end.
    have hgone : x.entryAt fold m.new = none := by
      rw [← hx]
      rcases hrenamed with ⟨_, rfl, rfl⟩ | ⟨_, rfl, _, hends⟩
      · change d'.server.entryAt fold m.new = none
        rw [hcleared hclears]
        exact Volume.treeAt_eq_none.mp Volume.treeAt_remove
      · refine hends.cleared ?_ (hcleared hclears)
        obtain ⟨_, p, _, hyields⟩ := hclears
        rw [Ne, ← Volume.treeAt_eq_none]
        intro hnone
        rw [Volume.yields, hnone] at hyields
        cases hyields
    refine undone_iff hunheard hsource (fun h => (h.1 hclears).elim) (fun _ hnew => ?_)
      fun _ _ => hgone
    have hseen := hnew []
    rw [List.append_nil, Volume.seen_eq, Volume.seen_eq, hgone] at hseen
    have htree := hempty hclears.1
    rw [Volume.treeAt, Option.map_eq_none_iff.mp hseen] at htree
    cases htree
  case neg =>
    have hserver := hkept hclears
    rcases hrenamed with ⟨hsame, rfl, rfl⟩ | ⟨hdistinct, rfl, hcan, hends⟩
    · obtain rfl : d'.server = x := hx
      rw [hserver]
      exact undone_iff hunheard hsource (fun _ => SameNames.refl _)
        (fun _ _ => ⟨hclears, fun h => (h hsame).elim⟩) fun _ habsent => habsent
    · rw [← hserver] at hends
      have hback : EndsAs fold m (lastName sc m d') _ _ := hends.back hcan
      rw [show (rename fold sc.renameBack m.renamed m.oldName d').2.server = x from hx] at hback
      exact undone_iff hunheard hsource (fun h => hback.sameNames (h.2 hdistinct))
        (fun hold _ => ⟨hclears, fun _ => hback.called hsource hold⟩)
        fun hin habsent => hback.entryAt_none hin habsent

/-- A move that is neither declined nor taken to have run nothing promises nothing. -/
theorem undoneOrDone_of_done (hdone : (moveTo fold sc old new c).1 ≠ .error .notSupported)
    (hidle : judgesIdle fold sc old new c = false) : UndoneOrDone fold sc old new c :=
  ⟨fun h => (hdone h).elim, fun h => by cases hidle.symm.trans h⟩

/-- Where nothing is taken to have run, what keeps every name is what keeps the two
ends. -/
theorem undoneOrDone_of_idle {C : Prop} (hidle : judgesIdle fold sc old new c = true)
    (hsafe : C → SameNames fold c.server (moveTo fold sc old new c).2.server)
    (hshows : SameUnder fold old c.server (moveTo fold sc old new c).2.server ∧
      SameUnder fold new c.server (moveTo fold sc old new c).2.server → C) :
    UndoneOrDone fold sc old new c ↔ C :=
  ⟨fun h => hshows (h.idle hidle),
    fun h => ⟨fun _ => hsafe h, fun _ => ⟨(hsafe h).under _, (hsafe h).under _⟩⟩⟩

variable (fold sc old new c) in
/-- **Exactly when a move is undone or done.** -/
theorem undoneOrDone_iff :
    UndoneOrDone fold sc old new c ↔ MoveLeavesAsFound fold sc old new c := by
  unfold MoveLeavesAsFound
  cases hplan : planFirst fold (fun op => op) sc old new c with
  | mk planned d =>
      have hmove : moveTo fold sc old new c = match (planned, d) with
          | (.error r, c) => (r, c)
          | (.ok (m, plan), c) => finishMove fold (fun op => op) sc m plan c := by
        rw [moveTo, moveWithin, hplan]
        cases planned <;> rfl
      rcases planned with r | ⟨m, plan⟩
      · refine iff_of_true (undoneOrDone_of_done ?_ (by simp only [judgesIdle, hplan])) trivial
        rw [hmove]
        exact planFirst_error hplan
      obtain ⟨rfl, rfl⟩ := planFirst_ends hplan
      obtain ⟨hsource, hempty, hunheard⟩ := planFirst_found hplan
      have hidle : judgesIdle fold sc m.old m.new c = endsIdle fold sc m plan d := by
        simp only [judgesIdle, hplan]
      dsimp only [finishMove] at hmove
      dsimp only [LeavesAsFound]
      unfold endsIdle at hidle
      cases hrename : renameFirst fold (fun op => op) sc.rename m d with
      | mk renamed d' =>
          rw [hrename] at hmove hidle
          rcases renamed with e | renamed
          · obtain ⟨hsafe, hshows⟩ := rename_undone_iff hunheard hsource hrename
            refine undoneOrDone_of_idle hidle ?_ ?_ <;> rw [hmove]
            · exact hsafe
            · exact hshows
          dsimp only at hmove hidle ⊢
          cases hcarry : carryMove fold (fun op => op) sc m plan (renamed.getD m.old) d' with
          | mk outcome d'' =>
              rw [hcarry] at hmove hidle
              rcases outcome with ⟨e, _ | _⟩ | u
              case ok =>
                refine iff_of_true (undoneOrDone_of_done ?_ hidle) trivial
                rw [hmove]
                exact nofun
              case error.false =>
                refine iff_of_true (undoneOrDone_of_done ?_ hidle) trivial
                rw [hmove]
                exact fun h => carryMove_ran hcarry (by simpa [settleMove] using h)
              case error.true =>
                obtain ⟨hsafe, hshows⟩ :=
                  carry_undone_iff hunheard hsource hempty hrename hcarry
                refine undoneOrDone_of_idle hidle ?_ ?_ <;> rw [hmove]
                · exact hsafe
                · exact hshows

end Undone

/-! ### Two moves that say they did nothing -/

/-- A client without backends, and two empty folders of one name. -/
def twoAlbums : Client Volume :=
  ⟨[], [], [], { root := .dir [("from", .dir [("album", .dir [])]),
      ("to", .dir [("album", .dir [])])], removals := [] }⟩

/-- FileStation has no such task. -/
def startRefused : MoveScript := { MoveScript.plain with start := .refused 101 }

/-- The rename in place is carried out, and no answer to it comes. -/
def renameLost : MoveScript :=
  { MoveScript.plain with rename := ⟨declining, fun _ => .lost true "timed out"⟩ }

/-- The folder that was to be replaced is gone, or the source has the new name, and
the move is said to be not supported. -/
theorem declined_move_changes :
    ((moveTo id startRefused ["from", "album"] ["to", "album"] twoAlbums).1 =
        .error .notSupported ∧
      ¬ UndoneOrDone id startRefused ["from", "album"] ["to", "album"] twoAlbums) ∧
    (moveTo id renameLost ["from", "album"] ["to", "photos"] twoAlbums).1 =
        .error .notSupported ∧
      ¬ UndoneOrDone id renameLost ["from", "album"] ["to", "photos"] twoAlbums := by
  refine ⟨⟨rfl, fun h => ?_⟩, rfl, fun h => ?_⟩
  · cases h.declined rfl ["to", "album"]
  · cases h.declined rfl ["from", "album"]

end SynologyFilestation.Core
