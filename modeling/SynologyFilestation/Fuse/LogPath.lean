import SynologyFilestation.Library.LinkTree

/-!
Where `--log-file` may point (`resolve` in `fuse/src/logfile.rs`).

A path is what stands between its slashes. `absolute` is the standard library's, which
drops `.` and empty pieces, keeps `..` and follows no links; `createDirAll` is the
standard library's too, over `mkdir` as the file system does it.
-/

namespace SynologyFilestation.Fuse.LogPath

open Function Library Library.LinkTree

structure PathBuf where
  rooted : Bool
  /-- Between the slashes, after the first if the path is rooted. -/
  pieces : List String
  deriving DecidableEq, Repr

inductive LogFileError
  | insideMount (path mountpoint : PathBuf)
  | io (path : PathBuf)
  deriving DecidableEq, Repr

/-- So many links the system follows in one path. -/
def maxLinks : ℕ := 40

namespace PathBuf

def isPlaceless (piece : String) : Bool := piece = "" || piece = "."

def component (piece : String) : Component String :=
  if piece = ".." then .up else .name piece

def components (path : PathBuf) : List (Component String) :=
  (path.pieces.filter (!isPlaceless ·)).map component

def parent (path : PathBuf) : Option PathBuf :=
  match path.pieces.filter (!isPlaceless ·) with
  | [] => none
  | pieces => some { path with pieces := pieces.dropLast }

def isEmpty (path : PathBuf) : Bool := !path.rooted && path.pieces.all (· = "")

/-- The slash at the end of a path. -/
def slash (path : PathBuf) : List String :=
  if path.pieces.getLast? = some "" then [""] else []

/-- `std::path::absolute`. -/
def absolute (cwd : Option (List String)) (path : PathBuf) : Option PathBuf :=
  let pieces := path.pieces.filter (!isPlaceless ·) ++ path.slash
  if path.isEmpty then none
  else if path.rooted then some ⟨true, pieces⟩
  else cwd.map fun dir => ⟨true, dir ++ pieces⟩

def isInside (cwd : Option (List String)) (path mountpoint : PathBuf) : Bool :=
  match path.absolute cwd, mountpoint.absolute cwd with
  | some path, some mountpoint => mountpoint.components.isPrefixOf path.components
  | _, _ => true

end PathBuf

inductive Mkdir
  | made (t : Files String)
  | notFound
  | failed

section FileSystem

variable (writable : Location String → Bool)

def mkdir (t : Files String) (above : List (Component String)) (c : Component String) : Mkdir :=
  match (trail t maxLinks [] above).getLast? with
  | some (l, []) =>
      if l = [] ∨ t l = some .directory then
        match c with
        | .up => .failed
        | .name n =>
            if t (n :: l) = none ∧ writable l then
              .made (update t (n :: l) (some .directory))
            else .failed
      else if t l = none then .notFound
      else .failed
  | some (l, .name n :: _) => if t (n :: l) = none then .notFound else .failed
  | _ => .failed

def isDir (t : Files String) (path : List (Component String)) : Bool :=
  match (trail t maxLinks [] path).getLast? with
  | some (l, []) => l = [] ∨ t l = some .directory
  | _ => false

/-- `fs::create_dir_all`, of a path with its last component first. -/
def createDirAll : List (Component String) → Files String → Option (Files String)
  | [], t => some t
  | c :: above, t =>
      match mkdir writable t above.reverse c with
      | .made t' => some t'
      | .failed => if isDir t (c :: above).reverse then some t else none
      | .notFound =>
          match createDirAll above t with
          | none => none
          | some t' =>
              match mkdir writable t' above.reverse c with
              | .made t'' => some t''
              | _ => if isDir t' (c :: above).reverse then some t' else none

/-- Why the mountpoint speaks against the path. -/
def refusal (cwd : Option (List String)) (path : PathBuf) :
    Option PathBuf → Option LogFileError
  | none => none
  | some mountpoint =>
      match mountpoint.absolute cwd with
      | none => some (.io mountpoint)
      | some mountpoint =>
          if path.isInside cwd mountpoint then some (.insideMount path mountpoint) else none

/-- The path, and the tree with its parent in it. -/
def resolve (cwd : Option (List String)) (t : Files String) (requested : PathBuf)
    (mountpoint : Option PathBuf) : Except LogFileError (PathBuf × Files String) :=
  match requested.absolute cwd with
  | none => .error (.io requested)
  | some path =>
      match refusal cwd path mountpoint, path.parent with
      | some error, _ => .error error
      | none, none => .ok (path, t)
      | none, some parent =>
          match createDirAll writable parent.components.reverse t with
          | none => .error (.io parent)
          | some t' => .ok (path, t')

theorem mkdir_grows {t t' : Files String} {above : List (Component String)} {c : Component String}
    (h : mkdir writable t above c = .made t') : Grows t t' := by
  rw [mkdir] at h
  split at h
  next l _ =>
    split_ifs at h
    match c with
    | .up => cases h
    | .name n =>
        simp only at h
        split_ifs at h with hmake
        cases h
        exact grows_make hmake.1
  next => split_ifs at h
  next => cases h

theorem createDirAll_grows {t t' : Files String} {path : List (Component String)}
    (h : createDirAll writable path t = some t') : Grows t t' := by
  induction path generalizing t' with
  | nil =>
      cases h
      exact .refl t
  | cons c above ih =>
      rw [createDirAll] at h
      split at h
      next hmade =>
        cases h
        exact mkdir_grows writable hmade
      next =>
        split_ifs at h
        cases h
        exact .refl t
      next =>
        split at h
        next => cases h
        next habove =>
          refine (ih habove).trans ?_
          split at h
          next hmade =>
            cases h
            exact mkdir_grows writable hmade
          next =>
            split_ifs at h
            cases h
            exact .refl _

end FileSystem

namespace PathBuf

/-- What the file system follows: a path that is not rooted from the working directory. -/
def whole (cwd : Option (List String)) (path : PathBuf) : List (Component String) :=
  (if path.rooted then [] else components ⟨true, cwd.getD []⟩) ++ path.components

variable {cwd : Option (List String)} {path path' mountpoint mountpoint' : PathBuf}

theorem components_append (pieces pieces' : List String) :
    components ⟨true, pieces ++ pieces'⟩ =
      components ⟨true, pieces⟩ ++ components ⟨true, pieces'⟩ := by
  simp [components]

/-- What is dropped does not count. -/
theorem components_kept (path : PathBuf) :
    components ⟨true, path.pieces.filter (!isPlaceless ·) ++ path.slash⟩ = path.components := by
  rw [components_append, slash]
  split_ifs <;> simp [components, isPlaceless]

theorem absolute_components (h : path.absolute cwd = some path') :
    path'.rooted = true ∧ path'.components = path.whole cwd := by
  rw [absolute] at h
  split_ifs at h with hempty hrooted
  · cases h
    rw [components_kept, whole, if_pos hrooted]
    exact ⟨rfl, rfl⟩
  · obtain ⟨dir, rfl, rfl⟩ := Option.map_eq_some_iff.mp h
    rw [components_append, components_kept, whole, if_neg hrooted]
    exact ⟨rfl, rfl⟩

theorem absolute_rooted (cwd : Option (List String)) (h : path.rooted = true) :
    ∃ path', path.absolute cwd = some path' := by
  simp [absolute, isEmpty, h]

theorem isInside_absolute (h : path.absolute cwd = some path')
    (h' : mountpoint.absolute cwd = some mountpoint') :
    path'.isInside cwd mountpoint' =
      (mountpoint.whole cwd).isPrefixOf (path.whole cwd) := by
  obtain ⟨hrooted, hcomponents⟩ := absolute_components h
  obtain ⟨hrooted', hcomponents'⟩ := absolute_components h'
  obtain ⟨again, hagain⟩ := absolute_rooted cwd hrooted
  obtain ⟨again', hagain'⟩ := absolute_rooted cwd hrooted'
  rw [isInside, hagain, hagain']
  simp only [(absolute_components hagain).2, (absolute_components hagain').2, whole, hrooted,
    hrooted', if_true, List.nil_append, hcomponents, hcomponents']

end PathBuf

section Resolve

variable {writable : Location String → Bool} {cwd : Option (List String)} {t t' : Files String}
  {requested mountpoint path : PathBuf}

/-- What is known of a path that is accepted. -/
theorem resolve_ok
    (h : resolve writable cwd t requested (some mountpoint) = .ok (path, t')) :
    path.components = requested.whole cwd ∧
      ¬mountpoint.whole cwd <+: requested.whole cwd ∧ Grows t t' := by
  rw [resolve] at h
  split at h
  next => cases h
  next path' habsolute =>
    have hnot : refusal cwd path' (some mountpoint) = none →
        ¬mountpoint.whole cwd <+: requested.whole cwd := by
      intro hrefusal
      rw [refusal] at hrefusal
      split at hrefusal
      next => cases hrefusal
      next mountpoint' habsolute' =>
        split_ifs at hrefusal with hinside
        rwa [PathBuf.isInside_absolute habsolute habsolute', List.isPrefixOf_iff_prefix]
          at hinside
    have hcomponents := (PathBuf.absolute_components habsolute).2
    split at h
    next => cases h
    next hrefusal _ =>
      cases h
      exact ⟨hcomponents, hnot hrefusal, .refl t⟩
    next hrefusal _ =>
      split at h
      next => cases h
      next hmade =>
        cases h
        exact ⟨hcomponents, hnot hrefusal, createDirAll_grows writable hmade⟩

/-- An accepted path stays out of the mount, whatever directories are made later and
whatever the mount serves. -/
def Outside (cwd : Option (List String)) (t : Files String) (path mountpoint : PathBuf) : Prop :=
  StaysOut t maxLinks (mountpoint.whole cwd) path.components

/-- An accepted path stays out of the mount if and only if, each time it comes to the
directory that is to be mounted on, it climbs out again. -/
theorem accepted_outside_iff
    (h : resolve writable cwd t requested (some mountpoint) = .ok (path, t')) :
    Outside cwd t' path mountpoint ↔
      Skirts t maxLinks (mountpoint.whole cwd) (requested.whole cwd) := by
  obtain ⟨hcomponents, _, hgrows⟩ := resolve_ok h
  rw [Outside, hcomponents, staysOut_iff, hgrows.skirts_iff]

/-- So does one that has no `..` and meets no link, if the mountpoint is spelled so too. -/
theorem outside_of_plain {names names' : List String}
    (h : resolve writable cwd t requested (some mountpoint) = .ok (path, t'))
    (hmountpoint : mountpoint.whole cwd = names.map .name)
    (hrequested : requested.whole cwd = names'.map .name)
    (hplain : ∀ pre, pre <+: names → ∀ rooted target, t pre.reverse ≠ some (.link rooted target))
    (hplain' : ∀ pre, pre <+: names' → ∀ rooted target,
      t pre.reverse ≠ some (.link rooted target)) :
    Outside cwd t' path mountpoint := by
  have hnot := (resolve_ok h).2.1
  rw [accepted_outside_iff h, hmountpoint, hrequested]
  refine skirts_of_plain (fun hprefix => hnot ?_) hplain hplain'
  rw [hmountpoint, hrequested]
  exact hprefix.map _

end Resolve

/-- `/x` with `/x/mnt` and `/x/other` in it. -/
def xTree : Files String := fun l =>
  if l = ["x"] ∨ l = ["mnt", "x"] ∨ l = ["other", "x"] then some .directory else none

def mnt : PathBuf := ⟨true, ["x", "mnt"]⟩

/-- `/x/other/../mnt/mount.log` -/
def roundabout : PathBuf := ⟨true, ["x", "other", "..", "mnt", "mount.log"]⟩

/-- `../mnt/../logs/mount.log` -/
def beside : PathBuf := ⟨false, ["..", "mnt", "..", "logs", "mount.log"]⟩

/-- From `/x/other`, and `/x/logs` is made. -/
theorem beside_outside :
    Outside (some ["x", "other"]) (update xTree ["logs", "x"] (some .directory))
      ⟨true, ["x", "other", "..", "mnt", "..", "logs", "mount.log"]⟩ mnt := by
  have hresolve : resolve (fun _ => true) (some ["x", "other"]) xTree beside (some mnt) =
      .ok (⟨true, ["x", "other", "..", "mnt", "..", "logs", "mount.log"]⟩,
        update xTree ["logs", "x"] (some .directory)) := rfl
  refine (accepted_outside_iff hresolve).mpr fun top _ htop => ?_
  have hstops : ∀ stop ∈ trail (fill xTree) maxLinks [] (mnt.whole (some ["x", "other"])),
      stop.2 = [] → stop.1 = ["mnt", "x"] := by decide
  obtain rfl : top = ["mnt", "x"] := hstops _ htop rfl
  have hleft : ∀ stop ∈ trail (mounted (fill xTree) ["mnt", "x"] directories) maxLinks []
      (beside.whole (some ["x", "other"])), stop.1 = ["mnt", "x"] → Climbs 0 stop.2 := by decide
  exact fun left hmem => hleft _ hmem rfl

theorem roundabout_inside :
    ¬∀ writable cwd t requested mountpoint path t',
      resolve writable cwd t requested (some mountpoint) = .ok (path, t') →
      Outside cwd t' path mountpoint := by
  intro hall
  have hout := hall (fun _ => true) none xTree roundabout mnt roundabout xTree rfl xTree (.refl _)
    ["mnt", "x"] (Or.inr (by decide)) (by decide) (fun _ => none) (fun _ _ _ hlink => nomatch hlink)
    (by simp) ["mount.log", "mnt", "x"] (by decide)
  revert hout
  decide

end SynologyFilestation.Fuse.LogPath
