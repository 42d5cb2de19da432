import Mathlib.Data.List.DropRight

/-!
Paths on the NAS. The code passes them as strings, `/share/dir/file`; here a
path is the list of what stands between the separators, so that splitting at
the last separator and joining again are list operations. A trailing slash is
an empty last component.
-/

namespace SynologyFilestation.Core

abbrev NasPath := List String

/-- What a file holds, and what is sent to make it. -/
abbrev Bytes := List UInt8

/-- The path as the code writes it. -/
def pathText (path : NasPath) : String := String.join (path.map ("/" ++ ·))

/-- Split at the last separator, as `split_nas_path` does; `none` for a path
without one. -/
def splitNasPath (path : NasPath) : Option (NasPath × String) :=
  path.getLast?.map fun name => (path.dropLast, name)

@[simp] theorem splitNasPath_concat (parent : NasPath) (name : String) :
    splitNasPath (parent ++ [name]) = some (parent, name) := by
  simp [splitNasPath]

/-- `split_parent`: the same, refusing an empty file name, which would name the
parent itself. -/
def splitParent (path : NasPath) : Option (NasPath × String) :=
  match splitNasPath path with
  | some (parent, name) => if name = "" then none else some (parent, name)
  | none => none

theorem eq_of_splitNasPath {path parent : NasPath} {name : String}
    (h : splitNasPath path = some (parent, name)) : path = parent ++ [name] := by
  rw [splitNasPath, Option.map_eq_some_iff] at h
  obtain ⟨last, hlast, heq⟩ := h
  obtain ⟨rfl, rfl⟩ := Prod.mk.inj heq
  obtain ⟨front, rfl⟩ := List.getLast?_eq_some_iff.mp hlast
  rw [List.dropLast_concat]

theorem eq_of_splitParent {path parent : NasPath} {name : String}
    (h : splitParent path = some (parent, name)) : path = parent ++ [name] := by
  unfold splitParent at h
  split at h
  case h_1 parent' name' hsplit =>
    split at h
    case isTrue => cases h
    case isFalse =>
      obtain ⟨rfl, rfl⟩ := Prod.mk.inj (Option.some.inj h)
      exact eq_of_splitNasPath hsplit
  case h_2 => cases h

/-- `trim_end_matches('/')`. -/
def trimEnd (path : NasPath) : NasPath := (path.reverse.dropWhile (· = "")).reverse

/-- `format!("{}/{}", folder.trim_end_matches('/'), name)`. -/
def joinPath (folder : NasPath) (name : String) : NasPath := trimEnd folder ++ [name]

theorem trimEnd_trimEnd (path : NasPath) : trimEnd (trimEnd path) = trimEnd path :=
  List.rdropWhile_idempotent _ _

theorem joinPath_trimEnd (folder : NasPath) (name : String) :
    joinPath (trimEnd folder) name = joinPath folder name := by
  rw [joinPath, trimEnd_trimEnd, joinPath]

theorem splitParent_joinPath (folder : NasPath) (name : String) :
    splitParent (joinPath folder name) =
      if name = "" then none else some (trimEnd folder, name) := by
  rw [splitParent, joinPath, splitNasPath_concat]

end SynologyFilestation.Core
