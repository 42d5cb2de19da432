import SynologyFilestation.Core.Removals

/-!
A move with other clients at work on the same share. What it looks at and what it
then does are separate messages (`core/src/client/moves.rs`), and in between
others may do anything to the tree.

A folder that is replaced is deleted before the move. A metadata backend refuses
to delete one that has entries, whatever was seen before; FileStation deletes it
with all that is in it.
-/

namespace SynologyFilestation.Core

open Library

/-- A server with others on it: what they do to the tree before each message that
is carried out. -/
structure Shared where
  volume : Volume
  others : List (Tree → Tree)

/-- The volume as the next message finds it. -/
def Shared.found (s : Shared) : Volume :=
  { s.volume with root := (s.others.headD id) s.volume.root }

/-- A message among those of others. -/
def amid {α : Type} (op : Operation Volume α) : Operation Shared α where
  run p s :=
    let (r, v) := op.run p s.found
    (r, { volume := v, others := s.others.tail })
  final _ := op.final _

/-- Removing the tree removes files from within a folder. -/
def losesFile : Tree → Bool
  | .file _ => false
  | .dir children => FileTree.anyFile children

/-- The folders that were removed with files in them. -/
def Volume.lost (v : Volume) : List Removal := v.removals.filter fun r => losesFile r.tree

/-! ### Messages that lose nothing -/

section Careful

variable {fold : String → String} {α : Type} {op : Operation Volume α}

/-- Whoever carries it out, whatever it finds, no folder goes with files in it. -/
def Careful (op : Operation Volume α) : Prop := ∀ p v, (op.run p v).2.lost = v.lost

/-- What others do to the tree is not ours to answer for. -/
theorem lost_found (s : Shared) : s.found.lost = s.volume.lost := rfl

theorem Careful.amid (h : Careful op) (p : Party) (s : Shared) :
    ((amid op).run p s).2.volume.lost = s.volume.lost :=
  (h p s.found).trans (lost_found s)

/-- What is lost of the share shows in the volume, whatever others do. -/
theorem shows_lost : Shows losesFile amid fun s => s.volume.lost where
  spared hop p s := Careful.amid hop p s

end Careful

/-! ### The delete -/

section Delete

variable {fold : String → String} {path : NasPath}

/-- FileStation carries the delete out only on what holds no file, as `log` runs
from `s` on. -/
def DeletesNoFile (fold : String → String) (path : NasPath) (s : Shared) (log : List Party) :
    Prop :=
  ∀ before after, log = before ++ .http :: after → ∀ tree,
    ((amid (deleteOp fold path)).replay s before).found.treeAt fold path = some tree →
      losesFile tree = false

theorem losesFile_of_not_isFull {tree : Tree} (h : tree.isFull = false) :
    losesFile tree = false := by
  rcases tree with content | (_ | ⟨e, rest⟩)
  · rfl
  · rfl
  · cases h

theorem Volume.lost_delete (p : Party) (v : Volume) :
    ∃ gone, (v.delete fold p path).2.lost = v.lost ++ gone ∧
      (gone = [] ↔ (p = .http → ∀ tree, v.treeAt fold path = some tree →
        losesFile tree = false)) := by
  cases htree : v.treeAt fold path with
  | none => exact ⟨[], by simp [Volume.delete, htree], by simp⟩
  | some tree =>
      rw [Volume.delete_yields]
      cases hloses : losesFile tree with
      | false =>
          refine ⟨[], ?_, by simp [hloses]⟩
          split
          case isTrue =>
            rw [List.append_nil]
            apply @Volume.goneWith_remove fold losesFile
            intro found hfound
            obtain rfl := Option.some.inj (htree.symm.trans hfound)
            exact hloses
          case isFalse => exact (List.append_nil _).symm
      | true =>
          cases p with
          | backend =>
              have hfull : tree.isFull = true := by
                by_contra hempty
                rw [losesFile_of_not_isFull (Bool.eq_false_iff.mpr hempty)] at hloses
                cases hloses
              exact ⟨[], by simp [Volume.yields, htree, hfull], by simp⟩
          | http =>
              obtain ⟨parent, name, hsplit⟩ : ∃ parent name, splitNasPath path =
                  some (parent, name) := by
                cases hsplit : splitNasPath path with
                | none => simp [Volume.treeAt, Volume.entryAt, hsplit] at htree
                | some split => exact ⟨split.1, split.2, rfl⟩
              refine ⟨[⟨path, tree⟩], ?_, by simp [hloses]⟩
              rw [if_pos (by simp [Volume.yields, htree]), Volume.remove, hsplit, htree]
              simp [Volume.lost, hloses]

/-- **The runs of a delete.** -/
theorem lost_replay_delete (s : Shared) (log : List Party) :
    ∃ gone, ((amid (deleteOp fold path)).replay s log).volume.lost = s.volume.lost ++ gone ∧
      (gone = [] ↔ DeletesNoFile fold path s log) := by
  induction log using List.reverseRecOn with
  | nil => exact ⟨[], (List.append_nil _).symm, by simp [DeletesNoFile]⟩
  | append_singleton log p ih =>
      obtain ⟨gone, hgone, hiff⟩ := ih
      obtain ⟨more, hmore, hmiff⟩ :=
        @Volume.lost_delete fold path p ((amid (deleteOp fold path)).replay s log).found
      refine ⟨gone ++ more, ?_, ?_⟩
      · rw [Operation.replay_concat, ← List.append_assoc, ← hgone]
        exact hmore
      · rw [List.append_eq_nil_iff, hiff, hmiff]
        constructor
        · rintro ⟨hbefore, hlast⟩ before after heq
          rcases List.eq_nil_or_concat after with rfl | ⟨init, last, rfl⟩
          · obtain ⟨rfl, hp⟩ := List.append_inj' heq rfl
            exact hlast (List.head_eq_of_cons_eq hp)
          · rw [List.concat_eq_append, ← List.cons_append, ← List.append_assoc] at heq
            exact hbefore before init (List.append_inj' heq rfl).1
        · intro h
          refine ⟨fun before after heq => h before (after ++ [p]) (by simp [heq]), ?_⟩
          rintro rfl
          exact h log [] rfl

end Delete

/-! ### The move -/

section Move

variable (fold : String → String)

/-- The client as it sends the delete of the folder to be replaced, if the move
comes to that. -/
def beforeDelete (sc : MoveScript) (old new : NasPath) (c : Client Shared) :
    Option (Client Shared) :=
  match planFirst fold amid sc old new c with
  | (.ok (m, .replaceEmptyDir), c) =>
      match renameFirst fold amid sc.rename m c with
      | (.ok _, c) => some c
      | (.error _, _) => none
  | _ => none

variable {fold} {m : MoveEnds}

variable (fold) in
/-- **Exactly when a move loses no file of the folder it replaces.** In whatever
order it and others come, none is lost if and only if FileStation, where it is the
one to carry out the delete of the folder, finds no file there then. -/
theorem move_spares_iff (sc : MoveScript) (old new : NasPath) (c : Client Shared) :
    (moveWithin fold amid sc old new c).2.server.volume.lost = c.server.volume.lost ↔
      ∀ d, beforeDelete fold sc old new c = some d →
        DeletesNoFile fold new d.server (sc.delete.runs d.metadataBreakers) := by
  have hfile : ∀ content, losesFile (.file content) = false := fun _ => rfl
  have hplanned := @Shows.planFirst _ fold _ _ _ sc shows_lost hfile rfl old new c
  unfold moveWithin beforeDelete
  cases hplan : planFirst fold amid sc old new c with
  | mk planned d =>
      rw [hplan] at hplanned
      rcases planned with r | ⟨m, plan⟩
      · simpa using hplanned
      obtain ⟨-, rfl⟩ := planFirst_ends hplan
      have hrenamed := @Shows.renameFirst _ fold _ _ _ m shows_lost sc.rename d
      dsimp only at hrenamed ⊢
      unfold finishMove
      cases hrename : renameFirst fold amid sc.rename m d with
      | mk renamed d' =>
          rw [hrename] at hrenamed
          rcases renamed with e | renamed
          · cases plan <;> simpa [hrename] using hrenamed.trans hplanned
          dsimp only
          rw [@Shows.settleMove _ fold _ _ _ sc m shows_lost,
            @Shows.carryMove _ fold _ _ _ sc m shows_lost hfile]
          cases plan with
          | fresh => simpa using hrenamed.trans hplanned
          | replaceFile => simpa using hrenamed.trans hplanned
          | replaceEmptyDir =>
              obtain ⟨gone, hgone, hiff⟩ := @lost_replay_delete fold m.new d'.server
                (sc.delete.runs d'.metadataBreakers)
              rw [if_pos rfl, (request_follows _ sc.delete d').2.server, hgone,
                show d'.server.volume.lost = _ from hrenamed.trans hplanned,
                List.append_right_eq_self, hiff]
              simp [hrename]

end Move

/-! ### A file created in time to be lost -/

/-- Two folders of one name, both empty. -/
def twoFolders : Tree :=
  .dir [("from", .dir [("album", .dir [])]), ("to", .dir [("album", .dir [])])]

/-- Another client stores a file in the one that is to be replaced. -/
def storesPhoto (root : Tree) : Tree :=
  root.alterDir id (· ++ [("photo", .file [1])]) ["to", "album"]

/-- The source was looked at, the destination was, and was seen to be empty; then
the file is stored, and then the folder deleted. -/
def overtakenMove : Client Shared :=
  ⟨[], [], [], { volume := { root := twoFolders, removals := [] }
                 others := [id, id, id, storesPhoto] }⟩

theorem stored_file_lost :
    (moveWithin id amid .plain ["from", "album"] ["to", "album"] overtakenMove).1 = .ok () ∧
      (moveWithin id amid .plain ["from", "album"] ["to", "album"]
        overtakenMove).2.server.volume.removals =
          [⟨["to", "album"], .dir [("photo", .file [1])]⟩] ∧
      (moveWithin id amid .plain ["from", "album"] ["to", "album"]
        overtakenMove).2.server.volume.lost ≠ overtakenMove.server.volume.lost := by
  refine ⟨rfl, rfl, fun h => ?_⟩
  have hlost := congrArg List.length h
  cases hlost

end SynologyFilestation.Core
