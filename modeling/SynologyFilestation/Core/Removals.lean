import SynologyFilestation.Core.Moves

/-!
What the calls of the client remove. Of all that a move sends, one request alone
can take away more than a file or an empty folder: FileStation's delete, which
recurses. Everything else looks before it removes, where the removal happens
(`plan_move` in `core/src/transport.rs`, and the server's own rules).

What is bad to lose is a parameter here, and so is what stands between the client
and the server: others may be at work there.
-/

namespace SynologyFilestation.Core

open Library

/-- The removals of what is bad to lose. -/
def Volume.goneWith (bad : Tree → Bool) (v : Volume) : List Removal :=
  v.removals.filter fun r => bad r.tree

/-- Whoever carries it out, whatever it finds, nothing goes that is bad to lose. -/
def Gentle (bad : Tree → Bool) {α : Type} (op : Operation Volume α) : Prop :=
  ∀ p v, (op.run p v).2.goneWith bad = v.goneWith bad

/-! ### Operations -/

section Operations

variable {fold : String → String} {bad : Tree → Bool} {v : Volume} {source target path : NasPath}

theorem Volume.goneWith_remove
    (h : ∀ tree, v.treeAt fold path = some tree → bad tree = false) :
    (v.remove fold path).goneWith bad = v.goneWith bad := by
  unfold Volume.remove
  split
  case h_1 tree _ htree => simp [Volume.goneWith, h tree htree]
  case h_2 => rfl

theorem Volume.goneWith_relocate :
    (v.relocate fold source target).2.goneWith bad = v.goneWith bad := by
  unfold Volume.relocate
  split
  case h_1 =>
    dsimp only
    split <;> rfl
  case h_2 => rfl

theorem Volume.goneWith_replaceFile
    (h : ∀ tree, v.treeAt fold target = some tree → bad tree = false) :
    (v.replaceFile fold source target).2.goneWith bad = v.goneWith bad := by
  unfold Volume.replaceFile
  split
  case h_1 w hmoved =>
    have hrelocated : ((v.remove fold target).relocate fold source target).2.goneWith bad =
        (v.remove fold target).goneWith bad := Volume.goneWith_relocate
    rw [hmoved] at hrelocated
    exact hrelocated.trans (Volume.goneWith_remove h)
  case h_2 => rfl

theorem gentle_getInfo : Gentle bad (getInfoOp fold path) :=
  fun p v => congrArg (Volume.goneWith bad) (Volume.getInfo_volume p v)

theorem gentle_hasEntries : Gentle bad (hasEntriesOp fold path) :=
  fun p v => congrArg (Volume.goneWith bad) (Volume.hasEntries_volume p v)

theorem gentle_rename {newName : String} : Gentle bad (renameOp fold path newName) := by
  intro p v
  change (v.rename fold p path newName).2.goneWith bad = _
  unfold Volume.rename
  split
  case h_1 => split <;> rfl
  case h_2 => rfl

section Replacing

variable (hfile : ∀ content, bad (.file content) = false) (hempty : bad (.dir []) = false)

include hfile

/-- A task replaces nothing but a file. -/
theorem gentle_copyMove {overwrite : Bool} :
    Gentle bad (copyMoveOp fold source target overwrite) := by
  intro p v
  change (v.copyMove fold source target overwrite).2.goneWith bad = _
  unfold Volume.copyMove
  split
  case h_1 =>
    split
    case h_1 => exact Volume.goneWith_relocate
    case h_2 content htree =>
      split
      case isTrue =>
        apply Volume.goneWith_replaceFile
        intro tree hfound
        obtain rfl := Option.some.inj (htree.symm.trans hfound)
        exact hfile content
      case isFalse => rfl
    case h_3 => rfl
  case h_2 => rfl

/-- A whole file written replaces a file. -/
theorem gentle_write {data : Bytes} : Gentle bad (writeOp fold path data) := by
  intro p v
  change (v.write fold path data).2.goneWith bad = _
  unfold Volume.write
  split
  case h_1 => rfl
  case h_2 parent name hsplit =>
    have hset : (v.setFile fold path data).removals = v.removals := by
      rw [Volume.setFile, hsplit]
    split
    case h_1 => rfl
    case h_2 => rfl
    case h_3 content _ _ => simp [Volume.goneWith, hfile]
    case h_4 => rw [Volume.goneWith, hset, Volume.goneWith]

include hempty

theorem bad_of_plan {isdir : Bool} {found : Option Tree} {plan : MovePlan}
    (hplan : planMove isdir (.ofTree found) = .ok plan) :
    ∀ tree, found = some tree → bad tree = false := by
  rintro tree rfl
  rcases tree with content | (_ | ⟨e, rest⟩)
  · exact hfile content
  · exact hempty
  · cases isdir <;> cases hplan

/-- A backend's move replaces a file or an empty folder. -/
theorem gentle_move : Gentle bad (moveOp fold source target) := by
  intro p v
  change (v.moveTo fold source target).2.goneWith bad = _
  unfold Volume.moveTo
  split
  case h_1 => rfl
  case h_2 =>
    split
    case h_1 => rfl
    case h_2 => exact Volume.goneWith_relocate
    case h_3 hplan =>
      rw [Volume.goneWith_relocate, Volume.goneWith_remove (bad_of_plan hfile hempty hplan)]
    case h_4 hplan => exact Volume.goneWith_replaceFile (bad_of_plan hfile hempty hplan)

end Replacing

end Operations

/-! ### A move but for its delete -/

/-- `gone` shows of a server what its volume has lost: what spares the volume
shows nothing. -/
structure Shows {S : Type} (bad : Tree → Bool)
    (on : {α : Type} → Operation Volume α → Operation S α) (gone : S → List Removal) : Prop where
  spared : ∀ {α : Type} {op : Operation Volume α}, Gentle bad op → ∀ p s,
    gone ((on op).run p s).2 = gone s

section Move

variable {S : Type} {fold : String → String} {bad : Tree → Bool}
  {on : {α : Type} → Operation Volume α → Operation S α} {gone : S → List Removal}
  {sc : MoveScript} {m : MoveEnds} {path : NasPath} {c : Client S}
  (hon : Shows bad on gone)

include hon

theorem Shows.request {α : Type} {op : Operation Volume α} (hop : Gentle bad op)
    (sc : RequestScript) (c : Client S) :
    gone (request (on op) sc c).2.server = gone c.server :=
  request_rule (on op) (P := fun s => gone s = gone c.server)
    (fun p s hs => (hon.spared hop p s).trans hs) sc rfl

theorem Shows.destination (info : RequestScript) (entries : ℕ → HttpFate) (c : Client S) :
    gone (destination fold on info entries path c).2.server = gone c.server := by
  have hinfo := hon.request (@gentle_getInfo fold bad path) info c
  unfold Core.destination
  cases hfound : Core.request (on (getInfoOp fold path)) info c with
  | mk found c' =>
      rw [hfound] at hinfo
      rcases found with e | found
      · exact hinfo
      · dsimp only
        split
        case isTrue =>
          exact sendRetried_rule (on (hasEntriesOp fold path))
            (P := fun s => gone s = gone c.server)
            (fun p s hs => (hon.spared gentle_hasEntries p s).trans hs) entries
            (.io "no attempts") 0 3 hinfo
        case isFalse => exact hinfo

theorem Shows.lookAtEnds (c : Client S) :
    gone (lookAtEnds fold on sc m c).2.server = gone c.server := by
  have hinfo := hon.request (@gentle_getInfo fold bad m.old) sc.source c
  unfold Core.lookAtEnds
  cases hsource : Core.request (on (getInfoOp fold m.old)) sc.source c with
  | mk source c' =>
      rw [hsource] at hinfo
      rcases source with e | source
      · exact hinfo
      · exact (hon.destination sc.dest sc.entries c').trans hinfo

theorem Shows.renameFirst (sc : RequestScript) (c : Client S) :
    gone (renameFirst fold on sc m c).2.server = gone c.server := by
  unfold Core.renameFirst
  split
  case isTrue => rfl
  case isFalse =>
    have hrename := hon.request (@gentle_rename fold bad m.old m.newName) sc c
    cases hrenamed : Core.request (on (renameOp fold m.old m.newName)) sc c with
    | mk r d =>
        rw [hrenamed] at hrename
        rcases r with e | info <;> exact hrename

theorem Shows.settleMove (renamed : Option NasPath) (outcome : Except MoveFailure Unit)
    (c : Client S) :
    gone (settleMove fold on sc m renamed outcome c).2.server = gone c.server := by
  unfold Core.settleMove
  split
  case h_1 => rfl
  case h_2 => exact hon.request gentle_rename sc.renameBack c
  case h_3 => rfl

variable (hfile : ∀ content, bad (.file content) = false) (hempty : bad (.dir []) = false)

include hfile

theorem Shows.copymove (start : HttpFate) (polls : List PollFate) (source destDir : NasPath)
    (overwrite : Bool) (c : Client S) :
    gone (copymove fold on start polls source destDir overwrite c).2.server = gone c.server := by
  have hrun := hon.spared (@gentle_copyMove fold bad source destDir hfile overwrite) .http c.server
  unfold Core.copymove
  dsimp only
  split
  case h_1 => exact hrun
  case h_2 ran message =>
    cases ran with
    | true => exact hrun
    | false => rfl
  case h_3 ran message =>
    cases ran with
    | true => exact hrun
    | false => rfl
  case h_4 => rfl

/-- All that the move proper loses, its delete loses. -/
theorem Shows.carryMove (plan : MovePlan) (source : NasPath) (c : Client S) :
    gone (carryMove fold on sc m plan source c).2.server =
      if plan = .replaceEmptyDir then
        gone (Core.request (on (deleteOp fold m.new)) sc.delete c).2.server
      else gone c.server := by
  unfold Core.carryMove
  split
  case isTrue =>
    cases hdelete : Core.request (on (deleteOp fold m.new)) sc.delete c with
    | mk r d =>
        rcases r with e | u
        · rfl
        · exact hon.copymove hfile ..
  case isFalse => exact hon.copymove hfile ..

include hempty

theorem Shows.planFirst (old new : NasPath) (c : Client S) :
    gone (planFirst fold on sc old new c).2.server = gone c.server := by
  have hmove := viaBackends_rule (on (moveOp fold old new)) (P := fun s => gone s = gone c.server)
    (fun p s hs => (hon.spared (gentle_move hfile hempty) p s).trans hs) sc.backend
    c.metadataBreakers rfl
  unfold Core.planFirst
  cases hvia : viaBackends (on (moveOp fold old new)) sc.backend c.metadataBreakers c.server with
  | mk answer rest =>
      obtain ⟨breakers, s⟩ := rest
      rw [hvia] at hmove
      rcases answer with _ | r
      case some => exact hmove
      cases MoveEnds.split old new with
      | none => exact hmove
      | some m =>
          have hlook := @Shows.lookAtEnds _ fold _ _ _ sc m hon
            { c with metadataBreakers := breakers, server := s }
          dsimp only
          cases hplan : Core.lookAtEnds fold on sc m
              { c with metadataBreakers := breakers, server := s } with
          | mk plan d =>
              rw [hplan] at hlook
              rcases plan with e | plan <;> exact hlook.trans hmove

end Move

end SynologyFilestation.Core
