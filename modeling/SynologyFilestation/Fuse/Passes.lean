import SynologyFilestation.Fuse.Numbers

/-!
Passes over directories (`Snapshot` and the handles in `fuse/src/fs/dirs.rs`, `opendir`, `readdir`
and `releasedir` in `fuse/src/fs/callbacks.rs`): the first reply of a pass fetches the listing, and
the handle keeps it for the others.

A listing is what the `Lister` brings, another one each time. The kernel asks one thing of a handle
at a time. It goes on from the last entry that it has taken from a reply, which need not be the last
in it, or from an earlier one. `size` is the room that an entry takes in a reply.
-/

namespace SynologyFilestation.Fuse

open Core Function Library

inductive FileKind
  | directory
  | regularFile
  deriving DecidableEq

/-- One entry as `readdir` hands it to the kernel. -/
structure DirEntry where
  ino : ℕ
  kind : FileKind
  name : String
  deriving DecidableEq

/-- What is read of an entry of a listing, its path apart. -/
structure ListedInfo where
  name : String
  isdir : Bool

def ListedInfo.kind (info : ListedInfo) : FileKind :=
  if info.isdir then .directory else .regularFile

/-- What one pass over a directory reads. -/
structure Snapshot where
  listing : List (InodeEntry ListedInfo)
  ino : ℕ
  parentIno : ℕ

namespace Snapshot

variable (fold : String → String)

def new (ino : ℕ) (path : NasPath) (listing : List (InodeEntry ListedInfo))
    (t : InodeTable ListedInfo) : Snapshot × InodeTable ListedInfo :=
  -- The parent of a top-level share is the virtual root.
  if path.dropLast = virtualRootPath then (⟨listing, ino, rootIno⟩, t)
  else
    let (parentIno, t) := t.getOrAllocIno fold path.dropLast
    (⟨listing, ino, parentIno⟩, t)

variable (snapshot : Snapshot)

/-- Entries in the pass, `.` and `..` included. -/
def len : ℕ := snapshot.listing.length + 2

/-- The entry at `i` in the order offsets count, registering its inode. -/
def entry (i : ℕ) (t : InodeTable ListedInfo) : Option (DirEntry × InodeTable ListedInfo) :=
  match i with
  | 0 => some (⟨snapshot.ino, .directory, "."⟩, t)
  | 1 => some (⟨snapshot.parentIno, .directory, ".."⟩, t)
  | i + 2 => snapshot.listing[i]?.map fun e =>
      (⟨(t.register fold e).1, e.info.kind, e.info.name⟩, (t.register fold e).2)

/-- The loop of `readdir`, over the `n` entries from `i` on: each with the offset behind it, until
one does not fit. -/
def reply (size : String → ℕ) : ℕ → ℕ → ℕ → InodeTable ListedInfo →
    List (DirEntry × ℕ) × InodeTable ListedInfo
  | 0, _, _, t => ([], t)
  | n + 1, room, i, t =>
      match snapshot.entry fold i t with
      | none => ([], t)
      | some (e, t) =>
          if room < size e.name then ([], t)
          else
            let (more, t) := reply size n (room - size e.name) (i + 1) t
            ((e, i + 1) :: more, t)

/-- `readdir` from an offset on. -/
def readdir (size : String → ℕ) (room offset : ℕ) (t : InodeTable ListedInfo) :
    List (DirEntry × ℕ) × InodeTable ListedInfo :=
  snapshot.reply fold size (snapshot.len - offset) room offset t

/-- What the entries look like, apart from their numbers. -/
def shown : List (FileKind × String) :=
  (.directory, ".") :: (.directory, "..") ::
    snapshot.listing.map fun e => (e.info.kind, e.info.name)

end Snapshot

def DirEntry.shown (e : DirEntry) : FileKind × String := (e.kind, e.name)

/-! ### One reply -/

namespace Snapshot

variable {fold : String → String} {snapshot : Snapshot} {size : String → ℕ} {i n room : ℕ}
  {t : InodeTable ListedInfo}

theorem length_shown (snapshot : Snapshot) : snapshot.shown.length = snapshot.len := by
  simp [shown, len]

theorem entry_shown {e : DirEntry} {t' : InodeTable ListedInfo}
    (h : snapshot.entry fold i t = some (e, t')) : snapshot.shown[i]? = some e.shown := by
  rcases i with _ | _ | i
  · obtain ⟨rfl, -⟩ := Prod.mk.inj (Option.some.inj h)
    rfl
  · obtain ⟨rfl, -⟩ := Prod.mk.inj (Option.some.inj h)
    rfl
  · obtain ⟨listed, hlisted, heq⟩ := Option.map_eq_some_iff.mp h
    obtain ⟨rfl, -⟩ := Prod.mk.inj heq
    show (snapshot.listing.map _)[i]? = _
    rw [List.getElem?_map, hlisted]
    rfl

theorem exists_entry (fold : String → String) (t : InodeTable ListedInfo) (h : i < snapshot.len) :
    ∃ e t', snapshot.entry fold i t = some (e, t') := by
  rcases i with _ | _ | i
  · exact ⟨_, t, rfl⟩
  · exact ⟨_, t, rfl⟩
  · have hlt : i < snapshot.listing.length := by
      unfold len at h
      omega
    have hlisted := List.getElem?_eq_getElem hlt
    exact ⟨_, _, Option.map_eq_some_iff.mpr ⟨_, hlisted, rfl⟩⟩

/-- A reply is what is shown from there on, as far as it goes, and each offset is that of the next
entry. -/
theorem reply_shown (hn : i + n ≤ snapshot.len) :
    let given := (snapshot.reply fold size n room i t).1
    given.length ≤ n ∧
      given.map (·.1.shown) = (snapshot.shown.drop i).take given.length ∧
      given.map Prod.snd = List.range' (i + 1) given.length := by
  induction n generalizing i room t with
  | zero => exact ⟨le_rfl, rfl, rfl⟩
  | succ n ih =>
      obtain ⟨e, t', hentry⟩ := exists_entry fold t (show i < snapshot.len by omega)
      rw [reply, hentry]
      dsimp only
      split
      case isTrue => exact ⟨Nat.zero_le _, rfl, rfl⟩
      case isFalse =>
        obtain ⟨hlength, hshown, hoffsets⟩ :=
          @ih (i + 1) (room - size e.name) t' (by omega)
        have hdrop : snapshot.shown.drop i = e.shown :: snapshot.shown.drop (i + 1) := by
          have hat := entry_shown hentry
          obtain ⟨hlt, heq⟩ := List.getElem?_eq_some_iff.mp hat
          rw [List.drop_eq_getElem_cons hlt, heq]
        refine ⟨Nat.succ_le_succ hlength, ?_, ?_⟩
        · rw [List.map_cons, hshown, hdrop, List.length_cons, List.take_succ_cons]
        · rw [List.map_cons, hoffsets, List.length_cons, List.range'_succ]

/-- A reply with nothing in it, where there is room for any entry. -/
theorem reply_eq_nil (hroom : ∀ name, size name ≤ room) (hn : i + n ≤ snapshot.len)
    (h : (snapshot.reply fold size n room i t).1 = []) : n = 0 := by
  cases n with
  | zero => rfl
  | succ n =>
      obtain ⟨e, t', hentry⟩ := exists_entry fold t (show i < snapshot.len by omega)
      rw [reply, hentry] at h
      dsimp only at h
      rw [if_neg (Nat.not_lt.mpr (hroom e.name))] at h
      cases h

/-- The cache keeps a number that it has, whatever is handed out. -/
theorem keeps_reply {ino : ℕ} {path : NasPath} (h : t.Keeps fold ino path) :
    (snapshot.reply fold size n room i t).2.Keeps fold ino path := by
  induction n generalizing i room t with
  | zero => exact h
  | succ n ih =>
      have hentry {e : DirEntry} {t' : InodeTable ListedInfo}
          (he : snapshot.entry fold i t = some (e, t')) : t'.Keeps fold ino path := by
        rcases i with _ | _ | i
        · obtain ⟨-, rfl⟩ := Prod.mk.inj (Option.some.inj he)
          exact h
        · obtain ⟨-, rfl⟩ := Prod.mk.inj (Option.some.inj he)
          exact h
        · obtain ⟨listed, -, heq⟩ := Option.map_eq_some_iff.mp he
          obtain ⟨-, rfl⟩ := Prod.mk.inj heq
          exact h.register
      rw [reply]
      split
      case h_1 => exact h
      case h_2 e t' he =>
        split
        case isTrue => exact hentry he
        case isFalse => exact ih (hentry he)

/-- The number of an entry of the listing is the one that the cache has for its path. -/
theorem reply_keeps {e : DirEntry} {k : ℕ} {listed : InodeEntry ListedInfo}
    (he : (e, k + 3) ∈ (snapshot.reply fold size n room i t).1)
    (hlisted : snapshot.listing[k]? = some listed) :
    (snapshot.reply fold size n room i t).2.Keeps fold e.ino listed.path := by
  induction n generalizing i room t with
  | zero => cases he
  | succ n ih =>
      rw [reply] at he ⊢
      split at he
      case h_1 => cases he
      case h_2 e' t' hentry =>
        split at he
        case isTrue => cases he
        case isFalse =>
          rcases List.mem_cons.mp he with heq | hmem
          · obtain ⟨rfl, hi⟩ := Prod.mk.inj heq
            obtain rfl : i = k + 2 := by omega
            obtain ⟨found, hfound, heq⟩ := Option.map_eq_some_iff.mp hentry
            obtain rfl := Option.some.inj (hlisted.symm.trans hfound)
            obtain ⟨rfl, rfl⟩ := Prod.mk.inj heq
            split
            case isTrue hno => contradiction
            case isFalse => exact keeps_reply InodeTable.keeps_register
          · split
            case isTrue hno => contradiction
            case isFalse => exact ih hmem

end Snapshot

/-! ### Handles -/

/-- A handle, as the kernel has it. -/
structure DirPass where
  ino : ℕ
  /-- The offset that it goes on from. -/
  cursor : ℕ
  /-- What it has taken, from the start of the directory to there. -/
  given : List DirEntry
  /-- The path of a `readdir` that waits for a listing. -/
  reading : Option NasPath
  released : Bool

/-- The kernel takes the first entries of a reply. -/
def DirPass.take (p : DirPass) (reply : List (DirEntry × ℕ)) (used : ℕ) : DirPass :=
  { p with
    cursor := ((reply.take used).getLast?.map Prod.snd).getD p.cursor
    given := p.given ++ (reply.take used).map Prod.fst
    reading := none }

structure PassSystem where
  table : InodeTable ListedInfo
  nextFh : ℕ
  dirHandles : ℕ → Option (Option Snapshot)
  passes : ℕ → Option DirPass

namespace PassSystem

def initial (table : InodeTable ListedInfo) : PassSystem := ⟨table, 1, fun _ => none, fun _ => none⟩

def setPass (s : PassSystem) (fh : ℕ) (p : DirPass) : PassSystem :=
  { s with passes := update s.passes fh (some p) }

/-- What a listing makes of the pass that has waited for it: the snapshot, the reply from it, and
the table then. -/
def listed (fold : String → String) (size : String → ℕ) (s : PassSystem) (p : DirPass)
    (path : NasPath) (listing : List (InodeEntry ListedInfo)) (room : ℕ) :
    Snapshot × List (DirEntry × ℕ) × InodeTable ListedInfo :=
  let (snapshot, table) := Snapshot.new fold p.ino path listing s.table
  (snapshot, snapshot.readdir fold size room p.cursor table)

end PassSystem

inductive PassEvent
  | opendir
  | seek (fh : ℕ)
  | read (fh : ℕ)
  /-- A `readdir` is answered, with so much room for it. -/
  | answer (fh room : ℕ) (reply : List (DirEntry × ℕ))
  | fail (fh : ℕ)
  | releasedir (fh : ℕ)
  | other

/-- The steps of the kernel and of `readdir`. -/
inductive PassStep (fold : String → String) (size : String → ℕ) (s : PassSystem) :
    PassEvent → PassSystem → Prop
  | opendir {ino} : PassStep fold size s .opendir
      { s with
        nextFh := s.nextFh + 1
        dirHandles := update s.dirHandles s.nextFh (some none)
        passes := update s.passes s.nextFh (some ⟨ino, 0, [], none, false⟩) }
  | seek {fh p place} (hp : s.passes fh = some p) (hopen : p.released = false)
      (hidle : p.reading = none) (hplace : place ≤ p.cursor) :
      PassStep fold size s (.seek fh)
        (s.setPass fh { p with cursor := place, given := p.given.take place })
  /-- The pass has its snapshot. -/
  | answer {fh p path snapshot room used} (hp : s.passes fh = some p) (hopen : p.released = false)
      (hidle : p.reading = none) (hpath : s.table.getPathForIno p.ino = some path)
      (hoffset : 0 < p.cursor) (hkept : s.dirHandles fh = some (some snapshot)) :
      PassStep fold size s
        (.answer fh room (snapshot.readdir fold size room p.cursor s.table).1)
        ({ s with table := (snapshot.readdir fold size room p.cursor s.table).2 }.setPass fh
          (p.take (snapshot.readdir fold size room p.cursor s.table).1 used))
  | read {fh p path} (hp : s.passes fh = some p) (hopen : p.released = false)
      (hidle : p.reading = none) (hpath : s.table.getPathForIno p.ino = some path)
      (hfetch : p.cursor = 0 ∨ ∀ snapshot, s.dirHandles fh ≠ some (some snapshot)) :
      PassStep fold size s (.read fh) (s.setPass fh { p with reading := some path })
  /-- Only a handle that is still open keeps the listing. -/
  | listed {fh p path listing room used} (hp : s.passes fh = some p)
      (hreading : p.reading = some path) :
      PassStep fold size s (.answer fh room (s.listed fold size p path listing room).2.1)
        ({ s with
          table := (s.listed fold size p path listing room).2.2
          dirHandles := update s.dirHandles fh ((s.dirHandles fh).map fun _ =>
            some (s.listed fold size p path listing room).1) }.setPass fh
          (if p.released then { p with reading := none }
          else p.take (s.listed fold size p path listing room).2.1 used))
  | notListed {fh p path} (hp : s.passes fh = some p) (hreading : p.reading = some path) :
      PassStep fold size s (.fail fh) (s.setPass fh { p with reading := none })
  | noPath {fh p} (hp : s.passes fh = some p) (hopen : p.released = false)
      (hpath : s.table.getPathForIno p.ino = none) : PassStep fold size s (.fail fh) s
  | releasedir {fh p} (hp : s.passes fh = some p) (hopen : p.released = false) :
      PassStep fold size s (.releasedir fh)
        ({ s with dirHandles := update s.dirHandles fh none }.setPass fh
          { p with released := true })
  /-- What else goes on in the mount. -/
  | other {table} : PassStep fold size s .other { s with table := table }

/-- What was taken is the start of one listing, the one that the handle has. -/
structure DirPass.Sound (p : DirPass) (held : Option (Option Snapshot)) : Prop where
  released : p.released = true ↔ held = none
  begun : p.cursor = 0 → p.given = []
  given : p.released = false → 0 < p.cursor → ∃ snapshot, held = some (some snapshot) ∧
    p.cursor ≤ snapshot.len ∧ p.given.map DirEntry.shown = snapshot.shown.take p.cursor
  reading : p.released = false → p.reading ≠ none → p.cursor = 0

theorem DirPass.sound_of_released {p : DirPass} (h : p.released = true)
    (hbegun : p.cursor = 0 → p.given = []) : p.Sound none := by
  have hclosed {P : Prop} (hopen : p.released = false) : P :=
    absurd (h.symm.trans hopen) (by decide)
  exact ⟨iff_of_true h rfl, hbegun, fun hopen => hclosed hopen, fun hopen => hclosed hopen⟩

/-- The kernel goes on behind what it has taken. -/
theorem DirPass.cursor_take {p : DirPass} {reply : List (DirEntry × ℕ)}
    (hoffsets : reply.map Prod.snd = List.range' (p.cursor + 1) reply.length) (used : ℕ) :
    (p.take reply used).cursor = p.cursor + (reply.take used).length := by
  have htaken : (reply.take used).map Prod.snd =
      List.range' (p.cursor + 1) (reply.take used).length := by
    rw [List.map_take, hoffsets, List.length_take]
    rcases Nat.le_total used reply.length with hle | hle
    · rw [List.take_range'_of_length_ge hle, Nat.min_eq_left hle]
    · rw [List.take_range'_of_length_le hle, Nat.min_eq_right hle]
  show (((reply.take used).getLast?).map Prod.snd).getD p.cursor = _
  rw [← List.getLast?_map, htaken, List.getLast?_range']
  split
  case isTrue hnil =>
    rw [hnil]
    rfl
  case isFalse hne =>
    rw [Option.getD_some]
    omega

theorem DirPass.Sound.take {fold : String → String} {size : String → ℕ} {p : DirPass}
    {held : Option (Option Snapshot)} {snapshot : Snapshot} {t : InodeTable ListedInfo}
    (h : p.Sound held) (hopen : p.released = false)
    (hkept : 0 < p.cursor → held = some (some snapshot)) (room used : ℕ) :
    (p.take (snapshot.readdir fold size room p.cursor t).1 used).Sound (some (some snapshot)) := by
  obtain ⟨hle, hgiven⟩ : p.cursor ≤ snapshot.len ∧
      p.given.map DirEntry.shown = snapshot.shown.take p.cursor := by
    rcases Nat.eq_zero_or_pos p.cursor with hzero | hpos
    · rw [hzero, h.begun hzero]
      exact ⟨Nat.zero_le _, rfl⟩
    · obtain ⟨other, hother, hle, hgiven⟩ := h.given hopen hpos
      obtain rfl : snapshot = other := by
        have heq := (hkept hpos).symm.trans hother
        exact Option.some.inj (Option.some.inj heq)
      exact ⟨hle, hgiven⟩
  obtain ⟨hlength, hshown, hoffsets⟩ := @Snapshot.reply_shown fold snapshot size p.cursor
    (snapshot.len - p.cursor) room t (by omega)
  have hcursor := DirPass.cursor_take hoffsets used
  have htaken : ∀ reply : List (DirEntry × ℕ), (p.take reply used).given.map DirEntry.shown =
      p.given.map DirEntry.shown ++ (reply.map (·.1.shown)).take used := by
    intro reply
    show (p.given ++ (reply.take used).map Prod.fst).map _ = _
    rw [List.map_append, List.map_map, List.map_take]
    rfl
  have hall : (p.take (snapshot.readdir fold size room p.cursor t).1 used).given.map
      DirEntry.shown = snapshot.shown.take
        (p.take (snapshot.readdir fold size room p.cursor t).1 used).cursor := by
    unfold Snapshot.readdir
    rw [htaken, hshown, hgiven, hcursor, List.take_take, List.length_take, ← List.take_add]
  refine ⟨⟨fun hreleased => ?_, fun hnone => by cases hnone⟩, fun hzero => ?_,
    fun _ _ => ⟨snapshot, rfl, ?_, hall⟩, fun _ hreading => absurd rfl hreading⟩
  · rw [show p.released = true from hreleased] at hopen
    cases hopen
  · rw [hzero, List.take_zero] at hall
    exact List.map_eq_nil_iff.mp hall
  · unfold Snapshot.readdir
    rw [hcursor, List.length_take]
    omega

/-- A reply without entries, where there is room for any. -/
theorem DirPass.Sound.whole {fold : String → String} {size : String → ℕ} {p : DirPass}
    {snapshot : Snapshot} {t : InodeTable ListedInfo} {room used : ℕ}
    (h : (p.take (snapshot.readdir fold size room p.cursor t).1 used).Sound (some (some snapshot)))
    (hroom : ∀ name, size name ≤ room) (hle : p.cursor ≤ snapshot.len)
    (hnil : (snapshot.readdir fold size room p.cursor t).1 = []) :
    (p.take (snapshot.readdir fold size room p.cursor t).1 used).given.map DirEntry.shown =
      snapshot.shown := by
  have hend := Snapshot.reply_eq_nil hroom (by omega) hnil
  have hcursor : (p.take (snapshot.readdir fold size room p.cursor t).1 used).cursor =
      p.cursor := by
    rw [hnil, DirPass.take, List.take_nil]
    rfl
  have hopen : (p.take (snapshot.readdir fold size room p.cursor t).1 used).released = false :=
    Bool.eq_false_iff.mpr fun hreleased => (by cases h.released.mp hreleased)
  have hpos : 0 < p.cursor := by
    unfold Snapshot.len at hend
    omega
  obtain ⟨other, hother, -, hgiven⟩ := h.given hopen (hcursor.symm ▸ hpos)
  obtain rfl : snapshot = other := Option.some.inj (Option.some.inj hother)
  rw [hgiven, hcursor]
  refine List.take_of_length_le ?_
  rw [Snapshot.length_shown]
  omega

namespace PassSystem

variable {fold : String → String} {size : String → ℕ} {s t : PassSystem} {e : PassEvent} {fh : ℕ}
  {p : DirPass}

@[simp] theorem passes_setPass : (s.setPass fh p).passes fh = some p := update_self ..

structure Sound (s : PassSystem) : Prop where
  fresh : ∀ fh, s.nextFh ≤ fh → s.dirHandles fh = none ∧ s.passes fh = none
  passes : ∀ fh p, s.passes fh = some p → p.Sound (s.dirHandles fh)

/-- The pass of one handle goes on. -/
theorem Sound.setPass (h : s.Sound) {p' : DirPass} (hp : s.passes fh = some p)
    {table : InodeTable ListedInfo} {held : Option (Option Snapshot)} (hp' : p'.Sound held) :
    Sound { s with
      table := table
      dirHandles := update s.dirHandles fh held
      passes := update s.passes fh (some p') } where
  fresh n hn := by
    have hne : n ≠ fh := by
      rintro rfl
      cases (h.fresh n hn).2.symm.trans hp
    exact ⟨(update_of_ne hne ..).trans (h.fresh n hn).1,
      (update_of_ne hne ..).trans (h.fresh n hn).2⟩
  passes n other hn := by
    rcases update_eq_some hn with ⟨rfl, rfl⟩ | ⟨hne, hold⟩
    · show DirPass.Sound _ (update s.dirHandles n held n)
      rw [update_self]
      exact hp'
    · show DirPass.Sound _ (update s.dirHandles fh held n)
      rw [update_of_ne hne]
      exact h.passes n other hold

theorem Sound.step (h : s.Sound) (hstep : PassStep fold size s e t) : t.Sound := by
  have hstays {fh : ℕ} {p p' : DirPass} {table : InodeTable ListedInfo} (hp : s.passes fh = some p)
      (hp' : p'.Sound (s.dirHandles fh)) : Sound ({ s with table := table }.setPass fh p') := by
    have hset := @Sound.setPass s fh p h p' hp table _ hp'
    rwa [update_eq_self] at hset
  cases hstep with
  | @opendir ino =>
      obtain ⟨hnone, hnone'⟩ := h.fresh s.nextFh le_rfl
      refine ⟨fun n hn => ?_, fun n other hn => ?_⟩
      · have hne : n ≠ s.nextFh := Nat.ne_of_gt hn
        obtain ⟨hheld, hpass⟩ := h.fresh n (Nat.le_of_succ_le hn)
        exact ⟨(update_of_ne hne ..).trans hheld, (update_of_ne hne ..).trans hpass⟩
      · show other.Sound (update s.dirHandles s.nextFh (some none) n)
        rcases update_eq_some hn with ⟨rfl, rfl⟩ | ⟨hne, hold⟩
        · rw [update_self]
          exact ⟨⟨fun hreleased => (by cases hreleased), fun hheld => (by cases hheld)⟩,
            fun _ => rfl, fun _ hpos => absurd hpos (Nat.lt_irrefl 0), fun _ _ => rfl⟩
        · rw [update_of_ne hne]
          exact h.passes n other hold
  | @seek fh p place hp hopen hidle hplace =>
      have hs := h.passes fh p hp
      refine hstays hp ⟨hs.released, fun hzero => ?_, fun _ hpos => ?_, fun _ hreading => ?_⟩
      · rw [show place = 0 from hzero]
        rfl
      · obtain ⟨snapshot, hheld, hle, hgiven⟩ := hs.given hopen (Nat.lt_of_lt_of_le hpos hplace)
        refine ⟨snapshot, hheld, hplace.trans hle, ?_⟩
        show (p.given.take place).map DirEntry.shown = _
        rw [List.map_take, hgiven, List.take_take, Nat.min_eq_left hplace]
      · exact absurd hidle hreading
  | @answer fh p path snapshot room used hp hopen hidle hpath hoffset hkept =>
      refine hstays hp ?_
      rw [hkept]
      exact (h.passes fh p hp).take hopen (fun _ => hkept) room used
  | @read fh p path hp hopen hidle hpath hfetch =>
      have hs := h.passes fh p hp
      refine hstays hp ⟨hs.released, hs.begun, hs.given, fun _ _ => ?_⟩
      rcases Nat.eq_zero_or_pos p.cursor with hzero | hpos
      · exact hzero
      · obtain ⟨snapshot, hheld, -⟩ := hs.given hopen hpos
        rcases hfetch with hzero | hnone
        · exact hzero
        · exact absurd hheld (hnone snapshot)
  | @listed fh p path listing room used hp hreading =>
      have hs := h.passes fh p hp
      refine h.setPass hp ?_
      cases hreleased : p.released with
      | true =>
          rw [hs.released.mp hreleased, if_pos rfl]
          exact DirPass.sound_of_released rfl hs.begun
      | false =>
          have hopened : ∃ kept, s.dirHandles fh = some kept := by
            refine Option.ne_none_iff_exists'.mp fun hnone => ?_
            rw [hs.released.mpr hnone] at hreleased
            cases hreleased
          obtain ⟨kept, hkept⟩ := hopened
          have hzero := hs.reading hreleased (by rw [hreading]; exact Option.some_ne_none _)
          rw [hkept, if_neg Bool.false_ne_true]
          refine hs.take hreleased (fun hpos => ?_) room used
          rw [hzero] at hpos
          exact absurd hpos (Nat.lt_irrefl 0)
  | @notListed fh p path hp hreading =>
      have hs := h.passes fh p hp
      exact hstays hp ⟨hs.released, hs.begun, hs.given, fun _ hnone => absurd rfl hnone⟩
  | noPath hp hopen hpath => exact h
  | @releasedir fh p hp hopen =>
      exact h.setPass hp (DirPass.sound_of_released rfl (h.passes fh p hp).begun)
  | other => exact ⟨h.fresh, h.passes⟩

theorem sound_reaches {table : InodeTable ListedInfo}
    (h : Reaches (PassStep fold size) unrestricted (initial table) s) : s.Sound := by
  refine h.invariant (P := Sound) ⟨fun fh _ => ⟨rfl, rfl⟩, fun fh p hp => (by cases hp)⟩ ?_
  intro s e t hs _ hstep
  exact hs.step hstep

/-- A handle that was released has nothing, whatever was still under way for it. -/
theorem released_for_good {table : InodeTable ListedInfo}
    (h : Reaches (PassStep fold size) unrestricted (initial table) s) (hp : s.passes fh = some p)
    (hreleased : p.released = true) (ht : Reaches (PassStep fold size) unrestricted s t) :
    t.dirHandles fh = none := by
  have hs := sound_reaches h
  suffices hgone : t.Sound ∧ ∃ p, t.passes fh = some p ∧ p.released = true by
    obtain ⟨ht, p, hp, hreleased⟩ := hgone
    exact (ht.passes fh p hp).released.mp hreleased
  refine ht.invariant (P := fun t => t.Sound ∧ ∃ p, t.passes fh = some p ∧ p.released = true)
    ⟨hs, p, hp, hreleased⟩ ?_
  rintro u e v ⟨hu, hgone⟩ - hstep
  refine ⟨hu.step hstep, ?_⟩
  have hothers {n : ℕ} {q q' : DirPass} (hq : u.passes n = some q)
      (hstays : q.released = true → q'.released = true) :
      ∃ p, update u.passes n (some q') fh = some p ∧ p.released = true :=
    exists_update hq hgone (fun _ hp => hp) hstays
  cases hstep with
  | opendir => exact exists_update_new (hu.fresh _ le_rfl).2 hgone
  | seek hp => exact hothers hp id
  | answer hp => exact hothers hp id
  | read hp => exact hothers hp id
  | listed hp hreading =>
      refine hothers hp fun hreleased => ?_
      rw [if_pos hreleased]
      exact hreleased
  | notListed hp => exact hothers hp id
  | noPath hp => exact hgone
  | releasedir hp => exact hothers hp fun _ => rfl
  | other => exact hgone

/-- **A pass reads one listing, each entry once and in order**, however the replies are cut and
whatever becomes of the directory meanwhile. An entry that is handed out has the number that the
cache has for its path, and a reply without entries says that there are no more, if there was room
for one. -/
theorem pass_of_one_listing {table : InodeTable ListedInfo}
    (h : Reaches (PassStep fold size) unrestricted (initial table) s) :
    (∀ fh p, s.passes fh = some p → p.released = false → 0 < p.cursor →
      ∃ snapshot, s.dirHandles fh = some (some snapshot) ∧
        p.given.map DirEntry.shown = snapshot.shown.take p.cursor) ∧
    ∀ fh room reply t snapshot, PassStep fold size s (.answer fh room reply) t →
      t.dirHandles fh = some (some snapshot) →
        (∀ e k listed, (e, k + 3) ∈ reply → snapshot.listing[k]? = some listed →
          t.table.Keeps fold e.ino listed.path) ∧
        ∀ p, t.passes fh = some p → (∀ name, size name ≤ room) → reply = [] →
          p.given.map DirEntry.shown = snapshot.shown := by
  have hs := sound_reaches h
  refine ⟨fun fh p hp hopen hpos => ?_, fun fh room reply t snapshot hstep hheld => ?_⟩
  · obtain ⟨snapshot, hheld, -, hgiven⟩ := (hs.passes fh p hp).given hopen hpos
    exact ⟨snapshot, hheld, hgiven⟩
  · cases hstep with
    | @answer _ p path kept _ used hp hopen hidle hpath hoffset hkept =>
        obtain rfl : kept = snapshot :=
          Option.some.inj (Option.some.inj (hkept.symm.trans hheld))
        obtain ⟨other, hother, hle, -⟩ := (hs.passes fh p hp).given hopen hoffset
        obtain rfl : kept = other := Option.some.inj (Option.some.inj (hkept.symm.trans hother))
        refine ⟨fun e k listed he hlisted => Snapshot.reply_keeps he hlisted, ?_⟩
        intro q hq hroom hnil
        rw [passes_setPass] at hq
        obtain rfl := Option.some.inj hq
        exact ((hs.passes fh p hp).take hopen (fun _ => hkept) room used).whole hroom hle hnil
    | @listed _ p path listing _ used hp hreading =>
        have hpass := hs.passes fh p hp
        have hlisted : update s.dirHandles fh ((s.dirHandles fh).map fun _ =>
            some (s.listed fold size p path listing room).1) fh = some (some snapshot) := hheld
        rw [update_self] at hlisted
        obtain ⟨kept, hkept, heq⟩ := Option.map_eq_some_iff.mp hlisted
        obtain rfl := Option.some.inj heq
        have hopen : p.released = false := by
          refine Bool.eq_false_iff.mpr fun hreleased => ?_
          cases hkept.symm.trans (hpass.released.mp hreleased)
        have hzero := hpass.reading hopen (by rw [hreading]; exact Option.some_ne_none _)
        refine ⟨fun e k listed he hlisted => Snapshot.reply_keeps he hlisted, ?_⟩
        intro q hq hroom hnil
        rw [passes_setPass, if_neg (by rw [hopen]; exact Bool.false_ne_true)] at hq
        obtain rfl := Option.some.inj hq
        refine (hpass.take hopen (fun hpos => ?_) room used).whole hroom ?_ hnil
        · rw [hzero] at hpos
          exact absurd hpos (Nat.lt_irrefl 0)
        · rw [hzero]
          exact Nat.zero_le _

def rootOnly : InodeTable ListedInfo := InodeTable.new.seedRoot id ⟨"", true⟩

def openedRoot : PassSystem where
  table := rootOnly
  nextFh := 2
  dirHandles := update (fun _ => none) 1 (some none)
  passes := update (fun _ => none) 1 (some ⟨rootIno, 0, [], none, false⟩)

def awaitingRoot : DirPass := ⟨rootIno, 0, [], some virtualRootPath, false⟩

def twoShares : List (InodeEntry ListedInfo) :=
  [⟨["photo"], ⟨"photo", true⟩⟩, ⟨["video"], ⟨"video", true⟩⟩]

/-- There is room for three entries, and the kernel takes two. -/
theorem pass_of_one_listing_openedRoot : ∃ (s : PassSystem) (p : DirPass) (snapshot : Snapshot),
    s.passes 1 = some p ∧ p.cursor = 2 ∧ s.dirHandles 1 = some (some snapshot) ∧
      p.given.map DirEntry.shown = snapshot.shown.take 2 := by
  have hopened : PassStep id (fun _ => 1) (initial rootOnly) .opendir openedRoot := .opendir
  have hread : PassStep id (fun _ => 1) openedRoot (.read 1) (openedRoot.setPass 1 awaitingRoot) :=
    @PassStep.read _ _ openedRoot 1 ⟨rootIno, 0, [], none, false⟩ virtualRootPath rfl rfl rfl rfl
      (.inl rfl)
  have hlisted := @PassStep.listed id (fun _ => 1) (openedRoot.setPass 1 awaitingRoot) 1
    awaitingRoot virtualRootPath twoShares 3 2 rfl rfl
  have hrun : Reaches (PassStep id fun _ => 1) unrestricted (initial rootOnly) _ :=
    ((Reaches.start.next trivial hopened).next trivial hread).next trivial hlisted
  obtain ⟨hpasses, -⟩ := pass_of_one_listing hrun
  obtain ⟨snapshot, hheld, hgiven⟩ := hpasses 1 _ passes_setPass rfl (by decide)
  exact ⟨_, _, snapshot, passes_setPass, rfl, hheld, hgiven⟩

end PassSystem

end SynologyFilestation.Fuse
