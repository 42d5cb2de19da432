import SynologyFilestation.Core.Path
import SynologyFilestation.Library.Pieces
import SynologyFilestation.Library.Table
import SynologyFilestation.Library.Transition

/-!
Whole-file writes over SMB, any number of them at once (`write_atomic` and
`write_from_path` in `smb/src/transport.rs`). Each writes a temporary file next
to the target and renames it onto the target.

A temporary name is made of a process id and a number the process counts, so it
is one writer's own only among processes of one host. The server knows a file
by more than its name: who has it open goes on writing to it when another
writer truncates it, renames it or takes its name away.
-/

namespace SynologyFilestation.Smb

open Core Library Function

/-! ### Temporary names -/

/-- `part_name`. -/
def partName (path : NasPath) (pid seq : ℕ) : NasPath :=
  path.dropLast ++ [path.getLast?.getD "" ++ ".part-" ++ pid.repr ++ "-" ++ seq.repr]

theorem repr_injective : Injective Nat.repr := by
  intro m n h
  have hdigits : Nat.toDigits 10 m = Nat.toDigits 10 n := by
    simpa only [Nat.toList_repr] using congrArg String.toList h
  calc
    m = Nat.ofDigitChars 10 (Nat.toDigits 10 m) 0 := Nat.ofDigitChars_ten_toDigits.symm
    _ = Nat.ofDigitChars 10 (Nat.toDigits 10 n) 0 := by rw [hdigits]
    _ = n := Nat.ofDigitChars_ten_toDigits

/-- No digit is the separator. -/
theorem separator_notMem_repr (n : ℕ) : '-' ∉ n.repr.toList := by
  intro h
  rw [Nat.toList_repr] at h
  have hdigit := Nat.isDigit_of_mem_toDigits (by decide) (by decide) h
  exact absurd hdigit (by decide)

theorem partName_inj {path : NasPath} {pid seq pid' seq' : ℕ} :
    partName path pid seq = partName path pid' seq' ↔ pid = pid' ∧ seq = seq' := by
  constructor
  · intro h
    have hname := congrArg String.toList (List.cons.inj (List.append_cancel_left h)).1
    simp only [String.toList_append, List.append_assoc] at hname
    have htail : pid.repr.toList ++ '-' :: seq.repr.toList =
        pid'.repr.toList ++ '-' :: seq'.repr.toList :=
      List.append_cancel_left (List.append_cancel_left hname)
    obtain ⟨hpid, _, hseq⟩ := (List.append_cons_inj_of_notMem (separator_notMem_repr pid)
      (separator_notMem_repr seq)).mp htail
    exact ⟨repr_injective (String.toList_injective hpid),
      repr_injective (String.toList_injective hseq)⟩
  · rintro ⟨rfl, rfl⟩
    rfl

theorem partName_ne (path : NasPath) (pid seq : ℕ) : partName path pid seq ≠ path := by
  intro h
  have hlast := congrArg List.getLast? h
  rw [partName, List.getLast?_concat] at hlast
  have hlength := congrArg (fun name : Option String => (name.getD "").length) hlast
  simp only [Option.getD_some, String.length_append] at hlength
  have hfix : ".part-".length = 6 := rfl
  omega

/-! ### The share -/

/-- What the names of a share stand for, and what its files hold. A file that is
open may have lost its name. -/
structure Share where
  names : NasPath → Option ℕ
  content : ℕ → Bytes
  made : ℕ
  bounded : ∀ {path file}, names path = some file → file < made
  separate : ∀ {path other file}, names path = some file → names other = some file → path = other

namespace Share

variable (d : Share) (path other : NasPath) (file : ℕ)

def fileAt : Option Bytes := (d.names path).map d.content

/-- The file an open for writing gets. -/
def opened : ℕ := (d.names path).getD d.made

/-- Created for writing (`FILE_OVERWRITE_IF`): one that is there is truncated. -/
def create : Share where
  names := update d.names path (some (d.opened path))
  content := update d.content (d.opened path) []
  made := max d.made (d.opened path + 1)
  bounded h := by
    rcases update_eq_some h with ⟨_, rfl⟩ | ⟨_, hold⟩
    · exact lt_of_lt_of_le (Nat.lt_succ_self _) (le_max_right _ _)
    · exact lt_of_lt_of_le (d.bounded hold) (le_max_left _ _)
  separate {p q f} h h' := by
    -- No other name stands for the file the open gets.
    have hopened : ∀ r, d.names r = some (d.opened path) → r = path := by
      intro r hr
      cases hpath : d.names path with
      | some f =>
          rw [opened, hpath] at hr
          exact d.separate hr hpath
      | none =>
          rw [opened, hpath] at hr
          exact absurd (d.bounded hr) (Nat.lt_irrefl _)
    rcases update_eq_some h with ⟨rfl, rfl⟩ | ⟨_, hold⟩ <;>
      rcases update_eq_some h' with ⟨rfl, hf⟩ | ⟨_, hold'⟩
    · rfl
    · exact (hopened q hold').symm
    · exact hopened p (hf ▸ hold)
    · exact d.separate hold hold'

def write (offset : ℕ) (data : Bytes) : Share :=
  { d with content := update d.content file (patch (d.content file) offset data) }

/-- Renamed with `replace_if_exists`. -/
def rename : Share where
  names := update (update d.names path none) other (d.names path)
  content := d.content
  made := d.made
  bounded {p f} h := by
    rcases eq_or_ne p other with rfl | hne
    · rw [update_self] at h
      exact d.bounded h
    · rw [update_of_ne hne] at h
      exact d.bounded (update_none_eq_some h).2
  separate {p q f} h h' := by
    rcases eq_or_ne p other with rfl | hp <;> rcases eq_or_ne q p with rfl | hq
    · rfl
    · rw [update_self] at h
      rw [update_of_ne hq] at h'
      obtain ⟨hne, hold⟩ := update_none_eq_some h'
      exact absurd (d.separate hold h) hne
    · rfl
    · rw [update_of_ne hp] at h
      obtain ⟨hne, hold⟩ := update_none_eq_some h
      rcases eq_or_ne q other with rfl | hother
      · rw [update_self] at h'
        exact absurd (d.separate hold h') hne
      · rw [update_of_ne hother] at h'
        exact d.separate hold (update_none_eq_some h').2

def delete : Share where
  names := update d.names path none
  content := d.content
  made := d.made
  bounded h := d.bounded (update_none_eq_some h).2
  separate h h' := d.separate (update_none_eq_some h).2 (update_none_eq_some h').2

theorem names_rename : (d.rename path other).names =
    update (update d.names path none) other (d.names path) := rfl

/-- What a writer does that has one temporary name: but for that name and a second
one the share is as it was, and a file there was goes by no name it did not have. -/
structure Beside (path other : NasPath) (d d' : Share) : Prop where
  names : ∀ p, p ≠ path → p ≠ other → d'.names p = d.names p
  content : ∀ p file, p ≠ path → d.names p = some file → d'.content file = d.content file
  made : d.made ≤ d'.made
  found : ∀ p file, d'.names p = some file → file < d.made →
    d.names p = some file ∨ d.names path = some file

variable {d path other file}

theorem beside_refl : Beside path other d d where
  names _ _ _ := rfl
  content _ _ _ _ := rfl
  made := Nat.le_refl _
  found _ _ h _ := .inl h

theorem beside_create : Beside path path d (d.create path) where
  names p hne _ := update_of_ne hne ..
  content p file hne hp := by
    refine update_of_ne ?_ ..
    rintro rfl
    have hnew : (d.create path).names p = some (d.opened path) := (update_of_ne hne ..).trans hp
    exact hne ((d.create path).separate hnew (update_self ..))
  made := le_max_left _ _
  found p file h hlt := by
    rcases update_eq_some h with ⟨rfl, rfl⟩ | ⟨_, hold⟩
    · left
      cases hpath : d.names p with
      | some f => simp [opened, hpath]
      | none =>
          rw [opened, hpath] at hlt
          exact absurd hlt (Nat.lt_irrefl _)
    · exact .inl hold

theorem beside_write (hfile : ∀ p, d.names p = some file → p = path) (offset : ℕ) (data : Bytes) :
    Beside path path d (d.write file offset data) where
  names _ _ _ := rfl
  content p file' hne hp := by
    refine update_of_ne ?_ ..
    rintro rfl
    exact hne (hfile p hp)
  made := Nat.le_refl _
  found _ _ h _ := .inl h

theorem beside_rename : Beside path other d (d.rename path other) where
  names p hne hother := (update_of_ne hother ..).trans (update_of_ne hne ..)
  content _ _ _ _ := rfl
  made := Nat.le_refl _
  found p file h _ := by
    rw [names_rename] at h
    rcases eq_or_ne p other with rfl | hne
    · rw [update_self] at h
      exact .inr h
    · rw [update_of_ne hne] at h
      exact .inl (update_none_eq_some h).2

theorem beside_delete : Beside path path d (d.delete path) where
  names _ hne _ := update_of_ne hne ..
  content _ _ _ _ := rfl
  made := Nat.le_refl _
  found _ _ h _ := .inl (update_none_eq_some h).2

/-- A writer that renames nothing leaves the other files alone. -/
theorem Beside.fileAt {d' : Share} (h : Beside path path d d') {p : NasPath} (hne : p ≠ path) :
    d'.fileAt p = d.fileAt p := by
  rw [Share.fileAt, Share.fileAt, h.names p hne hne]
  cases hp : d.names p with
  | none => rfl
  | some file => exact congrArg some (h.content p file hne hp)

theorem fileAt_rename (hfile : d.names path = some file) :
    (d.rename path other).fileAt other = some (d.content file) := by
  rw [fileAt, names_rename, update_self, hfile]
  rfl

end Share

/-! ### Writers -/

/-- How far a whole-file write has come. `left` are the writes the server still has
to do, in any order; after a failure it may still do some. -/
inductive WritePhase
  | named
  | writing (file : ℕ) (left : List (Write UInt8))
  | written (file : ℕ)
  | failing (file : ℕ) (left : List (Write UInt8)) (deleted : Bool)
  | cleaning
  | gone
  deriving DecidableEq

/-- One call of `write_atomic` or `write_from_path`: the number it took and the
pieces it cuts its data into. -/
structure WholeWrite where
  pid : ℕ
  seq : ℕ
  chunks : List Bytes
  phase : WritePhase

def WholeWrite.data (c : WholeWrite) : Bytes := c.chunks.flatten

def WholeWrite.tmp (target : NasPath) (c : WholeWrite) : NasPath := partName target c.pid c.seq

/-- A process that writes, on whatever host: its id there and its `PART_SEQ`. -/
structure Process where
  pid : ℕ
  partSeq : ℕ

def Process.fetchAdd (p : Process) : Process := { p with partSeq := (p.partSeq + 1) % 2 ^ 64 }

/-- The share, who writes, and the calls whose rename the server did, the last first. -/
structure Writers where
  share : Share
  processes : ℕ → Option Process
  calls : ℕ → Option WholeWrite
  committed : List ℕ

def Writers.new (share : Share) : Writers := ⟨share, fun _ => none, fun _ => none, []⟩

/-- Call `n` moves on. -/
def Writers.move (s : Writers) (n : ℕ) (c : WholeWrite) (phase : WritePhase) (share : Share) :
    Writers :=
  { s with share := share, calls := update s.calls n (some { c with phase := phase }) }

inductive WriteEvent
  | process (pid : ℕ)
  | start (process : ℕ) (chunks : List Bytes)
  | create (n : ℕ)
  | createUnanswered (n : ℕ)
  | write (n : ℕ) (w : Write UInt8)
  | finish (n : ℕ)
  | fail (n : ℕ)
  | commit (n : ℕ) (answered : Bool)
  | refuse (n : ℕ)
  | clean (n : ℕ)
  | leave (n : ℕ)

open WritePhase in
/-- One request at the server or one step of a writer, in any order. -/
inductive WriteStep (target : NasPath) : Writers → WriteEvent → Writers → Prop
  | process {s : Writers} (i pid : ℕ) (hi : s.processes i = none) :
      WriteStep target s (.process pid) { s with processes := update s.processes i (some ⟨pid, 0⟩) }
  | start {s : Writers} {i : ℕ} {p : Process} (n : ℕ) (chunks : List Bytes)
      (hi : s.processes i = some p) (hn : s.calls n = none) :
      WriteStep target s (.start i chunks) { s with
        processes := update s.processes i (some p.fetchAdd)
        calls := update s.calls n (some ⟨p.pid, p.partSeq, chunks, named⟩) }
  | create {s : Writers} {n : ℕ} {c : WholeWrite} (hn : s.calls n = some c)
      (hphase : c.phase = named) :
      WriteStep target s (.create n) (s.move n c
        (writing (s.share.opened (c.tmp target)) (writesFrom 0 c.chunks))
        (s.share.create (c.tmp target)))
  | createUnanswered {s : Writers} {n : ℕ} {c : WholeWrite} (hn : s.calls n = some c)
      (hphase : c.phase = named) :
      WriteStep target s (.createUnanswered n) (s.move n c cleaning (s.share.create (c.tmp target)))
  | write {s : Writers} {n file : ℕ} {c : WholeWrite} {before after : List (Write UInt8)}
      {w : Write UInt8} (hn : s.calls n = some c)
      (hphase : c.phase = writing file (before ++ w :: after)) :
      WriteStep target s (.write n w)
        (s.move n c (writing file (before ++ after)) (s.share.write file w.1 w.2))
  | lateWrite {s : Writers} {n file : ℕ} {c : WholeWrite} {before after : List (Write UInt8)}
      {w : Write UInt8} {deleted : Bool} (hn : s.calls n = some c)
      (hphase : c.phase = failing file (before ++ w :: after) deleted) :
      WriteStep target s (.write n w)
        (s.move n c (failing file (before ++ after) deleted) (s.share.write file w.1 w.2))
  -- The writer is finished: the server confirmed every write.
  | finish {s : Writers} {n file : ℕ} {c : WholeWrite} (hn : s.calls n = some c)
      (hphase : c.phase = writing file []) :
      WriteStep target s (.finish n) (s.move n c (written file) s.share)
  | createFailed {s : Writers} {n : ℕ} {c : WholeWrite} (hn : s.calls n = some c)
      (hphase : c.phase = named) : WriteStep target s (.fail n) (s.move n c cleaning s.share)
  | fail {s : Writers} {n file : ℕ} {c : WholeWrite} {left : List (Write UInt8)}
      (hn : s.calls n = some c) (hphase : c.phase = writing file left) :
      WriteStep target s (.fail n) (s.move n c (failing file left false) s.share)
  -- The server looks the temporary name up and not the file that was written.
  | commit {s : Writers} {n file found : ℕ} {c : WholeWrite} (answered : Bool)
      (hn : s.calls n = some c) (hphase : c.phase = written file)
      (hfound : s.share.names (c.tmp target) = some found) :
      WriteStep target s (.commit n answered) { s.move n c (if answered then gone else cleaning)
        (s.share.rename (c.tmp target) target) with committed := n :: s.committed }
  | refuse {s : Writers} {n file : ℕ} {c : WholeWrite} (hn : s.calls n = some c)
      (hphase : c.phase = written file) :
      WriteStep target s (.refuse n) (s.move n c cleaning s.share)
  | clean {s : Writers} {n : ℕ} {c : WholeWrite} (hn : s.calls n = some c)
      (hphase : c.phase = cleaning) :
      WriteStep target s (.clean n) (s.move n c gone (s.share.delete (c.tmp target)))
  | cleanFailing {s : Writers} {n file : ℕ} {c : WholeWrite} {left : List (Write UInt8)}
      (hn : s.calls n = some c) (hphase : c.phase = failing file left false) :
      WriteStep target s (.clean n)
        (s.move n c (failing file left true) (s.share.delete (c.tmp target)))
  -- It returned or was dropped, and the server does nothing more for it.
  | leave {s : Writers} {n : ℕ} {c : WholeWrite} (hn : s.calls n = some c)
      (hphase : c.phase ≠ gone) : WriteStep target s (.leave n) (s.move n c gone s.share)

/-- Nobody starts while another call with the same process id is on its number. -/
def OwnNumber (s : Writers) : WriteEvent → Prop
  | .start i _ => ∀ p, s.processes i = some p → ∀ n c, s.calls n = some c →
      c.phase ≠ .gone → ¬(c.pid = p.pid ∧ c.seq = p.partSeq)
  | _ => True

section Separation

variable {target : NasPath} {prev : Option Bytes} {s s' : Writers} {d d' : Share} {n : ℕ}
  {c : WholeWrite} {e : WriteEvent}

/-- What a call has in the share. -/
def WholeWrite.Owns (target : NasPath) (d : Share) (c : WholeWrite) : Prop :=
  match c.phase with
  | .writing file left =>
      d.names (c.tmp target) = some file ∧ Filling c.data left (d.content file)
  | .written file => d.names (c.tmp target) = some file ∧ d.content file = c.data
  | .failing file _ _ => file < d.made ∧ ∀ p, d.names p = some file → p = c.tmp target
  | .named | .cleaning | .gone => True

/-- The target holds the data of the last call to be committed, or what it held. -/
def Writers.Whole (target : NasPath) (prev : Option Bytes) (s : Writers) : Prop :=
  match s.committed with
  | [] => s.share.fileAt target = prev
  | n :: _ => ∃ c, s.calls n = some c ∧ s.share.fileAt target = some c.data

/-- Two calls under way have different temporary files. -/
def Writers.Apart (target : NasPath) (s : Writers) : Prop :=
  ∀ m n c c', s.calls m = some c → s.calls n = some c' → c.phase ≠ .gone → c'.phase ≠ .gone →
    c.tmp target = c'.tmp target → m = n

structure Separated (target : NasPath) (prev : Option Bytes) (s : Writers) : Prop where
  whole : s.Whole target prev
  owns : ∀ n c, s.calls n = some c → c.Owns target s.share
  apart : s.Apart target

theorem separated_new (target : NasPath) (d : Share) :
    Separated target (d.fileAt target) (.new d) where
  whole := rfl
  owns := nofun
  apart := nofun

/-- A call keeps what it has while another writer, with another temporary file, is
at work. -/
theorem WholeWrite.Owns.beside {path other : NasPath} (h : c.Owns target d)
    (hd : d.Beside path other d') (hpath : c.tmp target ≠ path) (hother : c.tmp target ≠ other) :
    c.Owns target d' := by
  unfold WholeWrite.Owns at h ⊢
  split at h
  case h_1 =>
    rw [hd.names _ hpath hother, hd.content _ _ hpath h.1]
    exact h
  case h_2 =>
    rw [hd.names _ hpath hother, hd.content _ _ hpath h.1]
    exact h
  case h_3 file _ _ _ =>
    refine ⟨lt_of_lt_of_le h.1 hd.made, fun p hp => ?_⟩
    rcases hd.found p file hp h.1 with hsame | hmoved
    · exact h.2 p hsame
    · exact absurd (h.2 path hmoved).symm hpath
  all_goals trivial

/-- What is written is in the file of the temporary name. -/
theorem Separated.writing {file : ℕ} {left : List (Write UInt8)} (h : Separated target prev s)
    (hn : s.calls n = some c) (hphase : c.phase = .writing file left) :
    s.share.names (c.tmp target) = some file ∧ Filling c.data left (s.share.content file) := by
  have howns := h.owns n c hn
  rwa [WholeWrite.Owns, hphase] at howns

/-- What is given up is under no other name. -/
theorem Separated.failing {file : ℕ} {left : List (Write UInt8)} {deleted : Bool}
    (h : Separated target prev s) (hn : s.calls n = some c)
    (hphase : c.phase = .failing file left deleted) :
    file < s.share.made ∧ ∀ p, s.share.names p = some file → p = c.tmp target := by
  have howns := h.owns n c hn
  rwa [WholeWrite.Owns, hphase] at howns

theorem tmp_ne (target : NasPath) (c : WholeWrite) : c.tmp target ≠ target :=
  partName_ne target c.pid c.seq

/-- Calls own what they have and stay apart when one of them moves. -/
theorem Separated.move {phase : WritePhase} {other : NasPath} (h : Separated target prev s)
    (hn : s.calls n = some c) (hover : c.phase ≠ .gone)
    (hother : ∀ m c', s.calls m = some c' → c'.phase ≠ .gone → m ≠ n → c'.tmp target ≠ other)
    (hd : s.share.Beside (c.tmp target) other d')
    (howns : { c with phase := phase }.Owns target d') :
    (∀ m c', (s.move n c phase d').calls m = some c' → c'.Owns target d') ∧
      (s.move n c phase d').Apart target := by
  constructor
  · intro m c' hm
    rcases update_eq_some hm with ⟨rfl, rfl⟩ | ⟨hne, hold⟩
    · exact howns
    · by_cases hc' : c'.phase = .gone
      · rw [WholeWrite.Owns, hc']
        trivial
      · exact (h.owns m c' hold).beside hd
          (fun heq => hne (h.apart m n c' c hold hn hc' hover heq)) (hother m c' hold hc' hne)
  · intro m k c₁ c₂ hm hk hc₁ hc₂ heq
    rcases update_eq_some hm with ⟨rfl, rfl⟩ | ⟨hmne, hmold⟩ <;>
      rcases update_eq_some hk with ⟨rfl, rfl⟩ | ⟨hkne, hkold⟩
    · rfl
    · exact h.apart m k c c₂ hn hkold hover hc₂ heq
    · exact h.apart m k c₁ c hmold hn hc₁ hover heq
    · exact h.apart m k c₁ c₂ hmold hkold hc₁ hc₂ heq

/-- A call moves and renames nothing. -/
theorem Separated.work {phase : WritePhase} (h : Separated target prev s)
    (hn : s.calls n = some c) (hover : c.phase ≠ .gone)
    (hd : s.share.Beside (c.tmp target) (c.tmp target) d')
    (howns : { c with phase := phase }.Owns target d') :
    Separated target prev (s.move n c phase d') := by
  have hmoved := h.move hn hover
    (fun m c' hm hc' hne heq => hne (h.apart m n c' c hm hn hc' hover heq)) hd howns
  refine ⟨?_, hmoved.1, hmoved.2⟩
  have hsame : d'.fileAt target = s.share.fileAt target := hd.fileAt (tmp_ne target c).symm
  have hwhole := h.whole
  unfold Writers.Whole at hwhole ⊢
  split at hwhole
  case h_1 hnone =>
    simp only [Writers.move, hnone]
    exact hsame.trans hwhole
  case h_2 m _ hsome =>
    simp only [Writers.move, hsome]
    rw [hsame]
    exact exists_update hn hwhole (fun _ h => h) (fun h => h)

/-- A call that has nothing left in the share moves. -/
theorem Separated.rest {phase : WritePhase} (h : Separated target prev s)
    (hn : s.calls n = some c) (hover : c.phase ≠ .gone)
    (hphase : phase = .cleaning ∨ phase = .gone)
    (hd : s.share.Beside (c.tmp target) (c.tmp target) d') :
    Separated target prev (s.move n c phase d') := by
  refine h.work hn hover hd ?_
  rcases hphase with rfl | rfl <;> trivial

/-- The server renames what it finds under the temporary name: the file the call wrote. -/
theorem Separated.commit {file : ℕ} {phase : WritePhase} (h : Separated target prev s)
    (hn : s.calls n = some c) (hphase : c.phase = .written file)
    (hrest : phase = .cleaning ∨ phase = .gone) :
    Separated target prev { s.move n c phase (s.share.rename (c.tmp target) target) with
      committed := n :: s.committed } := by
  have howns := h.owns n c hn
  rw [WholeWrite.Owns, hphase] at howns
  obtain ⟨hname, hdata⟩ := howns
  have hnothing : { c with phase := phase }.Owns target
      (s.share.rename (c.tmp target) target) := by
    rcases hrest with rfl | rfl <;> trivial
  have hmoved := h.move hn (by rw [hphase]; nofun) (fun m c' _ _ _ => tmp_ne target c')
    Share.beside_rename hnothing
  refine ⟨⟨{ c with phase := phase }, update_self .., ?_⟩, hmoved.1, hmoved.2⟩
  exact (Share.fileAt_rename hname).trans (congrArg some hdata)

theorem WholeWrite.owns_create (d : Share) (c : WholeWrite) :
    { c with phase := .writing (d.opened (c.tmp target)) (writesFrom 0 c.chunks) }.Owns target
      (d.create (c.tmp target)) := by
  have hcontent : (d.create (c.tmp target)).content (d.opened (c.tmp target)) = [] :=
    update_self ..
  refine ⟨update_self .., ?_⟩
  rw [hcontent]
  exact filling_nil c.chunks

/-- Any step: the condition is for those that start a call. -/
theorem Separated.step (h : Separated target prev s) (hmeets : OwnNumber s e)
    (hstep : WriteStep target s e s') : Separated target prev s' := by
  cases hstep with
  | process i pid hi => exact ⟨h.whole, h.owns, h.apart⟩
  | @start i p n chunks hi hn =>
      have hnumber := hmeets p hi
      refine ⟨?_, ?_, ?_⟩
      · have hwhole := h.whole
        unfold Writers.Whole at hwhole ⊢
        split at hwhole
        case h_1 hnone =>
          simp only [hnone]
          exact hwhole
        case h_2 m _ hsome =>
          simp only [hsome]
          exact exists_update_new hn hwhole
      · intro m c hm
        rcases update_eq_some hm with ⟨rfl, rfl⟩ | ⟨_, hold⟩
        · trivial
        · exact h.owns m c hold
      · intro m k c₁ c₂ hm hk hc₁ hc₂ heq
        have hsame := partName_inj.mp heq
        rcases update_eq_some hm with ⟨rfl, rfl⟩ | ⟨_, hmold⟩ <;>
          rcases update_eq_some hk with ⟨rfl, rfl⟩ | ⟨_, hkold⟩
        · rfl
        · exact (hnumber k c₂ hkold hc₂ ⟨hsame.1.symm, hsame.2.symm⟩).elim
        · exact (hnumber m c₁ hmold hc₁ hsame).elim
        · exact h.apart m k c₁ c₂ hmold hkold hc₁ hc₂ heq
  | create hn hphase =>
      exact h.work hn (by rw [hphase]; nofun) Share.beside_create (WholeWrite.owns_create ..)
  | createUnanswered hn hphase =>
      exact h.rest hn (by rw [hphase]; nofun) (.inl rfl) Share.beside_create
  | @write n file c before after w hn hphase =>
      obtain ⟨hname, hfilling⟩ := h.writing hn hphase
      have hfile : ∀ p, s.share.names p = some file → p = c.tmp target :=
        fun p hp => s.share.separate hp hname
      have hcontent : (s.share.write file w.1 w.2).content file =
          patch (s.share.content file) w.1 w.2 := update_self ..
      refine h.work hn (by rw [hphase]; nofun) (Share.beside_write hfile ..) ⟨hname, ?_⟩
      rw [hcontent]
      exact hfilling.write
  | @lateWrite n file c before after w deleted hn hphase =>
      have howns := h.failing hn hphase
      exact h.work hn (by rw [hphase]; nofun) (Share.beside_write howns.2 ..) howns
  | @finish n file c hn hphase =>
      obtain ⟨hname, hfilling⟩ := h.writing hn hphase
      exact h.work hn (by rw [hphase]; nofun) Share.beside_refl ⟨hname, hfilling.eq⟩
  | createFailed hn hphase =>
      exact h.rest hn (by rw [hphase]; nofun) (.inl rfl) Share.beside_refl
  | @fail n file c left hn hphase =>
      obtain ⟨hname, _⟩ := h.writing hn hphase
      exact h.work hn (by rw [hphase]; nofun) Share.beside_refl
        ⟨s.share.bounded hname, fun p hp => s.share.separate hp hname⟩
  | commit answered hn hphase hfound =>
      refine h.commit hn hphase ?_
      cases answered <;> simp
  | refuse hn hphase => exact h.rest hn (by rw [hphase]; nofun) (.inl rfl) Share.beside_refl
  | clean hn hphase => exact h.rest hn (by rw [hphase]; nofun) (.inr rfl) Share.beside_delete
  | @cleanFailing n file c left hn hphase =>
      obtain ⟨hmade, hnames⟩ := h.failing hn hphase
      exact h.work hn (by rw [hphase]; nofun) Share.beside_delete
        ⟨hmade, fun p hp => hnames p (update_none_eq_some hp).2⟩
  | leave hn hphase => exact h.rest hn hphase (.inr rfl) Share.beside_refl

theorem separated_run (h : Reaches (WriteStep target) OwnNumber (.new d) s) :
    Separated target (d.fileAt target) s :=
  h.invariant (separated_new target d) fun hs hmeets hstep => hs.step hmeets hstep

/-- Every process has an id of its own and its number has not come round. -/
def OwnId (s : Writers) : WriteEvent → Prop
  | .process pid => ∀ i p, s.processes i = some p → p.pid ≠ pid
  | .start i _ => ∀ p, s.processes i = some p → p.partSeq + 1 < 2 ^ 64
  | _ => True

/-- A number is counted by the one process with that id. -/
structure Counted (s : Writers) : Prop where
  ids : ∀ i j p q, s.processes i = some p → s.processes j = some q → p.pid = q.pid → i = j
  numbers : ∀ n c, s.calls n = some c →
    ∃ i p, s.processes i = some p ∧ p.pid = c.pid ∧ c.seq < p.partSeq

theorem Counted.move {phase : WritePhase} (h : Counted s) (hn : s.calls n = some c) :
    Counted (s.move n c phase d') where
  ids := h.ids
  numbers m c' hm := by
    rcases update_eq_some hm with ⟨_, rfl⟩ | ⟨_, hold⟩
    · exact h.numbers n c hn
    · exact h.numbers m c' hold

theorem Counted.process {i pid : ℕ} (h : Counted s) (hi : s.processes i = none)
    (hpid : ∀ i p, s.processes i = some p → p.pid ≠ pid) :
    Counted { s with processes := update s.processes i (some ⟨pid, 0⟩) } where
  ids j k p q hj hk heq := by
    rcases update_eq_some hj with ⟨rfl, rfl⟩ | ⟨_, hjold⟩ <;>
      rcases update_eq_some hk with ⟨rfl, rfl⟩ | ⟨_, hkold⟩
    · rfl
    · exact (hpid k q hkold heq.symm).elim
    · exact (hpid j p hjold heq).elim
    · exact h.ids j k p q hjold hkold heq
  numbers n c hn := by
    obtain ⟨j, p, hj, hp⟩ := h.numbers n c hn
    exact ⟨j, exists_update_new hi ⟨p, hj, hp⟩⟩

theorem Counted.start {i : ℕ} {p : Process} {chunks : List Bytes} (h : Counted s)
    (hi : s.processes i = some p) (hround : p.partSeq + 1 < 2 ^ 64) :
    Counted { s with
      processes := update s.processes i (some p.fetchAdd)
      calls := update s.calls n (some ⟨p.pid, p.partSeq, chunks, .named⟩) } where
  ids j k q r hj hk heq := by
    rcases update_eq_some hj with ⟨rfl, rfl⟩ | ⟨_, hjold⟩ <;>
      rcases update_eq_some hk with ⟨rfl, rfl⟩ | ⟨_, hkold⟩
    · rfl
    · exact h.ids j k p r hi hkold heq
    · exact h.ids j k q p hjold hi heq
    · exact h.ids j k q r hjold hkold heq
  numbers m c hm := by
    have hnext : p.partSeq < p.fetchAdd.partSeq := by
      rw [Process.fetchAdd, Nat.mod_eq_of_lt hround]
      exact Nat.lt_succ_self _
    rcases update_eq_some hm with ⟨rfl, rfl⟩ | ⟨_, hold⟩
    · exact ⟨i, p.fetchAdd, update_self .., rfl, hnext⟩
    · obtain ⟨j, hj⟩ := h.numbers m c hold
      exact ⟨j, exists_update hi hj (fun _ hq => hq) fun hp => ⟨hp.1, hp.2.trans hnext⟩⟩

theorem counted_new (d : Share) : Counted (.new d) where
  ids _ _ _ _ h := by cases h
  numbers _ _ h := by cases h

theorem Counted.step (h : Counted s) (hmeets : OwnId s e) (hstep : WriteStep target s e s') :
    Counted s' := by
  cases hstep with
  | process i pid hi => exact h.process hi hmeets
  | start n chunks hi hn => exact h.start hi (hmeets _ hi)
  | @commit n _ _ c answered hn _ _ =>
      have hmoved : Counted (s.move n c (if answered then .gone else .cleaning)
          (s.share.rename (c.tmp target) target)) := h.move hn
      exact ⟨hmoved.ids, hmoved.numbers⟩
  | _ => exact h.move ‹_›

theorem Counted.ownNumber (h : Counted s) (hmeets : OwnId s e) : OwnNumber s e := by
  cases e with
  | start i chunks =>
      rintro p hi n c hn - ⟨hpid, hseq⟩
      obtain ⟨j, q, hj, hq, hlt⟩ := h.numbers n c hn
      obtain rfl := h.ids i j p q hi hj (hpid.symm.trans hq.symm)
      obtain rfl := Option.some.inj (hi.symm.trans hj)
      omega
  | _ => trivial

/-- Process ids of their own are enough. -/
theorem separated_of_ids (h : Reaches (WriteStep target) OwnId (.new d) s) :
    Separated target (d.fileAt target) s :=
  separated_run (h.imp_meets (counted_new d)
    (fun hs hmeets hstep => hs.step hmeets hstep) fun hs hmeets => hs.ownNumber hmeets)

variable (target d s)

/-- **Whole-file writers never mix**, as long as no call of a process with the same
id is on the number another one starts with. -/
theorem writers_never_mix (h : Reaches (WriteStep target) OwnNumber (.new d) s) :
    s.Whole target (d.fileAt target) ∧ s.Apart target :=
  ⟨(separated_run h).whole, (separated_run h).apart⟩

end Separation

/-! ### Runs of either kind -/

def frame : NasPath := ["REEF", "img.orf"]

/-- A share with one file. -/
def oldFrame : Share where
  names := update (fun _ => none) frame (some 0)
  content _ := [9]
  made := 1
  bounded h := by
    obtain ⟨_, rfl⟩ := update_empty_eq_some h
    exact Nat.one_pos
  separate h h' := (update_empty_eq_some h).1.trans (update_empty_eq_some h').1.symm

/-- Processes with ids of their own write at the same time. -/
theorem two_processes_write :
    ∃ s : Writers, (s.Whole frame (oldFrame.fileAt frame) ∧ s.Apart frame) ∧ s.committed = [1, 0] ∧
      s.share.fileAt frame = some [2, 2] := by
  have h := (Reaches.start : Reaches (WriteStep frame) OwnNumber (.new oldFrame) (.new oldFrame))
  have h := h.next (by trivial) (@WriteStep.process _ _ 0 1 rfl)
  have h := h.next (by trivial) (@WriteStep.process _ _ 1 2 rfl)
  have h := h.next (by rintro p - n c ⟨⟩) (@WriteStep.start _ _ 0 _ 0 [[1], [1]] rfl rfl)
  have h := h.next
    (by
      rintro p ⟨⟩ n c hn -
      obtain ⟨-, rfl⟩ := update_empty_eq_some hn
      exact fun hsame => absurd hsame.1 (by decide))
    (@WriteStep.start _ _ 1 _ 1 [[2], [2]] rfl rfl)
  have h := h.next (by trivial) (@WriteStep.create _ _ 0 _ rfl rfl)
  have h := h.next (by trivial) (@WriteStep.create _ _ 1 _ rfl rfl)
  have h := h.next (by trivial) (@WriteStep.write _ _ 0 _ _ [] _ _ rfl rfl)
  have h := h.next (by trivial) (@WriteStep.write _ _ 1 _ _ [_] [] _ rfl rfl)
  have h := h.next (by trivial) (@WriteStep.write _ _ 0 _ _ [] _ _ rfl rfl)
  have h := h.next (by trivial) (@WriteStep.write _ _ 1 _ _ [] [] _ rfl rfl)
  have h := h.next (by trivial) (@WriteStep.finish _ _ 0 _ _ rfl rfl)
  have h := h.next (by trivial) (@WriteStep.finish _ _ 1 _ _ rfl rfl)
  have h := h.next (by trivial) (@WriteStep.commit _ _ 0 _ _ _ true rfl rfl rfl)
  have h := h.next (by trivial) (@WriteStep.commit _ _ 1 _ _ _ true rfl rfl rfl)
  exact ⟨_, writers_never_mix _ _ _ h, rfl, rfl⟩

/-- The first process of two containers: the second writer truncates what the
first has written and dies, and the first renames what it left. -/
theorem same_pid_truncates :
    ∃ s, Reaches (WriteStep frame) unrestricted (.new oldFrame) s ∧ s.committed = [0] ∧
      (s.calls 0).map (·.data) = some [1, 1] ∧ s.share.fileAt frame = some [2] ∧
      ¬s.Whole frame (oldFrame.fileAt frame) := by
  have h := (Reaches.start : Reaches (WriteStep frame) unrestricted (.new oldFrame) (.new oldFrame))
  have h := h.next (by trivial) (@WriteStep.process _ _ 0 1 rfl)
  have h := h.next (by trivial) (@WriteStep.process _ _ 1 1 rfl)
  have h := h.next (by trivial) (@WriteStep.start _ _ 0 _ 0 [[1], [1]] rfl rfl)
  have h := h.next (by trivial) (@WriteStep.start _ _ 1 _ 1 [[2], [2]] rfl rfl)
  have h := h.next (by trivial) (@WriteStep.create _ _ 0 _ rfl rfl)
  have h := h.next (by trivial) (@WriteStep.write _ _ 0 _ _ [] _ _ rfl rfl)
  have h := h.next (by trivial) (@WriteStep.write _ _ 0 _ _ [] _ _ rfl rfl)
  have h := h.next (by trivial) (@WriteStep.finish _ _ 0 _ _ rfl rfl)
  have h := h.next (by trivial) (@WriteStep.create _ _ 1 _ rfl rfl)
  have h := h.next (by trivial) (@WriteStep.write _ _ 1 _ _ [] _ _ rfl rfl)
  have h := h.next (by trivial) (@WriteStep.leave _ _ 1 _ rfl nofun)
  have h := h.next (by trivial) (@WriteStep.commit _ _ 0 _ _ _ true rfl rfl rfl)
  refine ⟨_, h, rfl, rfl, rfl, ?_⟩
  rintro ⟨c, hc, hdata⟩
  obtain rfl := Option.some.inj hc
  cases hdata

end SynologyFilestation.Smb
