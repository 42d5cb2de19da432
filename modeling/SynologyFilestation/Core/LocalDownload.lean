import SynologyFilestation.Core.Path
import SynologyFilestation.Library.Patch
import SynologyFilestation.Library.Table
import SynologyFilestation.Library.Transition
import Mathlib.Data.UInt

/-!
Whole files to the local disk, any number of them at once (`download_to_path` and
`http_download_to_path` in `core/src/client/download.rs`, `SmbTransport::read_to_path` in
`smb/src/transport.rs`).

An attempt writes a temporary file next to the destination and renames it onto the destination when
all is written and synced. One that fails removes the temporary file, and the next backend may have
its turn. A call may be dropped wherever it waits, and the machine may stop: what was not synced is
then cut short. A path is taken to be the one name of a file.
-/

namespace SynologyFilestation.Core

open Function Library

/-- The name of the temporary file. -/
def partPath (path : String) : String := path ++ ".part"

theorem part_injective : Injective partPath := fun _ _ h => String.append_left_inj _ |>.mp h

theorem part_ne (path : String) : partPath path ≠ path := by
  intro h
  have hlength := congrArg String.length h
  simp [partPath] at hlength

/-- Files by number, and their names. -/
structure LocalDisk where
  names : String → Option ℕ
  files : ℕ → Bytes
  /-- Whether it would be found like this after the machine has stopped. -/
  synced : ℕ → Bool
  made : ℕ

def LocalDisk.content (d : LocalDisk) (path : String) : Option Bytes := (d.names path).map d.files

/-- No file has two names. -/
structure LocalDisk.Plain (d : LocalDisk) : Prop where
  alone : ∀ path path' file, d.names path = some file → d.names path' = some file → path = path'
  made : ∀ path file, d.names path = some file → file < d.made

namespace LocalDisk

variable (d : LocalDisk)

/-- `File::create`: a file that is there is emptied. -/
def create (path : String) : ℕ × LocalDisk :=
  match d.names path with
  | some file =>
      (file, { d with
        files := update d.files file [], synced := update d.synced file false })
  | none =>
      (d.made, { d with
        names := update d.names path (some d.made)
        files := update d.files d.made []
        synced := update d.synced d.made false
        made := d.made + 1 })

/-- A write at the place that the file was written up to. -/
def write (file : ℕ) (data : Bytes) (written count : ℕ) : LocalDisk :=
  { d with
    files := update d.files file (patch (d.files file) written ((data.drop written).take count))
    synced := update d.synced file false }

/-- `rename`. -/
def rename (path path' : String) (file : ℕ) : LocalDisk :=
  { d with names := update (update d.names path none) path' (some file) }

/-- The machine stops. -/
def stopped (kept : ℕ → ℕ) : LocalDisk :=
  { d with
    files := fun file => if d.synced file then d.files file else (d.files file).take (kept file) }

end LocalDisk

/-- Where a download is. -/
inductive LocalPhase
  /-- It has not opened its temporary file, or has to do so again. -/
  | asking
  /-- So much of the data is in the temporary file. -/
  | writing (file : ℕ) (data : Bytes) (written : ℕ)
  | synced (file : ℕ) (data : Bytes)
  /-- The temporary file is still to be removed, and another backend may be there to be asked. -/
  | failing (again : Bool)
  | finished
  | failed
  | dropped

def LocalPhase.isActive : LocalPhase → Bool
  | .asking | .writing .. | .synced .. | .failing _ => true
  | .finished | .failed | .dropped => false

structure LocalDownload where
  path : String
  phase : LocalPhase
  /-- What the destination held when the download began; no step depends on it. -/
  before : Option Bytes

structure LocalSystem extends LocalDisk where
  downloads : ℕ → Option LocalDownload
  /-- What each path has held from the beginning, and what was renamed onto it since; no step
  depends on it. -/
  published : String → List (Option Bytes)

namespace LocalSystem

def initial (disk : LocalDisk) : LocalSystem where
  toLocalDisk := disk
  downloads := fun _ => none
  published := fun path => [disk.content path]

variable (s : LocalSystem)

def setDownload (n : ℕ) (d : LocalDownload) : LocalSystem :=
  { s with downloads := update s.downloads n (some d) }

end LocalSystem

inductive LocalEvent
  | start (n : ℕ) (path : String)
  | create (n : ℕ)
  | write (n : ℕ)
  | sync (n : ℕ)
  | rename (n : ℕ)
  | fail (n : ℕ)
  | clean (n : ℕ)
  | refuse (n : ℕ)
  | drop (n : ℕ)
  | stop

/-- The steps of downloads. What an attempt is given as the data is what its backend has of the
file. -/
inductive LocalStep (s : LocalSystem) : LocalEvent → LocalSystem → Prop
  | start {n path} (hnew : s.downloads n = none) :
      LocalStep s (.start n path) (s.setDownload n ⟨path, .asking, s.content path⟩)
  | create {n d data} (hd : s.downloads n = some d) (hphase : d.phase = .asking) :
      LocalStep s (.create n)
        ({ s with toLocalDisk := (s.toLocalDisk.create (partPath d.path)).2 }.setDownload n
          { d with phase := .writing (s.toLocalDisk.create (partPath d.path)).1 data 0 })
  | write {n d file data written count} (hd : s.downloads n = some d)
      (hphase : d.phase = .writing file data written) (hcount : written + count ≤ data.length) :
      LocalStep s (.write n)
        ({ s with toLocalDisk := s.toLocalDisk.write file data written count }.setDownload n
          { d with phase := .writing file data (written + count) })
  /-- All has come without an error. -/
  | sync {n d file data} (hd : s.downloads n = some d)
      (hphase : d.phase = .writing file data data.length) :
      LocalStep s (.sync n)
        ({ s with
          toLocalDisk := { s.toLocalDisk with
            synced := update s.synced file true } }.setDownload n
          { d with phase := .synced file data })
  /-- Whatever has the name of the temporary file gets the name of the destination. -/
  | rename {n d file data file'} (hd : s.downloads n = some d)
      (hphase : d.phase = .synced file data) (hfile : s.names (partPath d.path) = some file') :
      LocalStep s (.rename n)
        ({ s with
          toLocalDisk := s.toLocalDisk.rename (partPath d.path) d.path file'
          published := update s.published d.path
            (s.published d.path ++ [some data]) }.setDownload n { d with phase := .finished })
  | fail {n d again} (hd : s.downloads n = some d) (hactive : d.phase.isActive = true)
      (hgoes : ∀ again, d.phase ≠ .failing again) :
      LocalStep s (.fail n) (s.setDownload n { d with phase := .failing again })
  /-- The temporary file is removed, if that can be done. -/
  | clean {n d again} {removed : Bool} (hd : s.downloads n = some d)
      (hphase : d.phase = .failing again) :
      LocalStep s (.clean n)
        ({ s with
          toLocalDisk := { s.toLocalDisk with
            names := if removed then update s.names (partPath d.path) none
              else s.names } }.setDownload n
          { d with phase := if again then .asking else .failed })
  /-- The download over HTTP fails before it has opened a temporary file. -/
  | refuse {n d} (hd : s.downloads n = some d) (hphase : d.phase = .asking) :
      LocalStep s (.refuse n) (s.setDownload n { d with phase := .failed })
  | drop {n d} (hd : s.downloads n = some d) (hactive : d.phase.isActive = true) :
      LocalStep s (.drop n) (s.setDownload n { d with phase := .dropped })
  | stop {kept} : LocalStep s .stop
      { s with
        toLocalDisk := s.toLocalDisk.stopped kept
        downloads := fun n => (s.downloads n).map fun d => { d with phase := .dropped } }

/-- No two downloads at once that meet in a destination or a temporary file. -/
def Apart (s : LocalSystem) : LocalEvent → Prop
  | .start _ path => ∀ m d, s.downloads m = some d → d.phase.isActive = true →
      path ≠ d.path ∧ path ≠ partPath d.path ∧ partPath path ≠ d.path
  | _ => True

/-! ### What is left as it was -/

namespace LocalDisk

variable {d d' : LocalDisk} {path path' q : String} {file : ℕ}

/-- The path has its file still, and that is as it was. -/
structure Untouched (d d' : LocalDisk) (q : String) : Prop where
  names : d'.names q = d.names q
  files : ∀ file, d.names q = some file → d'.files file = d.files file
  synced : ∀ file, d.names q = some file → d'.synced file = d.synced file

theorem Untouched.content (h : Untouched d d' q) : d'.content q = d.content q := by
  rw [LocalDisk.content, LocalDisk.content, h.names]
  cases hfile : d.names q with
  | none => rfl
  | some file => rw [Option.map_some, Option.map_some, h.files file hfile]

/-- One file changes, and it is not the path's. -/
theorem untouched_of_ne (h : d.names q ≠ some file) (content : Bytes) (synced : Bool) :
    Untouched d { d with
      files := update d.files file content, synced := update d.synced file synced } q := by
  have hne {other : ℕ} (hother : d.names q = some other) : other ≠ file := by
    rintro rfl
    exact h hother
  exact ⟨rfl, fun other hother => update_of_ne (hne hother) .., fun other hother =>
    update_of_ne (hne hother) ..⟩

namespace Plain

/-- A file of one path is not another's. -/
theorem names_ne (h : d.Plain) (hfile : d.names path = some file) (hne : q ≠ path) :
    d.names q ≠ some file :=
  fun hq => hne (h.alone q path file hq hfile)

theorem create (h : d.Plain) (path : String) :
    (d.create path).2.Plain ∧ (d.create path).2.names path = some (d.create path).1 ∧
      (d.create path).2.files (d.create path).1 = [] ∧
      ∀ q, q ≠ path → Untouched d (d.create path).2 q := by
  unfold LocalDisk.create
  split
  case h_1 file hfile =>
    refine ⟨⟨h.alone, h.made⟩, hfile, update_self .., fun q hq => ?_⟩
    exact untouched_of_ne (h.names_ne hfile hq) _ _
  case h_2 hnone =>
    have hnew {q : String} {file : ℕ} (hq : d.names q = some file) : file ≠ d.made :=
      (h.made q file hq).ne
    refine ⟨⟨?_, ?_⟩, update_self .., update_self .., fun q hq => ?_⟩
    · intro q q' file hq hq'
      rcases update_eq_some hq with ⟨rfl, rfl⟩ | ⟨-, hold⟩
      · rcases update_eq_some hq' with ⟨rfl, -⟩ | ⟨-, hold'⟩
        · rfl
        · exact absurd rfl (hnew hold')
      · rcases update_eq_some hq' with ⟨rfl, rfl⟩ | ⟨-, hold'⟩
        · exact absurd rfl (hnew hold)
        · exact h.alone q q' file hold hold'
    · intro q file hq
      show file < d.made + 1
      rcases update_eq_some hq with ⟨-, rfl⟩ | ⟨-, hq⟩
      · exact Nat.lt_succ_self _
      · exact Nat.lt_succ_of_lt (h.made q file hq)
    · exact ⟨update_of_ne hq .., fun file hfile => update_of_ne (hnew hfile) ..,
        fun file hfile => update_of_ne (hnew hfile) ..⟩

theorem rename (h : d.Plain) (hfile : d.names path = some file) :
    (d.rename path path' file).Plain := by
  have hbefore {q : String} {other : ℕ}
      (hq : (d.rename path path' file).names q = some other) :
      q = path' ∧ other = file ∨ q ≠ path' ∧ q ≠ path ∧ d.names q = some other := by
    rcases update_eq_some hq with ⟨rfl, rfl⟩ | ⟨hne, hq⟩
    · exact .inl ⟨rfl, rfl⟩
    · exact .inr ⟨hne, update_none_eq_some hq⟩
  refine ⟨fun q q' other hq hq' => ?_, fun q other hq => ?_⟩
  · rcases hbefore hq with ⟨rfl, rfl⟩ | ⟨-, hne, hold⟩
    · rcases hbefore hq' with ⟨rfl, -⟩ | ⟨-, hne, hold'⟩
      · rfl
      · exact absurd hold' (h.names_ne hfile hne)
    · rcases hbefore hq' with ⟨rfl, rfl⟩ | ⟨-, -, hold'⟩
      · exact absurd hold (h.names_ne hfile hne)
      · exact h.alone q q' other hold hold'
  · rcases hbefore hq with ⟨rfl, rfl⟩ | ⟨-, -, hq⟩
    · exact h.made path other hfile
    · exact h.made q other hq

theorem remove (h : d.Plain) (path : String) :
    { d with names := update d.names path none }.Plain where
  alone q q' file hq hq' :=
    h.alone q q' file (update_none_eq_some hq).2 (update_none_eq_some hq').2
  made q file hq := h.made q file (update_none_eq_some hq).2

end Plain

theorem untouched_rename (hpath : q ≠ path) (hpath' : q ≠ path') :
    Untouched d (d.rename path path' file) q where
  names := (update_of_ne hpath' ..).trans (update_of_ne hpath ..)
  files _ _ := rfl
  synced _ _ := rfl

theorem untouched_remove (hpath : q ≠ path) :
    Untouched d { d with names := update d.names path none } q where
  names := update_of_ne hpath ..
  files _ _ := rfl
  synced _ _ := rfl

end LocalDisk

/-! ### Downloads that keep apart -/

/-- What a download has written is in its temporary file, and its destination is as it was. -/
structure LocalDownload.Sound (disk : LocalDisk) (d : LocalDownload) : Prop where
  before : d.phase.isActive = true → disk.content d.path = d.before
  writing : ∀ file data written, d.phase = .writing file data written →
    disk.names (partPath d.path) = some file ∧ disk.files file = data.take written ∧
      written ≤ data.length
  synced : ∀ file data, d.phase = .synced file data →
    disk.names (partPath d.path) = some file ∧ disk.files file = data ∧ disk.synced file = true

theorem LocalDownload.Sound.untouched {disk disk' : LocalDisk} {d : LocalDownload}
    (h : d.Sound disk) (hpath : disk.Untouched disk' d.path)
    (hpart : disk.Untouched disk' (partPath d.path)) :
    d.Sound disk' where
  before hactive := hpath.content.trans (h.before hactive)
  writing file data written hphase := by
    obtain ⟨hfile, hcontent, hle⟩ := h.writing file data written hphase
    exact ⟨hpart.names.trans hfile, (hpart.files file hfile).trans hcontent, hle⟩
  synced file data hphase := by
    obtain ⟨hfile, hcontent, hsynced⟩ := h.synced file data hphase
    exact ⟨hpart.names.trans hfile, (hpart.files file hfile).trans hcontent,
      (hpart.synced file hfile).trans hsynced⟩

/-- A download that is over has nothing on the disk. -/
theorem LocalDownload.sound_of_inactive {d : LocalDownload} (h : d.phase.isActive = false)
    (disk : LocalDisk) : d.Sound disk where
  before hactive := by
    rw [h] at hactive
    cases hactive
  writing file data written hphase := by
    rw [hphase] at h
    cases h
  synced file data hphase := by
    rw [hphase] at h
    cases h

namespace LocalSystem

/-- The destination of a download, and no temporary file of another. -/
def IsPlace (s : LocalSystem) (path : String) : Prop :=
  ∀ n d, s.downloads n = some d → path ≠ partPath d.path

structure Sound (s : LocalSystem) : Prop where
  plain : s.toLocalDisk.Plain
  apart : ∀ n m d d', s.downloads n = some d → s.downloads m = some d' → n ≠ m →
    d.phase.isActive = true → d'.phase.isActive = true →
      d.path ≠ d'.path ∧ d.path ≠ partPath d'.path
  sound : ∀ n d, s.downloads n = some d → d.Sound s.toLocalDisk
  whole : ∀ path, s.IsPlace path → s.content path ∈ s.published path ∧
    ∀ file, s.names path = some file → s.synced file = true

section Steps

/-- The next of the data behind what is there of it. -/
theorem patch_take {data : Bytes} {written count : ℕ} (hle : written ≤ data.length) :
    patch (data.take written) written ((data.drop written).take count) =
      data.take (written + count) := by
  have hlength : (data.take written).length = written := List.length_take_of_le hle
  cases hnext : (data.drop written).take count with
  | nil =>
      rw [patch_nil, List.take_add, hnext, List.append_nil]
  | cons byte rest =>
      have hfull : resize (data.take written) written = data.take written := by
        rw [resize, hlength, Nat.sub_self, List.replicate_zero, List.append_nil, List.take_take,
          Nat.min_self]
      have hover : (data.take written).drop (written + (byte :: rest).length) = [] :=
        List.drop_eq_nil_of_le (by omega)
      rw [patch_of_ne_nil (List.cons_ne_nil _ _), hfull, hover, List.append_nil, ← hnext,
        List.take_add]

variable {s s' : LocalSystem} {disk : LocalDisk} {d d' : LocalDownload} {e : LocalEvent} {n : ℕ}

theorem isPlace_setDownload {downloads : ℕ → Option LocalDownload}
    {published : String → List (Option Bytes)} {path : String} (hd : s.downloads n = some d)
    (hpath : d'.path = d.path)
    (h : IsPlace { s with
      toLocalDisk := disk, downloads := update downloads n (some d'), published := published } path)
    (hsame : downloads = s.downloads) : s.IsPlace path := by
  intro m other hm
  subst hsame
  rcases eq_or_ne m n with rfl | hne
  · obtain rfl : d = other := Option.some.inj (hd.symm.trans hm)
    rw [← hpath]
    exact h m d' (update_self ..)
  · exact h m other ((update_of_ne hne ..).trans hm)

namespace Sound

/-- One download goes on, and touches its two paths at most. -/
theorem goOn (hs : s.Sound) (hd : s.downloads n = some d) (hactive : d.phase.isActive = true)
    (d' : LocalDownload) (hpath : d'.path = d.path) (hplain : disk.Plain)
    (hothers : ∀ q, q ≠ d.path → q ≠ partPath d.path → s.toLocalDisk.Untouched disk q)
    {published : String → List (Option Bytes)}
    (hpublished : ∀ q, q ≠ d.path → published q = s.published q) (hmine : d'.Sound disk)
    (hhere : s.IsPlace d.path → disk.content d.path ∈ published d.path ∧
      ∀ file, disk.names d.path = some file → disk.synced file = true) :
    Sound { s with
      toLocalDisk := disk
      downloads := update s.downloads n (some d')
      published := published } where
  plain := hplain
  apart m k other other' hm hk hne hm' hk' := by
    rcases update_eq_some hm with ⟨rfl, rfl⟩ | ⟨-, hold⟩
    · rcases update_eq_some hk with ⟨rfl, rfl⟩ | ⟨-, hold'⟩
      · exact absurd rfl hne
      · rw [hpath]
        exact hs.apart m k d other' hd hold' hne hactive hk'
    · rcases update_eq_some hk with ⟨rfl, rfl⟩ | ⟨-, hold'⟩
      · rw [hpath]
        exact hs.apart m k other d hold hd hne hm' hactive
      · exact hs.apart m k other other' hold hold' hne hm' hk'
  sound m other hm := by
    rcases update_eq_some hm with ⟨rfl, rfl⟩ | ⟨hne, hold⟩
    · exact hmine
    · cases hactive' : other.phase.isActive with
      | false => exact LocalDownload.sound_of_inactive hactive' disk
      | true =>
          obtain ⟨hdest, hpart⟩ := hs.apart m n other d hold hd hne hactive' hactive
          obtain ⟨-, hpart'⟩ := hs.apart n m d other hd hold hne.symm hactive hactive'
          refine (hs.sound m other hold).untouched (hothers _ hdest hpart) (hothers _ ?_ ?_)
          · exact hpart'.symm
          · exact fun heq => hdest (part_injective heq)
  whole path hplace := by
    have hplace := isPlace_setDownload hd hpath hplace rfl
    rcases eq_or_ne path d.path with rfl | hne
    · exact hhere hplace
    · have huntouched := hothers path hne (hplace n d hd)
      obtain ⟨hcontent, hsynced⟩ := hs.whole path hplace
      refine ⟨?_, fun file hfile => ?_⟩
      · show disk.content path ∈ published path
        rw [huntouched.content, hpublished path hne]
        exact hcontent
      · have hfile : s.names path = some file := huntouched.names ▸ hfile
        exact (huntouched.synced file hfile).trans (hsynced file hfile)

/-- It leaves its destination as it is. -/
theorem goOnBeside (hs : s.Sound) (hd : s.downloads n = some d)
    (hactive : d.phase.isActive = true) (disk : LocalDisk) (hplain : disk.Plain)
    (hothers : ∀ q, q ≠ partPath d.path → s.toLocalDisk.Untouched disk q) {phase : LocalPhase}
    (hwriting : ∀ file data written, phase = .writing file data written →
      disk.names (partPath d.path) = some file ∧ disk.files file = data.take written ∧
        written ≤ data.length)
    (hsynced : ∀ file data, phase = .synced file data →
      disk.names (partPath d.path) = some file ∧ disk.files file = data ∧
        disk.synced file = true) :
    Sound ({ s with toLocalDisk := disk }.setDownload n { d with phase := phase }) := by
  have hdest := hothers d.path (part_ne d.path).symm
  show Sound { s with
    toLocalDisk := disk
    downloads := update s.downloads n (some { d with phase := phase })
    published := s.published }
  refine hs.goOn hd hactive { d with phase := phase } rfl hplain
    (fun q _ hq => hothers q hq) (fun _ _ => rfl) ?_ ?_
  · exact ⟨fun _ => hdest.content.trans ((hs.sound n d hd).before hactive), hwriting, hsynced⟩
  · intro hplace
    obtain ⟨hcontent, hsynced⟩ := hs.whole d.path hplace
    refine ⟨hdest.content ▸ hcontent, fun file hfile => ?_⟩
    have hfile : s.names d.path = some file := hdest.names ▸ hfile
    exact (hdest.synced file hfile).trans (hsynced file hfile)

theorem start (hs : s.Sound) {path : String} (hnew : s.downloads n = none)
    (hapart : ∀ m d, s.downloads m = some d → d.phase.isActive = true →
      path ≠ d.path ∧ path ≠ partPath d.path ∧ partPath path ≠ d.path) :
    (s.setDownload n ⟨path, .asking, s.content path⟩).Sound where
  plain := hs.plain
  apart m k other other' hm hk hne hm' hk' := by
    rcases update_eq_some hm with ⟨rfl, rfl⟩ | ⟨-, hold⟩
    · rcases update_eq_some hk with ⟨rfl, rfl⟩ | ⟨-, hold'⟩
      · exact absurd rfl hne
      · obtain ⟨hpath, hpart, -⟩ := hapart k other' hold' hk'
        exact ⟨hpath, hpart⟩
    · rcases update_eq_some hk with ⟨rfl, rfl⟩ | ⟨-, hold'⟩
      · obtain ⟨hpath, -, hpart⟩ := hapart m other hold hm'
        exact ⟨hpath.symm, hpart.symm⟩
      · exact hs.apart m k other other' hold hold' hne hm' hk'
  sound m other hm := by
    rcases update_eq_some hm with ⟨-, rfl⟩ | ⟨-, hold⟩
    · exact ⟨fun _ => rfl, fun file data written heq => (by cases heq),
        fun file data heq => (by cases heq)⟩
    · exact hs.sound m other hold
  whole place hplace := by
    refine hs.whole place fun m other hm => hplace m other ?_
    have hne : m ≠ n := by
      rintro rfl
      rw [hnew] at hm
      cases hm
    exact (update_of_ne hne ..).trans hm

/-- What was synced is still there when the machine has stopped. -/
theorem content_stopped (hs : s.Sound) {path : String} (hplace : s.IsPlace path) (kept : ℕ → ℕ) :
    (s.toLocalDisk.stopped kept).content path = s.content path := by
  rw [LocalDisk.content, LocalDisk.content, LocalDisk.stopped]
  dsimp only
  cases hfile : s.names path with
  | none => rfl
  | some file =>
      rw [Option.map_some, Option.map_some, if_pos ((hs.whole path hplace).2 file hfile)]

theorem stop (hs : s.Sound) (kept : ℕ → ℕ) :
    Sound { s with
      toLocalDisk := s.toLocalDisk.stopped kept
      downloads := fun n => (s.downloads n).map fun d => { d with phase := .dropped } } where
  plain := ⟨hs.plain.alone, hs.plain.made⟩
  apart m k other other' hm hk hne hm' := by
    obtain ⟨d, -, rfl⟩ := Option.map_eq_some_iff.mp hm
    cases hm'
  sound m other hm := by
    obtain ⟨d, -, rfl⟩ := Option.map_eq_some_iff.mp hm
    exact LocalDownload.sound_of_inactive rfl _
  whole path hplace := by
    have hplace : s.IsPlace path := fun m d hm =>
      hplace m { d with phase := .dropped } (congrArg (Option.map _) hm)
    obtain ⟨hcontent, hsynced⟩ := hs.whole path hplace
    refine ⟨?_, hsynced⟩
    show (s.toLocalDisk.stopped kept).content path ∈ s.published path
    rw [hs.content_stopped hplace kept]
    exact hcontent

theorem step (hs : s.Sound) (hapart : Apart s e) (h : LocalStep s e s') : s'.Sound := by
  cases h with
  | @start n path hnew => exact hs.start hnew hapart
  | @create n d data hd hphase =>
      obtain ⟨hplain, hnamed, hempty, hothers⟩ := hs.plain.create (partPath d.path)
      have hactive : d.phase.isActive = true := by rw [hphase]; rfl
      refine hs.goOnBeside hd hactive _ hplain hothers ?_ fun file data hphase => by cases hphase
      rintro file data written heq
      cases heq
      exact ⟨hnamed, hempty, Nat.zero_le _⟩
  | @write n d file data written count hd hphase hcount =>
      have hactive : d.phase.isActive = true := by rw [hphase]; rfl
      obtain ⟨hnamed, hcontent, hle⟩ := (hs.sound n d hd).writing file data written hphase
      refine hs.goOnBeside hd hactive (s.toLocalDisk.write file data written count)
        ⟨hs.plain.alone, hs.plain.made⟩ ?_ ?_ fun file data hphase => by cases hphase
      · exact fun q hq => LocalDisk.untouched_of_ne (hs.plain.names_ne hnamed hq) _ _
      · rintro file' data' written' heq
        cases heq
        refine ⟨hnamed, ?_, hcount⟩
        show update s.files file _ file = _
        rw [update_self, hcontent, patch_take hle]
  | @sync n d file data hd hphase =>
      have hactive : d.phase.isActive = true := by rw [hphase]; rfl
      obtain ⟨hnamed, hcontent, -⟩ := (hs.sound n d hd).writing file data _ hphase
      refine hs.goOnBeside hd hactive
        { s.toLocalDisk with synced := update s.synced file true }
        ⟨hs.plain.alone, hs.plain.made⟩ ?_ (fun file data written heq => by cases heq) ?_
      · intro q hq
        refine ⟨rfl, fun _ _ => rfl, fun other hother => update_of_ne ?_ ..⟩
        rintro rfl
        exact hs.plain.names_ne hnamed hq hother
      · rintro file' data' heq
        cases heq
        exact ⟨hnamed, hcontent.trans (List.take_length), update_self ..⟩
  | @rename n d file data file' hd hphase hfile =>
      have hactive : d.phase.isActive = true := by rw [hphase]; rfl
      obtain ⟨hnamed, hcontent, hsynced⟩ := (hs.sound n d hd).synced file data hphase
      obtain rfl : file = file' := Option.some.inj (hnamed.symm.trans hfile)
      have hdest : (s.toLocalDisk.rename (partPath d.path) d.path file).names d.path = some file :=
        update_self ..
      refine hs.goOn hd hactive { d with phase := .finished } rfl (hs.plain.rename hfile)
        (fun q hq hpart => LocalDisk.untouched_rename hpart hq) (fun q hq => update_of_ne hq ..)
        (LocalDownload.sound_of_inactive rfl _) fun _ => ⟨?_, fun other hother => ?_⟩
      · have hwhole : (s.toLocalDisk.rename (partPath d.path) d.path file).content d.path =
            some data := by
          rw [LocalDisk.content, hdest]
          exact congrArg some hcontent
        rw [hwhole]
        show some data ∈ update s.published d.path _ d.path
        rw [update_self]
        exact List.mem_append_right _ (List.mem_singleton_self _)
      · obtain rfl : file = other := Option.some.inj (hdest.symm.trans hother)
        exact hsynced
  | @fail n d again hd hactive hgoes =>
      exact hs.goOnBeside hd hactive s.toLocalDisk hs.plain
        (fun q _ => ⟨rfl, fun _ _ => rfl, fun _ _ => rfl⟩)
        (fun file data written heq => by cases heq) fun file data heq => by cases heq
  | @clean n d again removed hd hphase =>
      have hactive : d.phase.isActive = true := by rw [hphase]; rfl
      have hidle : ∀ phase : LocalPhase, phase = (if again then .asking else .failed) →
          (∀ file data written, phase ≠ .writing file data written) ∧
            ∀ file data, phase ≠ .synced file data := by
        rintro phase rfl
        cases again <;> simp
      obtain ⟨hwriting, hsynced⟩ := hidle _ rfl
      cases removed with
      | true =>
          exact hs.goOnBeside hd hactive _ (hs.plain.remove (partPath d.path))
            (fun q hq => LocalDisk.untouched_remove hq)
            (fun file data written heq => absurd heq (hwriting file data written))
            fun file data heq => absurd heq (hsynced file data)
      | false =>
          exact hs.goOnBeside hd hactive s.toLocalDisk hs.plain
            (fun q _ => ⟨rfl, fun _ _ => rfl, fun _ _ => rfl⟩)
            (fun file data written heq => absurd heq (hwriting file data written))
            fun file data heq => absurd heq (hsynced file data)
  | @refuse n d hd hphase =>
      have hactive : d.phase.isActive = true := by rw [hphase]; rfl
      exact hs.goOnBeside hd hactive s.toLocalDisk hs.plain
        (fun q _ => ⟨rfl, fun _ _ => rfl, fun _ _ => rfl⟩)
        (fun file data written heq => by cases heq) fun file data heq => by cases heq
  | @drop n d hd hactive =>
      exact hs.goOnBeside hd hactive s.toLocalDisk hs.plain
        (fun q _ => ⟨rfl, fun _ _ => rfl, fun _ _ => rfl⟩)
        (fun file data written heq => by cases heq) fun file data heq => by cases heq
  | @stop kept => exact hs.stop kept

end Sound

theorem sound_initial (hplain : disk.Plain)
    (hsynced : ∀ path file, disk.names path = some file → disk.synced file = true) :
    (initial disk).Sound where
  plain := hplain
  apart n m d d' hd := by cases hd
  sound n d hd := by cases hd
  whole path _ := ⟨List.mem_singleton_self _, hsynced path⟩

end Steps

/-- **A destination is never seen half written**, if no two downloads at once meet in a file. It
holds what it held in the beginning, or all of what was once downloaded to it, also when the machine
stops. Until its download is through it is as it was, and then it holds all the data. -/
theorem destination_whole {disk : LocalDisk} {s : LocalSystem} (hplain : disk.Plain)
    (hsynced : ∀ path file, disk.names path = some file → disk.synced file = true)
    (h : Reaches LocalStep Apart (initial disk) s) :
    (∀ path, s.IsPlace path → s.content path ∈ s.published path ∧
      ∀ kept, (s.toLocalDisk.stopped kept).content path = s.content path) ∧
    (∀ n d, s.downloads n = some d → d.phase.isActive = true → s.content d.path = d.before) ∧
    ∀ n d s', s.downloads n = some d → LocalStep s (.rename n) s' →
      ∃ file data, d.phase = .synced file data ∧ s'.content d.path = some data := by
  have hs : s.Sound := by
    refine h.invariant (sound_initial hplain hsynced) ?_
    intro s e t hs hapart hstep
    exact hs.step hapart hstep
  refine ⟨fun path hplace => ?_, fun n d hd => (hs.sound n d hd).before, ?_⟩
  · exact ⟨(hs.whole path hplace).1, fun kept => hs.content_stopped hplace kept⟩
  · intro n d s' hd hstep
    cases hstep with
    | @rename _ d' file data file' hd' hphase hfile =>
        obtain rfl : d = d' := Option.some.inj (hd.symm.trans hd')
        obtain ⟨hnamed, hcontent, -⟩ := (hs.sound n d hd).synced file data hphase
        obtain rfl : file = file' := Option.some.inj (hnamed.symm.trans hfile)
        refine ⟨file, data, hphase, ?_⟩
        show (s.toLocalDisk.rename (partPath d.path) d.path file).content d.path = some data
        show Option.map s.files (update (update s.names _ none) d.path (some file) d.path) = _
        rw [update_self]
        exact congrArg some hcontent

/-- A disk without files. -/
def blank : LocalDisk := ⟨fun _ => none, fun _ => [], fun _ => true, 0⟩

/-- Its first download is of two bytes. -/
def begun : LocalSystem := (initial blank).setDownload 0 ⟨"a", .asking, none⟩

def opened : LocalSystem :=
  { begun with toLocalDisk := (begun.toLocalDisk.create (partPath "a")).2 }.setDownload 0
    ⟨"a", .writing 0 [1, 2] 0, none⟩

def written : LocalSystem :=
  { opened with toLocalDisk := opened.toLocalDisk.write 0 [1, 2] 0 2 }.setDownload 0
    ⟨"a", .writing 0 [1, 2] 2, none⟩

def ready : LocalSystem :=
  { written with toLocalDisk := { written.toLocalDisk with
      synced := update written.synced 0 true } }.setDownload 0 ⟨"a", .synced 0 [1, 2], none⟩

theorem reaches_ready : Reaches LocalStep Apart (initial blank) ready := by
  have hbegun : LocalStep (initial blank) (.start 0 "a") begun := .start rfl
  have hopened : LocalStep begun (.create 0) opened :=
    @LocalStep.create begun 0 ⟨"a", .asking, none⟩ [1, 2] rfl rfl
  have hwritten : LocalStep opened (.write 0) written :=
    @LocalStep.write opened 0 ⟨"a", .writing 0 [1, 2] 0, none⟩ 0 [1, 2] 0 2 rfl rfl (by decide)
  have hready : LocalStep written (.sync 0) ready :=
    @LocalStep.sync written 0 ⟨"a", .writing 0 [1, 2] 2, none⟩ 0 [1, 2] rfl rfl
  refine (((Reaches.start.next ?_ hbegun).next ?_ hopened).next ?_ hwritten).next ?_ hready
  · intro m d hd
    cases hd
  · trivial
  · trivial
  · trivial

theorem destination_whole_ready : ∃ s : LocalSystem, s.content "a" = some [1, 2] := by
  have hplain : blank.Plain :=
    ⟨fun path path' file h => (by cases h), fun path file h => (by cases h)⟩
  have hrenamed := @LocalStep.rename ready 0 ⟨"a", .synced 0 [1, 2], none⟩ 0 [1, 2] 0 rfl rfl
    (by decide)
  obtain ⟨-, -, hdone⟩ := destination_whole hplain (fun _ _ _ => rfl) reaches_ready
  obtain ⟨file, data, hphase, hcontent⟩ := hdone 0 _ _ rfl hrenamed
  obtain ⟨-, rfl⟩ := LocalPhase.synced.inj hphase
  exact ⟨_, hcontent⟩

/-- Another download to the same place opens the temporary file that is about to be renamed. -/
def emptied : LocalSystem :=
  { ready.setDownload 1 ⟨"a", .asking, none⟩ with
    toLocalDisk := (ready.toLocalDisk.create (partPath "a")).2 }.setDownload 1
      ⟨"a", .writing 0 [3] 0, none⟩

def halfWritten : LocalSystem :=
  { emptied with
    toLocalDisk := emptied.toLocalDisk.rename (partPath "a") "a" 0
    published := update emptied.published "a" [none, some [1, 2]] }.setDownload 0
      ⟨"a", .finished, none⟩

/-- That downloads keep apart is needed. -/
theorem destination_not_whole : Reaches LocalStep unrestricted (initial blank) halfWritten ∧
    halfWritten.IsPlace "a" ∧ halfWritten.content "a" ∉ halfWritten.published "a" := by
  have hready : Reaches LocalStep unrestricted (initial blank) ready :=
    reaches_ready.imp_meets trivial (fun _ _ _ => trivial) fun _ _ => trivial
  have hbegun : LocalStep ready (.start 1 "a") (ready.setDownload 1 ⟨"a", .asking, none⟩) :=
    .start rfl
  have hemptied : LocalStep (ready.setDownload 1 ⟨"a", .asking, none⟩) (.create 1) emptied :=
    @LocalStep.create _ 1 ⟨"a", .asking, none⟩ [3] rfl rfl
  have hrenamed : LocalStep emptied (.rename 0) halfWritten :=
    @LocalStep.rename emptied 0 ⟨"a", .synced 0 [1, 2], none⟩ 0 [1, 2] 0 rfl rfl (by decide)
  refine ⟨((hready.next trivial hbegun).next trivial hemptied).next trivial hrenamed, ?_,
    by decide⟩
  intro n d hd
  rcases n with _ | _ | n
  · obtain rfl : ⟨"a", .finished, none⟩ = d := Option.some.inj hd
    decide
  · obtain rfl : ⟨"a", .writing 0 [3] 0, none⟩ = d := Option.some.inj hd
    decide
  · cases hd

end LocalSystem

end SynologyFilestation.Core
