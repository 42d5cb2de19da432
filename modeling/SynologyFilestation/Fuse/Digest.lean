import SynologyFilestation.Core.Error
import SynologyFilestation.Library.Transition
import SynologyFilestation.Library.Table
import Mathlib.Data.List.Basic
import Mathlib.Order.Lattice

/-!
The digest of a file (`fuse/src/fs/xattr.rs`): the NAS hashes it, and requests
that come while it does join the hash under way. A file with writes still to land
is not hashed (`Transfers::busy` in `fuse/src/fs/transfer.rs`).

One path is modelled, with everything that asks for its digest and everything
that writes to it. What the NAS holds under it is counted: `version` goes up
whenever it changes, and a digest is known by the version that was hashed.
`closed` is the version stored by the last close that has returned, and a request
remembers the `closed` of when it was made; no step depends on either.
-/

namespace SynologyFilestation.Fuse

open Core Function Library

/-! ### What is answered from memory -/

inductive XattrErrno
  | enodata
  | enoent
  | ebusy
  | erange
  | eio
  | nas (e : Errno)
  deriving DecidableEq

/-- What a `getxattr` is answered with: a value is the digest of a version. -/
inductive XattrAnswer
  | size (len : ℕ)
  | value (version : ℕ)
  | error (e : XattrErrno)
  deriving DecidableEq

def md5Xattr : String := "user.synology.md5"

def md5HexLen : ℕ := 32

/-- `start_getxattr`, as far as it answers on the calling thread. `path` says
whether the inode has one, `cachedDir` what the cache takes the entry for. -/
def answerFromMemory (root : Bool) (name : String) (path : Bool) (cachedDir : Option Bool)
    (busy : Bool) (size : ℕ) : Option XattrAnswer :=
  if name ≠ md5Xattr ∨ root then some (.error .enodata)
  else if !path then some (.error .enoent)
  else if cachedDir = some true then some (.error .enodata)
  -- Hashed now, it would be the digest of a half-written file.
  else if busy then some (.error .ebusy)
  else if size ≠ 0 ∧ size < md5HexLen then some (.error .erange)
  else if size = 0 ∧ cachedDir = some false then some (.size md5HexLen)
  else none

/-! ### The tasks -/

/-- An open handle on the path. -/
structure Writer where
  dirty : Bool
  broken : Bool
  /-- The upload holds the buffer's lock. -/
  uploading : Bool
  /-- The version its last upload stored. -/
  stored : ℕ

inductive XattrPhase
  /-- On the runtime, the details of the entry not known. -/
  | unknown
  /-- On the runtime, known to be a file. -/
  | file
  | waiting (hash : ℕ)
  | answered (answer : XattrAnswer)

structure XattrRequest where
  size : ℕ
  phase : XattrPhase
  /-- The version stored by the last close that had returned when it was made. -/
  since : ℕ

inductive HashPhase
  /-- Waiting for a slot. -/
  | queued
  | hashing
  /-- The NAS has read the file. -/
  | hashed (version : ℕ)
  | answered (answer : XattrAnswer)
  | delivering (answer : XattrAnswer) (waiters : List ℕ)

structure Hash where
  phase : HashPhase
  /-- `closed` when the NAS was asked. -/
  began : Option ℕ

structure DigestSystem where
  version : ℕ
  closed : ℕ
  writers : ℕ → Option Writer
  /-- Truncates and moves that are rewriting the path. -/
  rewrites : ℕ
  requests : ℕ → Option XattrRequest
  /-- The path's entry in the table of hashes: a hash, and who waits on it. -/
  running : Option (ℕ × List ℕ)
  hashes : ℕ → Option Hash
  /-- Hashes made so far. -/
  made : ℕ

namespace DigestSystem

def initial : DigestSystem :=
  { version := 0, closed := 0, writers := fun _ => none, rewrites := 0,
    requests := fun _ => none, running := none, hashes := fun _ => none, made := 0 }

/-- `busy`. -/
def Busy (s : DigestSystem) : Prop :=
  0 < s.rewrites ∨
    ∃ n w, s.writers n = some w ∧ (w.uploading ∨ w.dirty ∨ w.broken)

def setWriter (s : DigestSystem) (n : ℕ) (w : Writer) : DigestSystem :=
  { s with writers := update s.writers n (some w) }

def setRequest (s : DigestSystem) (n : ℕ) (r : XattrRequest) : DigestSystem :=
  { s with requests := update s.requests n (some r) }

def setHash (s : DigestSystem) (h : ℕ) (t : Hash) : DigestSystem :=
  { s with hashes := update s.hashes h (some t) }

end DigestSystem

inductive DigestEvent
  | open (n : ℕ)
  | write (n : ℕ)
  | upload (n : ℕ)
  | store (n : ℕ)
  | uploaded (n : ℕ)
  | failed (n : ℕ)
  | close (n : ℕ)
  | rewrite
  | rewritten
  | ask (n : ℕ)
  | info (n : ℕ)
  | size (n : ℕ)
  | join (n : ℕ)
  | lead (n : ℕ)
  | begin (h : ℕ)
  | read (h : ℕ)
  | answer (h : ℕ)
  | remove (h : ℕ)
  | deliver (h : ℕ)

/-- The steps of handles, requests and hashes. -/
inductive DigestStep (s : DigestSystem) : DigestEvent → DigestSystem → Prop
  | open {n} (hnew : s.writers n = none) :
      DigestStep s (.open n) (s.setWriter n ⟨false, false, false, 0⟩)
  /-- A write, buffered or, when `streamed`, on the NAS at once. -/
  | write {n w} {streamed : Bool} (hw : s.writers n = some w) (hfree : w.uploading = false) :
      DigestStep s (.write n)
        ({ s with version := s.version + if streamed then 1 else 0 }.setWriter n
          { w with dirty := true })
  | writeFailed {n w} (hw : s.writers n = some w) (hfree : w.uploading = false) :
      DigestStep s (.write n) (s.setWriter n { w with broken := true })
  | upload {n w} (hw : s.writers n = some w) (hfree : w.uploading = false)
      (hdirty : w.dirty = true) (hwhole : w.broken = false) :
      DigestStep s (.upload n) (s.setWriter n { w with uploading := true })
  | store {n w} (hw : s.writers n = some w) (hbusy : w.uploading = true) :
      DigestStep s (.store n)
        ({ s with version := s.version + 1 }.setWriter n { w with stored := s.version + 1 })
  | uploaded {n w} (hw : s.writers n = some w) (hbusy : w.uploading = true) :
      DigestStep s (.uploaded n) (s.setWriter n { w with dirty := false, uploading := false })
  | failed {n w} (hw : s.writers n = some w) (hbusy : w.uploading = true) :
      DigestStep s (.failed n) (s.setWriter n { w with uploading := false })
  /-- The close returns. -/
  | close {n w} (hw : s.writers n = some w) (hclean : w.dirty = false) :
      DigestStep s (.close n) { s with closed := max s.closed w.stored }
  | rewrite : DigestStep s .rewrite { s with rewrites := s.rewrites + 1 }
  | rewritten {changed : Bool} (hrewrites : 0 < s.rewrites) :
      DigestStep s .rewritten
        { s with rewrites := s.rewrites - 1, version := s.version + if changed then 1 else 0 }
  /-- A request that memory answers. -/
  | askAnswered {n root name path cachedDir busy size answer} (hnew : s.requests n = none)
      (hbusy : busy = true ↔ s.Busy)
      (hanswer : answerFromMemory root name path cachedDir busy size = some answer) :
      DigestStep s (.ask n)
        (s.setRequest n { size := size, phase := .answered answer, since := s.closed })
  | ask {n root name path cachedDir busy size} (hnew : s.requests n = none)
      (hbusy : busy = true ↔ s.Busy)
      (hanswer : answerFromMemory root name path cachedDir busy size = none) :
      DigestStep s (.ask n) (s.setRequest n
        { size := size, phase := if cachedDir = none then .unknown else .file, since := s.closed })
  | infoFile {n r} (hr : s.requests n = some r) (hphase : r.phase = .unknown) :
      DigestStep s (.info n) (s.setRequest n { r with phase := .file })
  | infoDir {n r} (hr : s.requests n = some r) (hphase : r.phase = .unknown) :
      DigestStep s (.info n) (s.setRequest n { r with phase := .answered (.error .enodata) })
  | infoFailed {n r} {e : SynoFsError} (hr : s.requests n = some r) (hphase : r.phase = .unknown) :
      DigestStep s (.info n)
        (s.setRequest n { r with phase := .answered (.error (.nas e.toErrno)) })
  | size {n r} (hr : s.requests n = some r) (hphase : r.phase = .file) (hsize : r.size = 0) :
      DigestStep s (.size n) (s.setRequest n { r with phase := .answered (.size md5HexLen) })
  | join {n r h waiters} (hr : s.requests n = some r) (hphase : r.phase = .file)
      (hsize : r.size ≠ 0) (hrunning : s.running = some (h, waiters)) :
      DigestStep s (.join n)
        ({ s with running := some (h, waiters ++ [n]) }.setRequest n
          { r with phase := .waiting h })
  | lead {n r} (hr : s.requests n = some r) (hphase : r.phase = .file) (hsize : r.size ≠ 0)
      (hrunning : s.running = none) :
      DigestStep s (.lead n)
        (({ s with running := some (s.made, [n]), made := s.made + 1 }.setHash s.made
          ⟨.queued, none⟩).setRequest n { r with phase := .waiting s.made })
  /-- The hash has its slot, and a writer has started meanwhile. -/
  | beginBusy {h t} (ht : s.hashes h = some t) (hphase : t.phase = .queued) (hbusy : s.Busy) :
      DigestStep s (.begin h) (s.setHash h { t with phase := .answered (.error .ebusy) })
  | begin {h t} (ht : s.hashes h = some t) (hphase : t.phase = .queued) (hidle : ¬s.Busy) :
      DigestStep s (.begin h) (s.setHash h ⟨.hashing, some s.closed⟩)
  | read {h t} (ht : s.hashes h = some t) (hphase : t.phase = .hashing) :
      DigestStep s (.read h) (s.setHash h { t with phase := .hashed s.version })
  | digest {h t version} (ht : s.hashes h = some t) (hphase : t.phase = .hashed version) :
      DigestStep s (.answer h) (s.setHash h { t with phase := .answered (.value version) })
  /-- The NAS fails, or answers with no digest. -/
  | noDigest {h t e} (ht : s.hashes h = some t)
      (hphase : t.phase = .hashing ∨ ∃ version, t.phase = .hashed version) :
      DigestStep s (.answer h) (s.setHash h { t with phase := .answered (.error e) })
  | remove {h t answer waiters} (ht : s.hashes h = some t) (hphase : t.phase = .answered answer)
      (hrunning : s.running = some (h, waiters)) :
      DigestStep s (.remove h)
        ({ s with running := none }.setHash h { t with phase := .delivering answer waiters })
  | deliver {h t answer n waiters r} (ht : s.hashes h = some t)
      (hphase : t.phase = .delivering answer (n :: waiters)) (hr : s.requests n = some r) :
      DigestStep s (.deliver h)
        ((s.setHash h { t with phase := .delivering answer waiters }).setRequest n
          { r with phase := .answered answer })

/-! ### Digests of the last close -/

/-- A digest that answers a request is of what the last close before the request
stored, or of something later. -/
def DigestsFresh (s : DigestSystem) : Prop :=
  ∀ n r version, s.requests n = some r → r.phase = .answered (.value version) → r.since ≤ version

/-- A request joins a hash only if no close has returned between the hash's
beginning and the request. -/
def JoinsInTime (s : DigestSystem) : DigestEvent → Prop
  | .join n => ∀ r h waiters t began, s.requests n = some r → s.running = some (h, waiters) →
      s.hashes h = some t → t.began = some began → r.since ≤ began
  | _ => True

/-- A hash began no later than anything it has come to. -/
def Hash.Dated (t : Hash) : Prop :=
  match t.phase with
  | .queued => t.began = none
  | .hashing => t.began.isSome
  | .hashed version | .answered (.value version) | .delivering (.value version) _ =>
      ∃ began, t.began = some began ∧ began ≤ version
  | _ => True

/-- Everyone of a list is a request made before the hash began. -/
def Hash.Awaited (t : Hash) (requests : ℕ → Option XattrRequest) (waiters : List ℕ) : Prop :=
  ∀ n ∈ waiters, ∃ r, requests n = some r ∧ ∀ began, t.began = some began → r.since ≤ began

/-- What the requests, the closes and the hashes have to do with each other. -/
structure Dates (s : DigestSystem) : Prop where
  closed_le : s.closed ≤ s.version
  stored_le : ∀ n w, s.writers n = some w → w.stored ≤ s.version
  since_le : ∀ n r, s.requests n = some r → r.since ≤ s.closed
  hash_lt : ∀ h t, s.hashes h = some t → h < s.made
  running_lt : ∀ h waiters, s.running = some (h, waiters) → h < s.made
  dated : ∀ h t, s.hashes h = some t → t.Dated
  began_le : ∀ h t began, s.hashes h = some t → t.began = some began → began ≤ s.closed
  waiting : ∀ h t waiters, s.hashes h = some t → s.running = some (h, waiters) →
    t.Awaited s.requests waiters
  delivering : ∀ h t answer waiters, s.hashes h = some t → t.phase = .delivering answer waiters →
    t.Awaited s.requests waiters
  fresh : DigestsFresh s

section Steps

variable {s s' : DigestSystem} {e : DigestEvent} {n h : ℕ}

theorem dates_initial : Dates .initial where
  closed_le := Nat.le_refl 0
  stored_le _ _ hw := by cases hw
  since_le _ _ hr := by cases hr
  hash_lt _ _ ht := by cases ht
  running_lt _ _ hrunning := by cases hrunning
  dated _ _ ht := by cases ht
  began_le _ _ _ ht := by cases ht
  waiting _ _ _ ht := by cases ht
  delivering _ _ _ _ ht := by cases ht
  fresh _ _ _ hr := by cases hr

/-- The file and its writers go on; no close is taken back. -/
theorem Dates.advance (hs : Dates s) {version closed rewrites : ℕ} {writers : ℕ → Option Writer}
    (hclosed : s.closed ≤ closed) (hle : closed ≤ version)
    (hstored : ∀ n w, writers n = some w → w.stored ≤ version) :
    Dates { s with version := version, closed := closed, rewrites := rewrites,
                   writers := writers } where
  closed_le := hle
  stored_le := hstored
  since_le n r hr := (hs.since_le n r hr).trans hclosed
  hash_lt := hs.hash_lt
  running_lt := hs.running_lt
  dated := hs.dated
  began_le h t began ht hbegan := (hs.began_le h t began ht hbegan).trans hclosed
  waiting := hs.waiting
  delivering := hs.delivering
  fresh := hs.fresh

theorem of_setWriter {w w' : Writer} {m : ℕ} (hw : (s.setWriter n w).writers m = some w') :
    w' = w ∨ s.writers m = some w' :=
  (update_eq_some hw).imp And.right And.right

/-- One handle changes, and with it what the NAS holds. -/
theorem Dates.setWriter (hs : Dates s) {version : ℕ} {w : Writer} (hversion : s.version ≤ version)
    (hstored : w.stored ≤ version) : Dates ({ s with version := version }.setWriter n w) := by
  refine hs.advance le_rfl (hs.closed_le.trans hversion) fun m w' hw => ?_
  rcases of_setWriter (s := s) hw with rfl | hw
  · exact hstored
  · exact (hs.stored_le m w' hw).trans hversion

/-- A list of waiters stays one when a request of it moves on. -/
theorem Hash.Awaited.setRequest {t : Hash} {waiters : List ℕ} {r : XattrRequest}
    (ht : t.Awaited s.requests waiters)
    (hsince : ∀ r', s.requests n = some r' → r'.since = r.since) :
    t.Awaited (update s.requests n (some r)) waiters := by
  intro m hm
  obtain ⟨r', hr', hle⟩ := ht m hm
  rcases eq_or_ne m n with rfl | hne
  · exact ⟨r, update_self .., hsince r' hr' ▸ hle⟩
  · exact ⟨r', (update_of_ne hne ..).trans hr', hle⟩

theorem of_setRequest {r r' : XattrRequest} {m : ℕ}
    (h : (s.setRequest n r).requests m = some r') :
    m = n ∧ r' = r ∨ m ≠ n ∧ s.requests m = some r' :=
  update_eq_some h

/-- A request is made, or moves on. -/
theorem Dates.setRequest (hs : Dates s) {r : XattrRequest}
    (hsince : ∀ r', s.requests n = some r' → r'.since = r.since) (hle : r.since ≤ s.closed)
    (hfresh : ∀ version, r.phase = .answered (.value version) → r.since ≤ version) :
    Dates (s.setRequest n r) where
  closed_le := hs.closed_le
  stored_le := hs.stored_le
  since_le m r' hr' := by
    rcases of_setRequest hr' with ⟨_, rfl⟩ | ⟨_, hr'⟩
    · exact hle
    · exact hs.since_le m r' hr'
  hash_lt := hs.hash_lt
  running_lt := hs.running_lt
  dated := hs.dated
  began_le := hs.began_le
  waiting h t waiters ht hrunning := (hs.waiting h t waiters ht hrunning).setRequest hsince
  delivering h t answer waiters ht hphase :=
    (hs.delivering h t answer waiters ht hphase).setRequest hsince
  fresh m r' version hr' hphase := by
    rcases of_setRequest hr' with ⟨_, rfl⟩ | ⟨_, hr'⟩
    · exact hfresh version hphase
    · exact hs.fresh m r' version hr' hphase

/-- A request moves on to anything but a digest. -/
theorem Dates.moveOn (hs : Dates s) {r : XattrRequest} (hr : s.requests n = some r)
    {phase : XattrPhase} (hphase : ∀ version, phase ≠ .answered (.value version)) :
    Dates (s.setRequest n { r with phase := phase }) := by
  refine hs.setRequest ?_ (hs.since_le n r hr) fun version h => (hphase version h).elim
  intro r' hr'
  rw [Option.some.inj (hr'.symm.trans hr)]

/-- A hash moves on: it keeps the date of its beginning, or begins now. -/
theorem Dates.setHash (hs : Dates s) {t t' : Hash} (ht : s.hashes h = some t) (hdated : t'.Dated)
    (hbegan : ∀ began, t'.began = some began → t.began = some began ∨ began = s.closed)
    (hdelivering : ∀ answer waiters, t'.phase = .delivering answer waiters →
      t'.Awaited s.requests waiters) :
    Dates (s.setHash h t') where
  closed_le := hs.closed_le
  stored_le := hs.stored_le
  since_le := hs.since_le
  hash_lt k u hu := by
    change update s.hashes h (some t') k = some u at hu
    rcases eq_or_ne k h with rfl | hne
    · exact hs.hash_lt k t ht
    · rw [update_of_ne hne] at hu
      exact hs.hash_lt k u hu
  running_lt := hs.running_lt
  dated k u hu := by
    change update s.hashes h (some t') k = some u at hu
    rcases eq_or_ne k h with rfl | hne
    · rw [update_self] at hu
      obtain rfl := Option.some.inj hu
      exact hdated
    · rw [update_of_ne hne] at hu
      exact hs.dated k u hu
  began_le k u began hu hb := by
    change update s.hashes h (some t') k = some u at hu
    rcases eq_or_ne k h with rfl | hne
    · rw [update_self] at hu
      obtain rfl := Option.some.inj hu
      rcases hbegan began hb with hb | rfl
      · exact hs.began_le k t began ht hb
      · exact le_rfl
    · rw [update_of_ne hne] at hu
      exact hs.began_le k u began hu hb
  waiting k u waiters hu hrunning := by
    change update s.hashes h (some t') k = some u at hu
    rcases eq_or_ne k h with rfl | hne
    · rw [update_self] at hu
      obtain rfl := Option.some.inj hu
      intro m hm
      obtain ⟨r, hr, hle⟩ := hs.waiting k t waiters ht hrunning m hm
      refine ⟨r, hr, fun began hb => ?_⟩
      rcases hbegan began hb with hb | rfl
      · exact hle began hb
      · exact hs.since_le m r hr
    · rw [update_of_ne hne] at hu
      exact hs.waiting k u waiters hu hrunning
  delivering k u answer waiters hu hphase := by
    change update s.hashes h (some t') k = some u at hu
    rcases eq_or_ne k h with rfl | hne
    · rw [update_self] at hu
      obtain rfl := Option.some.inj hu
      exact hdelivering answer waiters hphase
    · rw [update_of_ne hne] at hu
      exact hs.delivering k u answer waiters hu hphase
  fresh := hs.fresh

/-- A request joins the hash under way. -/
theorem Dates.join (hs : Dates s) {waiters : List ℕ} {r : XattrRequest}
    (hrunning : s.running = some (h, waiters)) (hr : s.requests n = some r)
    (htime : ∀ t began, s.hashes h = some t → t.began = some began → r.since ≤ began) :
    Dates { s with running := some (h, waiters ++ [n]) } :=
  { hs with
    running_lt := by
      intro k list hlist
      obtain ⟨rfl, _⟩ := Prod.mk.inj (Option.some.inj hlist)
      exact hs.running_lt h waiters hrunning
    waiting := by
      intro k t list ht hlist m hm
      obtain ⟨rfl, rfl⟩ := Prod.mk.inj (Option.some.inj hlist)
      rcases List.mem_append.mp hm with hm | hm
      · exact hs.waiting h t waiters ht hrunning m hm
      · obtain rfl := List.mem_singleton.mp hm
        exact ⟨r, hr, fun began hb => htime t began ht hb⟩ }

/-- A request leads a hash of its own. -/
theorem Dates.lead (hs : Dates s) {r : XattrRequest} (hr : s.requests n = some r) :
    Dates ({ s with running := some (s.made, [n]), made := s.made + 1 }.setHash s.made
      ⟨.queued, none⟩) := by
  have hold : ∀ k t, update s.hashes s.made (some ⟨.queued, none⟩) k = some t →
      (k = s.made ∧ t = ⟨.queued, none⟩) ∨ s.hashes k = some t := by
    intro k t ht
    rcases eq_or_ne k s.made with rfl | hne
    · rw [update_self] at ht
      exact Or.inl ⟨rfl, (Option.some.inj ht).symm⟩
    · rw [update_of_ne hne] at ht
      exact Or.inr ht
  constructor
  case closed_le => exact hs.closed_le
  case stored_le => exact hs.stored_le
  case since_le => exact hs.since_le
  case hash_lt =>
    intro k t ht
    rcases hold k t ht with ⟨rfl, _⟩ | ht
    · exact Nat.lt_succ_self _
    · exact Nat.lt_succ_of_lt (hs.hash_lt k t ht)
  case running_lt =>
    intro k waiters hrunning
    obtain ⟨rfl, _⟩ := Prod.mk.inj (Option.some.inj hrunning)
    exact Nat.lt_succ_self _
  case dated =>
    intro k t ht
    rcases hold k t ht with ⟨_, rfl⟩ | ht
    · exact rfl
    · exact hs.dated k t ht
  case began_le =>
    intro k t began ht hb
    rcases hold k t ht with ⟨_, rfl⟩ | ht
    · cases hb
    · exact hs.began_le k t began ht hb
  case waiting =>
    intro k t waiters ht hrunning
    obtain ⟨rfl, rfl⟩ := Prod.mk.inj (Option.some.inj hrunning)
    rcases hold _ t ht with ⟨_, rfl⟩ | ht
    · intro m hm
      obtain rfl := List.mem_singleton.mp hm
      exact ⟨r, hr, nofun⟩
    · exact (Nat.lt_irrefl _ (hs.hash_lt _ t ht)).elim
  case delivering =>
    intro k t answer waiters ht hphase
    rcases hold k t ht with ⟨_, rfl⟩ | ht
    · cases hphase
    · exact hs.delivering k t answer waiters ht hphase
  case fresh => exact hs.fresh

/-- Who waits for a hash is who gets its answer. -/
theorem Dates.remove (hs : Dates s) {t : Hash} {answer : XattrAnswer} {waiters : List ℕ}
    (ht : s.hashes h = some t) (hphase : t.phase = .answered answer)
    (hrunning : s.running = some (h, waiters)) :
    Dates ({ s with running := none }.setHash h
      { t with phase := .delivering answer waiters }) := by
  have hfree : Dates { s with running := none } := { hs with running_lt := nofun, waiting := nofun }
  refine hfree.setHash ht ?_ (fun began hb => Or.inl hb) ?_
  · have hdated := hs.dated h t ht
    rw [Hash.Dated, hphase] at hdated
    cases answer with
    | value version => exact hdated
    | size len => trivial
    | error e => trivial
  · intro answer' waiters' heq
    cases heq
    exact hs.waiting h t waiters ht hrunning

/-- An answer reaches a request. -/
theorem Dates.deliver (hs : Dates s) {t : Hash} {answer : XattrAnswer} {waiters : List ℕ}
    {r : XattrRequest} (ht : s.hashes h = some t)
    (hphase : t.phase = .delivering answer (n :: waiters)) (hr : s.requests n = some r) :
    Dates ((s.setHash h { t with phase := .delivering answer waiters }).setRequest n
      { r with phase := .answered answer }) := by
  have hawaited := hs.delivering h t answer (n :: waiters) ht hphase
  have hdated := hs.dated h t ht
  rw [Hash.Dated, hphase] at hdated
  have hset : Dates (s.setHash h { t with phase := .delivering answer waiters }) := by
    refine hs.setHash ht ?_ (fun began hb => Or.inl hb) ?_
    · cases answer with
      | value version => exact hdated
      | size len => trivial
      | error e => trivial
    · intro answer' waiters' heq
      cases heq
      exact fun m hm => hawaited m (List.mem_cons_of_mem n hm)
  refine hset.setRequest ?_ (hs.since_le n r hr) ?_
  · intro r' hr'
    have heq : r' = r := Option.some.inj (hr'.symm.trans hr)
    rw [heq]
  · intro version heq
    obtain rfl := XattrPhase.answered.inj heq
    obtain ⟨began, hbegan, hle⟩ := hdated
    obtain ⟨r', hr', hbefore⟩ := hawaited n List.mem_cons_self
    obtain rfl := Option.some.inj (hr'.symm.trans hr)
    exact (hbefore began hbegan).trans hle

theorem answerFromMemory_ne_value {root path busy : Bool} {name : String}
    {cachedDir : Option Bool} {size version : ℕ} :
    answerFromMemory root name path cachedDir busy size ≠ some (.value version) := by
  unfold answerFromMemory
  split_ifs <;> simp

theorem Dates.step (hs : Dates s) (htime : JoinsInTime s e) (hstep : DigestStep s e s') :
    Dates s' := by
  cases hstep with
  | «open» hnew => exact hs.setWriter le_rfl (Nat.zero_le _)
  | @write n w streamed hw hfree =>
      exact hs.setWriter (Nat.le_add_right _ _) ((hs.stored_le n w hw).trans (Nat.le_add_right _ _))
  | @writeFailed n w hw hfree => exact hs.setWriter le_rfl (hs.stored_le n w hw)
  | @upload n w hw hfree hdirty hwhole => exact hs.setWriter le_rfl (hs.stored_le n w hw)
  | store hw hbusy => exact hs.setWriter (Nat.le_succ _) le_rfl
  | @uploaded n w hw hbusy => exact hs.setWriter le_rfl (hs.stored_le n w hw)
  | @failed n w hw hbusy => exact hs.setWriter le_rfl (hs.stored_le n w hw)
  | @close n w hw hclean =>
      exact hs.advance (le_max_left _ _) (max_le hs.closed_le (hs.stored_le n w hw))
        hs.stored_le
  | rewrite => exact hs.advance le_rfl hs.closed_le hs.stored_le
  | rewritten hrewrites =>
      exact hs.advance le_rfl (hs.closed_le.trans (Nat.le_add_right _ _))
        fun n w hw => (hs.stored_le n w hw).trans (Nat.le_add_right _ _)
  | @askAnswered n root name path cachedDir busy size answer hnew hbusy hanswer =>
      refine hs.setRequest (fun r' hr' => by cases hnew.symm.trans hr') le_rfl ?_
      intro version heq
      obtain rfl := XattrPhase.answered.inj heq
      exact (answerFromMemory_ne_value hanswer).elim
  | @ask n root name path cachedDir busy size hnew hbusy hanswer =>
      refine hs.setRequest (fun r' hr' => by cases hnew.symm.trans hr') le_rfl ?_
      intro version heq
      dsimp only at heq
      split at heq <;> cases heq
  | infoFile hr hphase => exact hs.moveOn hr nofun
  | infoDir hr hphase => exact hs.moveOn hr nofun
  | infoFailed hr hphase => exact hs.moveOn hr nofun
  | size hr hphase hsize => exact hs.moveOn hr nofun
  | @join n r h waiters hr hphase hsize hrunning =>
      have hjoined := hs.join hrunning hr fun t began ht hb =>
        htime r h waiters t began hr hrunning ht hb
      exact hjoined.moveOn hr nofun
  | lead hr hphase hsize hrunning => exact (hs.lead hr).moveOn hr nofun
  | beginBusy ht hphase hbusy =>
      exact hs.setHash ht trivial (fun _ hb => Or.inl hb) nofun
  | begin ht hphase hidle =>
      exact hs.setHash ht rfl (fun _ hb => Or.inr (Option.some.inj hb).symm) nofun
  | @read h t ht hphase =>
      have hdated := hs.dated h t ht
      rw [Hash.Dated, hphase] at hdated
      obtain ⟨began, hbegan⟩ := Option.isSome_iff_exists.mp hdated
      exact hs.setHash ht
        ⟨began, hbegan, (hs.began_le h t began ht hbegan).trans hs.closed_le⟩
        (fun _ hb => Or.inl hb) nofun
  | @digest h t version ht hphase =>
      have hdated := hs.dated h t ht
      rw [Hash.Dated, hphase] at hdated
      exact hs.setHash ht hdated (fun _ hb => Or.inl hb) nofun
  | noDigest ht hphase => exact hs.setHash ht trivial (fun _ hb => Or.inl hb) nofun
  | remove ht hphase hrunning => exact hs.remove ht hphase hrunning
  | deliver ht hphase hr => exact hs.deliver ht hphase hr

/-- **Digests of the last close**, in runs in which nobody joins a hash begun
before it. -/
theorem digests_fresh (h : Reaches DigestStep JoinsInTime .initial s) : DigestsFresh s := by
  have hdates : Dates s := h.invariant dates_initial fun hs htime hstep => hs.step htime hstep
  exact hdates.fresh

end Steps

/-! ### Runs of either kind -/

theorem not_busy {s : DigestSystem} (hrewrites : s.rewrites = 0)
    (hwriter : ∀ w, s.writers 0 = some w → w.uploading = false ∧ w.dirty = false ∧ w.broken = false)
    (hothers : ∀ m, s.writers (m + 1) = none) : ¬s.Busy := by
  rintro (hpos | ⟨m, w, hw, hbusy⟩)
  · exact (hrewrites ▸ hpos).false
  · cases m with
    | zero =>
        obtain ⟨huploading, hdirty, hbroken⟩ := hwriter w hw
        simp [huploading, hdirty, hbroken] at hbusy
    | succ m => cases (hothers m).symm.trans hw

/-- A file is written and closed, and then asked for its digest. -/
theorem closed_then_hashed : ∃ s r, DigestsFresh s ∧ s.requests 0 = some r ∧
    r.since = 1 ∧ r.phase = .answered (.value 1) := by
  have h := (Reaches.start : Reaches DigestStep JoinsInTime .initial .initial)
  have h := h.next (by trivial) (@DigestStep.open _ 0 rfl)
  have h := h.next (by trivial) (@DigestStep.write _ 0 _ false rfl rfl)
  have h := h.next (by trivial) (@DigestStep.upload _ 0 _ rfl rfl rfl rfl)
  have h := h.next (by trivial) (@DigestStep.store _ 0 _ rfl rfl)
  have h := h.next (by trivial) (@DigestStep.uploaded _ 0 _ rfl rfl)
  have h := h.next (by trivial) (@DigestStep.close _ 0 _ rfl rfl)
  have h := h.next (by trivial) (@DigestStep.ask _ 0 false md5Xattr true (some false) false 64 rfl
    (iff_of_false Bool.false_ne_true (not_busy rfl
      (fun w hw => Option.some.inj hw ▸ ⟨rfl, rfl, rfl⟩) fun _ => rfl)) rfl)
  have h := h.next (by trivial) (@DigestStep.lead _ 0 _ rfl rfl (by decide) rfl)
  have h := h.next (by trivial) (@DigestStep.begin _ 0 _ rfl rfl (not_busy rfl
      (fun w hw => Option.some.inj hw ▸ ⟨rfl, rfl, rfl⟩) fun _ => rfl))
  have h := h.next (by trivial) (@DigestStep.read _ 0 _ rfl rfl)
  have h := h.next (by trivial) (@DigestStep.digest _ 0 _ _ rfl rfl)
  have h := h.next (by trivial) (@DigestStep.remove _ 0 _ _ _ rfl rfl rfl)
  have h := h.next (by trivial) (@DigestStep.deliver _ 0 _ _ _ _ _ rfl rfl rfl)
  exact ⟨_, _, digests_fresh h, rfl, rfl, rfl⟩

/-- A hash begins, the file is written and closed, and a request made after the
close joins the hash: it is answered with the digest of what was there before. -/
theorem joined_hash_stale :
    ∃ s, Reaches DigestStep unrestricted .initial s ∧ ¬DigestsFresh s := by
  have h := (Reaches.start : Reaches DigestStep unrestricted .initial .initial)
  have h := h.next (by trivial) (@DigestStep.open _ 0 rfl)
  have h := h.next (by trivial) (@DigestStep.ask _ 0 false md5Xattr true (some false) false 64 rfl
    (iff_of_false Bool.false_ne_true (not_busy rfl
      (fun w hw => Option.some.inj hw ▸ ⟨rfl, rfl, rfl⟩) fun _ => rfl)) rfl)
  have h := h.next (by trivial) (@DigestStep.lead _ 0 _ rfl rfl (by decide) rfl)
  have h := h.next (by trivial) (@DigestStep.begin _ 0 _ rfl rfl (not_busy rfl
      (fun w hw => Option.some.inj hw ▸ ⟨rfl, rfl, rfl⟩) fun _ => rfl))
  have h := h.next (by trivial) (@DigestStep.read _ 0 _ rfl rfl)
  have h := h.next (by trivial) (@DigestStep.write _ 0 _ false rfl rfl)
  have h := h.next (by trivial) (@DigestStep.upload _ 0 _ rfl rfl rfl rfl)
  have h := h.next (by trivial) (@DigestStep.store _ 0 _ rfl rfl)
  have h := h.next (by trivial) (@DigestStep.uploaded _ 0 _ rfl rfl)
  have h := h.next (by trivial) (@DigestStep.close _ 0 _ rfl rfl)
  have h := h.next (by trivial) (@DigestStep.ask _ 1 false md5Xattr true (some false) false 64 rfl
    (iff_of_false Bool.false_ne_true (not_busy rfl
      (fun w hw => Option.some.inj hw ▸ ⟨rfl, rfl, rfl⟩) fun _ => rfl)) rfl)
  have h := h.next (by trivial) (@DigestStep.join _ 1 _ _ _ rfl rfl (by decide) rfl)
  have h := h.next (by trivial) (@DigestStep.digest _ 0 _ _ rfl rfl)
  have h := h.next (by trivial) (@DigestStep.remove _ 0 _ _ _ rfl rfl rfl)
  have h := h.next (by trivial) (@DigestStep.deliver _ 0 _ _ _ _ _ rfl rfl rfl)
  have h := h.next (by trivial) (@DigestStep.deliver _ 0 _ _ _ _ _ rfl rfl rfl)
  exact ⟨_, h, fun hfresh => absurd (hfresh 1 _ _ rfl rfl) (by decide)⟩

end SynologyFilestation.Fuse
