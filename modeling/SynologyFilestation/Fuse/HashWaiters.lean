import SynologyFilestation.Fuse.Transfers
import SynologyFilestation.Library.Joining
import SynologyFilestation.Openvpn.Push
import Mathlib.Data.String.Basic

/-!
Digests of many files at once (`start_getxattr` in `fuse/src/fs/xattr.rs`): who asks for a digest
that is being made waits for it with the others, and the NAS hashes two files at a time.

A request that is not answered on the calling thread goes to the runtime with its `done`. The
requests that go there are numbered; `sizes` is the room that each has for the answer, and `nas` is
what the NAS may answer when it is asked for the digest of a path.
-/

namespace SynologyFilestation.Fuse

open Core Library

/-- What `done` is called with. -/
inductive XattrReply
  | size (len : ℕ)
  | value (digest : Bytes)
  | error (e : XattrErrno)
  deriving DecidableEq

/-- `is_ascii_hexdigit`. -/
def isAsciiHexdigit (byte : UInt8) : Bool :=
  isDigit byte || (0x41 ≤ byte && byte ≤ 0x46) || (0x61 ≤ byte && byte ≤ 0x66)

/-- The 32 hex digits the length was promised as. -/
def isMd5Hex (digest : Bytes) : Bool := digest.length = md5HexLen && digest.all isAsciiHexdigit

/-- What an answer of the NAS comes to. -/
def hashReply : Except SynoFsError Bytes → XattrReply
  | .ok digest =>
      if isMd5Hex digest then .value (digest.map Openvpn.PushReply.toAsciiLowercase)
      else .error .eio
  | .error e => .error (.nas e.toErrno)

structure XattrTasks extends Joining String XattrReply where
  /-- The requests whose entries are looked up on the NAS, as the cache does not know them. -/
  checking : List ℕ

namespace XattrTasks

def initial : XattrTasks := ⟨.initial maxConcurrentHashes, []⟩

end XattrTasks

inductive XattrEvent
  | ask
  | info
  | size
  | join
  | lead
  | begin
  | answer
  | remove
  | deliver
  deriving DecidableEq

/-- The steps of the tasks. -/
inductive XattrStep (sizes : ℕ → ℕ) (nas : String → Except SynoFsError Bytes → Prop)
    (s : XattrTasks) : XattrEvent → XattrTasks → Prop
  /-- A request that memory does not answer. -/
  | ask {path name cachedDir busy}
      (hmemory : answerFromMemory false name true cachedDir busy (sizes s.parties.length) = none) :
      XattrStep sizes nas s .ask
        { toJoining := s.enter path
          checking := s.checking ++ if cachedDir = none then [s.parties.length] else [] }
  | infoFile {n : ℕ} {path caller} (hn : s.parties[n]? = some (path, .apart caller))
      (hchecking : caller ∈ s.checking) :
      XattrStep sizes nas s .info { s with checking := s.checking.erase caller }
  | infoDir {n path caller} (hn : s.parties[n]? = some (path, .apart caller))
      (hchecking : caller ∈ s.checking) :
      XattrStep sizes nas s .info
        ⟨s.leave n path caller (.error .enodata), s.checking.erase caller⟩
  | infoFailed {n path caller} {e : SynoFsError} (hn : s.parties[n]? = some (path, .apart caller))
      (hchecking : caller ∈ s.checking) :
      XattrStep sizes nas s .info
        ⟨s.leave n path caller (.error (.nas e.toErrno)), s.checking.erase caller⟩
  | size {n path caller} (hn : s.parties[n]? = some (path, .apart caller))
      (hchecked : caller ∉ s.checking) (hsize : sizes caller = 0) :
      XattrStep sizes nas s .size ⟨s.leave n path caller (.size md5HexLen), s.checking⟩
  | join {n path caller waiting} (hn : s.parties[n]? = some (path, .apart caller))
      (hchecked : caller ∉ s.checking) (hsize : sizes caller ≠ 0)
      (hrunning : s.running.get? path = some waiting) :
      XattrStep sizes nas s .join ⟨s.join n path caller waiting, s.checking⟩
  | lead {n path caller} (hn : s.parties[n]? = some (path, .apart caller))
      (hchecked : caller ∉ s.checking) (hsize : sizes caller ≠ 0)
      (hrunning : s.running.get? path = none) :
      XattrStep sizes nas s .lead ⟨s.lead n path caller, s.checking⟩
  /-- A task gets a slot, and a writer has started meanwhile. -/
  | beginBusy {n path} (hn : s.parties[n]? = some (path, .queued)) (hpermits : 0 < s.permits) :
      XattrStep sizes nas s .begin
        ⟨(s.acquire n path).finish n path (.error .ebusy), s.checking⟩
  | begin {n path} (hn : s.parties[n]? = some (path, .queued)) (hpermits : 0 < s.permits) :
      XattrStep sizes nas s .begin ⟨s.acquire n path, s.checking⟩
  | answer {n path digest} (hn : s.parties[n]? = some (path, .holding)) (hnas : nas path digest) :
      XattrStep sizes nas s .answer ⟨s.finish n path (hashReply digest), s.checking⟩
  | remove {n path reply} (hn : s.parties[n]? = some (path, .answered reply)) :
      XattrStep sizes nas s .remove ⟨s.collect n path reply, s.checking⟩
  | deliver {n path reply caller waiting}
      (hn : s.parties[n]? = some (path, .telling reply (caller :: waiting))) :
      XattrStep sizes nas s .deliver ⟨s.tell n path reply caller waiting, s.checking⟩

namespace XattrTasks

section Runs

variable {sizes : ℕ → ℕ} {nas : String → Except SynoFsError Bytes → Prop} {s t : XattrTasks}
  {e : XattrEvent} {caller : ℕ} {path : String}

/-- What is told to whom. -/
def rule (sizes : ℕ → ℕ) (nas : String → Except SynoFsError Bytes → Prop) :
    JoinRule String XattrReply where
  alone caller _ reply :=
    (reply = .size md5HexLen ∧ sizes caller = 0) ∨ ∃ e, reply = .error e
  joins caller _ := sizes caller ≠ 0
  shared path reply := reply = .error .ebusy ∨ ∃ digest, nas path digest ∧ reply = hashReply digest

theorem reaches_of_step {s t : Joining String XattrReply} {e : JoinEvent String XattrReply}
    (h : JoinStep s e t) (hmeets : Joining.Meets (rule sizes nas) s e) :
    Reaches JoinStep (Joining.Meets (rule sizes nas)) s t :=
  Reaches.start.next hmeets h

/-- The tasks share the hashes by the rule. -/
theorem joins (h : XattrStep sizes nas s e t) :
    Reaches JoinStep (Joining.Meets (rule sizes nas)) s.toJoining t.toJoining := by
  cases h with
  | ask hmemory => exact reaches_of_step .enter trivial
  | infoFile hn hchecking => exact .start
  | infoDir hn hchecking => exact reaches_of_step (.leave hn) (.inr ⟨_, rfl⟩)
  | infoFailed hn hchecking => exact reaches_of_step (.leave hn) (.inr ⟨_, rfl⟩)
  | size hn hchecked hsize => exact reaches_of_step (.leave hn) (.inl ⟨rfl, hsize⟩)
  | join hn hchecked hsize hrunning => exact reaches_of_step (.join hn hrunning) hsize
  | lead hn hchecked hsize hrunning => exact reaches_of_step (.lead hn hrunning) hsize
  | @beginBusy n path hn hpermits =>
      have hfinish : JoinStep (s.acquire n path) (.finish path (.error .ebusy)) _ :=
        .finish (Joining.parties_acquire hn)
      have hmeets : Joining.Meets (rule sizes nas) (s.acquire n path)
          (.finish path (.error .ebusy)) := .inl rfl
      exact (reaches_of_step (.acquire hn hpermits) trivial).next hmeets hfinish
  | begin hn hpermits => exact reaches_of_step (.acquire hn hpermits) trivial
  | answer hn hnas => exact reaches_of_step (.finish hn) (.inr ⟨_, hnas, rfl⟩)
  | remove hn => exact reaches_of_step (.collect hn) trivial
  | deliver hn => exact reaches_of_step (.tell hn) trivial

/-- The requests have room for a digest, or ask for its length. -/
def Roomy (sizes : ℕ → ℕ) (s : XattrTasks) : Prop :=
  ∀ caller < s.parties.length, sizes caller = 0 ∨ md5HexLen ≤ sizes caller

theorem roomy_of_memory {root : Bool} {name : String} {known : Bool} {cachedDir : Option Bool}
    {busy : Bool} {size : ℕ} (h : answerFromMemory root name known cachedDir busy size = none) :
    size = 0 ∨ md5HexLen ≤ size := by
  unfold answerFromMemory at h
  split_ifs at h
  omega

theorem length_parties (h : XattrStep sizes nas s e t) (hask : e ≠ .ask) :
    t.parties.length = s.parties.length := by
  cases h with
  | ask hmemory => exact absurd rfl hask
  | infoFile hn hchecking => rfl
  | beginBusy hn hpermits => exact List.length_set.trans List.length_set
  | _ => exact List.length_set

theorem Roomy.step (hs : s.Roomy sizes) (h : XattrStep sizes nas s e t) : t.Roomy sizes := by
  by_cases hask : e = .ask
  · subst hask
    cases h with
    | @ask path name cachedDir busy hmemory =>
        intro caller hcaller
        rw [Joining.enter, List.length_append, List.length_singleton] at hcaller
        rcases Nat.lt_or_ge caller s.parties.length with hlt | hge
        · exact hs caller hlt
        · obtain rfl : caller = s.parties.length := by omega
          exact roomy_of_memory hmemory
  · intro caller hcaller
    rw [length_parties h hask] at hcaller
    exact hs caller hcaller

theorem Sound.step {all : ℕ} (hs : s.Sound all (rule sizes nas)) (h : XattrStep sizes nas s e t) :
    t.Sound all (rule sizes nas) :=
  (joins h).invariant hs fun hs hmeets hstep => hs.step hmeets hstep

theorem sound_reaches (h : Reaches (XattrStep sizes nas) unrestricted initial s) :
    s.Sound maxConcurrentHashes (rule sizes nas) ∧ s.Roomy sizes := by
  refine h.invariant (P := fun s => s.Sound maxConcurrentHashes (rule sizes nas) ∧ s.Roomy sizes)
    ⟨Joining.sound_initial .., fun caller hcaller => absurd hcaller caller.not_lt_zero⟩ ?_
  rintro s e t ⟨hs, hroomy⟩ - hstep
  exact ⟨Sound.step hs hstep, hroomy.step hstep⟩

/-- A digest is in lower case, fits the room that the request has, and is what the NAS may answer
for the path. A length is told to who has asked for that. -/
def Told (sizes : ℕ → ℕ) (nas : String → Except SynoFsError Bytes → Prop) (caller : ℕ)
    (path : String) : XattrReply → Prop
  | .size len => sizes caller = 0 ∧ len = md5HexLen
  | .value digest => digest.length = md5HexLen ∧ digest.length ≤ sizes caller ∧
      ∃ answer, nas path (.ok answer) ∧ isMd5Hex answer = true ∧
        digest = answer.map Openvpn.PushReply.toAsciiLowercase
  | .error _ => True

theorem told_hashReply {digest : Except SynoFsError Bytes} (hnas : nas path digest)
    (hroom : md5HexLen ≤ sizes caller) : Told sizes nas caller path (hashReply digest) := by
  cases digest with
  | error e => trivial
  | ok answer =>
      unfold hashReply
      dsimp only
      split
      case isTrue hhex =>
        have hlength : answer.length = md5HexLen := by
          unfold isMd5Hex at hhex
          exact of_decide_eq_true (Bool.and_eq_true_iff.mp hhex).1
        refine ⟨(List.length_map ..).trans hlength, ?_, answer, hnas, hhex, rfl⟩
        rw [List.length_map, hlength]
        exact hroom
      case isFalse => trivial

/-- **A request is answered once, with its own digest.** Of the requests on one path one hashes for
all that wait, and no more than two hash at once. -/
theorem answered_once (h : Reaches (XattrStep sizes nas) unrestricted initial s) :
    (s.told.map Prod.fst).Nodup ∧
    (∀ caller reply, (caller, reply) ∈ s.told →
      ∃ path, s.Asked caller path ∧ Told sizes nas caller path reply) ∧
    (∀ (n m : ℕ) (path : String) (phase phase' : JoinPhase XattrReply),
      s.parties[n]? = some (path, phase) → s.parties[m]? = some (path, phase') →
        phase.isLeading = true → phase'.isLeading = true → n = m) ∧
    s.parties.countP (·.2.isHolding) ≤ maxConcurrentHashes := by
  obtain ⟨hs, hroomy⟩ := sound_reaches h
  refine ⟨hs.kept.once, fun caller reply htold => ?_, ?_, hs.permitted.holding_le⟩
  · obtain ⟨path, hasked, hrule⟩ := hs.right.told caller reply htold
    have hroom := hroomy caller (hs.kept.lt_of_told (List.mem_map_of_mem htold))
    refine ⟨path, hasked, ?_⟩
    rcases hrule with (⟨rfl, hsize⟩ | ⟨e, rfl⟩) | ⟨hsize, rfl | ⟨digest, hnas, rfl⟩⟩
    · exact ⟨hsize, rfl⟩
    · trivial
    · trivial
    · exact told_hashReply hnas (hroom.resolve_left hsize)
  · intro n m path phase phase' hn hm hleads hleads'
    exact hs.led.alone hn hm hleads hleads'

/-- An answer of the NAS, for whatever path. -/
def sameDigest (_ : String) (digest : Except SynoFsError Bytes) : Prop :=
  digest = .ok (List.replicate 32 0x41)

/-- Two requests on one path, of which the second waits with the first. -/
def twoWait : XattrTasks :=
  ⟨(((initial.enter "a").enter "a").lead 0 "a" 0).join 1 "a" 1 [0], []⟩

theorem reaches_twoWait :
    Reaches (XattrStep (fun _ => 64) sameDigest) unrestricted initial twoWait := by
  have hmemory : answerFromMemory false md5Xattr true (some false) false 64 = none := by decide
  have hfirst : XattrStep (fun _ => 64) sameDigest initial .ask ⟨initial.enter "a", []⟩ :=
    @XattrStep.ask _ _ initial "a" md5Xattr (some false) false hmemory
  have hsecond : XattrStep (fun _ => 64) sameDigest ⟨initial.enter "a", []⟩ .ask
      ⟨(initial.enter "a").enter "a", []⟩ :=
    @XattrStep.ask _ _ ⟨initial.enter "a", []⟩ "a" md5Xattr (some false) false hmemory
  have hchecked {caller : ℕ} : caller ∉ ([] : List ℕ) := List.not_mem_nil
  have hlead : XattrStep (fun _ => 64) sameDigest ⟨(initial.enter "a").enter "a", []⟩ .lead
      ⟨((initial.enter "a").enter "a").lead 0 "a" 0, []⟩ :=
    .lead rfl hchecked (by decide) rfl
  have hjoin : XattrStep (fun _ => 64) sameDigest
      ⟨((initial.enter "a").enter "a").lead 0 "a" 0, []⟩ .join twoWait :=
    .join rfl hchecked (by decide) rfl
  exact (((Reaches.start.next trivial hfirst).next trivial hsecond).next trivial hlead).next
    trivial hjoin

def inLowerCase : XattrReply := .value (List.replicate 32 0x61)

/-- What both were told. -/
def toldBoth : XattrTasks :=
  ⟨((((twoWait.acquire 0 "a").finish 0 "a" inLowerCase).collect 0 "a" inLowerCase).tell 0 "a"
    inLowerCase 0 [1]).tell 0 "a" inLowerCase 1 [], []⟩

theorem reaches_toldBoth :
    Reaches (XattrStep (fun _ => 64) sameDigest) unrestricted initial toldBoth := by
  have hreply : hashReply (.ok (List.replicate 32 0x41)) = inLowerCase := by decide
  have hbegin : XattrStep (fun _ => 64) sameDigest twoWait .begin ⟨twoWait.acquire 0 "a", []⟩ :=
    .begin rfl (by decide)
  have hanswer : XattrStep (fun _ => 64) sameDigest ⟨twoWait.acquire 0 "a", []⟩ .answer
      ⟨(twoWait.acquire 0 "a").finish 0 "a" inLowerCase, []⟩ :=
    hreply ▸ .answer rfl rfl
  have hremove : XattrStep (fun _ => 64) sameDigest
      ⟨(twoWait.acquire 0 "a").finish 0 "a" inLowerCase, []⟩ .remove
      ⟨((twoWait.acquire 0 "a").finish 0 "a" inLowerCase).collect 0 "a" inLowerCase, []⟩ :=
    .remove rfl
  have hfirst : XattrStep (fun _ => 64) sameDigest
      ⟨((twoWait.acquire 0 "a").finish 0 "a" inLowerCase).collect 0 "a" inLowerCase, []⟩ .deliver
      ⟨(((twoWait.acquire 0 "a").finish 0 "a" inLowerCase).collect 0 "a" inLowerCase).tell 0 "a"
        inLowerCase 0 [1], []⟩ := .deliver rfl
  have hsecond : XattrStep (fun _ => 64) sameDigest
      ⟨(((twoWait.acquire 0 "a").finish 0 "a" inLowerCase).collect 0 "a" inLowerCase).tell 0 "a"
        inLowerCase 0 [1], []⟩ .deliver toldBoth := .deliver rfl
  exact ((((reaches_twoWait.next trivial hbegin).next trivial hanswer).next trivial hremove).next
    trivial hfirst).next trivial hsecond

theorem answered_once_toldBoth : toldBoth.told = [(0, inLowerCase), (1, inLowerCase)] ∧
    (toldBoth.told.map Prod.fst).Nodup :=
  ⟨rfl, (answered_once reaches_toldBoth).1⟩

/-! ### Every request is answered -/

/-- How many steps are left before the next request. -/
def left (s : XattrTasks) : ℕ := s.checking.length + s.toJoining.left

/-- A step that is not a new request. -/
def Goes (sizes : ℕ → ℕ) (nas : String → Except SynoFsError Bytes → Prop) (s t : XattrTasks) :
    Prop := ∃ e, e ≠ XattrEvent.ask ∧ XattrStep sizes nas s e t

/-- Each step is one less that is left. -/
theorem left_lt (hs : s.Sound maxConcurrentHashes (rule sizes nas)) (h : Goes sizes nas s t) :
    t.left < s.left := by
  obtain ⟨e, hask, hstep⟩ := h
  have ht := Sound.step hs hstep
  have hfewer {e : JoinEvent String XattrReply} (hstep : JoinStep s.toJoining e t.toJoining)
      (hcomes : ∀ key, e ≠ .enter key) (hchecking : t.checking.length ≤ s.checking.length) :
      t.left < s.left :=
    Nat.add_lt_add_of_le_of_lt hchecking (Joining.left_lt hs.kept ht.kept hstep hcomes)
  cases hstep with
  | ask hmemory => exact absurd rfl hask
  | infoFile hn hchecking =>
      have hlength := List.length_erase_of_mem hchecking
      have hpos := List.length_pos_of_mem hchecking
      unfold left
      dsimp only
      omega
  | infoDir hn hchecking =>
      exact hfewer (.leave hn) (fun key heq => by cases heq) List.length_erase_le
  | infoFailed hn hchecking =>
      exact hfewer (.leave hn) (fun key heq => by cases heq) List.length_erase_le
  | size hn _ hsize => exact hfewer (.leave hn) (fun key heq => by cases heq) le_rfl
  | join hn _ hsize hrunning =>
      exact hfewer (.join hn hrunning) (fun key heq => by cases heq) le_rfl
  | lead hn _ hsize hrunning =>
      exact hfewer (.lead hn hrunning) (fun key heq => by cases heq) le_rfl
  | @beginBusy n path hn hpermits =>
      have hacquire : JoinStep s.toJoining (.acquire path) (s.acquire n path) :=
        .acquire hn hpermits
      have hfinish : JoinStep (s.acquire n path) (.finish path (.error .ebusy)) _ :=
        .finish (Joining.parties_acquire hn)
      have hheld := hs.kept.step hacquire
      have hlt := Joining.left_lt hs.kept hheld hacquire fun key heq => by cases heq
      have hlt' := Joining.left_lt hheld ht.kept hfinish fun key heq => by cases heq
      exact Nat.add_lt_add_left (hlt'.trans hlt) _
  | begin hn hpermits =>
      exact hfewer (.acquire hn hpermits) (fun key heq => by cases heq) le_rfl
  | answer hn hnas => exact hfewer (.finish hn) (fun key heq => by cases heq) le_rfl
  | remove hn => exact hfewer (.collect hn) (fun key heq => by cases heq) le_rfl
  | deliver hn => exact hfewer (.tell hn) (fun key heq => by cases heq) le_rfl

theorem exists_goes (hs : s.Sound maxConcurrentHashes (rule sizes nas))
    (hnas : ∀ path, ∃ digest, nas path digest) (hcaller : caller ∈ s.held) :
    ∃ t, Goes sizes nas s t := by
  obtain ⟨n, path, phase, hn, hready⟩ := hs.exists_ready (by decide) hcaller
  cases phase with
  | apart caller =>
      by_cases hchecking : caller ∈ s.checking
      · exact ⟨_, .info, by decide, .infoFile hn hchecking⟩
      · by_cases hsize : sizes caller = 0
        · exact ⟨_, .size, by decide, .size hn hchecking hsize⟩
        · cases hrunning : s.running.get? path with
          | none => exact ⟨_, .lead, by decide, .lead hn hchecking hsize hrunning⟩
          | some callers => exact ⟨_, .join, by decide, .join hn hchecking hsize hrunning⟩
  | queued => exact ⟨_, .begin, by decide, .begin hn hready⟩
  | holding =>
      obtain ⟨digest, hdigest⟩ := hnas path
      exact ⟨_, .answer, by decide, .answer hn hdigest⟩
  | answered reply => exact ⟨_, .remove, by decide, .remove hn⟩
  | telling reply callers =>
      cases callers with
      | nil => exact absurd rfl hready
      | cons caller callers => exact ⟨_, .deliver, by decide, .deliver hn⟩
  | finished => cases hready

/-- **Every request is answered**, if the NAS answers whatever it is asked and the tasks go on as
long as one of them can. -/
theorem all_answered (h : Reaches (XattrStep sizes nas) unrestricted initial s)
    (hnas : ∀ path, ∃ digest, nas path digest) (states : ℕ → XattrTasks) (hfirst : states 0 = s)
    (hgoes : ∀ n, (∃ t, Goes sizes nas (states n) t) →
      Goes sizes nas (states n) (states (n + 1))) :
    ∃ n ≤ s.left, ∀ caller < s.parties.length, ∃ reply, (caller, reply) ∈ (states n).told := by
  subst hfirst
  have hgone : ∀ n, (∀ k < n, ∃ t, Goes sizes nas (states k) t) →
      Reaches (XattrStep sizes nas) unrestricted initial (states n) ∧
        (states n).parties.length = (states 0).parties.length := by
    intro n
    induction n with
    | zero => exact fun _ => ⟨h, rfl⟩
    | succ n ih =>
        intro hmore
        obtain ⟨hreached, hlength⟩ := ih fun k hk => hmore k (Nat.lt_succ_of_lt hk)
        obtain ⟨e, hask, hstep⟩ := hgoes n (hmore n (Nat.lt_succ_self n))
        exact ⟨hreached.next trivial hstep, (length_parties hstep hask).trans hlength⟩
  have hless : ∀ n, (∀ k ≤ n, ∃ t, Goes sizes nas (states k) t) →
      (states (n + 1)).left < (states n).left := by
    intro n hmore
    obtain ⟨hreached, -⟩ := hgone n fun k hk => hmore k hk.le
    exact left_lt (sound_reaches hreached).1 (hgoes n (hmore n le_rfl))
  obtain ⟨n, hn, hrest, hbefore⟩ :=
    @exists_rest XattrTasks states left (fun s => ∃ t, Goes sizes nas s t) hless
  obtain ⟨hreached, hlength⟩ := hgone n hbefore
  obtain ⟨hs, -⟩ := sound_reaches hreached
  refine ⟨n, hn, fun caller hcaller => by_contra fun hnever => hrest ?_⟩
  refine exists_goes hs hnas (hs.kept.mem_held (hlength.symm ▸ hcaller) fun htold => hnever ?_)
  obtain ⟨⟨other, reply⟩, hmem, rfl⟩ := List.mem_map.mp htold
  exact ⟨reply, hmem⟩

/-- The length is asked of an entry that the cache does not know. -/
def lengthAsked : XattrTasks := ⟨initial.enter "a", [0]⟩

theorem reaches_lengthAsked :
    Reaches (XattrStep (fun _ => 0) sameDigest) unrestricted initial lengthAsked := by
  have hmemory : answerFromMemory false md5Xattr true none false 0 = none := by decide
  exact Reaches.start.next trivial (@XattrStep.ask _ _ initial "a" md5Xattr none false hmemory)

def lengthTold : XattrTasks := ⟨initial.enter "a" |>.leave 0 "a" 0 (.size md5HexLen), []⟩

/-- It is found to be a file, and the length is told. -/
def lengthRun : ℕ → XattrTasks
  | 0 => lengthAsked
  | 1 => ⟨initial.enter "a", []⟩
  | _ + 2 => lengthTold

theorem all_answered_lengthRun :
    ∃ n, ∃ reply, (0, reply) ∈ (lengthRun n).told := by
  have hinfo : XattrStep (fun _ => 0) sameDigest lengthAsked .info ⟨initial.enter "a", []⟩ :=
    @XattrStep.infoFile _ _ lengthAsked 0 "a" 0 rfl (List.mem_singleton_self 0)
  have hsize : XattrStep (fun _ => 0) sameDigest ⟨initial.enter "a", []⟩ .size lengthTold :=
    .size rfl List.not_mem_nil rfl
  have hover : ¬∃ t, Goes (fun _ => 0) sameDigest lengthTold t := by
    rintro ⟨t, e, hask, hstep⟩
    have honly {n : ℕ} {path : String} {phase : JoinPhase XattrReply}
        (hn : lengthTold.parties[n]? = some (path, phase)) : phase = .finished :=
      (Prod.mk.inj (List.mem_singleton.mp (List.mem_of_getElem? hn))).2
    cases hstep with
    | ask hmemory => exact hask rfl
    | infoFile hn => cases honly hn
    | infoDir hn => cases honly hn
    | infoFailed hn => cases honly hn
    | size hn => cases honly hn
    | join hn => cases honly hn
    | lead hn => cases honly hn
    | beginBusy hn => cases honly hn
    | begin hn => cases honly hn
    | answer hn => cases honly hn
    | remove hn => cases honly hn
    | deliver hn => cases honly hn
  have hgoes : ∀ n, (∃ t, Goes (fun _ => 0) sameDigest (lengthRun n) t) →
      Goes (fun _ => 0) sameDigest (lengthRun n) (lengthRun (n + 1)) := by
    intro n hmore
    rcases n with _ | _ | n
    · exact ⟨.info, by decide, hinfo⟩
    · exact ⟨.size, by decide, hsize⟩
    · exact absurd hmore hover
  obtain ⟨n, -, htold⟩ :=
    all_answered reaches_lengthAsked (fun path => ⟨_, rfl⟩) lengthRun rfl hgoes
  exact ⟨n, htold 0 (by decide)⟩

end Runs

end XattrTasks

end SynologyFilestation.Fuse
