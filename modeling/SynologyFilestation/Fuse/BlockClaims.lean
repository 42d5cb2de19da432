import SynologyFilestation.Fuse.ReadCache
import Mathlib.Order.Basic

/-!
Who owns a claim. A claim is named by its block alone, so a task that gives "its"
claim back gives back whatever claim is there, and a reader that waited looks
for the block under the same name. In an `Orderly` run that is always the right
one: a block is claimed again only when the download under its last claim has
given that claim back, and a block that landed stays until everyone who waited
for it has looked.

`Claims` ties the table of claims to the downloads, `Bells` the doorbells, and
`Waits` the waiting reads.
-/

namespace SynologyFilestation.Fuse

open Function Library

/-- The download ended without its block. -/
def Phase.hasFailed : Phase → Bool
  | .failed | .ringing false _ | .done false => true
  | _ => false

theorem Phase.landed_or_hasFailed {p : Phase} (h : p.unreleased = false) :
    p.landed = true ∨ p.hasFailed = true := by
  cases p with
  | ringing ok _ => cases ok <;> simp [Phase.landed, Phase.hasFailed]
  | done ok => cases ok <;> simp [Phase.landed, Phase.hasFailed]
  | _ => simp [Phase.unreleased] at h

theorem Phase.unreleased_of_canFail {p : Phase} (h : p.canFail = true) :
    p.unreleased = true ∧ p.hasFailed = false := by
  cases p <;> simp_all [Phase.canFail, Phase.unreleased, Phase.hasFailed]

/-- The claim a read waits on. One that gave up waiting waits on none. -/
def ReadPhase.waitsOn : ReadPhase → Option ℕ
  | .lost slot | .waiting slot | .woken slot false => some slot
  | _ => none

/-! ### The properties -/

/-- At most one download of a block is in flight. -/
def OneDownload (s : System) : Prop :=
  ∀ slot slot' d d', s.downloads slot = some d → s.downloads slot' = some d' → d.key = d'.key →
    d.phase = .downloading → d'.phase = .downloading → slot = slot'

/-- A reader is told "no block" only if the claim it waited on failed, was taken
away, or kept it waiting too long. -/
def ToldTruly (s : System) : Prop :=
  ∀ n r slot timedOut, s.reads n = some r → r.phase = .refused slot timedOut →
    timedOut = true ∨ ∃ d, s.downloads slot = some d ∧
      (d.phase.hasFailed = true ∨ d.cancelled = true)

/-- A claim leaves the table only by the hand of its own download or of an
invalidation of its file. -/
def RemovedByOwner (s : System) (e : Event) (t : System) : Prop :=
  ∀ key slot, s.cache.inFlight key = some slot → t.cache.inFlight key ≠ some slot →
    e = .unclaim slot ∨ ∃ n v, e = .invalidate n ∧ s.invalidations n = some v ∧ v.ino = key.1

/-! ### The condition -/

/-- No download of the block still holds, or thinks it holds, a claim. -/
def Idle (s : System) (key : BlockKey) : Prop :=
  ∀ slot d, s.downloads slot = some d → d.key = key → d.phase.unreleased = false

/-- A block that landed may go: its claim is given back, and no reader that
waited on it has yet to look. -/
def Looked (s : System) (key : BlockKey) : Prop :=
  ∀ slot d, s.downloads slot = some d → d.key = key → d.cancelled = false →
    d.phase.landed = true →
      d.phase.unreleased = false ∧
        ∀ n r, s.reads n = some r → r.phase.waitsOn ≠ some slot

def Orderly (s : System) : Event → Prop
  | .claim n => ∀ r, s.reads n = some r → s.cache.inFlight r.key = none → Idle s r.key
  | .prefetch key => Idle s key
  | .evict key => Looked s key
  | .invalidate n => ∀ v idx ops, s.invalidations n = some v → v.ops = .evict idx :: ops →
      Looked s (v.ino, idx)
  | _ => True

/-! ### The table of claims -/

structure Claims (inFlight : BlockKey → Option ℕ) (downloads : ℕ → Option Download) (slots : ℕ) :
    Prop where
  slot_lt : ∀ slot d, downloads slot = some d → slot < slots
  held : ∀ key slot, inFlight key = some slot →
    ∃ d, downloads slot = some d ∧ d.key = key ∧ d.phase.unreleased = true ∧ d.cancelled = false
  holds : ∀ slot d, downloads slot = some d → d.phase.unreleased = true → d.cancelled = false →
    inFlight d.key = some slot
  unique : ∀ slot slot' d d', downloads slot = some d → downloads slot' = some d' →
    d.key = d'.key → d.phase.unreleased = true → d'.phase.unreleased = true → slot = slot'
  rings : ∀ slot d ok slot', downloads slot = some d → d.phase = .ringing ok (some slot') →
    slot' = slot

section Claims

variable {inFlight : BlockKey → Option ℕ} {downloads : ℕ → Option Download} {slots slot : ℕ}
  {d d' : Download}

/-- Changing a download that is there gives out no new number. -/
theorem Claims.slot_lt_update (h : Claims inFlight downloads slots)
    (hd : downloads slot = some d) (m : ℕ) (e : Download)
    (hu : update downloads slot (some d') m = some e) : m < slots := by
  rcases update_eq_some hu with ⟨rfl, _⟩ | ⟨_, he⟩
  · exact h.slot_lt m d hd
  · exact h.slot_lt m e he

/-- A download without a claim is no second owner of its block. -/
theorem Claims.unique_released (h : Claims inFlight downloads slots)
    (hheld' : d'.phase.unreleased = false) (m m' : ℕ) (e e' : Download)
    (hu : update downloads slot (some d') m = some e)
    (hu' : update downloads slot (some d') m' = some e') (hsame : e.key = e'.key)
    (hun : e.phase.unreleased = true) (hun' : e'.phase.unreleased = true) : m = m' := by
  rcases update_eq_some hu with ⟨_, rfl⟩ | ⟨_, he⟩
  · cases hheld'.symm.trans hun
  · rcases update_eq_some hu' with ⟨_, rfl⟩ | ⟨_, he'⟩
    · cases hheld'.symm.trans hun'
    · exact h.unique m m' e e' he he' hsame hun hun'

theorem Claims.unique_held (h : Claims inFlight downloads slots) (hd : downloads slot = some d)
    (hkey : d'.key = d.key) (hheld : d'.phase.unreleased = true → d.phase.unreleased = true) :
    ∀ m m' e e', update downloads slot (some d') m = some e →
      update downloads slot (some d') m' = some e' → e.key = e'.key →
      e.phase.unreleased = true → e'.phase.unreleased = true → m = m' := by
  intro m m' e e' hu hu' hsame hun hun'
  rcases update_eq_some hu with ⟨rfl, rfl⟩ | ⟨_, he⟩ <;>
    rcases update_eq_some hu' with ⟨hm', rfl⟩ | ⟨_, he'⟩
  · exact hm'.symm
  · exact h.unique m m' d e' hd he' (hkey.symm.trans hsame) (hheld hun) hun'
  · subst hm'
    exact h.unique m m' e d he hd (hsame.trans hkey) hun (hheld hun')
  · exact h.unique m m' e e' he he' hsame hun hun'

/-- What the table holds once a claim is out of it is of the other downloads. -/
theorem Claims.held_cleared (h : Claims inFlight downloads slots) (hd : downloads slot = some d)
    {key : BlockKey} {m : ℕ} (hm : update inFlight d.key none key = some m) :
    ∃ e, update downloads slot (some d') m = some e ∧ e.key = key ∧
      e.phase.unreleased = true ∧ e.cancelled = false := by
  rcases eq_or_ne key d.key with rfl | hne
  · simp at hm
  · rw [update_of_ne hne] at hm
    obtain ⟨e, he, hekey, hrest⟩ := h.held key m hm
    have hslot : m ≠ slot := by
      rintro rfl
      obtain rfl : d = e := Option.some.inj (hd.symm.trans he)
      exact hne hekey.symm
    exact ⟨e, by rw [update_of_ne hslot]; exact he, hekey, hrest⟩

/-- A download goes on, its claim still in hand. -/
theorem Claims.move (h : Claims inFlight downloads slots) (hd : downloads slot = some d)
    (hheld : d.phase.unreleased = true) (hkey : d'.key = d.key)
    (hcancelled : d'.cancelled = d.cancelled) (hheld' : d'.phase.unreleased = true) :
    Claims inFlight (update downloads slot (some d')) slots := by
  refine ⟨h.slot_lt_update hd, ?_, ?_, ?_, ?_⟩
  · intro key m hm
    obtain ⟨e, he, hekey, hun, hcan⟩ := h.held key m hm
    rcases eq_or_ne m slot with rfl | hne
    · obtain rfl : d = e := Option.some.inj (hd.symm.trans he)
      exact ⟨d', update_self .., hkey.trans hekey, hheld', hcancelled.trans hcan⟩
    · exact ⟨e, by rw [update_of_ne hne]; exact he, hekey, hun, hcan⟩
  · intro m e hu hun hcan
    rcases update_eq_some hu with ⟨rfl, rfl⟩ | ⟨_, he⟩
    · rw [hkey]
      exact h.holds m d hd hheld (hcancelled.symm.trans hcan)
    · exact h.holds m e he hun hcan
  · exact h.unique_held hd hkey fun _ => hheld
  · intro m e ok m' hu hphase
    rcases update_eq_some hu with ⟨rfl, rfl⟩ | ⟨_, he⟩
    · rw [hphase] at hheld'
      simp [Phase.unreleased] at hheld'
    · exact h.rings m e ok m' he hphase

/-- A claim the table holds belongs to whichever download of the block still
holds one. -/
theorem Claims.owner (h : Claims inFlight downloads slots) (hd : downloads slot = some d)
    (hheld : d.phase.unreleased = true) {slot' : ℕ} (hslot : inFlight d.key = some slot') :
    slot' = slot := by
  obtain ⟨e, he, hkey, hun, _⟩ := h.held d.key slot' hslot
  exact h.unique slot' slot e d he hd hkey hun hheld

/-- A download gives its claim back. -/
theorem Claims.release (h : Claims inFlight downloads slots) (hd : downloads slot = some d)
    (hheld : d.phase.unreleased = true) (ok : Bool) :
    Claims (update inFlight d.key none)
      (update downloads slot (some { d with phase := .ringing ok (inFlight d.key) })) slots := by
  refine ⟨h.slot_lt_update hd, ?_, ?_, ?_, ?_⟩
  · exact fun key m hm => h.held_cleared hd hm
  · intro m e hu hun hcan
    rcases update_eq_some hu with ⟨rfl, rfl⟩ | ⟨hne, he⟩
    · simp [Phase.unreleased] at hun
    · have hkey : e.key ≠ d.key := fun hkey =>
        hne (h.unique m slot e d he hd hkey hun hheld)
      rw [update_of_ne hkey]
      exact h.holds m e he hun hcan
  · exact h.unique_released rfl
  · intro m e ok' m' hu hphase
    rcases update_eq_some hu with ⟨rfl, rfl⟩ | ⟨_, he⟩
    · obtain ⟨_, htaken⟩ := Phase.ringing.inj hphase
      exact h.owner hd hheld htaken
    · exact h.rings m e ok' m' he hphase

/-- A download has rung its bell. -/
theorem Claims.ring (h : Claims inFlight downloads slots) (hd : downloads slot = some d)
    (hheld : d.phase.unreleased = false) (ok : Bool) :
    Claims inFlight (update downloads slot (some { d with phase := .done ok })) slots := by
  refine ⟨h.slot_lt_update hd, ?_, ?_, ?_, ?_⟩
  · intro key m hm
    obtain ⟨e, he, hekey, hun, hcan⟩ := h.held key m hm
    have hslot : m ≠ slot := by
      rintro rfl
      obtain rfl : d = e := Option.some.inj (hd.symm.trans he)
      rw [hheld] at hun
      simp at hun
    exact ⟨e, by rw [update_of_ne hslot]; exact he, hekey, hun, hcan⟩
  · intro m e hu hun hcan
    rcases update_eq_some hu with ⟨rfl, rfl⟩ | ⟨_, he⟩
    · simp [Phase.unreleased] at hun
    · exact h.holds m e he hun hcan
  · exact h.unique_released rfl
  · intro m e ok' m' hu hphase
    rcases update_eq_some hu with ⟨rfl, rfl⟩ | ⟨_, he⟩
    · simp at hphase
    · exact h.rings m e ok' m' he hphase

/-- A free, idle block is claimed. -/
theorem Claims.start (h : Claims inFlight downloads slots) {key : BlockKey}
    (hidle : ∀ slot d, downloads slot = some d → d.key = key → d.phase.unreleased = false)
    (hkey : d.key = key) (hphase : d.phase = .claimed) (hcancelled : d.cancelled = false) :
    Claims (update inFlight key (some slots)) (update downloads slots (some d)) (slots + 1) := by
  refine ⟨?_, ?_, ?_, ?_, ?_⟩
  · intro m e hu
    rcases update_eq_some hu with ⟨rfl, _⟩ | ⟨_, he⟩
    · exact Nat.lt_succ_self _
    · exact Nat.lt_succ_of_lt (h.slot_lt m e he)
  · intro key' m hm
    rcases eq_or_ne key' key with rfl | hne
    · rw [update_self] at hm
      cases hm
      exact ⟨d, update_self .., hkey, by rw [hphase]; rfl, hcancelled⟩
    · rw [update_of_ne hne] at hm
      obtain ⟨e, he, hrest⟩ := h.held key' m hm
      exact ⟨e, by rw [update_of_ne (Nat.ne_of_lt (h.slot_lt m e he))]; exact he, hrest⟩
  · intro m e hu hun hcan
    rcases update_eq_some hu with ⟨rfl, rfl⟩ | ⟨_, he⟩
    · rw [hkey, update_self]
    · have hne : e.key ≠ key := by
        intro heq
        rw [hidle m e he heq] at hun
        simp at hun
      rw [update_of_ne hne]
      exact h.holds m e he hun hcan
  · intro m m' e e' hu hu' hsame hun hun'
    rcases update_eq_some hu with ⟨hm, rfl⟩ | ⟨_, he⟩ <;>
      rcases update_eq_some hu' with ⟨hm', rfl⟩ | ⟨_, he'⟩
    · rw [hm, hm']
    · rw [hidle m' e' he' (hsame.symm.trans hkey)] at hun'
      simp at hun'
    · rw [hidle m e he (hsame.trans hkey)] at hun
      simp at hun
    · exact h.unique m m' e e' he he' hsame hun hun'
  · intro m e ok m' hu hring
    rcases update_eq_some hu with ⟨rfl, rfl⟩ | ⟨_, he⟩
    · rw [hphase] at hring
      simp at hring
    · exact h.rings m e ok m' he hring

/-- An invalidation takes a claim away. -/
theorem Claims.cancel (h : Claims inFlight downloads slots) (hd : downloads slot = some d)
    (hslot : inFlight d.key = some slot) :
    Claims (update inFlight d.key none)
      (update downloads slot (some { d with cancelled := true })) slots := by
  refine ⟨h.slot_lt_update hd, ?_, ?_, ?_, ?_⟩
  · exact fun key m hm => h.held_cleared hd hm
  · intro m e hu hun hcan
    rcases update_eq_some hu with ⟨rfl, rfl⟩ | ⟨hne, he⟩
    · simp at hcan
    · have hkey : e.key ≠ d.key := by
        intro hkey
        have hm := h.holds m e he hun hcan
        rw [hkey, hslot] at hm
        exact hne (Option.some.inj hm).symm
      rw [update_of_ne hkey]
      exact h.holds m e he hun hcan
  · exact h.unique_held hd rfl id
  · intro m e ok m' hu hphase
    rcases update_eq_some hu with ⟨rfl, rfl⟩ | ⟨_, he⟩
    · exact h.rings m d ok m' hd hphase
    · exact h.rings m e ok m' he hphase

end Claims

/-! ### Doorbells and waiting reads -/

/-- A bell rings for claims that were given back or taken away. -/
structure Bells (downloads : ℕ → Option Download) (invalidations : ℕ → Option Invalidation)
    (resolved : ℕ → Bool) : Prop where
  taken : ∀ n v slot, invalidations n = some v → .ring (some slot) ∈ v.ops →
    ∃ d, downloads slot = some d ∧ d.cancelled = true
  rung : ∀ slot, resolved slot = true →
    ∃ d, downloads slot = some d ∧ (d.phase.unreleased = false ∨ d.cancelled = true)

/-- What a waiting read can count on. -/
structure Waits (reads : ℕ → Option Read) (downloads : ℕ → Option Download)
    (blocks : BlockKey → Option Block) : Prop where
  waits : ∀ n r slot, reads n = some r → r.phase.waitsOn = some slot →
    ∃ d, downloads slot = some d ∧ d.key = r.key ∧
      (d.cancelled = false → d.phase.landed = true → blocks r.key ≠ none)
  landed : ∀ slot d, downloads slot = some d → d.phase.unreleased = true → d.cancelled = false →
    d.phase.landed = true → blocks d.key ≠ none
  woken : ∀ n r slot, reads n = some r → r.phase = .woken slot false →
    ∃ d, downloads slot = some d ∧ (d.phase.unreleased = false ∨ d.cancelled = true)
  told : ∀ n r slot timedOut, reads n = some r → r.phase = .refused slot timedOut →
    timedOut = true ∨ ∃ d, downloads slot = some d ∧
      (d.phase.hasFailed = true ∨ d.cancelled = true)

/-- A download goes on and takes nothing back: a claim given back or taken away
stays so, and a failure stays one. -/
structure Download.Advances (d d' : Download) : Prop where
  key : d'.key = d.key
  cancelled : d.cancelled = true → d'.cancelled = true
  released : d.phase.unreleased = false → d'.phase.unreleased = false
  failed : d.phase.hasFailed = true → d'.phase.hasFailed = true

section Waits

variable {reads : ℕ → Option Read} {downloads : ℕ → Option Download}
  {blocks : BlockKey → Option Block} {invalidations : ℕ → Option Invalidation}
  {resolved : ℕ → Bool} {slot n : ℕ} {d d' : Download} {r : Read}

theorem Bells.move (h : Bells downloads invalidations resolved) (hd : downloads slot = some d)
    (hadv : d.Advances d') : Bells (update downloads slot (some d')) invalidations resolved where
  taken n v m hv hmem :=
    exists_update hd (h.taken n v m hv hmem) (fun _ he => he) hadv.cancelled
  rung m hm := exists_update hd (h.rung m hm) (fun _ he => he)
    (Or.imp hadv.released hadv.cancelled)

/-- A download goes on; one that lands has its block in the cache. -/
theorem Waits.move (h : Waits reads downloads blocks) (hd : downloads slot = some d)
    (hadv : d.Advances d')
    (hlanded : d'.cancelled = false → d'.phase.landed = true →
      blocks d.key ≠ none ∨ d.phase.landed = true ∧ d.cancelled = false ∧
        (d'.phase.unreleased = true → d.phase.unreleased = true)) :
    Waits reads (update downloads slot (some d')) blocks := by
  refine ⟨?_, ?_, ?_, ?_⟩
  · intro n r m hr hwaits
    refine exists_update hd (h.waits n r m hr hwaits) (fun _ he => he) ?_
    rintro ⟨hkey, hblock⟩
    refine ⟨hadv.key.trans hkey, fun hcan hland => ?_⟩
    rcases hlanded hcan hland with hblock' | ⟨hwas, hcan', _⟩
    · rw [← hkey]
      exact hblock'
    · exact hblock hcan' hwas
  · intro m e hu hun hcan hland
    rcases update_eq_some hu with ⟨rfl, rfl⟩ | ⟨_, he⟩
    · rw [hadv.key]
      rcases hlanded hcan hland with hblock | ⟨hwas, hcan', hun'⟩
      · exact hblock
      · exact h.landed m d hd (hun' hun) hcan' hwas
    · exact h.landed m e he hun hcan hland
  · intro n r m hr hphase
    exact exists_update hd (h.woken n r m hr hphase) (fun _ he => he)
      (Or.imp hadv.released hadv.cancelled)
  · intro n r m timedOut hr hphase
    rcases h.told n r m timedOut hr hphase with htime | htold
    · exact Or.inl htime
    · exact Or.inr (exists_update hd htold (fun _ he => he)
        (Or.imp hadv.failed hadv.cancelled))

theorem Bells.start (h : Bells downloads invalidations resolved) (hnew : downloads slot = none) :
    Bells (update downloads slot (some d)) invalidations resolved where
  taken n v m hv hmem := exists_update_new hnew (h.taken n v m hv hmem)
  rung m hm := exists_update_new hnew (h.rung m hm)

theorem Waits.start (h : Waits reads downloads blocks) (hnew : downloads slot = none)
    (hlanded : d.phase.landed = false) :
    Waits reads (update downloads slot (some d)) blocks where
  waits n r m hr hwaits := exists_update_new hnew (h.waits n r m hr hwaits)
  landed m e hu hun hcan hland := by
    rcases update_eq_some hu with ⟨rfl, rfl⟩ | ⟨_, he⟩
    · rw [hlanded] at hland
      simp at hland
    · exact h.landed m e he hun hcan hland
  woken n r m hr hphase := exists_update_new hnew (h.woken n r m hr hphase)
  told n r m timedOut hr hphase :=
    (h.told n r m timedOut hr hphase).imp_right (exists_update_new hnew)

/-- A bell is rung for a claim that is gone. -/
theorem Bells.ring (h : Bells downloads invalidations resolved)
    (hgone : ∃ d, downloads slot = some d ∧ (d.phase.unreleased = false ∨ d.cancelled = true)) :
    Bells downloads invalidations (update resolved slot true) where
  taken := h.taken
  rung m hm := by
    rcases eq_or_ne m slot with rfl | hne
    · exact hgone
    · rw [update_of_ne hne] at hm
      exact h.rung m hm

/-- An invalidation goes on. -/
theorem Bells.advance (h : Bells downloads invalidations resolved) {v : Invalidation}
    (hops : ∀ slot, .ring (some slot) ∈ v.ops → ∃ d, downloads slot = some d ∧
      d.cancelled = true) :
    Bells downloads (update invalidations n (some v)) resolved where
  taken m w slot hw hmem := by
    rcases update_eq_some hw with ⟨_, rfl⟩ | ⟨_, hw⟩
    · exact hops slot hmem
    · exact h.taken m w slot hw hmem
  rung := h.rung

/-- A read goes on to another phase. -/
theorem Waits.moveRead (h : Waits reads downloads blocks) {r' : Read}
    (hwaits : ∀ slot, r'.phase.waitsOn = some slot →
      ∃ d, downloads slot = some d ∧ d.key = r'.key ∧
        (d.cancelled = false → d.phase.landed = true → blocks r'.key ≠ none))
    (hwoken : ∀ slot, r'.phase = .woken slot false →
      ∃ d, downloads slot = some d ∧ (d.phase.unreleased = false ∨ d.cancelled = true))
    (htold : ∀ slot timedOut, r'.phase = .refused slot timedOut →
      timedOut = true ∨ ∃ d, downloads slot = some d ∧
        (d.phase.hasFailed = true ∨ d.cancelled = true)) :
    Waits (update reads n (some r')) downloads blocks := by
  refine ⟨?_, h.landed, ?_, ?_⟩
  · intro m q slot hq hphase
    rcases update_eq_some hq with ⟨_, rfl⟩ | ⟨_, hq⟩
    · exact hwaits slot hphase
    · exact h.waits m q slot hq hphase
  · intro m q slot hq hphase
    rcases update_eq_some hq with ⟨_, rfl⟩ | ⟨_, hq⟩
    · exact hwoken slot hphase
    · exact h.woken m q slot hq hphase
  · intro m q slot timedOut hq hphase
    rcases update_eq_some hq with ⟨_, rfl⟩ | ⟨_, hq⟩
    · exact htold slot timedOut hphase
    · exact h.told m q slot timedOut hq hphase

/-- A block appears. -/
theorem Waits.put (h : Waits reads downloads blocks) (key : BlockKey) (block : Block) :
    Waits reads downloads (update blocks key (some block)) := by
  have hmore : ∀ k, blocks k ≠ none → update blocks key (some block) k ≠ none := by
    intro k hk
    rcases eq_or_ne k key with rfl | hne
    · simp
    · rwa [update_of_ne hne]
  refine ⟨?_, ?_, h.woken, h.told⟩
  · intro n r slot hr hwaits
    obtain ⟨d, hd, hkey, hblock⟩ := h.waits n r slot hr hwaits
    exact ⟨d, hd, hkey, fun hcan hland => hmore _ (hblock hcan hland)⟩
  · intro slot d hd hun hcan hland
    exact hmore _ (h.landed slot d hd hun hcan hland)

/-- A block everyone has looked for goes. -/
theorem Waits.evict (h : Waits reads downloads blocks) {key : BlockKey}
    (hlooked : ∀ slot d, downloads slot = some d → d.key = key → d.cancelled = false →
      d.phase.landed = true →
        d.phase.unreleased = false ∧ ∀ n r, reads n = some r → r.phase.waitsOn ≠ some slot) :
    Waits reads downloads (update blocks key none) := by
  refine ⟨?_, ?_, h.woken, h.told⟩
  · intro n r slot hr hwaits
    obtain ⟨d, hd, hkey, hblock⟩ := h.waits n r slot hr hwaits
    refine ⟨d, hd, hkey, fun hcan hland => ?_⟩
    rcases eq_or_ne r.key key with heq | hne
    · exact absurd hwaits ((hlooked slot d hd (hkey.trans heq) hcan hland).2 n r hr)
    · rw [update_of_ne hne]
      exact hblock hcan hland
  · intro slot d hd hun hcan hland
    rcases eq_or_ne d.key key with heq | hne
    · rw [(hlooked slot d hd heq hcan hland).1] at hun
      simp at hun
    · rw [update_of_ne hne]
      exact h.landed slot d hd hun hcan hland

/-- A read that waits on nothing. -/
theorem Waits.moveOn (h : Waits reads downloads blocks) {r' : Read}
    (hwaits : r'.phase.waitsOn = none)
    (htold : ∀ slot timedOut, r'.phase ≠ .refused slot timedOut) :
    Waits (update reads n (some r')) downloads blocks := by
  refine h.moveRead ?_ ?_ ?_
  · intro slot hslot
    rw [hwaits] at hslot
    simp at hslot
  · intro slot hphase
    rw [hphase] at hwaits
    simp [ReadPhase.waitsOn] at hwaits
  · intro slot timedOut hphase
    exact absurd hphase (htold slot timedOut)

end Waits

/-! ### Orderly runs -/

/-- The invariant of an orderly run. -/
structure Owned (s : System) : Prop where
  claims : Claims s.cache.inFlight s.downloads s.cache.slots
  bells : Bells s.downloads s.invalidations s.cache.resolved
  waits : Waits s.reads s.downloads s.cache.blocks

theorem owned_initial : Owned .initial where
  claims := by constructor <;> simp [System.initial, ReadCache.new]
  bells := by constructor <;> simp [System.initial, ReadCache.new]
  waits := by constructor <;> simp [System.initial, ReadCache.new]

section Steps

variable {s t : System} {e : Event}

theorem Owned.oneDownload (h : Owned s) : OneDownload s := by
  intro slot slot' d d' hd hd' hkey hphase hphase'
  exact h.claims.unique slot slot' d d' hd hd' hkey (by rw [hphase]; rfl) (by rw [hphase']; rfl)

theorem Owned.toldTruly (h : Owned s) : ToldTruly s := h.waits.told

/-- The state once a free, idle block is claimed. -/
theorem Owned.startDownload (h : Owned s) {key : BlockKey} (hclaim : s.cache.inFlight key = none)
    (hidle : Idle s key) : Owned (s.startDownload key) := by
  have hnew : s.downloads s.cache.slots = none := by
    cases hd : s.downloads s.cache.slots with
    | none => rfl
    | some d => exact absurd (h.claims.slot_lt _ d hd) (Nat.lt_irrefl _)
  have hstate : s.startDownload key =
      { s with
        cache := { s.cache with
          inFlight := update s.cache.inFlight key (some s.cache.slots)
          slots := s.cache.slots + 1 }
        downloads := update s.downloads s.cache.slots (some {
          key := key, phase := .claimed, block := { data := [], began := 0 },
          cancelled := false }) } := by
    simp [System.startDownload, System.setDownload, ReadCache.claimInflight, hclaim]
  rw [hstate]
  exact ⟨h.claims.start hidle rfl rfl rfl, h.bells.start hnew, h.waits.start hnew rfl⟩

/-- A download goes on with its claim in hand. -/
theorem Owned.moveDownload (h : Owned s) {slot : ℕ} {d d' : Download}
    (hd : s.downloads slot = some d) (hheld : d.phase.unreleased = true)
    (hkey : d'.key = d.key) (hcancelled : d'.cancelled = d.cancelled)
    (hheld' : d'.phase.unreleased = true) (hfailed : d.phase.hasFailed = false)
    (hlanded : d'.phase.landed = true → d.phase.landed = true) :
    Owned (s.setDownload slot d') := by
  have hadv : d.Advances d' :=
    ⟨hkey, fun h => hcancelled.trans h, by simp [hheld], by simp [hfailed]⟩
  refine ⟨h.claims.move hd hheld hkey hcancelled hheld', h.bells.move hd hadv,
    h.waits.move hd hadv fun hcan hland => Or.inr ⟨hlanded hland, ?_, fun _ => hheld⟩⟩
  rw [← hcancelled]
  exact hcan

/-- What a read that finds its block claimed can count on. -/
theorem Owned.waits_of_claim (h : Owned s) {key : BlockKey} {slot : ℕ}
    (hclaim : s.cache.inFlight key = some slot) :
    ∃ d, s.downloads slot = some d ∧ d.key = key ∧
      (d.cancelled = false → d.phase.landed = true → s.cache.blocks key ≠ none) := by
  obtain ⟨d, hd, hkey, hun, _⟩ := h.claims.held key slot hclaim
  refine ⟨d, hd, hkey, fun hcan hland => ?_⟩
  rw [← hkey]
  exact h.waits.landed slot d hd hun hcan hland

/-- A download gives its claim back. -/
theorem Owned.release (h : Owned s) {slot : ℕ} {d : Download} (hd : s.downloads slot = some d)
    {ok : Bool} (hheld : d.phase.unreleased = true)
    (hlanded : ok = true → d.phase.landed = true)
    (hfailed : d.phase.hasFailed = true → ok = false) :
    Owned ({ s with cache := (s.cache.unclaim d.key).2 }.setDownload slot
      { d with phase := .ringing ok (s.cache.unclaim d.key).1 }) := by
  have hadv : d.Advances { d with phase := .ringing ok (s.cache.unclaim d.key).1 } := by
    refine ⟨rfl, id, fun _ => rfl, fun h => ?_⟩
    rw [hfailed h]
    rfl
  refine ⟨h.claims.release hd hheld ok, h.bells.move hd hadv, h.waits.move hd hadv ?_⟩
  intro hcan hland
  refine Or.inr ⟨hlanded ?_, hcan, fun _ => hheld⟩
  cases ok with
  | true => rfl
  | false => simp [Phase.landed] at hland

/-- A download's block reaches the table. -/
theorem Owned.put (h : Owned s) {slot : ℕ} {d : Download} (hd : s.downloads slot = some d)
    (hphase : d.phase = .fetched) :
    Owned ({ s with cache := s.cache.put d.key d.block }.setDownload slot
      { d with phase := .put }) := by
  have hadv : d.Advances { d with phase := .put } :=
    ⟨rfl, id, by simp [hphase, Phase.unreleased], by simp [hphase, Phase.hasFailed]⟩
  refine ⟨h.claims.move hd (by rw [hphase]; rfl) rfl rfl rfl, h.bells.move hd hadv,
    (h.waits.put d.key d.block).move hd hadv fun _ _ => Or.inl ?_⟩
  simp

/-- A download rings for whoever waits on the claim it gave back. -/
theorem Owned.ring (h : Owned s) {slot : ℕ} {d : Download} {ok : Bool} {taken : Option ℕ}
    (hd : s.downloads slot = some d) (hphase : d.phase = .ringing ok taken) :
    Owned ({ s with cache := s.cache.ring taken }.setDownload slot
      { d with phase := .done ok }) := by
  have hadv : d.Advances { d with phase := .done ok } := by
    refine ⟨rfl, id, fun _ => rfl, fun hfailed => ?_⟩
    rw [hphase] at hfailed
    cases ok <;> simp_all [Phase.hasFailed]
  have hwaits := h.waits.move hd hadv fun hcan hland => by
    refine Or.inr ⟨?_, hcan, by simp [Phase.unreleased]⟩
    rw [hphase]
    cases ok <;> simp_all [Phase.landed]
  have hclaims := h.claims.ring hd (by rw [hphase]; rfl) ok
  have hbells := h.bells.move hd hadv
  cases taken with
  | none => exact ⟨hclaims, hbells, hwaits⟩
  | some slot' =>
      obtain rfl := h.claims.rings slot d ok slot' hd hphase
      exact ⟨hclaims, hbells.ring ⟨_, update_self .., Or.inl rfl⟩, hwaits⟩

/-- An invalidation takes a block's claim away, if there is one. -/
theorem Owned.takeClaim (h : Owned s) {n : ℕ} {v : Invalidation} {idx : ℕ}
    {ops : List InvalidateOp} (hv : s.invalidations n = some v)
    (hops : v.ops = .unclaim idx :: ops) :
    Owned (({ s with cache := (s.cache.unclaim (v.ino, idx)).2 }.cancelDownload
      (s.cache.unclaim (v.ino, idx)).1).setInvalidation n
        { v with ops := .ring (s.cache.unclaim (v.ino, idx)).1 :: ops }) := by
  have hold : ∀ slot, .ring (some slot) ∈ ops →
      ∃ d, s.downloads slot = some d ∧ d.cancelled = true := fun slot hmem =>
    h.bells.taken n v slot hv (by rw [hops]; exact List.mem_cons_of_mem _ hmem)
  cases hclaim : s.cache.inFlight (v.ino, idx) with
  | none =>
      have htable : update s.cache.inFlight (v.ino, idx) none = s.cache.inFlight := by
        rw [← hclaim, update_eq_self]
      simp only [ReadCache.unclaim, hclaim, htable, System.cancelDownload]
      exact ⟨h.claims, h.bells.advance (by simpa using hold), h.waits⟩
  | some slot =>
      obtain ⟨d, hd, hkey, hun, _⟩ := h.claims.held _ _ hclaim
      have hadv : d.Advances { d with cancelled := true } := ⟨rfl, fun _ => rfl, id, id⟩
      simp only [ReadCache.unclaim, hclaim, System.cancelDownload, hd]
      rw [← hkey] at hclaim ⊢
      refine ⟨h.claims.cancel hd hclaim, (h.bells.move hd hadv).advance ?_,
        h.waits.move hd hadv (by simp)⟩
      intro slot' hmem
      rcases List.mem_cons.mp hmem with heq | hmem
      · cases heq
        exact ⟨_, update_self .., rfl⟩
      · exact exists_update hd (hold slot' hmem) (fun _ he => he) fun _ => rfl

/-- An invalidation rings for whoever waits on the claim it took away. -/
theorem Owned.ringTaken (h : Owned s) {n : ℕ} {v : Invalidation} {slot : Option ℕ}
    {ops : List InvalidateOp} (hv : s.invalidations n = some v) (hops : v.ops = .ring slot :: ops) :
    Owned ({ s with cache := s.cache.ring slot }.setInvalidation n { v with ops := ops }) := by
  have hold : ∀ slot, .ring (some slot) ∈ ops →
      ∃ d, s.downloads slot = some d ∧ d.cancelled = true := fun slot hmem =>
    h.bells.taken _ _ slot hv (by rw [hops]; exact List.mem_cons_of_mem _ hmem)
  cases slot with
  | none => exact ⟨h.claims, h.bells.advance hold, h.waits⟩
  | some slot =>
      obtain ⟨d, hd, hcan⟩ := h.bells.taken _ _ slot hv (by rw [hops]; exact List.mem_cons_self)
      exact ⟨h.claims, (h.bells.ring ⟨d, hd, Or.inr hcan⟩).advance hold, h.waits⟩

/-- A claim that is not in the table any more was given back, or taken away. -/
theorem Owned.gone_of_unclaimed (h : Owned s) {key : BlockKey} {slot : ℕ} {d : Download}
    (hclaim : s.cache.inFlight key = none) (hd : s.downloads slot = some d) (hkey : d.key = key) :
    d.phase.unreleased = false ∨ d.cancelled = true := by
  by_contra hneither
  simp only [not_or, Bool.not_eq_false, Bool.not_eq_true] at hneither
  have hheld := h.claims.holds slot d hd hneither.1 hneither.2
  rw [hkey, hclaim] at hheld
  simp at hheld

/-- A read that was woken and finds nothing waited for a download that failed or was cancelled. -/
theorem Owned.failed_of_wokenMiss (h : Owned s) {n slot : ℕ} {r : Read}
    (hr : s.reads n = some r) (hphase : r.phase = .woken slot false)
    (hget : s.cache.blocks r.key = none) : ∃ d, s.downloads slot = some d ∧
      (d.phase.hasFailed = true ∨ d.cancelled = true) := by
  obtain ⟨d, hd, hgone⟩ := h.waits.woken n r slot hr hphase
  obtain ⟨d', hd', _, hblock⟩ := h.waits.waits n r slot hr (by rw [hphase]; rfl)
  obtain rfl : d = d' := Option.some.inj (hd.symm.trans hd')
  refine ⟨d, hd, ?_⟩
  by_cases hcancelled : d.cancelled = true
  · exact Or.inr hcancelled
  · rw [Bool.not_eq_true] at hcancelled
    have hreleased := hgone.resolve_right (by simp [hcancelled])
    -- Given back without having landed, or the block would be there.
    exact Or.inl ((Phase.landed_or_hasFailed hreleased).resolve_left fun hland =>
      hblock hcancelled hland hget)

/-- **An orderly step keeps every claim with its owner.** -/
theorem Owned.step (h : Owned s) (horderly : Orderly s e) (hstep : Step s e t) : Owned t := by
  cases hstep with
  | ask _ | hit _ _ _ | miss _ _ _ | answer _ _ _ _ | answerError _ _ _ _ | timeOut _ _
  | wokenHit _ _ _ =>
      exact ⟨h.claims, h.bells, h.waits.moveOn rfl (by simp)⟩
  | win hr hphase hclaim =>
      have hstarted := h.startDownload hclaim (horderly _ hr hclaim)
      exact ⟨hstarted.claims, hstarted.bells, hstarted.waits.moveOn rfl (by simp)⟩
  | lose hr hphase hclaim | look hr hphase hclaim =>
      refine ⟨h.claims, h.bells, h.waits.moveRead ?_ (by simp) (by simp)⟩
      rintro slot heq
      cases heq
      exact h.waits_of_claim hclaim
  | @lookNone n r slot hr hphase hclaim =>
      have hwaits := h.waits.waits n r slot hr (by rw [hphase]; rfl)
      refine ⟨h.claims, h.bells, h.waits.moveRead ?_ ?_ (by simp)⟩
      · rintro slot' heq
        cases heq
        exact hwaits
      · rintro slot' heq
        cases heq
        obtain ⟨d, hd, hkey, _⟩ := hwaits
        exact ⟨d, hd, h.gone_of_unclaimed hclaim hd hkey⟩
  | @wake n r slot hr hphase hresolved =>
      refine ⟨h.claims, h.bells, h.waits.moveRead ?_ ?_ (by simp)⟩
      · rintro slot' heq
        cases heq
        exact h.waits.waits n r slot hr (by rw [hphase]; rfl)
      · rintro slot' heq
        cases heq
        exact h.bells.rung slot hresolved
  | @wokenMiss n r slot timedOut hr hphase hget =>
      refine ⟨h.claims, h.bells, h.waits.moveRead (by simp [ReadPhase.waitsOn]) (by simp) ?_⟩
      rintro slot' timedOut' heq
      cases heq
      cases timedOut with
      | true => exact Or.inl rfl
      | false => exact Or.inr (h.failed_of_wokenMiss hr hphase hget)
  | prefetch hclaim => exact h.startDownload hclaim horderly
  | begin hd hphase | fetch hd hphase =>
      exact h.moveDownload hd (by rw [hphase]; rfl) rfl rfl rfl (by rw [hphase]; rfl)
        (by simp [Phase.landed])
  | @fail slot d hd hphase =>
      have hheld := Phase.unreleased_of_canFail hphase
      exact h.moveDownload hd hheld.1 rfl rfl rfl hheld.2 (by simp [Phase.landed])
  | put hd hphase => exact h.put hd hphase
  | @list slot d hd hphase =>
      have hlisted : Owned { s with cache := s.cache.list d.key } := ⟨h.claims, h.bells, h.waits⟩
      exact hlisted.moveDownload hd (by rw [hphase]; rfl) rfl rfl rfl (by rw [hphase]; rfl)
        (by simp [hphase, Phase.landed])
  | unclaim hd hphase =>
      exact h.release hd (by rw [hphase]; rfl) (by simp [hphase, Phase.landed])
        (by simp [hphase, Phase.hasFailed])
  | cancel hd hphase =>
      exact h.release hd (by rw [hphase]; rfl) (by simp) (by simp)
  | ring hd hphase => exact h.ring hd hphase
  | evict => exact ⟨h.claims, h.bells, h.waits.evict horderly⟩
  | unlist => exact ⟨h.claims, h.bells, h.waits⟩
  | take hnew htaken =>
      refine ⟨h.claims, h.bells.advance ?_, h.waits⟩
      intro slot hmem
      simp [invalidateOps] at hmem
  | invalidateEvict hv hops =>
      refine ⟨h.claims, h.bells.advance ?_, h.waits.evict (horderly _ _ _ hv hops)⟩
      intro slot hmem
      exact h.bells.taken _ _ slot hv (by rw [hops]; exact List.mem_cons_of_mem _ hmem)
  | invalidateUnclaim hv hops => exact h.takeClaim hv hops
  | invalidateRing hv hops => exact h.ringTaken hv hops
  | invalidateCollect hv hops hclaimed =>
      refine ⟨h.claims, h.bells.advance ?_, h.waits⟩
      intro slot hmem
      have hrest := (List.mem_append.mp hmem).resolve_left (by simp)
      exact h.bells.taken _ _ slot hv (by rw [hops]; exact List.mem_cons_of_mem _ hrest)
  | settle hv hops => exact ⟨h.claims, h.bells, h.waits⟩

/-- What gives a claim back gives back its own. -/
theorem Owned.removedByOwner (h : Owned s) (hstep : Step s e t) : RemovedByOwner s e t := by
  intro key slot hslot hgone
  -- A claim table with one entry cleared has lost that entry at most.
  have hcleared : ∀ k, update s.cache.inFlight k none key ≠ some slot → k = key := by
    intro k hk
    by_contra hne
    rw [update_of_ne (Ne.symm hne)] at hk
    exact hk hslot
  have hstarted : ∀ k, s.cache.inFlight k = none →
      (s.startDownload k).cache.inFlight key = some slot := by
    intro k hk
    have hne : key ≠ k := by
      rintro rfl
      rw [hk] at hslot
      simp at hslot
    simp [System.startDownload, System.setDownload, ReadCache.claimInflight, hk, hne, hslot]
  cases hstep with
  | win _ _ hclaim | prefetch hclaim => exact absurd (hstarted _ hclaim) hgone
  | unclaim hd hphase | cancel hd hphase =>
      left
      obtain rfl := hcleared _ hgone
      rw [h.claims.owner hd (by rw [hphase]; rfl) hslot]
  | @ring _ _ _ taken _ _ =>
      obtain ⟨resolved, hring⟩ := s.cache.ring_eq taken
      rw [hring] at hgone
      exact absurd hslot hgone
  | @invalidateUnclaim n v idx ops hv hops =>
      right
      obtain ⟨downloads, heq⟩ := System.cancelDownload_eq
        { s with cache := (s.cache.unclaim (v.ino, idx)).2 } (s.cache.unclaim (v.ino, idx)).1
      rw [heq] at hgone
      obtain rfl := hcleared _ hgone
      exact ⟨n, v, rfl, hv, rfl⟩
  | @invalidateRing _ _ slot' _ _ _ =>
      obtain ⟨resolved, hring⟩ := s.cache.ring_eq slot'
      rw [hring] at hgone
      exact absurd hslot hgone
  | _ => exact absurd hslot hgone

/-- **An orderly run keeps every claim with its owner**: one download of a block
at a time, no claim removed but by its own download or by an invalidation, and
"no block" said only for a claim that failed, was taken away, or took too long. -/
theorem orderly_claims (h : Reaches Step Orderly .initial s) :
    OneDownload s ∧ ToldTruly s ∧ ∀ e t, Step s e t → RemovedByOwner s e t := by
  have howned : Owned s :=
    h.invariant owned_initial fun hs horderly hstep => hs.step horderly hstep
  exact ⟨howned.oneDownload, howned.toldTruly, fun _ _ hstep => howned.removedByOwner hstep⟩

end Steps

/-! ### Runs of either kind -/

/-- A block downloaded under its claim, a second reader waiting for it. -/
theorem waited_read_orderly :
    ∃ s r block, (OneDownload s ∧ ToldTruly s ∧ ∀ e t, Step s e t → RemovedByOwner s e t) ∧
      s.reads 1 = some r ∧ r.phase = .returned block := by
  have h := (Reaches.start : Reaches Step Orderly .initial .initial)
  have h := h.next (by trivial) (@Step.ask _ 0 (7, 0) rfl)
  have h := h.next (by trivial) (@Step.ask _ 1 (7, 0) rfl)
  have h := h.next (by trivial) (@Step.miss _ 0 _ rfl rfl rfl)
  have h := h.next (by trivial) (@Step.miss _ 1 _ rfl rfl rfl)
  have h := h.next (by rintro r hr _ slot d hd; cases hd) (@Step.win _ 0 _ rfl rfl rfl)
  have h := h.next (by rintro r hr hclaim; cases hr; cases hclaim)
    (@Step.lose _ 1 _ _ rfl rfl rfl)
  have h := h.next (by trivial) (@Step.look _ 1 _ _ _ rfl rfl rfl)
  have h := h.next (by trivial) (@Step.begin _ 0 _ rfl rfl)
  have h := h.next (by trivial) (@Step.fetch _ 0 _ [42] rfl rfl)
  have h := h.next (by trivial) (@Step.put _ 0 _ rfl rfl)
  have h := h.next (by trivial) (@Step.list _ 0 _ rfl rfl)
  have h := h.next (by trivial) (@Step.unclaim _ 0 _ rfl rfl)
  have h := h.next (by trivial) (@Step.ring _ 0 _ true _ rfl rfl)
  have h := h.next (by trivial) (@Step.wake _ 1 _ _ rfl rfl rfl)
  have h := h.next (by trivial) (@Step.wokenHit _ 1 _ _ _ _ rfl rfl rfl)
  exact ⟨_, _, _, orderly_claims h, rfl, rfl⟩

/-- Three things go wrong otherwise. An invalidation frees the claim of a
download under way, and the next reader starts a second one. When the first is
given up, its guard gives back the claim of the second. And a block evicted
between its landing and a waiter's lookup has the waiter told "no block" of a
download that succeeded. -/
theorem freed_claim_disowned :
    (∃ s, Reaches Step unrestricted .initial s ∧ ¬ OneDownload s) ∧
      (∃ s e t, Reaches Step unrestricted .initial s ∧ Step s e t ∧ ¬ RemovedByOwner s e t) ∧
        ∃ s, Reaches Step unrestricted .initial s ∧ ¬ ToldTruly s := by
  -- Two readers miss one block, and the first of them claims it.
  have h := (Reaches.start : Reaches Step unrestricted .initial .initial)
  have h := h.next (by trivial) (@Step.ask _ 0 (7, 0) rfl)
  have h := h.next (by trivial) (@Step.ask _ 1 (7, 0) rfl)
  have h := h.next (by trivial) (@Step.miss _ 0 _ rfl rfl rfl)
  have h := h.next (by trivial) (@Step.miss _ 1 _ rfl rfl rfl)
  have hmissed := h.next (by trivial) (@Step.win _ 0 _ rfl rfl rfl)
  rw [← and_assoc]
  constructor
  · have h := hmissed.next (by trivial) (@Step.begin _ 0 _ rfl rfl)
    have h := h.next (by trivial) (@Step.take _ 0 7 [] rfl fun idx => Iff.rfl)
    have h := h.next (by trivial) (@Step.invalidateCollect _ 0 _ _ [0] rfl rfl fun idx => by
      change idx ∈ [0] ↔ (update (fun _ => none) (7, 0) (some 0) (7, idx) : Option ℕ).isSome
      rcases eq_or_ne idx 0 with rfl | hne
      · simp
      · simp [hne])
    have h := h.next (by trivial) (@Step.invalidateUnclaim _ 0 _ 0 _ rfl rfl)
    have h := h.next (by trivial) (@Step.win _ 1 _ rfl rfl rfl)
    have h := h.next (by trivial) (@Step.begin _ 1 _ rfl rfl)
    refine ⟨⟨_, h, fun hone => ?_⟩, ?_⟩
    · exact absurd (hone 0 1 _ _ rfl rfl rfl rfl rfl) (by decide)
    · have h := h.next (by trivial) (@Step.fail _ 0 _ rfl rfl)
      refine ⟨_, _, _, h, @Step.cancel _ 0 _ rfl rfl, fun howner => ?_⟩
      rcases howner (7, 0) 1 rfl (by simp [System.setDownload, ReadCache.unclaim]) with
        heq | ⟨_, _, heq, _⟩
      · simp at heq
      · simp at heq
  · have h := hmissed.next (by trivial) (@Step.lose _ 1 _ _ rfl rfl rfl)
    have h := h.next (by trivial) (@Step.look _ 1 _ _ _ rfl rfl rfl)
    have h := h.next (by trivial) (@Step.begin _ 0 _ rfl rfl)
    have h := h.next (by trivial) (@Step.fetch _ 0 _ [42] rfl rfl)
    have h := h.next (by trivial) (@Step.put _ 0 _ rfl rfl)
    have h := h.next (by trivial) (@Step.list _ 0 _ rfl rfl)
    have h := h.next (by trivial) (@Step.unclaim _ 0 _ rfl rfl)
    have h := h.next (by trivial) (@Step.ring _ 0 _ true _ rfl rfl)
    have h := h.next (by trivial) (@Step.evict _ (7, 0))
    have h := h.next (by trivial) (@Step.wake _ 1 _ _ rfl rfl rfl)
    have h := h.next (by trivial) (@Step.wokenMiss _ 1 _ _ _ rfl rfl rfl)
    refine ⟨_, h, fun htold => ?_⟩
    rcases htold 1 _ 0 false rfl rfl with htime | ⟨d, hd, hfate⟩
    · simp at htime
    · cases hd
      rcases hfate with hfailed | hcancelled
      · simp [Phase.hasFailed] at hfailed
      · simp at hcancelled

end SynologyFilestation.Fuse
