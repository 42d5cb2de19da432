import SynologyFilestation.Library.Transition
import SynologyFilestation.Library.Table
import Mathlib.Data.List.Basic
import Mathlib.Order.Lattice

/-!
Listings of a directory (`Lister` and the handles in `fuse/src/fs/dirs.rs`,
`DirCache` in `fuse/src/cache.rs`): a reader takes the cached listing, or boards
the flight that fetches one; the first aboard fetches, the others wait for it. A
change of ours drops the cached listing.

One directory is modelled. Changes of it through this mount are numbered as they
reach the NAS, and `settled` is the highest number whose change has dropped the
listing. A listing carries the number of changes made when its fetch began, a
reader the `settled` of when it was asked, and a pass over the directory that of
its first reader; no step depends on them.
-/

namespace SynologyFilestation.Fuse

open Function Library

/-- A listing: the changes made before its fetch began. -/
structure DirListing where
  began : ℕ

/-- A flight's `OnceCell`. -/
structure Flight where
  value : Option DirListing
  /-- Someone aboard is fetching. -/
  busy : Bool

inductive ReaderPhase
  | asked
  | missed
  | aboard (flight : ℕ)
  | fetching (flight : ℕ) (began : ℕ)
  /-- The listing is in the cache, and not yet in the cell. -/
  | landed (flight : ℕ) (listing : DirListing)
  /-- Done with the flight: what it brought, if it brought anything. -/
  | leaving (flight : ℕ) (listing : Option DirListing)
  | got (listing : DirListing)
  | answered (listing : DirListing)
  | errored

structure DirReader where
  since : ℕ
  /-- The directory handle of a `readdir`; a lookup has none. -/
  handle : Option ℕ
  phase : ReaderPhase

/-- The flight a reader has a hold on. -/
def ReaderPhase.flight : ReaderPhase → Option ℕ
  | .aboard f | .fetching f _ | .landed f _ | .leaving f _ => some f
  | .asked | .missed | .got _ | .answered _ | .errored => none

structure DirSystem where
  /-- Whether listings are cached at all. -/
  enabled : Bool
  cached : Option DirListing
  /-- The directory's entry in the table of flights. -/
  flying : Option ℕ
  flights : ℕ → Flight
  /-- Flights made so far. -/
  made : ℕ
  readers : ℕ → Option DirReader
  /-- Open handles, each with the listing its pass is reading and the `since` of
  the pass. -/
  handles : ℕ → Option (Option (DirListing × ℕ))
  changes : ℕ
  settled : ℕ
  /-- Changes that have yet to drop the listing, by their numbers. -/
  pending : ℕ → Option ℕ

namespace DirSystem

def initial (enabled : Bool) : DirSystem :=
  { enabled := enabled, cached := none, flying := none, flights := fun _ => ⟨none, false⟩,
    made := 0, readers := fun _ => none, handles := fun _ => none, changes := 0, settled := 0,
    pending := fun _ => none }

def setReader (s : DirSystem) (n : ℕ) (r : DirReader) : DirSystem :=
  { s with readers := update s.readers n (some r) }

def setFlight (s : DirSystem) (f : ℕ) (flight : Flight) : DirSystem :=
  { s with flights := update s.flights f flight }

def setHandle (s : DirSystem) (fh : ℕ) (kept : Option (Option (DirListing × ℕ))) : DirSystem :=
  { s with handles := update s.handles fh kept }

/-- Nobody but `n` has a hold on the flight. -/
def OnlyHold (s : DirSystem) (n f : ℕ) : Prop :=
  ∀ m r, m ≠ n → s.readers m = some r → r.phase.flight ≠ some f

end DirSystem

inductive DirEvent
  | opendir (fh : ℕ)
  | releasedir (fh : ℕ)
  | ask (n : ℕ)
  | goOn (n : ℕ)
  | get (n : ℕ)
  | board (n : ℕ)
  | found (n : ℕ)
  | fetch (n : ℕ)
  | land (n : ℕ)
  | fill (n : ℕ)
  | fail (n : ℕ)
  | leave (n : ℕ)
  | answer (n : ℕ)
  | change (m : ℕ)
  | invalidate (m : ℕ)
  | expire

/-- The steps of readers, and of changes to the directory. -/
inductive DirStep (s : DirSystem) : DirEvent → DirSystem → Prop
  | opendir {fh} (hnew : s.handles fh = none) :
      DirStep s (.opendir fh) (s.setHandle fh (some none))
  | releasedir {fh} : DirStep s (.releasedir fh) (s.setHandle fh none)
  /-- A lookup, or a `readdir` that begins a pass. -/
  | ask {n handle} (hnew : s.readers n = none) :
      DirStep s (.ask n)
        (s.setReader n { since := s.settled, handle := handle, phase := .asked })
  /-- A `readdir` that goes on with its pass. -/
  | goOn {n fh listing since} (hnew : s.readers n = none)
      (hkept : s.handles fh = some (some (listing, since))) :
      DirStep s (.goOn n)
        (s.setReader n { since := since, handle := some fh, phase := .answered listing })
  | hit {n r listing} (hr : s.readers n = some r) (hphase : r.phase = .asked)
      (henabled : s.enabled = true) (hcached : s.cached = some listing) :
      DirStep s (.get n) (s.setReader n { r with phase := .got listing })
  | miss {n r} (hr : s.readers n = some r) (hphase : r.phase = .asked)
      (hcached : s.enabled = true → s.cached = none) :
      DirStep s (.get n) (s.setReader n { r with phase := .missed })
  | board {n r f} (hr : s.readers n = some r) (hphase : r.phase = .missed)
      (hflying : s.flying = some f) :
      DirStep s (.board n) (s.setReader n { r with phase := .aboard f })
  | start {n r} (hr : s.readers n = some r) (hphase : r.phase = .missed)
      (hflying : s.flying = none) :
      DirStep s (.board n)
        (({ s with flying := some s.made, made := s.made + 1 }.setFlight s.made
          ⟨none, false⟩).setReader n { r with phase := .aboard s.made })
  /-- The cell is filled. -/
  | found {n r f listing} (hr : s.readers n = some r) (hphase : r.phase = .aboard f)
      (hvalue : (s.flights f).value = some listing) :
      DirStep s (.found n) (s.setReader n { r with phase := .leaving f (some listing) })
  /-- It is not, and nobody is fetching. -/
  | fetch {n r f} (hr : s.readers n = some r) (hphase : r.phase = .aboard f)
      (hvalue : (s.flights f).value = none) (hidle : (s.flights f).busy = false) :
      DirStep s (.fetch n)
        ((s.setFlight f ⟨none, true⟩).setReader n { r with phase := .fetching f s.changes })
  /-- The NAS has answered, and the listing goes to the cache. -/
  | land {n r f began} (hr : s.readers n = some r) (hphase : r.phase = .fetching f began) :
      DirStep s (.land n)
        ({ s with cached := if s.enabled then some ⟨began⟩ else s.cached }.setReader n
          { r with phase := .landed f ⟨began⟩ })
  | fill {n r f listing} (hr : s.readers n = some r) (hphase : r.phase = .landed f listing) :
      DirStep s (.fill n)
        ((s.setFlight f ⟨some listing, false⟩).setReader n
          { r with phase := .leaving f (some listing) })
  | fail {n r f began} (hr : s.readers n = some r) (hphase : r.phase = .fetching f began) :
      DirStep s (.fail n)
        ((s.setFlight f ⟨none, false⟩).setReader n { r with phase := .leaving f none })
  /-- The flight leaves the table with a reader that has its listing, or with the
  last of those that failed. -/
  | leaveLast {n r f listing} (hr : s.readers n = some r) (hphase : r.phase = .leaving f listing)
      (hours : s.flying = some f) (hlast : listing.isSome ∨ s.OnlyHold n f) :
      DirStep s (.leave n)
        ({ s with flying := none }.setReader n
          { r with phase := listing.elim .errored .got })
  | leave {n r f listing} (hr : s.readers n = some r) (hphase : r.phase = .leaving f listing)
      (hothers : ¬(s.flying = some f ∧ (listing.isSome ∨ s.OnlyHold n f))) :
      DirStep s (.leave n)
        (s.setReader n { r with phase := listing.elim .errored .got })
  /-- A handle that is still open keeps the listing for the rest of its pass. -/
  | keep {n r fh listing kept} (hr : s.readers n = some r) (hphase : r.phase = .got listing)
      (hhandle : r.handle = some fh) (hopen : s.handles fh = some kept) :
      DirStep s (.answer n)
        ((s.setHandle fh (some (some (listing, r.since)))).setReader n
          { r with phase := .answered listing })
  | answer {n r listing} (hr : s.readers n = some r) (hphase : r.phase = .got listing)
      (hclosed : ∀ fh, r.handle = some fh → s.handles fh = none) :
      DirStep s (.answer n) (s.setReader n { r with phase := .answered listing })
  /-- A change of ours reaches the NAS. -/
  | change {m} (hnew : s.pending m = none) :
      DirStep s (.change m)
        { s with changes := s.changes + 1, pending := update s.pending m (some (s.changes + 1)) }
  /-- It drops the listing. -/
  | invalidate {m number} (hpending : s.pending m = some number) :
      DirStep s (.invalidate m) { s with cached := none, settled := max s.settled number }
  /-- The cache drops what it likes: too old, or one too many. -/
  | expire : DirStep s .expire { s with cached := none }

/-! ### Listings after our own change -/

/-- Who reads after a change has dropped the listing is not answered from one
whose fetch began before the change. -/
def ListingsFresh (s : DirSystem) : Prop :=
  ∀ n r listing, s.readers n = some r → r.phase = .answered listing → r.since ≤ listing.began

/-- The listing a reader is fetching, or has in hand to fill the cell with. -/
def ReaderPhase.brings : ReaderPhase → Option DirListing
  | .fetching _ began => some ⟨began⟩
  | .landed _ listing => some listing
  | _ => none

def ReaderPhase.fills (phase : ReaderPhase) : Bool := phase.brings.isSome

/-- When a change drops the listing, no reader is fetching one from before the
change, and no flight in the table has one. -/
def NoneOlder (s : DirSystem) : DirEvent → Prop
  | .invalidate m => ∀ number, s.pending m = some number →
      (∀ n r listing, s.readers n = some r → r.phase.brings = some listing →
        number ≤ listing.began) ∧
      ∀ f listing, s.flying = some f → (s.flights f).value = some listing →
        number ≤ listing.began
  | _ => True

/-- How a reader stands to the flights, in a run that meets the condition. -/
def DirReader.Sound (flying : Option ℕ) (flights : ℕ → Flight) (made settled : ℕ)
    (r : DirReader) : Prop :=
  match r.phase with
  | .asked | .missed | .errored | .leaving _ none => True
  | .aboard f => f < made ∧ (flying = some f ∨ (flights f).value.isSome) ∧
      ∀ listing, (flights f).value = some listing → r.since ≤ listing.began
  | .fetching f began => flying = some f ∧ (flights f).busy = true ∧ settled ≤ began
  | .landed f listing => flying = some f ∧ (flights f).busy = true ∧ settled ≤ listing.began
  | .leaving f (some listing) =>
      f < made ∧ (flights f).value = some listing ∧ r.since ≤ listing.began
  | .got listing | .answered listing => r.since ≤ listing.began

/-- The listings against the changes, in a run that meets the condition. -/
structure Current (s : DirSystem) : Prop where
  settled_le : s.settled ≤ s.changes
  pending_le : ∀ m number, s.pending m = some number → number ≤ s.changes
  cached : ∀ listing, s.cached = some listing → s.settled ≤ listing.began
  flying_lt : ∀ f, s.flying = some f → f < s.made
  filled : ∀ f listing, (s.flights f).value = some listing → (s.flights f).busy = false
  aloft : ∀ f listing, s.flying = some f → (s.flights f).value = some listing →
    s.settled ≤ listing.began
  since_le : ∀ n r, s.readers n = some r → r.since ≤ s.settled
  sound : ∀ n r, s.readers n = some r → r.Sound s.flying s.flights s.made s.settled
  single : ∀ n m r r', s.readers n = some r → s.readers m = some r' → r.phase.fills = true →
    r'.phase.fills = true → n = m
  handles : ∀ fh listing since, s.handles fh = some (some (listing, since)) →
    since ≤ listing.began ∧ since ≤ s.settled

section Steps

variable {s s' : DirSystem} {e : DirEvent} {n f : ℕ} {r : DirReader}

theorem of_setReader {m : ℕ} {r' : DirReader} (h : (s.setReader n r).readers m = some r') :
    m = n ∧ r' = r ∨ m ≠ n ∧ s.readers m = some r' :=
  update_eq_some h

theorem current_initial (enabled : Bool) : Current (.initial enabled) where
  settled_le := le_rfl
  pending_le _ _ h := by cases h
  cached _ h := by cases h
  flying_lt _ h := by cases h
  filled _ _ h := by cases h
  aloft _ _ h := by cases h
  since_le _ _ h := by cases h
  sound _ _ h := by cases h
  single _ _ _ _ h := by cases h
  handles _ _ _ h := by cases h

theorem DirReader.Sound.settled_le {flying : Option ℕ} {flights : ℕ → Flight}
    {made settled : ℕ} {listing : DirListing} (h : r.Sound flying flights made settled)
    (hbrings : r.phase.brings = some listing) : settled ≤ listing.began := by
  unfold DirReader.Sound at h
  cases hphase : r.phase with
  | fetching g began =>
    simp only [hphase, ReaderPhase.brings, Option.some.injEq] at h hbrings
    rw [← hbrings]
    exact h.2.2
  | landed g other =>
    simp only [hphase, ReaderPhase.brings, Option.some.injEq] at h hbrings
    rw [← hbrings]
    exact h.2.2
  | asked | missed | aboard | leaving | got | answered | errored =>
    rw [hphase] at hbrings
    cases hbrings

/-- A flight in the table whose cell was empty: who is not the one that fills it
stays as sound as it was. -/
theorem DirReader.Sound.setFlight {flying : Option ℕ} {flights : ℕ → Flight}
    {made settled : ℕ} {flight : Flight} (h : r.Sound flying flights made settled)
    (hflying : flying = some f) (hempty : (flights f).value = none)
    (hvalue : ∀ listing, flight.value = some listing → r.since ≤ listing.began)
    (hfills : r.phase.fills = false) : r.Sound flying (update flights f flight) made settled := by
  unfold DirReader.Sound at h ⊢
  cases hphase : r.phase with
  | asked => trivial
  | missed => trivial
  | errored => trivial
  | aboard g =>
    simp only [hphase] at h ⊢
    rcases eq_or_ne g f with rfl | hne
    · rw [update_self]
      exact ⟨h.1, Or.inl hflying, hvalue⟩
    · rwa [update_of_ne hne]
  | fetching g began => simp [hphase, ReaderPhase.fills, ReaderPhase.brings] at hfills
  | landed g listing => simp [hphase, ReaderPhase.fills, ReaderPhase.brings] at hfills
  | leaving g listing =>
    cases listing with
    | none => trivial
    | some listing =>
      simp only [hphase] at h ⊢
      rcases eq_or_ne g f with rfl | hne
      · cases hempty.symm.trans h.2.1
      · rwa [update_of_ne hne]
  | got listing => simpa only [hphase] using h
  | answered listing => simpa only [hphase] using h

/-- The flights change, and not the one that a reader has a hold on. -/
theorem DirReader.Sound.mono {flying flying' : Option ℕ} {flights flights' : ℕ → Flight}
    {made made' settled settled' : ℕ} (h : r.Sound flying flights made settled)
    (hmade : made ≤ made') (hkept : ∀ g, g < made ∨ flying = some g → flights' g = flights g)
    (hbrings : ∀ listing, r.phase.brings = some listing →
      flying' = flying ∧ settled' ≤ listing.began)
    (haboard : ∀ g, r.phase = .aboard g → flying = some g →
      flying' = some g ∨ (flights g).value.isSome) : r.Sound flying' flights' made' settled' := by
  unfold DirReader.Sound at h ⊢
  cases hphase : r.phase with
  | asked | missed | errored => trivial
  | aboard g =>
    simp only [hphase] at h ⊢
    rw [hkept g (Or.inl h.1)]
    refine ⟨h.1.trans_le hmade, ?_, h.2.2⟩
    rcases h.2.1 with hflying | hsome
    · exact haboard g hphase hflying
    · exact Or.inr hsome
  | fetching g began =>
    simp only [hphase] at h ⊢
    obtain ⟨hflying, hsettled⟩ := hbrings ⟨began⟩ (by rw [hphase]; rfl)
    exact ⟨hflying.trans h.1, by rw [hkept g (Or.inr h.1)]; exact h.2.1, hsettled⟩
  | landed g listing =>
    simp only [hphase] at h ⊢
    obtain ⟨hflying, hsettled⟩ := hbrings listing (by rw [hphase]; rfl)
    exact ⟨hflying.trans h.1, by rw [hkept g (Or.inr h.1)]; exact h.2.1, hsettled⟩
  | leaving g listing =>
    cases listing with
    | none => trivial
    | some listing =>
      simp only [hphase] at h ⊢
      rw [hkept g (Or.inl h.1)]
      exact ⟨h.1.trans_le hmade, h.2⟩
  | got listing | answered listing => simpa only [hphase] using h

/-- A reader moves on, and its flight with it. -/
theorem Current.setFlight (hs : Current s) {flight : Flight} (hflying : s.flying = some f)
    (hempty : (s.flights f).value = none)
    (hfilled : ∀ listing, flight.value = some listing → flight.busy = false)
    (hvalue : ∀ listing, flight.value = some listing → s.settled ≤ listing.began)
    (hsince : r.since ≤ s.settled)
    (hsound : r.Sound s.flying (update s.flights f flight) s.made s.settled)
    (halone : ∀ m r', m ≠ n → s.readers m = some r' → r'.phase.fills = false) :
    Current ((s.setFlight f flight).setReader n r) :=
  { hs with
    filled := by
      intro g listing hlisting
      change (update s.flights f flight g).value = some listing at hlisting
      change (update s.flights f flight g).busy = false
      rcases eq_or_ne g f with rfl | hne
      · rw [update_self] at hlisting ⊢
        exact hfilled listing hlisting
      · rw [update_of_ne hne] at hlisting ⊢
        exact hs.filled g listing hlisting
    aloft := by
      intro g listing hg hlisting
      change (update s.flights f flight g).value = some listing at hlisting
      rcases Option.some.inj (hflying.symm.trans hg)
      rw [update_self] at hlisting
      exact hvalue listing hlisting
    since_le := by
      intro m r' hr'
      rcases of_setReader hr' with ⟨_, rfl⟩ | ⟨_, hr'⟩
      · exact hsince
      · exact hs.since_le m r' hr'
    sound := by
      intro m r' hr'
      rcases of_setReader hr' with ⟨_, rfl⟩ | ⟨hne, hr'⟩
      · exact hsound
      · exact (hs.sound m r' hr').setFlight hflying hempty
          (fun listing hlisting => (hs.since_le m r' hr').trans (hvalue listing hlisting))
          (halone m r' hne hr')
    single := by
      intro m k r' r'' hr' hr'' hfill hfill'
      rcases of_setReader hr' with ⟨hm, _⟩ | ⟨hne, hr'⟩
      · rcases of_setReader hr'' with ⟨hk, _⟩ | ⟨hne', hr''⟩
        · exact hm.trans hk.symm
        · cases (halone k r'' hne' hr'').symm.trans hfill'
      · cases (halone m r' hne hr').symm.trans hfill }

/-- A reader moves on by itself. -/
theorem Current.setReader (hs : Current s) (hsince : r.since ≤ s.settled)
    (hsound : r.Sound s.flying s.flights s.made s.settled)
    (halone : r.phase.fills = true → ∀ m r', m ≠ n → s.readers m = some r' →
      r'.phase.fills = false) : Current (s.setReader n r) :=
  { hs with
    since_le := by
      intro m r' hr'
      rcases of_setReader hr' with ⟨_, rfl⟩ | ⟨_, hr'⟩
      · exact hsince
      · exact hs.since_le m r' hr'
    sound := by
      intro m r' hr'
      rcases of_setReader hr' with ⟨_, rfl⟩ | ⟨_, hr'⟩
      · exact hsound
      · exact hs.sound m r' hr'
    single := by
      intro m k r' r'' hr' hr'' hfill hfill'
      rcases of_setReader hr' with ⟨hm, hr'⟩ | ⟨hne, hr'⟩
      · rcases of_setReader hr'' with ⟨hk, _⟩ | ⟨hne', hr''⟩
        · exact hm.trans hk.symm
        · cases (halone (hr' ▸ hfill) k r'' hne' hr'').symm.trans hfill'
      · rcases of_setReader hr'' with ⟨_, hr''⟩ | ⟨_, hr''⟩
        · cases (halone (hr'' ▸ hfill') m r' hne hr').symm.trans hfill
        · exact hs.single m k r' r'' hr' hr'' hfill hfill' }

/-- A reader that fills a flight's cell is alone in that. -/
theorem Current.alone (hs : Current s) (hr : s.readers n = some r)
    (hfill : r.phase.fills = true) {m : ℕ} {r' : DirReader} (hne : m ≠ n)
    (hr' : s.readers m = some r') : r'.phase.fills = false := by
  by_contra hcontra
  exact hne (hs.single m n r' r hr' hr (by simpa using hcontra) hfill)

/-- A reader that fills a cell has its flight in the table, and the cell is empty. -/
theorem Current.filling (hs : Current s) (hr : s.readers n = some r)
    (hfill : r.phase.fills = true) :
    ∃ g, r.phase.flight = some g ∧ s.flying = some g ∧ (s.flights g).busy = true ∧
      (s.flights g).value = none := by
  have hsound := hs.sound n r hr
  unfold DirReader.Sound at hsound
  have hempty : ∀ g, (s.flights g).busy = true → (s.flights g).value = none := by
    intro g hbusy
    cases hvalue : (s.flights g).value with
    | none => rfl
    | some listing => cases hbusy.symm.trans (hs.filled g listing hvalue)
  cases hphase : r.phase with
  | fetching g began =>
    rw [hphase] at hsound
    exact ⟨g, rfl, hsound.1, hsound.2.1, hempty g hsound.2.1⟩
  | landed g listing =>
    rw [hphase] at hsound
    exact ⟨g, rfl, hsound.1, hsound.2.1, hempty g hsound.2.1⟩
  | asked | missed | aboard | leaving | got | answered | errored =>
    rw [hphase] at hfill
    cases hfill

/-- Nobody fills a cell while the flight in the table is idle. -/
theorem Current.none_fills (hs : Current s)
    (hidle : ∀ g, s.flying = some g → (s.flights g).busy = false)
    (hr : s.readers n = some r) : r.phase.fills = false := by
  by_contra hcontra
  obtain ⟨g, _, hflying, hbusy, _⟩ := hs.filling hr (by simpa using hcontra)
  cases hbusy.symm.trans (hidle g hflying)

/-- A new flight takes the empty place in the table. -/
theorem Current.start (hs : Current s) (hflying : s.flying = none) :
    Current ({ s with flying := some s.made, made := s.made + 1 }.setFlight s.made
      ⟨none, false⟩) :=
  { hs with
    flying_lt := by
      rintro _ ⟨⟩
      exact Nat.lt_succ_self s.made
    filled := by
      intro g listing hlisting
      change (update s.flights s.made ⟨none, false⟩ g).value = some listing at hlisting
      change (update s.flights s.made ⟨none, false⟩ g).busy = false
      rcases eq_or_ne g s.made with rfl | hne
      · rw [update_self]
      · rw [update_of_ne hne] at hlisting ⊢
        exact hs.filled g listing hlisting
    aloft := by
      rintro _ listing ⟨⟩ hlisting
      change (update s.flights s.made ⟨none, false⟩ s.made).value = some listing at hlisting
      rw [update_self] at hlisting
      cases hlisting
    sound := by
      intro m r hr
      refine (hs.sound m r hr).mono (Nat.le_succ _) ?_ ?_ ?_
      · rintro g (hg | hg)
        · exact update_of_ne hg.ne _ _
        · cases hflying.symm.trans hg
      · intro listing hbrings
        obtain ⟨g, _, hg, _⟩ := hs.filling hr (by rw [ReaderPhase.fills, hbrings]; rfl)
        cases hflying.symm.trans hg
      · exact fun g _ hg => by cases hflying.symm.trans hg }

/-- The flight leaves the table: nobody fills its cell, and who is aboard finds it
filled. -/
theorem Current.unlist (hs : Current s) (hours : s.flying = some f)
    (hidle : ∀ m r, s.readers m = some r → r.phase.fills = false)
    (haboard : ∀ m r, s.readers m = some r → r.phase = .aboard f →
      (s.flights f).value.isSome) : Current { s with flying := none } :=
  { hs with
    flying_lt := by nofun
    aloft := by nofun
    sound := by
      intro m r hr
      refine (hs.sound m r hr).mono le_rfl (fun _ _ => rfl) ?_ ?_
      · intro listing hbrings
        have hfills := hidle m r hr
        rw [ReaderPhase.fills, hbrings] at hfills
        cases hfills
      · intro g hphase hg
        rcases Option.some.inj (hours.symm.trans hg)
        exact Or.inr (haboard m r hr hphase) }

/-- A change drops the listing, and no older one is on its way. -/
theorem Current.invalidate (hs : Current s) {m number : ℕ}
    (hpending : s.pending m = some number) (hmeets : NoneOlder s (.invalidate m)) :
    Current { s with cached := none, settled := max s.settled number } := by
  obtain ⟨hbrings, hvalue⟩ := hmeets number hpending
  exact { hs with
    settled_le := max_le hs.settled_le (hs.pending_le m number hpending)
    cached := by nofun
    aloft := fun g listing hflying hlisting =>
      max_le (hs.aloft g listing hflying hlisting) (hvalue g listing hflying hlisting)
    since_le := fun k r hr => (hs.since_le k r hr).trans (le_max_left ..)
    handles := fun fh listing since hkept =>
      ⟨(hs.handles fh listing since hkept).1,
        (hs.handles fh listing since hkept).2.trans (le_max_left ..)⟩
    sound := fun k r hr => (hs.sound k r hr).mono le_rfl (fun _ _ => rfl)
      (fun listing hlisting => ⟨rfl, max_le ((hs.sound k r hr).settled_le hlisting)
        (hbrings k r listing hr hlisting)⟩) fun _ _ hg => Or.inl hg }

theorem Current.drop (hs : Current s) : Current { s with cached := none } :=
  { hs with cached := by nofun }

theorem Current.setHandle (hs : Current s) {fh : ℕ} {kept : Option (Option (DirListing × ℕ))}
    (hkept : ∀ listing since, kept = some (some (listing, since)) →
      since ≤ listing.began ∧ since ≤ s.settled) : Current (s.setHandle fh kept) :=
  { hs with
    handles := by
      intro g listing since h
      change update s.handles fh kept g = some (some (listing, since)) at h
      rcases eq_or_ne g fh with rfl | hne
      · exact hkept listing since (by rwa [update_self] at h)
      · exact hs.handles g listing since (by rwa [update_of_ne hne] at h) }

theorem Current.change (hs : Current s) {m : ℕ} :
    Current { s with
      changes := s.changes + 1, pending := update s.pending m (some (s.changes + 1)) } :=
  { hs with
    settled_le := hs.settled_le.trans (Nat.le_succ _)
    pending_le := by
      intro k number hnumber
      change update s.pending m (some (s.changes + 1)) k = some number at hnumber
      rcases eq_or_ne k m with rfl | hne
      · rw [update_self] at hnumber
        exact (Option.some.inj hnumber).ge
      · rw [update_of_ne hne] at hnumber
        exact (hs.pending_le k number hnumber).trans (Nat.le_succ _) }

/-- A reader is done with its flight. -/
theorem Current.leave (hs : Current s) {listing : Option DirListing} (hr : s.readers n = some r)
    (hphase : r.phase = .leaving f listing) :
    Current (s.setReader n { r with phase := listing.elim .errored .got }) := by
  have hsince := hs.since_le n r hr
  have hsound := hs.sound n r hr
  rw [DirReader.Sound, hphase] at hsound
  cases listing with
  | none => exact hs.setReader hsince trivial (by nofun)
  | some listing => exact hs.setReader hsince hsound.2.2 (by nofun)

/-- It takes the flight out of the table with it. -/
theorem Current.leaveLast (hs : Current s) {listing : Option DirListing}
    (hr : s.readers n = some r) (hphase : r.phase = .leaving f listing)
    (hours : s.flying = some f) (hlast : listing.isSome ∨ s.OnlyHold n f) :
    Current { s with flying := none } := by
  have hsound := hs.sound n r hr
  rw [DirReader.Sound, hphase] at hsound
  cases listing with
  | none =>
    have honly : s.OnlyHold n f := hlast.resolve_left (by simp)
    refine hs.unlist hours ?_ ?_
    · intro m r' hr'
      rcases eq_or_ne m n with rfl | hne
      · rw [Option.some.inj (hr'.symm.trans hr), hphase]
        rfl
      · by_contra hfills
        obtain ⟨g, hflight, hflying, _⟩ := hs.filling hr' (by simpa using hfills)
        rcases Option.some.inj (hours.symm.trans hflying)
        exact honly m r' hne hr' hflight
    · intro m r' hr' haboard
      rcases eq_or_ne m n with rfl | hne
      · rw [Option.some.inj (hr'.symm.trans hr), hphase] at haboard
        cases haboard
      · exact absurd (by rw [haboard]; rfl) (honly m r' hne hr')
  | some listing =>
    refine hs.unlist hours (fun m r' hr' => hs.none_fills ?_ hr') ?_
    · intro g hg
      rcases Option.some.inj (hours.symm.trans hg)
      exact hs.filled f listing hsound.2.1
    · intro m r' _ _
      rw [hsound.2.1]
      rfl

theorem Current.step (hs : Current s) (hmeets : NoneOlder s e) (h : DirStep s e s') :
    Current s' := by
  cases h with
  | opendir hnew => exact hs.setHandle (by nofun)
  | releasedir => exact hs.setHandle (by nofun)
  | ask hnew => exact hs.setReader le_rfl trivial (by nofun)
  | goOn hnew hkept =>
    obtain ⟨hbegan, hsince⟩ := hs.handles _ _ _ hkept
    exact hs.setReader hsince hbegan (by nofun)
  | hit hr hphase henabled hcached =>
    have hsince := hs.since_le _ _ hr
    exact hs.setReader hsince
      (hsince.trans (hs.cached _ hcached)) (by nofun)
  | miss hr hphase hcached =>
    have hsince := hs.since_le _ _ hr
    exact hs.setReader hsince trivial (by nofun)
  | board hr hphase hflying =>
    have hsince := hs.since_le _ _ hr
    refine hs.setReader hsince ?_ (by nofun)
    exact ⟨hs.flying_lt _ hflying, Or.inl hflying,
      fun listing hvalue => hsince.trans (hs.aloft _ listing hflying hvalue)⟩
  | start hr hphase hflying =>
    have hsince := hs.since_le _ _ hr
    refine (hs.start hflying).setReader hsince ?_ (by nofun)
    refine ⟨Nat.lt_succ_self _, Or.inl rfl, fun listing hvalue => ?_⟩
    change (update s.flights s.made ⟨none, false⟩ s.made).value = some listing at hvalue
    rw [update_self] at hvalue
    cases hvalue
  | found hr hphase hvalue =>
    have hsince := hs.since_le _ _ hr
    have hsound := hs.sound _ _ hr
    rw [DirReader.Sound, hphase] at hsound
    exact hs.setReader hsince ⟨hsound.1, hvalue, hsound.2.2 _ hvalue⟩ (by nofun)
  | fetch hr hphase hvalue hidle =>
    have hsince := hs.since_le _ _ hr
    have hsound := hs.sound _ _ hr
    rw [DirReader.Sound, hphase] at hsound
    have hflying := hsound.2.1.resolve_right (by simp [hvalue])
    refine hs.setFlight hflying hvalue (by nofun) (by nofun) hsince ?_ ?_
    · exact ⟨hflying, by rw [update_self], hs.settled_le⟩
    · intro m r' _ hr'
      refine hs.none_fills (fun g hg => ?_) hr'
      rwa [← Option.some.inj (hflying.symm.trans hg)]
  | land hr hphase =>
    have hsince := hs.since_le _ _ hr
    have hsound := hs.sound _ _ hr
    rw [DirReader.Sound, hphase] at hsound
    have hlanded : Current { s with cached := if s.enabled then some ⟨_⟩ else s.cached } :=
      { hs with
        cached := by
          intro listing hcached
          split at hcached
          · cases hcached
            exact hsound.2.2
          · exact hs.cached listing hcached }
    refine hlanded.setReader hsince hsound ?_
    exact fun _ m r' hne hr' => hs.alone hr (by rw [hphase]; rfl) hne hr'
  | fill hr hphase =>
    have hsince := hs.since_le _ _ hr
    have hsound := hs.sound _ _ hr
    rw [DirReader.Sound, hphase] at hsound
    obtain ⟨g, _, hflying, _, hempty⟩ := hs.filling hr (by rw [hphase]; rfl)
    rcases Option.some.inj (hsound.1.symm.trans hflying)
    refine hs.setFlight hflying hempty (by simp) ?_ hsince ?_ ?_
    · rintro _ ⟨⟩
      exact hsound.2.2
    · exact ⟨hs.flying_lt _ hflying, by rw [update_self],
        hsince.trans hsound.2.2⟩
    · exact fun m r' hne hr' => hs.alone hr (by rw [hphase]; rfl) hne hr'
  | fail hr hphase =>
    have hsince := hs.since_le _ _ hr
    have hsound := hs.sound _ _ hr
    rw [DirReader.Sound, hphase] at hsound
    obtain ⟨g, _, hflying, _, hempty⟩ := hs.filling hr (by rw [hphase]; rfl)
    rcases Option.some.inj (hsound.1.symm.trans hflying)
    refine hs.setFlight hflying hempty (by simp) (by nofun) hsince trivial ?_
    exact fun m r' hne hr' => hs.alone hr (by rw [hphase]; rfl) hne hr'
  | leaveLast hr hphase hours hlast => exact (hs.leaveLast hr hphase hours hlast).leave hr hphase
  | leave hr hphase hothers => exact hs.leave hr hphase
  | keep hr hphase hhandle hopen =>
    have hsince := hs.since_le _ _ hr
    have hsound := hs.sound _ _ hr
    rw [DirReader.Sound, hphase] at hsound
    refine (hs.setHandle ?_).setReader hsince hsound (by nofun)
    rintro _ _ ⟨⟩
    exact ⟨hsound, hsince⟩
  | answer hr hphase hclosed =>
    have hsince := hs.since_le _ _ hr
    have hsound := hs.sound _ _ hr
    rw [DirReader.Sound, hphase] at hsound
    exact hs.setReader hsince hsound (by nofun)
  | change hnew => exact hs.change
  | invalidate hpending => exact hs.invalidate hpending hmeets
  | expire => exact hs.drop

end Steps

theorem listings_fresh {enabled : Bool} {s : DirSystem}
    (h : Reaches DirStep NoneOlder (.initial enabled) s) : ListingsFresh s := by
  intro n r listing hr hphase
  have hs : Current s := h.invariant (current_initial enabled) Current.step
  have hsound := hs.sound n r hr
  rw [DirReader.Sound, hphase] at hsound
  exact hsound

/-- A change drops the listing, and a reader fetches it anew for an open handle. -/
theorem changed_then_listed : ∃ s r, ListingsFresh s ∧ s.readers 0 = some r ∧ r.since = 1 ∧
    r.phase = .answered ⟨1⟩ := by
  have h := (Reaches.start : Reaches DirStep NoneOlder (.initial true) (.initial true))
  have h := h.next (by trivial) (@DirStep.opendir _ 0 rfl)
  have h := h.next (by trivial) (@DirStep.change _ 0 rfl)
  have h := h.next (by exact fun _ _ => ⟨by nofun, by nofun⟩) (@DirStep.invalidate _ 0 1 rfl)
  have h := h.next (by trivial) (@DirStep.ask _ 0 (some 0) rfl)
  have h := h.next (by trivial) (@DirStep.miss _ 0 _ rfl rfl fun _ => rfl)
  have h := h.next (by trivial) (@DirStep.start _ 0 _ rfl rfl rfl)
  have h := h.next (by trivial) (@DirStep.fetch _ 0 _ 0 rfl rfl rfl rfl)
  have h := h.next (by trivial) (@DirStep.land _ 0 _ 0 1 rfl rfl)
  have h := h.next (by trivial) (@DirStep.fill _ 0 _ 0 _ rfl rfl)
  have h := h.next (by trivial) (@DirStep.leaveLast _ 0 _ 0 _ rfl rfl rfl (Or.inl rfl))
  have h := h.next (by trivial) (@DirStep.keep _ 0 _ 0 _ _ rfl rfl rfl rfl)
  exact ⟨_, _, listings_fresh h, rfl, rfl, rfl⟩

/-- A listing is on its way when a change drops the one in the cache. It goes to
the cache, and answers a reader that asks after the change. -/
theorem listing_outlives_change :
    ∃ s, Reaches DirStep unrestricted (.initial true) s ∧ ¬ListingsFresh s := by
  have h := (Reaches.start : Reaches DirStep unrestricted (.initial true) (.initial true))
  have h := h.next (by trivial) (@DirStep.ask _ 0 none rfl)
  have h := h.next (by trivial) (@DirStep.miss _ 0 _ rfl rfl fun _ => rfl)
  have h := h.next (by trivial) (@DirStep.start _ 0 _ rfl rfl rfl)
  have h := h.next (by trivial) (@DirStep.fetch _ 0 _ 0 rfl rfl rfl rfl)
  have h := h.next (by trivial) (@DirStep.change _ 0 rfl)
  have h := h.next (by trivial) (@DirStep.invalidate _ 0 1 rfl)
  have h := h.next (by trivial) (@DirStep.land _ 0 _ 0 0 rfl rfl)
  have h := h.next (by trivial) (@DirStep.ask _ 1 none rfl)
  have h := h.next (by trivial) (@DirStep.hit _ 1 _ _ rfl rfl rfl rfl)
  have h := h.next (by trivial) (@DirStep.answer _ 1 _ _ rfl rfl nofun)
  exact ⟨_, h, fun hfresh => absurd (hfresh 1 _ _ rfl rfl) (by decide)⟩

end SynologyFilestation.Fuse
