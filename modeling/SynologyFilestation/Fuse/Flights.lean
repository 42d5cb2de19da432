import SynologyFilestation.Core.Error
import SynologyFilestation.Core.Path
import SynologyFilestation.Library.Transition
import SynologyFilestation.Library.Table

/-!
One listing request at a time for each directory (`Lister` in
`fuse/src/fs/dirs.rs`), for readers of any directories. A directory goes by its
lowercase path, and so do its cached listing and its flight; `fold` is
`to_lowercase`, of one component.

A flight is an `Arc` of a `OnceCell`: it is told apart from others by its number,
and the strong count of one in the table is how many readers hold it, and one.
What a listing holds is a parameter.
-/

namespace SynologyFilestation.Fuse

open Function Core Library

/-- What is asked of the NAS: the shares for the virtual root. -/
inductive ListRequest
  | shares
  | dir (path : NasPath)
  deriving DecidableEq, Repr

def listRequest (path : NasPath) : ListRequest := if path = [] then .shares else .dir path

/-- A listing, and the path it was fetched by. -/
structure Listed (L : Type) where
  path : NasPath
  entries : L

structure OnceCell (L : Type) where
  value : Option (Listed L)
  /-- Whose initialiser is running: one at a time. -/
  busy : Option ℕ

inductive ListPhase (L : Type)
  | asked
  | missed
  | aboard (flight : ℕ)
  | fetching (flight : ℕ) (request : ListRequest)
  /-- The listing is in the cache, and not yet in the cell. -/
  | landed (flight : ℕ) (listing : Listed L)
  | leaving (flight : ℕ) (result : Except SynoFsError (Listed L))
  | returned (result : Except SynoFsError (Listed L))

/-- The flight a reader has a hold on. -/
def ListPhase.flight {L : Type} : ListPhase L → Option ℕ
  | .aboard f | .fetching f _ | .landed f _ | .leaving f _ => some f
  | .asked | .missed | .returned _ => none

structure ListReader (L : Type) where
  path : NasPath
  phase : ListPhase L
  /-- What the reader's own fetch brought. -/
  attempt : Option (Except SynoFsError (Listed L))

def ListReader.key {L : Type} (fold : String → String) (r : ListReader L) : NasPath :=
  r.path.map fold

structure ListSystem (L : Type) where
  /-- Whether listings are cached at all. -/
  enabled : Bool
  cached : NasPath → Option (Listed L)
  flying : NasPath → Option ℕ
  cells : ℕ → OnceCell L
  /-- Flights made so far. -/
  made : ℕ
  readers : ℕ → Option (ListReader L)

namespace ListSystem

variable {L : Type}

def initial (enabled : Bool) : ListSystem L :=
  { enabled := enabled, cached := fun _ => none, flying := fun _ => none,
    cells := fun _ => ⟨none, none⟩, made := 0, readers := fun _ => none }

def setReader (s : ListSystem L) (n : ℕ) (r : ListReader L) : ListSystem L :=
  { s with readers := update s.readers n (some r) }

def setCell (s : ListSystem L) (f : ℕ) (cell : OnceCell L) : ListSystem L :=
  { s with cells := update s.cells f cell }

/-- A new flight in the table. -/
def depart (s : ListSystem L) (key : NasPath) : ListSystem L :=
  { s with
    flying := update s.flying key (some s.made)
    cells := update s.cells s.made ⟨none, none⟩
    made := s.made + 1 }

/-- `DirCache::insert`. -/
def store (fold : String → String) (s : ListSystem L) (listing : Listed L) : ListSystem L :=
  { s with
    cached :=
      if s.enabled then update s.cached (listing.path.map fold) (some listing) else s.cached }

/-- `DirCache::get`. -/
def get (fold : String → String) (s : ListSystem L) (path : NasPath) : Option (Listed L) :=
  if s.enabled then s.cached (path.map fold) else none

/-- Nobody but `n` has a hold on the flight: its strong count is one once `n` has
let go. -/
def OnlyHold (s : ListSystem L) (n f : ℕ) : Prop :=
  ∀ m r, m ≠ n → s.readers m = some r → r.phase.flight ≠ some f

end ListSystem

inductive ListEvent
  | ask (n : ℕ)
  | get (n : ℕ)
  | board (n : ℕ)
  | found (n : ℕ)
  | fetch (n : ℕ)
  | land (n : ℕ)
  | fill (n : ℕ)
  | fail (n : ℕ)
  | leave (n : ℕ)
  | forget (key : NasPath)

/-- Whose step it is, of those that are under way. -/
def ListEvent.mover : ListEvent → Option ℕ
  | .get n | .board n | .found n | .fetch n | .land n | .fill n | .fail n | .leave n => some n
  | .ask _ | .forget _ => none

/-- The steps of `Lister::get`, of any number of readers at once, and what else
drops listings from the cache. -/
inductive ListStep {L : Type} (fold : String → String) (s : ListSystem L) :
    ListEvent → ListSystem L → Prop
  | ask {n path} (hnew : s.readers n = none) :
      ListStep fold s (.ask n) (s.setReader n ⟨path, .asked, none⟩)
  | hit {n r listing} (hr : s.readers n = some r) (hphase : r.phase = .asked)
      (hcached : s.get fold r.path = some listing) :
      ListStep fold s (.get n) (s.setReader n { r with phase := .returned (.ok listing) })
  | miss {n r} (hr : s.readers n = some r) (hphase : r.phase = .asked)
      (hcached : s.get fold r.path = none) :
      ListStep fold s (.get n) (s.setReader n { r with phase := .missed })
  /-- `entry(key).or_default()`. -/
  | board {n r f} (hr : s.readers n = some r) (hphase : r.phase = .missed)
      (hflying : s.flying (r.key fold) = some f) :
      ListStep fold s (.board n) (s.setReader n { r with phase := .aboard f })
  | depart {n r} (hr : s.readers n = some r) (hphase : r.phase = .missed)
      (hflying : s.flying (r.key fold) = none) :
      ListStep fold s (.board n)
        ((s.depart (r.key fold)).setReader n { r with phase := .aboard s.made })
  | found {n r f listing} (hr : s.readers n = some r) (hphase : r.phase = .aboard f)
      (hvalue : (s.cells f).value = some listing) :
      ListStep fold s (.found n) (s.setReader n { r with phase := .leaving f (.ok listing) })
  /-- The cell is empty, and nobody is fetching. -/
  | fetch {n r f} (hr : s.readers n = some r) (hphase : r.phase = .aboard f)
      (hvalue : (s.cells f).value = none) (hidle : (s.cells f).busy = none) :
      ListStep fold s (.fetch n)
        ((s.setCell f ⟨none, some n⟩).setReader n
          { r with phase := .fetching f (listRequest r.path) })
  | land {n r f request entries} (hr : s.readers n = some r)
      (hphase : r.phase = .fetching f request) :
      ListStep fold s (.land n)
        ((s.store fold ⟨r.path, entries⟩).setReader n
          { r with phase := .landed f ⟨r.path, entries⟩, attempt := some (.ok ⟨r.path, entries⟩) })
  | fill {n r f listing} (hr : s.readers n = some r) (hphase : r.phase = .landed f listing) :
      ListStep fold s (.fill n)
        ((s.setCell f ⟨some listing, none⟩).setReader n
          { r with phase := .leaving f (.ok listing) })
  | fail {n r f request error} (hr : s.readers n = some r)
      (hphase : r.phase = .fetching f request) :
      ListStep fold s (.fail n)
        ((s.setCell f ⟨none, none⟩).setReader n
          { r with phase := .leaving f (.error error), attempt := some (.error error) })
  /-- The flight leaves the table with a reader that has its listing, or with the
  last of those that failed. -/
  | leaveLast {n r f result} (hr : s.readers n = some r) (hphase : r.phase = .leaving f result)
      (hours : s.flying (r.key fold) = some f) (hlast : result.isOk ∨ s.OnlyHold n f) :
      ListStep fold s (.leave n)
        ({ s with flying := update s.flying (r.key fold) none }.setReader n
          { r with phase := .returned result })
  | leave {n r f result} (hr : s.readers n = some r) (hphase : r.phase = .leaving f result)
      (hothers : ¬(s.flying (r.key fold) = some f ∧ (result.isOk ∨ s.OnlyHold n f))) :
      ListStep fold s (.leave n) (s.setReader n { r with phase := .returned result })
  /-- The cache drops a listing: too old, one too many, or out of date. -/
  | forget {key} :
      ListStep fold s (.forget key) { s with cached := update s.cached key none }

/-! ### How readers and flights stand -/

section Standing

variable {L : Type} {fold : String → String}

/-- Who is to fill the cell. -/
def ListPhase.fills (f : ℕ) : ListPhase L → Prop
  | .fetching g _ | .landed g _ => g = f
  | _ => False

/-- How the reader `n` stands to its flight, and what it has to answer with. -/
def ListReader.Sound (fold : String → String) (flying : NasPath → Option ℕ)
    (cells : ℕ → OnceCell L) (n : ℕ) (r : ListReader L) : Prop :=
  match r.phase with
  | .asked | .missed => True
  | .aboard f => flying (r.key fold) = some f ∨ (cells f).value.isSome
  | .fetching f _ => flying (r.key fold) = some f ∧ cells f = ⟨none, some n⟩
  | .landed f listing =>
      flying (r.key fold) = some f ∧ cells f = ⟨none, some n⟩ ∧
        listing.path.map fold = r.key fold
  | .leaving f (.ok listing) =>
      (cells f).value.isSome ∧ listing.path.map fold = r.key fold
  | .leaving f (.error e) =>
      (flying (r.key fold) = some f ∨ (cells f).value.isSome) ∧ r.attempt = some (.error e)
  | .returned (.ok listing) => listing.path.map fold = r.key fold
  | .returned (.error e) => r.attempt = some (.error e)

/-- The flights and the cache, and how some of the readers stand to them. -/
structure StandingAmong (fold : String → String) (among : ℕ → Prop) (s : ListSystem L) :
    Prop where
  cached : ∀ key listing, s.cached key = some listing → listing.path.map fold = key
  flying_lt : ∀ key f, s.flying key = some f → f < s.made
  filled : ∀ f listing, (s.cells f).value = some listing → (s.cells f).busy = none
  flight_lt : ∀ n r f, among n → s.readers n = some r → r.phase.flight = some f → f < s.made
  /-- A flight in the table is held by readers of its directory only. -/
  keyed : ∀ key f n r, among n → s.flying key = some f → s.readers n = some r →
    r.phase.flight = some f → r.key fold = key
  /-- What a flight has brought is a listing of the directory of whoever is aboard. -/
  brought : ∀ n r f listing, among n → s.readers n = some r → r.phase.flight = some f →
    (s.cells f).value = some listing → listing.path.map fold = r.key fold
  sound : ∀ n r, among n → s.readers n = some r → r.Sound fold s.flying s.cells n
  busy : ∀ f n, among n → (s.cells f).busy = some n →
    ∃ r, s.readers n = some r ∧ r.phase.fills f

/-- All stand as they should, and nobody has left a flight in the table behind. -/
structure Standing (fold : String → String) (s : ListSystem L) : Prop
    extends StandingAmong fold (fun _ => True) s where
  held : ∀ key f, s.flying key = some f → ∃ n r, s.readers n = some r ∧ r.phase.flight = some f

variable {s s' : ListSystem L} {e : ListEvent} {n f : ℕ} {r r' : ListReader L}

theorem standing_initial (enabled : Bool) : Standing fold (.initial enabled : ListSystem L) where
  cached _ _ h := by cases h
  flying_lt _ _ h := by cases h
  filled _ _ h := by cases h
  flight_lt _ _ _ _ h := by cases h
  keyed _ _ _ _ _ h := by cases h
  brought _ _ _ _ _ h := by cases h
  sound _ _ _ h := by cases h
  busy _ _ _ h := by cases h
  held _ _ h := by cases h

theorem Standing.others (hs : Standing fold s) (n : ℕ) : StandingAmong fold (· ≠ n) s where
  cached := hs.cached
  flying_lt := hs.flying_lt
  filled := hs.filled
  flight_lt m r f _ := hs.flight_lt m r f trivial
  keyed key f m r _ := hs.keyed key f m r trivial
  brought m r f listing _ := hs.brought m r f listing trivial
  sound m r _ := hs.sound m r trivial
  busy f m _ := hs.busy f m trivial

/-- The last of the readers falls in. -/
theorem StandingAmong.setReader (hs : StandingAmong fold (· ≠ n) s)
    (hlt : ∀ f, r.phase.flight = some f → f < s.made)
    (hkeyed : ∀ key f, s.flying key = some f → r.phase.flight = some f → r.key fold = key)
    (hbrought : ∀ f listing, r.phase.flight = some f → (s.cells f).value = some listing →
      listing.path.map fold = r.key fold)
    (hsound : r.Sound fold s.flying s.cells n)
    (hbusy : ∀ f, (s.cells f).busy = some n → r.phase.fills f)
    (hheld : ∀ key f, s.flying key = some f → r.phase.flight = some f ∨
      ∃ m q, m ≠ n ∧ s.readers m = some q ∧ q.phase.flight = some f) :
    Standing fold (s.setReader n r) where
  cached := hs.cached
  flying_lt := hs.flying_lt
  filled := hs.filled
  flight_lt := by
    intro m q f _ hq hflight
    rcases update_eq_some hq with ⟨_, rfl⟩ | ⟨hne, hq⟩
    · exact hlt f hflight
    · exact hs.flight_lt m q f hne hq hflight
  keyed := by
    intro key f m q _ hflying hq hflight
    rcases update_eq_some hq with ⟨_, rfl⟩ | ⟨hne, hq⟩
    · exact hkeyed key f hflying hflight
    · exact hs.keyed key f m q hne hflying hq hflight
  brought := by
    intro m q f listing _ hq hflight hvalue
    rcases update_eq_some hq with ⟨_, rfl⟩ | ⟨hne, hq⟩
    · exact hbrought f listing hflight hvalue
    · exact hs.brought m q f listing hne hq hflight hvalue
  sound := by
    intro m q _ hq
    rcases update_eq_some hq with ⟨rfl, rfl⟩ | ⟨hne, hq⟩
    · exact hsound
    · exact hs.sound m q hne hq
  busy := by
    intro f m _ hm
    rcases eq_or_ne m n with rfl | hne
    · exact ⟨r, update_self .., hbusy f hm⟩
    · obtain ⟨q, hq, hfills⟩ := hs.busy f m hne hm
      exact ⟨q, (update_of_ne hne ..).trans hq, hfills⟩
  held := by
    intro key f hflying
    rcases hheld key f hflying with hown | ⟨m, q, hne, hq, hflight⟩
    · exact ⟨n, r, update_self .., hown⟩
    · exact ⟨m, q, (update_of_ne hne ..).trans hq, hflight⟩

/-! #### What a step changes besides the reader -/

/-- A reader stays as sound as it was where its cell is kept, and its flight
leaves the table with the cell filled. -/
theorem ListReader.Sound.mono {flying flying' : NasPath → Option ℕ} {cells cells' : ℕ → OnceCell L}
    (h : r.Sound fold flying cells n)
    (haloft : ∀ f, r.phase.flight = some f → flying (r.key fold) = some f →
      flying' (r.key fold) = some f ∨ (cells f).value.isSome)
    (hvalue : ∀ f, r.phase.flight = some f → (cells f).value.isSome → (cells' f).value.isSome)
    (hbusy : ∀ f, r.phase.flight = some f → cells f = ⟨none, some n⟩ → cells' f = ⟨none, some n⟩) :
    r.Sound fold flying' cells' n := by
  -- Who waits for a flight finds it in the table or its cell filled, as before.
  have hwaits : ∀ f, r.phase.flight = some f →
      (flying (r.key fold) = some f ∨ (cells f).value.isSome) →
      flying' (r.key fold) = some f ∨ (cells' f).value.isSome := by
    rintro f hf (hflying | hsome)
    · exact (haloft f hf hflying).imp_right (hvalue f hf)
    · exact Or.inr (hvalue f hf hsome)
  have hfetches : ∀ f, r.phase.flight = some f → flying (r.key fold) = some f →
      cells f = ⟨none, some n⟩ → flying' (r.key fold) = some f := by
    intro f hf hflying hcell
    refine (haloft f hf hflying).resolve_right fun hsome => ?_
    simp [hcell] at hsome
  unfold ListReader.Sound at h ⊢
  cases hphase : r.phase with
  | asked | missed => trivial
  | aboard f =>
      rw [hphase] at h hwaits
      exact hwaits f rfl h
  | fetching f request =>
      rw [hphase] at h hfetches hbusy
      exact ⟨hfetches f rfl h.1 h.2, hbusy f rfl h.2⟩
  | landed f listing =>
      rw [hphase] at h hfetches hbusy
      exact ⟨hfetches f rfl h.1 h.2.1, hbusy f rfl h.2.1, h.2.2⟩
  | leaving f result =>
      rw [hphase] at h hwaits hvalue
      cases result with
      | ok listing => exact ⟨hvalue f rfl h.1, h.2⟩
      | error error => exact ⟨hwaits f rfl h.1, h.2⟩
  | returned result =>
      rw [hphase] at h
      cases result <;> exact h

/-- A cell with nothing in it is filled, or begins to be, or is given up. Whose
doing it is has a hold on the flight, and the flight is in the table. -/
theorem StandingAmong.setCell (hs : StandingAmong fold (· ≠ n) s) {cell : OnceCell L}
    {key : NasPath} (hflying : s.flying key = some f) (hvalue : (s.cells f).value = none)
    (hfree : ∀ m, (s.cells f).busy = some m → m = n)
    (hbusy : ∀ m, cell.busy = some m → m = n)
    (hfilled : ∀ listing, cell.value = some listing →
      cell.busy = none ∧ listing.path.map fold = key) :
    StandingAmong fold (· ≠ n) (s.setCell f cell) where
  cached := hs.cached
  flying_lt := hs.flying_lt
  filled := by
    intro g listing hlisting
    change (update s.cells f cell g).value = _ at hlisting
    show (update s.cells f cell g).busy = none
    rcases eq_or_ne g f with rfl | hne
    · rw [update_self] at hlisting ⊢
      exact (hfilled listing hlisting).1
    · rw [update_of_ne hne] at hlisting ⊢
      exact hs.filled g listing hlisting
  flight_lt := hs.flight_lt
  keyed := hs.keyed
  brought := by
    intro m q g listing hne hq hflight hlisting
    change (update s.cells f cell g).value = _ at hlisting
    rcases eq_or_ne g f with rfl | hg
    · rw [update_self] at hlisting
      rw [(hfilled listing hlisting).2, hs.keyed key g m q hne hflying hq hflight]
    · rw [update_of_ne hg] at hlisting
      exact hs.brought m q g listing hne hq hflight hlisting
  sound := by
    intro m q hne hq
    have hcell : ∀ g, g ≠ f → (s.setCell f cell).cells g = s.cells g := fun g hg =>
      update_of_ne hg ..
    refine (hs.sound m q hne hq).mono (fun g _ h => Or.inl h) ?_ ?_
    · intro g _ hsome
      rcases eq_or_ne g f with rfl | hg
      · simp [hvalue] at hsome
      · rwa [hcell g hg]
    · intro g _ hown
      rcases eq_or_ne g f with rfl | hg
      · exact absurd (hfree m (by rw [hown])) hne
      · rwa [hcell g hg]
  busy := by
    intro g m hne hm
    change (update s.cells f cell g).busy = _ at hm
    rcases eq_or_ne g f with rfl | hg
    · rw [update_self] at hm
      exact absurd (hbusy m hm) hne
    · rw [update_of_ne hg] at hm
      exact hs.busy g m hne hm

/-- A flight that is new in the table. -/
theorem StandingAmong.depart (hs : StandingAmong fold (· ≠ n) s) {key : NasPath}
    (hflying : s.flying key = none) :
    StandingAmong fold (· ≠ n) (s.depart key) where
  cached := hs.cached
  flying_lt := by
    intro key' g hg
    change update s.flying key (some s.made) key' = some g at hg
    show g < s.made + 1
    rcases update_eq_some hg with ⟨_, rfl⟩ | ⟨_, hg⟩
    · exact Nat.lt_succ_self _
    · exact (hs.flying_lt key' g hg).trans (Nat.lt_succ_self _)
  filled := by
    intro g listing hlisting
    change (update s.cells s.made ⟨none, none⟩ g).value = _ at hlisting
    show (update s.cells s.made ⟨none, none⟩ g).busy = none
    rcases eq_or_ne g s.made with rfl | hne
    · rw [update_self]
    · rw [update_of_ne hne] at hlisting ⊢
      exact hs.filled g listing hlisting
  flight_lt m q g hne hq hflight := (hs.flight_lt m q g hne hq hflight).trans (Nat.lt_succ_self _)
  keyed := by
    intro key' g m q hne hg hq hflight
    change update s.flying key (some s.made) key' = some g at hg
    rcases update_eq_some hg with ⟨_, rfl⟩ | ⟨_, hg⟩
    · exact absurd (hs.flight_lt m q _ hne hq hflight) (Nat.lt_irrefl _)
    · exact hs.keyed key' g m q hne hg hq hflight
  brought := by
    intro m q g listing hne hq hflight hlisting
    have hold : g ≠ s.made := (hs.flight_lt m q g hne hq hflight).ne
    change (update s.cells s.made ⟨none, none⟩ g).value = _ at hlisting
    rw [update_of_ne hold] at hlisting
    exact hs.brought m q g listing hne hq hflight hlisting
  sound := by
    intro m q hne hq
    have hcell : ∀ g, q.phase.flight = some g → (s.depart key).cells g = s.cells g := fun g hg =>
      update_of_ne (hs.flight_lt m q g hne hq hg).ne ..
    refine (hs.sound m q hne hq).mono (fun g _ hg => Or.inl ?_) (fun g hg hsome => ?_)
      fun g hg hown => ?_
    · have hkey : q.key fold ≠ key := by
        intro heq
        rw [heq, hflying] at hg
        cases hg
      exact (update_of_ne hkey ..).trans hg
    · rwa [hcell g hg]
    · rwa [hcell g hg]
  busy := by
    intro g m hne hm
    change (update s.cells s.made ⟨none, none⟩ g).busy = _ at hm
    rcases eq_or_ne g s.made with rfl | hg
    · rw [update_self] at hm
      cases hm
    · rw [update_of_ne hg] at hm
      exact hs.busy g m hne hm

/-- A flight leaves the table with its cell filled, or with nobody else aboard. -/
theorem StandingAmong.unlist (hs : StandingAmong fold (· ≠ n) s) {key : NasPath}
    (hours : s.flying key = some f) (hlast : (s.cells f).value.isSome ∨ s.OnlyHold n f) :
    StandingAmong fold (· ≠ n) { s with flying := update s.flying key none } where
  cached := hs.cached
  flying_lt key' g hg := hs.flying_lt key' g (update_none_eq_some hg).2
  filled := hs.filled
  flight_lt := hs.flight_lt
  keyed key' g m q hne hg hq hflight :=
    hs.keyed key' g m q hne (update_none_eq_some hg).2 hq hflight
  brought := hs.brought
  sound := by
    intro m q hne hq
    refine (hs.sound m q hne hq).mono (fun g hflight hg => ?_) (fun _ _ h => h) fun _ _ h => h
    rcases eq_or_ne (q.key fold) key with heq | hkey
    · rw [heq, hours] at hg
      obtain rfl := Option.some.inj hg
      exact Or.inr (hlast.resolve_right fun honly => honly m q hne hq hflight)
    · exact Or.inl ((update_of_ne hkey ..).trans hg)
  busy := hs.busy

/-- A listing of some directory goes to the cache. -/
theorem StandingAmong.store {among : ℕ → Prop} (hs : StandingAmong fold among s)
    (listing : Listed L) : StandingAmong fold among (s.store fold listing) :=
  { hs with
    cached := by
      intro key other hcached
      rw [ListSystem.store] at hcached
      split at hcached
      · rcases update_eq_some hcached with ⟨rfl, rfl⟩ | ⟨_, hcached⟩
        · rfl
        · exact hs.cached key other hcached
      · exact hs.cached key other hcached }

theorem Standing.forget (hs : Standing fold s) (key : NasPath) :
    Standing fold { s with cached := update s.cached key none } :=
  { hs with cached := fun key' listing h => hs.cached key' listing (update_none_eq_some h).2 }

/-! #### The steps -/

/-- Whoever holds a flight in the table is this reader, or another. -/
theorem Standing.held_besides (hs : Standing fold s) (hr : s.readers n = some r)
    {key : NasPath} (hflying : s.flying key = some f) :
    r.phase.flight = some f ∨ ∃ m q, m ≠ n ∧ s.readers m = some q ∧ q.phase.flight = some f := by
  obtain ⟨m, q, hq, hflight⟩ := hs.held key f hflying
  rcases eq_or_ne m n with rfl | hne
  · obtain rfl : r = q := Option.some.inj (hr.symm.trans hq)
    exact Or.inl hflight
  · exact Or.inr ⟨m, q, hne, hq, hflight⟩

/-- A cell that a reader is to fill is one it is filling. -/
theorem Standing.fills (hs : Standing fold s) (hr : s.readers n = some r)
    (h : (s.cells f).busy = some n) : r.phase.fills f := by
  obtain ⟨q, hq, hfills⟩ := hs.busy f n trivial h
  obtain rfl : r = q := Option.some.inj (hr.symm.trans hq)
  exact hfills

/-- A reader without a hold on a flight, before and after. -/
theorem Standing.pass (hs : Standing fold s) (hr : s.readers n = some r)
    (hbefore : r.phase.flight = none) (hafter : r'.phase.flight = none)
    (hsound : r'.Sound fold s.flying s.cells n) : Standing fold (s.setReader n r') := by
  refine (hs.others n).setReader ?_ ?_ ?_ hsound ?_ ?_
  · simp [hafter]
  · simp [hafter]
  · simp [hafter]
  · intro f hbusy
    have hfills := hs.fills hr hbusy
    cases hphase : r.phase <;> simp_all [ListPhase.fills, ListPhase.flight]
  · intro key f hflying
    exact Or.inr ((hs.held_besides hr hflying).resolve_left (by simp [hbefore]))

theorem Standing.ask (hs : Standing fold s) (hnew : s.readers n = none) (path : NasPath) :
    Standing fold (s.setReader n ⟨path, .asked, none⟩) := by
  refine (hs.others n).setReader (by simp [ListPhase.flight]) (by simp [ListPhase.flight])
    (by simp [ListPhase.flight]) trivial ?_ ?_
  · intro f hbusy
    obtain ⟨q, hq, _⟩ := hs.busy f n trivial hbusy
    cases hnew.symm.trans hq
  · intro key f hflying
    obtain ⟨m, q, hq, hflight⟩ := hs.held key f hflying
    refine Or.inr ⟨m, q, ?_, hq, hflight⟩
    rintro rfl
    cases hnew.symm.trans hq

/-- A reader with a hold on a flight. -/
theorem StandingAmong.hold (hs : StandingAmong fold (· ≠ n) s) (hflight : r.phase.flight = some f)
    (hlt : f < s.made) (hkeyed : ∀ key, s.flying key = some f → r.key fold = key)
    (hbrought : ∀ listing, (s.cells f).value = some listing →
      listing.path.map fold = r.key fold)
    (hsound : r.Sound fold s.flying s.cells n)
    (hbusy : ∀ g, (s.cells g).busy = some n → r.phase.fills g)
    (hheld : ∀ key g, s.flying key = some g → g = f ∨
      ∃ m q, m ≠ n ∧ s.readers m = some q ∧ q.phase.flight = some g) :
    Standing fold (s.setReader n r) := by
  have hown : ∀ g, r.phase.flight = some g → g = f := fun g hg =>
    Option.some.inj (hg.symm.trans hflight)
  refine hs.setReader ?_ ?_ ?_ hsound hbusy ?_
  · intro g hg
    rwa [hown g hg]
  · intro key g hflying hg
    rw [hown g hg] at hflying
    exact hkeyed key hflying
  · intro g listing hg hvalue
    rw [hown g hg] at hvalue
    exact hbrought listing hvalue
  · intro key g hflying
    refine (hheld key g hflying).imp_left fun heq => ?_
    rw [heq, hflight]

/-- A flight in the table brings those who board it a listing of their directory. -/
theorem Standing.board (hs : Standing fold s) (hr : s.readers n = some r)
    (hphase : r.phase = .missed) (hflying : s.flying (r.key fold) = some f) :
    Standing fold (s.setReader n { r with phase := .aboard f }) := by
  obtain ⟨m, q, hq, hflight⟩ := hs.held _ f hflying
  have hkey : q.key fold = r.key fold := hs.keyed _ f m q trivial hflying hq hflight
  refine (hs.others n).hold rfl (hs.flying_lt _ f hflying) ?_ ?_ (Or.inl hflying) ?_ ?_
  · intro key hflying'
    exact hkey.symm.trans (hs.keyed key f m q trivial hflying' hq hflight)
  · intro listing hvalue
    exact (hs.brought m q f listing trivial hq hflight hvalue).trans hkey
  · intro g hbusy
    have hfills := hs.fills hr hbusy
    simp [hphase, ListPhase.fills] at hfills
  · intro key g hg
    refine Or.inr ((hs.held_besides hr hg).resolve_left ?_)
    simp [hphase, ListPhase.flight]

theorem Standing.depart (hs : Standing fold s) (hr : s.readers n = some r)
    (hphase : r.phase = .missed) (hflying : s.flying (r.key fold) = none) :
    Standing fold
      ((s.depart (r.key fold)).setReader n { r with phase := .aboard s.made }) := by
  have hnew : ∀ key, (s.depart (r.key fold)).flying key = some s.made → r.key fold = key := by
    intro key hkey
    rcases update_eq_some hkey with ⟨heq, _⟩ | ⟨_, hold⟩
    · exact heq.symm
    · exact absurd (hs.flying_lt key _ hold) (Nat.lt_irrefl _)
  refine ((hs.others n).depart hflying).hold rfl (Nat.lt_succ_self _) hnew ?_
    (Or.inl (update_self ..)) ?_ ?_
  · intro listing hvalue
    simp [ListSystem.depart] at hvalue
  · intro g hbusy
    change (update s.cells s.made ⟨none, none⟩ g).busy = some n at hbusy
    rcases eq_or_ne g s.made with rfl | hne
    · rw [update_self] at hbusy
      cases hbusy
    · rw [update_of_ne hne] at hbusy
      have hfills := hs.fills hr hbusy
      simp [hphase, ListPhase.fills] at hfills
  · intro key g hg
    rcases update_eq_some hg with ⟨_, rfl⟩ | ⟨_, hold⟩
    · exact Or.inl rfl
    · refine Or.inr ((hs.held_besides hr hold).resolve_left ?_)
      simp [hphase, ListPhase.flight]

/-- A reader that keeps the hold it has, and whose cell may have changed. -/
theorem Standing.stay (hs : Standing fold s) (hr : s.readers n = some r)
    (hflight : r.phase.flight = some f) {cell : OnceCell L}
    (hothers : StandingAmong fold (· ≠ n) (s.setCell f cell))
    (hbrought : ∀ listing, cell.value = some listing → listing.path.map fold = r'.key fold)
    (hkey : r'.key fold = r.key fold) (hflight' : r'.phase.flight = some f)
    (hsound : r'.Sound fold s.flying (update s.cells f cell) n)
    (hbusy : cell.busy = some n → r'.phase.fills f) :
    Standing fold ((s.setCell f cell).setReader n r') := by
  refine hothers.hold hflight' (hs.flight_lt n r f trivial hr hflight) ?_ ?_ hsound ?_ ?_
  · intro key hflying
    exact hkey.trans (hs.keyed key f n r trivial hflying hr hflight)
  · intro listing hvalue
    refine hbrought listing ?_
    simpa [ListSystem.setCell] using hvalue
  · intro g hg
    change (update s.cells f cell g).busy = some n at hg
    rcases eq_or_ne g f with rfl | hne
    · rw [update_self] at hg
      exact hbusy hg
    · rw [update_of_ne hne] at hg
      have hfills := hs.fills hr hg
      have hown : r.phase.flight = some g := by
        cases hphase : r.phase <;> simp_all [ListPhase.fills, ListPhase.flight]
      exact absurd (Option.some.inj (hown.symm.trans hflight)) hne
  · intro key g hg
    refine (hs.held_besides hr hg).imp_left fun hown => ?_
    exact Option.some.inj (hown.symm.trans hflight)

@[simp] theorem setCell_self : s.setCell f (s.cells f) = s := by
  simp [ListSystem.setCell]

/-- The same of a reader that leaves its cell alone. -/
theorem Standing.stayOn (hs : Standing fold s) (hr : s.readers n = some r)
    (hflight : r.phase.flight = some f) (hkey : r'.key fold = r.key fold)
    (hflight' : r'.phase.flight = some f) (hsound : r'.Sound fold s.flying s.cells n)
    (hbusy : (s.cells f).busy = some n → r'.phase.fills f) : Standing fold (s.setReader n r') := by
  have hothers : StandingAmong fold (· ≠ n) (s.setCell f (s.cells f)) := by
    simpa using hs.others n
  have hstay := hs.stay hr hflight hothers
    (fun listing hvalue => hkey ▸ hs.brought n r f listing trivial hr hflight hvalue) hkey
    hflight' (by simpa using hsound) hbusy
  simpa using hstay

/-- What the cache holds of a path is a listing of its directory. -/
theorem Standing.of_get (hs : Standing fold s) {path : NasPath} {listing : Listed L}
    (h : s.get fold path = some listing) : listing.path.map fold = path.map fold := by
  rw [ListSystem.get] at h
  split at h
  · exact hs.cached _ listing h
  · cases h

theorem Standing.fetch (hs : Standing fold s) (hr : s.readers n = some r)
    (hphase : r.phase = .aboard f) (hvalue : (s.cells f).value = none)
    (hidle : (s.cells f).busy = none) :
    Standing fold ((s.setCell f ⟨none, some n⟩).setReader n
      { r with phase := .fetching f (listRequest r.path) }) := by
  have hflying : s.flying (r.key fold) = some f := by
    have hsound := hs.sound n r trivial hr
    simpa [ListReader.Sound, hphase, hvalue] using hsound
  refine hs.stay hr (by simp [hphase, ListPhase.flight]) ?_ (by simp) rfl rfl
    ⟨hflying, update_self ..⟩ fun _ => rfl
  exact (hs.others n).setCell hflying hvalue (by simp [hidle]) (by simp) (by simp)

theorem Standing.land (hs : Standing fold s) (hr : s.readers n = some r) {request : ListRequest}
    (hphase : r.phase = .fetching f request) (entries : L) :
    Standing fold ((s.store fold ⟨r.path, entries⟩).setReader n
      { r with
        phase := .landed f ⟨r.path, entries⟩
        attempt := some (.ok ⟨r.path, entries⟩) }) := by
  have hsound := hs.sound n r trivial hr
  rw [ListReader.Sound, hphase] at hsound
  have hstored : Standing fold (s.store fold ⟨r.path, entries⟩) :=
    { hs.toStandingAmong.store ⟨r.path, entries⟩ with held := hs.held }
  exact hstored.stayOn hr (by simp [hphase, ListPhase.flight]) rfl rfl
    ⟨hsound.1, hsound.2, rfl⟩ fun _ => rfl

/-- The cell of who has been fetching: empty, and its own. -/
theorem Standing.settle (hs : Standing fold s) (hr : s.readers n = some r)
    (hflight : r.phase.flight = some f) (hflying : s.flying (r.key fold) = some f)
    (hcell : s.cells f = ⟨none, some n⟩) {cell : OnceCell L} (hidle : cell.busy = none)
    (hbrought : ∀ listing, cell.value = some listing → listing.path.map fold = r.key fold)
    (hkey : r'.key fold = r.key fold) (hflight' : r'.phase.flight = some f)
    (hsound : r'.Sound fold s.flying (update s.cells f cell) n) :
    Standing fold ((s.setCell f cell).setReader n r') := by
  refine hs.stay hr hflight ?_ (hkey ▸ hbrought) hkey hflight' hsound (by simp [hidle])
  refine (hs.others n).setCell hflying (by rw [hcell]) ?_ (by simp [hidle]) ?_
  · intro m hm
    rw [hcell] at hm
    exact (Option.some.inj hm).symm
  · exact fun listing hvalue => ⟨hidle, hbrought listing hvalue⟩

/-- A reader returns with what it has to answer with. -/
theorem Standing.sound_returned (hs : Standing fold s) (hr : s.readers n = some r)
    {result : Except SynoFsError (Listed L)} (hphase : r.phase = .leaving f result)
    (flying : NasPath → Option ℕ) :
    ListReader.Sound fold flying s.cells n { r with phase := .returned result } := by
  have hsound := hs.sound n r trivial hr
  rw [ListReader.Sound, hphase] at hsound
  cases result with
  | ok listing => exact hsound.2
  | error error => exact hsound.2

/-- Who is on its way out is not filling a cell. -/
theorem Standing.leaving_not_busy (hs : Standing fold s) (hr : s.readers n = some r)
    {result : Except SynoFsError (Listed L)} (hphase : r.phase = .leaving f result) (g : ℕ) :
    (s.cells g).busy ≠ some n := by
  intro hbusy
  have hfills := hs.fills hr hbusy
  simp [hphase, ListPhase.fills] at hfills

theorem Standing.leaveLast (hs : Standing fold s) (hr : s.readers n = some r)
    {result : Except SynoFsError (Listed L)} (hphase : r.phase = .leaving f result)
    (hours : s.flying (r.key fold) = some f) (hlast : result.isOk ∨ s.OnlyHold n f) :
    Standing fold ({ s with flying := update s.flying (r.key fold) none }.setReader n
      { r with phase := .returned result }) := by
  have hsound := hs.sound n r trivial hr
  have hfilled : (s.cells f).value.isSome ∨ s.OnlyHold n f := by
    refine hlast.imp_left fun hok => ?_
    cases result with
    | ok listing =>
        rw [ListReader.Sound, hphase] at hsound
        exact hsound.1
    | error error => simp [Except.isOk, Except.toBool] at hok
  refine ((hs.others n).unlist hours hfilled).setReader (by simp [ListPhase.flight])
    (by simp [ListPhase.flight]) (by simp [ListPhase.flight]) (hs.sound_returned hr hphase _)
    (fun g hbusy => absurd hbusy (hs.leaving_not_busy hr hphase g)) ?_
  intro key g hg
  obtain ⟨hne, hold⟩ := update_none_eq_some hg
  refine Or.inr ((hs.held_besides hr hold).resolve_left fun hown => ?_)
  exact hne (hs.keyed key g n r trivial hold hr hown).symm

/-- A flight that stays in the table has someone else aboard. -/
theorem Standing.leave (hs : Standing fold s) (hr : s.readers n = some r)
    {result : Except SynoFsError (Listed L)} (hphase : r.phase = .leaving f result)
    (hothers : ¬(s.flying (r.key fold) = some f ∧ (result.isOk ∨ s.OnlyHold n f))) :
    Standing fold (s.setReader n { r with phase := .returned result }) := by
  refine (hs.others n).setReader (by simp [ListPhase.flight]) (by simp [ListPhase.flight])
    (by simp [ListPhase.flight]) (hs.sound_returned hr hphase _)
    (fun g hbusy => absurd hbusy (hs.leaving_not_busy hr hphase g)) ?_
  intro key g hg
  refine Or.inr ?_
  rcases hs.held_besides hr hg with hown | hother
  · have hkey : r.key fold = key := hs.keyed key g n r trivial hg hr hown
    obtain rfl : f = g := by simpa [hphase, ListPhase.flight] using hown
    have hmore : ¬s.OnlyHold n f := fun honly => hothers ⟨hkey ▸ hg, Or.inr honly⟩
    simp only [ListSystem.OnlyHold, not_forall, not_not] at hmore
    obtain ⟨m, q, hne, hq, hflight⟩ := hmore
    exact ⟨m, q, hne, hq, hflight⟩
  · exact hother

/-- **One step**: all stand as they should again. -/
theorem Standing.step (hs : Standing fold s) (h : ListStep fold s e s') : Standing fold s' := by
  cases h with
  | ask hnew => exact hs.ask hnew _
  | hit hr hphase hcached =>
      exact hs.pass hr (by simp [hphase, ListPhase.flight]) rfl (hs.of_get hcached)
  | miss hr hphase hcached => exact hs.pass hr (by simp [hphase, ListPhase.flight]) rfl trivial
  | board hr hphase hflying => exact hs.board hr hphase hflying
  | depart hr hphase hflying => exact hs.depart hr hphase hflying
  | @found n r f listing hr hphase hvalue =>
      have hflight : r.phase.flight = some f := by simp [hphase, ListPhase.flight]
      refine hs.stayOn hr hflight rfl rfl ?_ ?_
      · exact ⟨by simp [hvalue], hs.brought n r f listing trivial hr hflight hvalue⟩
      · intro hbusy
        have hfills := hs.fills hr hbusy
        simp [hphase, ListPhase.fills] at hfills
  | fetch hr hphase hvalue hidle => exact hs.fetch hr hphase hvalue hidle
  | land hr hphase => exact hs.land hr hphase _
  | fill hr hphase =>
      have hsound := hs.sound _ _ trivial hr
      rw [ListReader.Sound, hphase] at hsound
      refine hs.settle hr (by simp [hphase, ListPhase.flight]) hsound.1 hsound.2.1 rfl ?_ rfl rfl ?_
      · rintro _ ⟨⟩
        exact hsound.2.2
      · exact ⟨by simp, hsound.2.2⟩
  | fail hr hphase =>
      have hsound := hs.sound _ _ trivial hr
      rw [ListReader.Sound, hphase] at hsound
      refine hs.settle hr (by simp [hphase, ListPhase.flight]) hsound.1 hsound.2 rfl ?_ rfl rfl ?_
      · simp
      · exact ⟨Or.inl hsound.1, rfl⟩
  | leaveLast hr hphase hours hlast => exact hs.leaveLast hr hphase hours hlast
  | leave hr hphase hothers => exact hs.leave hr hphase hothers
  | forget => exact hs.forget _

end Standing

/-! ### One request at a time -/

section OneRequest

variable {L : Type} {fold : String → String} {s s' : ListSystem L} {e : ListEvent} {n : ℕ}
  {r : ListReader L}

/-- How many steps a reader may have before it at most. -/
def ListPhase.rank : ListPhase L → ℕ
  | .asked => 6
  | .missed => 5
  | .aboard _ => 4
  | .fetching .. => 3
  | .landed .. => 2
  | .leaving .. => 1
  | .returned _ => 0

structure OneRequest (fold : String → String) (s : ListSystem L) : Prop where
  /-- At most one fetch of a directory is in flight. -/
  single : ∀ n m r r' f g request request', s.readers n = some r → s.readers m = some r' →
    r.key fold = r'.key fold → r.phase = .fetching f request → r'.phase = .fetching g request' →
    n = m
  /-- Who waits on a cell that is empty, a fetch having failed or not, waits on the
  flight in the table, where those who come later find it. -/
  waits : ∀ n r f, s.readers n = some r → r.phase = .aboard f → (s.cells f).value = none →
    s.flying (r.key fold) = some f
  /-- A reader answers with a listing, or with the error of its own attempt. -/
  answers : ∀ n r result, s.readers n = some r → r.phase = .returned result →
    (∃ listing, result = .ok listing ∧ listing.path.map fold = r.key fold) ∨
      ∃ error, result = .error error ∧ r.attempt = some (.error error)
  /-- Nothing is left in the table once nobody holds the directory's flight. -/
  swept : ∀ key, (∀ n r, s.readers n = some r → r.key fold = key → r.phase.flight = none) →
    s.flying key = none
  /-- Who has not returned may take a step, or waits on who is fetching and may. -/
  moves : ∀ n r, s.readers n = some r → r.phase.rank ≠ 0 →
    ∃ e s' m, ListStep fold s e s' ∧ e.mover = some m ∧
      (m = n ∨ ∃ f q, r.phase = .aboard f ∧ s.readers m = some q ∧ q.phase.fills f)
  /-- A step brings its reader nearer to its return, and no other reader further from it. -/
  nears : ∀ e s', ListStep fold s e s' → ∀ n r, s.readers n = some r →
    ∃ r', s'.readers n = some r' ∧ r'.path = r.path ∧
      r'.phase.rank + (if e.mover = some n then 1 else 0) ≤ r.phase.rank

/-- A reader with a fetch under way may go on. -/
theorem exists_step_fills (fold : String → String) {f : ℕ} (hr : s.readers n = some r)
    (hfills : r.phase.fills f) :
    ∃ e s', ListStep fold s e s' ∧ e.mover = some n := by
  cases hphase : r.phase with
  | fetching g request =>
      have hfail := @ListStep.fail L fold s n r g request .notFound hr hphase
      exact ⟨.fail n, _, hfail, rfl⟩
  | landed g listing => exact ⟨.fill n, _, .fill hr hphase, rfl⟩
  | asked | missed | aboard | leaving | returned => simp [hphase, ListPhase.fills] at hfills

theorem Standing.moves (hs : Standing fold s) (hr : s.readers n = some r)
    (hrank : r.phase.rank ≠ 0) :
    ∃ e s' m, ListStep fold s e s' ∧ e.mover = some m ∧
      (m = n ∨ ∃ f q, r.phase = .aboard f ∧ s.readers m = some q ∧ q.phase.fills f) := by
  cases hphase : r.phase with
  | asked =>
      cases hcached : s.get fold r.path with
      | some listing => exact ⟨.get n, _, n, .hit hr hphase hcached, rfl, Or.inl rfl⟩
      | none => exact ⟨.get n, _, n, .miss hr hphase hcached, rfl, Or.inl rfl⟩
  | missed =>
      cases hflying : s.flying (r.key fold) with
      | some f => exact ⟨.board n, _, n, .board hr hphase hflying, rfl, Or.inl rfl⟩
      | none => exact ⟨.board n, _, n, .depart hr hphase hflying, rfl, Or.inl rfl⟩
  | aboard f =>
      cases hvalue : (s.cells f).value with
      | some listing => exact ⟨.found n, _, n, .found hr hphase hvalue, rfl, Or.inl rfl⟩
      | none =>
          cases hbusy : (s.cells f).busy with
          | none => exact ⟨.fetch n, _, n, .fetch hr hphase hvalue hbusy, rfl, Or.inl rfl⟩
          | some m =>
              obtain ⟨q, hq, hfills⟩ := hs.busy f m trivial hbusy
              obtain ⟨e, s', hstep, hmover⟩ := exists_step_fills fold hq hfills
              exact ⟨e, s', m, hstep, hmover, Or.inr ⟨f, q, rfl, hq, hfills⟩⟩
  | fetching f request =>
      obtain ⟨e, s', hstep, hmover⟩ :=
        exists_step_fills fold (f := f) hr (by rw [hphase]; rfl)
      exact ⟨e, s', n, hstep, hmover, Or.inl rfl⟩
  | landed f listing => exact ⟨.fill n, _, n, .fill hr hphase, rfl, Or.inl rfl⟩
  | leaving f result =>
      by_cases hlast : s.flying (r.key fold) = some f ∧ (result.isOk ∨ s.OnlyHold n f)
      · exact ⟨.leave n, _, n, .leaveLast hr hphase hlast.1 hlast.2, rfl, Or.inl rfl⟩
      · exact ⟨.leave n, _, n, .leave hr hphase hlast, rfl, Or.inl rfl⟩
  | returned result => simp [hphase, ListPhase.rank] at hrank

/-- What a step does to the readers: it moves one of them on, or brings a new one. -/
theorem ListStep.readers_cases (h : ListStep fold s e s') :
    (∃ n r r', s.readers n = some r ∧ e.mover = some n ∧ r'.path = r.path ∧
      r'.phase.rank < r.phase.rank ∧ s'.readers = update s.readers n (some r')) ∨
    (e.mover = none ∧ ∃ n r', s.readers n = none ∧ s'.readers = update s.readers n (some r')) ∨
    (e.mover = none ∧ s'.readers = s.readers) := by
  cases h with
  | ask hnew => exact Or.inr (Or.inl ⟨rfl, _, _, hnew, rfl⟩)
  | forget => exact Or.inr (Or.inr ⟨rfl, rfl⟩)
  | hit hr hphase | miss hr hphase | board hr hphase | depart hr hphase | found hr hphase
  | fetch hr hphase | land hr hphase | fill hr hphase | fail hr hphase | leaveLast hr hphase
  | leave hr hphase =>
      refine Or.inl ⟨_, _, _, hr, rfl, ?_, ?_, rfl⟩
      · rfl
      · simp [hphase, ListPhase.rank]

theorem ListStep.nears (h : ListStep fold s e s') (hr : s.readers n = some r) :
    ∃ r', s'.readers n = some r' ∧ r'.path = r.path ∧
      r'.phase.rank + (if e.mover = some n then 1 else 0) ≤ r.phase.rank := by
  rcases h.readers_cases with ⟨m, q, q', hq, hmover, hpath, hrank, hs'⟩ |
    ⟨hmover, m, q', hnew, hs'⟩ | ⟨hmover, hs'⟩
  · rcases eq_or_ne n m with rfl | hne
    · obtain rfl : r = q := Option.some.inj (hr.symm.trans hq)
      refine ⟨q', by rw [hs', update_self], hpath, ?_⟩
      rw [if_pos hmover]
      exact hrank
    · have hother : e.mover ≠ some n := by
        rw [hmover]
        exact fun heq => hne (Option.some.inj heq).symm
      exact ⟨r, by rw [hs', update_of_ne hne, hr], rfl, by simp [hother]⟩
  · have hne : n ≠ m := by
      rintro rfl
      cases hr.symm.trans hnew
    exact ⟨r, by rw [hs', update_of_ne hne, hr], rfl, by simp [hmover]⟩
  · exact ⟨r, by rw [hs', hr], rfl, by simp [hmover]⟩

theorem Standing.oneRequest (hs : Standing fold s) : OneRequest fold s where
  single := by
    intro n m r r' f g request request' hr hr' hkey hphase hphase'
    have hsound := hs.sound n r trivial hr
    have hsound' := hs.sound m r' trivial hr'
    rw [ListReader.Sound, hphase] at hsound
    rw [ListReader.Sound, hphase', ← hkey] at hsound'
    obtain rfl : f = g := Option.some.inj (hsound.1.symm.trans hsound'.1)
    simpa using hsound.2.symm.trans hsound'.2
  waits := by
    intro n r f hr hphase hvalue
    have hsound := hs.sound n r trivial hr
    simpa [ListReader.Sound, hphase, hvalue] using hsound
  answers := by
    intro n r result hr hphase
    have hsound := hs.sound n r trivial hr
    rw [ListReader.Sound, hphase] at hsound
    cases result with
    | ok listing => exact Or.inl ⟨listing, rfl, hsound⟩
    | error error => exact Or.inr ⟨error, rfl, hsound⟩
  swept := by
    intro key hnone
    by_contra hsome
    obtain ⟨f, hf⟩ := Option.ne_none_iff_exists'.mp hsome
    obtain ⟨n, r, hr, hflight⟩ := hs.held key f hf
    have hkey : r.key fold = key := hs.keyed key f n r trivial hf hr hflight
    cases (hnone n r hr hkey).symm.trans hflight
  moves _ _ := hs.moves
  nears _ _ h _ _ := h.nears

/-- **One request at a time for each directory**, in whatever order its readers
take their steps. -/
theorem one_request_at_a_time {enabled : Bool}
    (h : Reaches (ListStep fold) unrestricted (.initial enabled) s) : OneRequest fold s :=
  have hs : Standing fold s :=
    h.invariant (standing_initial enabled) fun hs _ hstep => hs.step hstep
  hs.oneRequest

def photosFold (name : String) : String := if name = "Photos" then "photos" else name

/-- Two readers of one directory, of which the second waits: the fetch of the first
fails, and the second makes its own. -/
theorem one_request_after_failure : ∃ s : ListSystem ℕ, OneRequest photosFold s ∧
    (s.readers 0).map (·.attempt) = some (some (.error .notFound)) ∧
    (s.readers 1).map (·.attempt) = some (some (.ok ⟨["photos"], 7⟩)) ∧
    s.flying ["photos"] = none := by
  have h0 : Reaches (ListStep photosFold) unrestricted (.initial true : ListSystem ℕ) _ := .start
  have h1 := h0.next trivial (@ListStep.ask ℕ _ _ 0 ["Photos"] rfl)
  have h2 := h1.next trivial (@ListStep.ask ℕ _ _ 1 ["photos"] rfl)
  have h3 := h2.next trivial (ListStep.miss (n := 0) rfl rfl rfl)
  have h4 := h3.next trivial (ListStep.miss (n := 1) rfl rfl rfl)
  have h5 := h4.next trivial (ListStep.depart (n := 0) rfl rfl rfl)
  have h6 := h5.next trivial (ListStep.board (n := 1) rfl rfl rfl)
  have h7 := h6.next trivial (ListStep.fetch (n := 0) rfl rfl rfl rfl)
  have h8 := h7.next trivial (@ListStep.fail ℕ _ _ 0 _ _ _ .notFound rfl rfl)
  have h9 := h8.next trivial (ListStep.leave (n := 0) rfl rfl ?_)
  have h10 := h9.next trivial (ListStep.fetch (n := 1) rfl rfl rfl rfl)
  have h11 := h10.next trivial (@ListStep.land ℕ _ _ 1 _ _ _ 7 rfl rfl)
  have h12 := h11.next trivial (ListStep.fill (n := 1) rfl rfl)
  have h13 := h12.next trivial (ListStep.leaveLast (n := 1) rfl rfl rfl (Or.inl rfl))
  exact ⟨_, one_request_at_a_time h13, rfl, rfl, rfl⟩
  -- The second still holds the flight when the first leaves it.
  rintro ⟨_, hok | honly⟩
  · cases hok
  · exact honly 1 _ (by decide) rfl rfl

end OneRequest

end SynologyFilestation.Fuse
