import Mathlib.Order.MinMax
import SynologyFilestation.Core.Error
import SynologyFilestation.Core.Path
import SynologyFilestation.Library.Pieces

/-!
Reads cut into stripes and dealt over the extra connections (`read` in
`smb/src/transport.rs`, `stripes` in `smb/src/pool.rs`).

Offsets are the code's 64-bit ones and wrap as they do in a release build. The
loop that cuts a read may then never come to its end, so it takes fuel: `none`
is a read that has not ended yet. What is left out of a connection is what it
becomes after a failed piece, which is for the next read.
-/

namespace SynologyFilestation.Smb

open Core Library

/-! ### The pieces -/

/-- `STRIPE`. -/
def stripe : UInt64 := 256 * 1024

/-- One piece of a read: connection 0 is the main session, `n` the `n`-th extra one. -/
structure Piece where
  offset : UInt64
  length : UInt64
  connection : ℕ
  deriving DecidableEq, Repr

/-- Where the piece at `pos` ends: the next stripe, or the end of the read. -/
def nextStripe (stop pos : UInt64) : UInt64 := min ((pos / stripe + 1) * stripe) stop

/-- The loop of `stripes`. -/
def stripesFrom (connections : ℕ) (stop : UInt64) : ℕ → UInt64 → Option (List Piece)
  | 0, _ => none
  | fuel + 1, pos =>
      if pos < stop then
        let next := nextStripe stop pos
        (stripesFrom connections stop fuel next).map
          (⟨pos, next - pos, (pos / stripe).toNat % connections⟩ :: ·)
      else some []

def stripes (fuel : ℕ) (offset length : UInt64) (connections : ℕ) : Option (List Piece) :=
  let connections := max connections 1
  if connections = 1 then some [⟨offset, length, 0⟩]
  else stripesFrom connections (offset + length) fuel offset

/-- The pieces lie one behind the other from `pos`. -/
def InOrder : ℕ → List Piece → Prop
  | _, [] => True
  | pos, p :: pieces => p.offset.toNat = pos ∧ InOrder (pos + p.length.toNat) pieces

section Cut

variable {connections fuel : ℕ} {pos stop : UInt64} {pieces : List Piece}

theorem toNat_min (a b : UInt64) : (min a b).toNat = min a.toNat b.toNat := by
  have hmin : min a b = if a ≤ b then a else b := rfl
  rw [hmin]
  split
  case isTrue h => exact (min_eq_left (UInt64.le_iff_toNat_le.mp h)).symm
  case isFalse h =>
    rw [UInt64.le_iff_toNat_le] at h
    exact (min_eq_right (by omega)).symm

/-- After the last stripe comes 0. -/
theorem toNat_nextStripe (stop pos : UInt64) : (nextStripe stop pos).toNat =
    min ((pos.toNat / 2 ^ 18 + 1) * 2 ^ 18 % 2 ^ 64) stop.toNat := by
  have hstripe : stripe.toNat = 2 ^ 18 := rfl
  have hnumber : pos.toNat / 2 ^ 18 + 1 < 2 ^ 64 := by
    have hpos := pos.toNat_lt
    omega
  rw [nextStripe, toNat_min, UInt64.toNat_mul, UInt64.toNat_add, UInt64.toNat_div, hstripe,
    UInt64.toNat_one, Nat.mod_eq_of_lt hnumber]

theorem stripesFrom_of_lt (h : pos < stop) (connections fuel : ℕ) :
    stripesFrom connections stop (fuel + 1) pos =
      (stripesFrom connections stop fuel (nextStripe stop pos)).map
        (⟨pos, nextStripe stop pos - pos, (pos / stripe).toNat % connections⟩ :: ·) := by
  rw [stripesFrom, if_pos h]

theorem stripesFrom_of_le (h : ¬pos < stop) (connections fuel : ℕ) :
    stripesFrom connections stop (fuel + 1) pos = some [] := by
  rw [stripesFrom, if_neg h]

/-- Below the last stripe the loop comes to its end, and has cut all of the read. -/
theorem stripesFrom_ends (hstop : stop.toNat ≤ 2 ^ 64 - 2 ^ 18) (hpos : pos ≤ stop)
    (hfuel : stop.toNat - pos.toNat < fuel) :
    ∃ pieces, stripesFrom connections stop fuel pos = some pieces ∧ InOrder pos.toNat pieces ∧
      pos.toNat + (pieces.map (·.length.toNat)).sum = stop.toNat := by
  induction fuel generalizing pos with
  | zero => exact absurd hfuel (Nat.not_lt_zero _)
  | succ fuel ih =>
      rw [UInt64.le_iff_toNat_le] at hpos
      by_cases hlt : pos < stop
      · have hvalue := toNat_nextStripe stop pos
        have hbelow := UInt64.lt_iff_toNat_lt.mp hlt
        have hforward : pos.toNat < (nextStripe stop pos).toNat := by
          rw [hvalue, Nat.mod_eq_of_lt (by omega), lt_min_iff]
          omega
        have hwithin : (nextStripe stop pos).toNat ≤ stop.toNat := hvalue ▸ min_le_right _ _
        have hlength : (nextStripe stop pos - pos).toNat =
            (nextStripe stop pos).toNat - pos.toNat :=
          UInt64.toNat_sub_of_le _ _ (UInt64.le_iff_toNat_le.mpr hforward.le)
        obtain ⟨pieces, hpieces, horder, hsum⟩ :=
          ih (UInt64.le_iff_toNat_le.mpr hwithin) (by omega)
        refine ⟨⟨pos, nextStripe stop pos - pos, (pos / stripe).toNat % connections⟩ :: pieces,
          ?_, ⟨rfl, ?_⟩, ?_⟩
        · rw [stripesFrom_of_lt hlt, hpieces]
          rfl
        · rw [hlength, Nat.add_sub_cancel' hforward.le]
          exact horder
        · simp only [List.map_cons, List.sum_cons, hlength]
          omega
      · refine ⟨[], stripesFrom_of_le hlt .., trivial, ?_⟩
        rw [UInt64.lt_iff_toNat_lt] at hlt
        simp only [List.map_nil, List.sum_nil]
        omega

/-- Past it the next stripe begins at 0, and the loop is never done. -/
theorem stripesFrom_never (hstop : 2 ^ 64 - 2 ^ 18 < stop.toNat) (hpos : pos < stop)
    (connections fuel : ℕ) : stripesFrom connections stop fuel pos = none := by
  induction fuel generalizing pos with
  | zero => rfl
  | succ fuel ih =>
      have hnext : nextStripe stop pos < stop := by
        have hlt := pos.toNat_lt
        rw [UInt64.lt_iff_toNat_lt, toNat_nextStripe, min_lt_iff]
        left
        omega
      rw [stripesFrom_of_lt hpos, ih hnext, Option.map_none]

/-- More fuel cuts a read no other way. -/
theorem stripesFrom_mono {fuel' : ℕ} (hle : fuel ≤ fuel')
    (h : stripesFrom connections stop fuel pos = some pieces) :
    stripesFrom connections stop fuel' pos = some pieces := by
  induction fuel generalizing pos pieces fuel' with
  | zero => cases h
  | succ fuel ih =>
      cases fuel' with
      | zero => exact absurd hle (Nat.not_succ_le_zero _)
      | succ fuel' =>
          by_cases hlt : pos < stop
          · rw [stripesFrom_of_lt hlt] at h ⊢
            obtain ⟨rest, hrest, rfl⟩ := Option.map_eq_some_iff.mp h
            rw [ih (Nat.le_of_succ_le_succ hle) hrest]
            rfl
          · rw [stripesFrom_of_le hlt] at h ⊢
            exact h

theorem stripes_one (fuel : ℕ) (offset length : UInt64) :
    stripes fuel offset length 1 = some [⟨offset, length, 0⟩] := rfl

theorem stripes_many {n : ℕ} (h : n ≠ 0) (fuel : ℕ) (offset length : UInt64) :
    stripes fuel offset length (n + 1) = stripesFrom (n + 1) (offset + length) fuel offset := by
  have hmax : max (n + 1) 1 = n + 1 := max_eq_left (Nat.le_add_left ..)
  rw [stripes, hmax, if_neg (by omega)]

/-- Every piece has a connection to be read on. -/
theorem connection_lt {offset length : UInt64}
    (h : stripes fuel offset length connections = some pieces) :
    ∀ p ∈ pieces, p.connection < max connections 1 := by
  have hloop : ∀ {n fuel pos pieces}, 0 < n →
      stripesFrom n (offset + length) fuel pos = some pieces →
      ∀ p ∈ pieces, p.connection < n := by
    intro n fuel
    induction fuel with
    | zero => nofun
    | succ fuel ih =>
        intro pos pieces hn h
        rw [stripesFrom] at h
        split at h
        · obtain ⟨rest, hrest, rfl⟩ := Option.map_eq_some_iff.mp h
          intro p hp
          rcases List.mem_cons.mp hp with rfl | hp
          · exact Nat.mod_lt _ hn
          · exact ih hn hrest p hp
        · cases h
          nofun
  rw [stripes] at h
  split at h
  · cases h
    intro p hp
    obtain rfl := List.mem_singleton.mp hp
    exact lt_of_lt_of_le Nat.one_pos (le_max_right _ _)
  · exact hloop (lt_of_lt_of_le Nat.one_pos (le_max_right _ _)) h

end Cut

/-! ### The read -/

/-- An extra connection, by what its handle on the file answers: `none` where the
connection fails. -/
structure Lane where
  readAt : UInt64 → UInt64 → Option Bytes

/-- The main session, by its answers, and the extra ones that are up. -/
structure Session where
  readOnMain : UInt64 → UInt64 → Except SynoFsError Bytes
  readFull : Except SynoFsError Bytes
  lanes : List Lane

namespace Session

variable (s : Session)

def readOnLane (lane : Lane) (offset length : UInt64) : Except SynoFsError Bytes :=
  match lane.readAt offset length with
  | some data => if data.length = length.toNat then .ok data else s.readOnMain offset length
  | none => s.readOnMain offset length

def readPiece (p : Piece) : Except SynoFsError Bytes :=
  match p.connection with
  | 0 => s.readOnMain p.offset p.length
  | n + 1 =>
      match s.lanes[n]? with
      | some lane => s.readOnLane lane p.offset p.length
      | none => s.readOnMain p.offset p.length

/-- `read`, of a path that names a file. The pieces are read at the same time;
where more than one fails, which error comes back is a matter of time. -/
def read (fuel : ℕ) (offset length : UInt64) : Option (Except SynoFsError Bytes) :=
  if length = 0 then some s.readFull
  else
    (stripes fuel offset length (s.lanes.length + 1)).map fun pieces =>
      match pieces with
      | [only] => s.readPiece only
      | pieces =>
          (pieces.mapM s.readPiece).map fun parts =>
            joinParts (parts.zip (pieces.map (·.length.toNat)))

/-- The main session reads, and knows where the file ends. -/
def ReadsTrue (content : Bytes) : Prop :=
  ∀ offset length, s.readOnMain offset length = .ok (slice content offset.toNat length.toNat)

end Session

/-- What an extra connection reads in full is what the file holds; it may fail, and
know less of the file than there is. -/
def Lane.FullOrShort (lane : Lane) (content : Bytes) : Prop :=
  ∀ offset length data, lane.readAt offset length = some data → data.length = length.toNat →
    data = slice content offset.toNat length.toNat

section Read

variable {s : Session} {content : Bytes} {fuel : ℕ} {offset length : UInt64} {e : SynoFsError}

theorem readOnMain_of_readPiece {p : Piece} (h : s.readPiece p = .error e) :
    s.readOnMain p.offset p.length = .error e := by
  unfold Session.readPiece Session.readOnLane at h
  split at h
  · exact h
  · split at h
    · split at h
      · split at h
        · cases h
        · exact h
      · exact h
    · exact h

theorem readPiece_true (htrue : s.ReadsTrue content)
    (hlanes : ∀ lane ∈ s.lanes, lane.FullOrShort content) (p : Piece) :
    s.readPiece p = .ok (slice content p.offset.toNat p.length.toNat) := by
  unfold Session.readPiece Session.readOnLane
  split
  · exact htrue ..
  · split
    case h_1 lane hlane =>
      split
      case h_1 data hdata =>
        split
        case isTrue hfull =>
          rw [hlanes lane (List.mem_of_getElem? hlane) _ _ _ hdata hfull]
        case isFalse => exact htrue ..
      case h_2 => exact htrue ..
    case h_2 => exact htrue ..

/-- All the pieces were read, each on its own. -/
theorem mapM_eq_ok {α β ε : Type} {f : α → Except ε β} {g : α → β} {xs : List α}
    (h : ∀ x ∈ xs, f x = .ok (g x)) : xs.mapM f = .ok (xs.map g) := by
  induction xs with
  | nil => rfl
  | cons x xs ih =>
      rw [List.mapM_cons, h x (.head _), ih fun y hy => h y (.tail _ hy)]
      rfl

theorem exists_of_mapM_eq_error {α β ε : Type} {f : α → Except ε β} {xs : List α} {e : ε}
    (h : xs.mapM f = .error e) : ∃ x ∈ xs, f x = .error e := by
  induction xs with
  | nil => cases h
  | cons x xs ih =>
      rw [List.mapM_cons] at h
      cases hx : f x with
      | error e' =>
          rw [hx] at h
          cases h
          exact ⟨x, .head _, hx⟩
      | ok y =>
          rw [hx] at h
          cases hxs : xs.mapM f with
          | error e' =>
              rw [hxs] at h
              cases h
              obtain ⟨z, hz, hfz⟩ := ih hxs
              exact ⟨z, .tail _ hz, hfz⟩
          | ok ys =>
              rw [hxs] at h
              cases h

theorem zip_slices {pos : ℕ} {pieces : List Piece} (h : InOrder pos pieces) :
    (pieces.map fun p => slice content p.offset.toNat p.length.toNat).zip
      (pieces.map (·.length.toNat)) = slices content pos (pieces.map (·.length.toNat)) := by
  induction pieces generalizing pos with
  | nil => rfl
  | cons p pieces ih =>
      obtain ⟨rfl, h⟩ := h
      simp only [List.map_cons, List.zip_cons_cons, slices, ih h]

/-- A read that was cut is the read of all it was cut into. -/
theorem read_cut (htrue : s.ReadsTrue content)
    (hlanes : ∀ lane ∈ s.lanes, lane.FullOrShort content) (hlength : length ≠ 0)
    {pieces : List Piece} (h : stripes fuel offset length (s.lanes.length + 1) = some pieces)
    (horder : InOrder offset.toNat pieces) :
    s.read fuel offset length =
      some (.ok (slice content offset.toNat (pieces.map (·.length.toNat)).sum)) := by
  rw [Session.read, if_neg hlength, h, Option.map_some]
  congr 1
  split
  case h_1 only =>
    rw [readPiece_true htrue hlanes, horder.1, List.map_singleton, List.sum_singleton]
  case h_2 =>
    rw [mapM_eq_ok fun p _ => readPiece_true htrue hlanes p]
    have hjoined := joinParts_slices content offset.toNat (pieces.map (·.length.toNat))
    rw [← zip_slices horder] at hjoined
    exact congrArg Except.ok hjoined

/-- A failed read: some piece failed on the main session. -/
theorem main_failed (hlength : length ≠ 0) (h : s.read fuel offset length = some (.error e)) :
    ∃ pieces, stripes fuel offset length (s.lanes.length + 1) = some pieces ∧
      ∃ p ∈ pieces, s.readOnMain p.offset p.length = .error e := by
  rw [Session.read, if_neg hlength] at h
  obtain ⟨pieces, hpieces, hread⟩ := Option.map_eq_some_iff.mp h
  refine ⟨pieces, hpieces, ?_⟩
  split at hread
  case h_1 only => exact ⟨only, .head _, readOnMain_of_readPiece hread⟩
  case h_2 =>
    cases hparts : pieces.mapM s.readPiece with
    | error e' =>
        rw [hparts] at hread
        cases hread
        obtain ⟨p, hp, hfailed⟩ := exists_of_mapM_eq_error hparts
        exact ⟨p, hp, readOnMain_of_readPiece hfailed⟩
    | ok parts =>
        rw [hparts] at hread
        cases hread

/-- The end of the read is an offset below the last stripe, or the file has nothing
where the read begins that a read around the end of the offsets could lose. -/
def EndFits (lanes : ℕ) (offset length : UInt64) (fileLength : ℕ) : Prop :=
  lanes = 0 ∨ offset.toNat + length.toNat ≤ 2 ^ 64 - 2 ^ 18 ∨
    2 ^ 64 ≤ offset.toNat + length.toNat ∧ fileLength ≤ offset.toNat

theorem ends_of_endFits (htrue : s.ReadsTrue content)
    (hlanes : ∀ lane ∈ s.lanes, lane.FullOrShort content) (hlength : length ≠ 0)
    (h : EndFits s.lanes.length offset length content.length) :
    ∃ fuel, s.read fuel offset length =
      some (.ok (slice content offset.toNat length.toNat)) := by
  have hstop := UInt64.toNat_add offset length
  by_cases hnone : s.lanes.length = 0
  · refine ⟨0, ?_⟩
    have hone : stripes 0 offset length (s.lanes.length + 1) = some [⟨offset, length, 0⟩] := by
      rw [hnone]
      exact stripes_one ..
    exact read_cut htrue hlanes hlength hone ⟨rfl, trivial⟩
  · rcases h with hzero | hfits | ⟨hwraps, hempty⟩
    · exact absurd hzero hnone
    · rw [Nat.mod_eq_of_lt (by omega)] at hstop
      have hle : offset ≤ offset + length := UInt64.le_iff_toNat_le.mpr (by omega)
      obtain ⟨pieces, hpieces, horder, hsum⟩ :=
        stripesFrom_ends (hstop ▸ hfits) hle (Nat.lt_succ_self _)
      have hcut := (stripes_many hnone _ offset length).trans hpieces
      refine ⟨_, (read_cut htrue hlanes hlength hcut horder).trans ?_⟩
      have hall : (pieces.map (·.length.toNat)).sum = length.toNat := by omega
      rw [hall]
    · have hlt := length.toNat_lt
      have hnothing : ¬offset < offset + length := by
        rw [UInt64.lt_iff_toNat_lt, hstop]
        omega
      have hcut := (stripes_many hnone 1 offset length).trans (stripesFrom_of_le hnothing _ 0)
      refine ⟨1, (read_cut htrue hlanes hlength hcut trivial).trans ?_⟩
      have hpast : content.drop offset.toNat = [] := List.drop_eq_nil_of_le hempty
      rw [slice, slice, hpast, List.take_nil, List.take_nil]

theorem endFits_of_ends (htrue : s.ReadsTrue content)
    (hlanes : ∀ lane ∈ s.lanes, lane.FullOrShort content) (hlength : length ≠ 0)
    (h : s.read fuel offset length = some (.ok (slice content offset.toNat length.toNat))) :
    EndFits s.lanes.length offset length content.length := by
  have hstop := UInt64.toNat_add offset length
  have hpositive : 0 < length.toNat := by
    rw [Nat.pos_iff_ne_zero]
    exact fun hzero => hlength (UInt64.toNat_inj.mp hzero)
  by_contra hfits
  unfold EndFits at hfits
  push Not at hfits
  obtain ⟨hnone, hlast, hwrapped⟩ := hfits
  by_cases hwraps : 2 ^ 64 ≤ offset.toNat + length.toNat
  · -- Nothing is read, and there was something.
    have hlt := length.toNat_lt
    have hnothing : ¬offset < offset + length := by
      rw [UInt64.lt_iff_toNat_lt, hstop]
      omega
    cases fuel with
    | zero =>
        rw [Session.read, if_neg hlength, stripes_many hnone] at h
        cases h
    | succ fuel =>
        have hcut := (stripes_many hnone (fuel + 1) offset length).trans
          (stripesFrom_of_le hnothing _ fuel)
        have hread := (read_cut htrue hlanes hlength hcut trivial).symm.trans h
        have hlengths := congrArg List.length (Except.ok.inj (Option.some.inj hread))
        have hpast := hwrapped hwraps
        simp only [length_slice, List.map_nil, List.sum_nil] at hlengths
        omega
  · -- The loop is not done with the last stripe.
    rw [Nat.mod_eq_of_lt (by omega)] at hstop
    have hlt : offset < offset + length := UInt64.lt_iff_toNat_lt.mpr (by omega)
    have hnever := stripesFrom_never (by omega) hlt (s.lanes.length + 1) fuel
    rw [Session.read, if_neg hlength, stripes_many hnone, hnever] at h
    cases h

/-- A read that has ended gives nothing else with more fuel. -/
theorem read_mono {fuel' : ℕ} {r : Except SynoFsError Bytes} (hle : fuel ≤ fuel')
    (h : s.read fuel offset length = some r) : s.read fuel' offset length = some r := by
  rw [Session.read] at h ⊢
  split
  case isTrue hzero => rwa [if_pos hzero] at h
  case isFalse hlength =>
    rw [if_neg hlength] at h
    obtain ⟨pieces, hpieces, hr⟩ := Option.map_eq_some_iff.mp h
    have hmore : stripes fuel' offset length (s.lanes.length + 1) = some pieces := by
      rw [stripes] at hpieces ⊢
      split
      case isTrue hone => rwa [if_pos hone] at hpieces
      case isFalse hmany =>
        rw [if_neg hmany] at hpieces
        exact stripesFrom_mono hle hpieces
    rw [hmore]
    exact congrArg some hr

variable (s content offset length)

/-- **A striped read is a plain read**, whatever the extra connections do, exactly
when the end of the read fits; and it fails only if the main session does. -/
theorem striped_read_iff (hlength : length ≠ 0)
    (hlanes : ∀ lane ∈ s.lanes, lane.FullOrShort content) :
    (∀ fuel e, s.read fuel offset length = some (.error e) →
      ∃ pieces, stripes fuel offset length (s.lanes.length + 1) = some pieces ∧
        ∃ p ∈ pieces, s.readOnMain p.offset p.length = .error e) ∧
    (s.ReadsTrue content →
      ((∃ fuel, ∀ more, fuel ≤ more →
          s.read more offset length = some (.ok (slice content offset.toNat length.toNat))) ↔
        EndFits s.lanes.length offset length content.length)) := by
  refine ⟨fun fuel e h => main_failed hlength h, fun htrue => ⟨?_, ?_⟩⟩
  · rintro ⟨fuel, h⟩
    exact endFits_of_ends htrue hlanes hlength (h fuel (Nat.le_refl _))
  · intro hfits
    obtain ⟨fuel, h⟩ := ends_of_endFits htrue hlanes hlength hfits
    exact ⟨fuel, fun more hmore => read_mono hmore h⟩

end Read

/-- A file of three bytes, and one extra connection that knows of `known` of them. -/
def threeBytes (known : ℕ) : Session where
  readOnMain offset length := .ok (slice [1, 2, 3] offset.toNat length.toNat)
  readFull := .ok [1, 2, 3]
  lanes := [⟨fun offset length => some ((slice [1, 2, 3] offset.toNat length.toNat).take known)⟩]

theorem threeBytes_reads_true (known : ℕ) : (threeBytes known).ReadsTrue [1, 2, 3] :=
  fun _ _ => rfl

theorem threeBytes_full_or_short (known : ℕ) :
    ∀ lane ∈ (threeBytes known).lanes, lane.FullOrShort [1, 2, 3] := by
  intro lane hlane offset length data hdata hfull
  obtain rfl := List.mem_singleton.mp hlane
  obtain rfl := Option.some.inj hdata
  rw [List.length_take, length_slice] at hfull
  refine List.take_of_length_le ?_
  rw [length_slice]
  omega

/-- Two pieces, and the extra connection knows of one byte. -/
theorem stale_end_read : ∃ fuel, ∀ more, fuel ≤ more →
    (threeBytes 1).read more 1 262144 = some (.ok [2, 3]) := by
  have hread := striped_read_iff (threeBytes 1) [1, 2, 3] 1 262144 (by decide)
    (threeBytes_full_or_short 1)
  exact (hread.2 (threeBytes_reads_true 1)).mpr (.inr (.inl (by decide)))

/-- `u64::MAX`, all there is. -/
def everything : UInt64 := 0xFFFFFFFFFFFFFFFF

/-- All there is from the second byte on: the end of the read wraps to 0. -/
theorem read_to_the_end_is_empty :
    (threeBytes 3).ReadsTrue [1, 2, 3] ∧
      (∀ lane ∈ (threeBytes 3).lanes, lane.FullOrShort [1, 2, 3]) ∧
      (threeBytes 3).readOnMain 1 everything = .ok [2, 3] ∧
      ∀ fuel, (threeBytes 3).read (fuel + 1) 1 everything = some (.ok []) := by
  refine ⟨threeBytes_reads_true 3, threeBytes_full_or_short 3, rfl, fun fuel => ?_⟩
  have hwraps : ¬(1 : UInt64) < 1 + everything := by decide
  have hcut : stripes (fuel + 1) 1 everything ((threeBytes 3).lanes.length + 1) = some [] :=
    (stripes_many Nat.one_ne_zero ..).trans (stripesFrom_of_le hwraps ..)
  rw [Session.read, if_neg (by decide), hcut]
  rfl

end SynologyFilestation.Smb
