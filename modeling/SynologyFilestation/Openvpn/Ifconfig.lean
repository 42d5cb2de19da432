import SynologyFilestation.Openvpn.Push

/-!
Where the server puts this end (`openvpn/src/ip.rs`).

The second address of `ifconfig` is a netmask or the peer's, and nothing says which. A netmask is
a run of ones with zeros behind it, so it is told by its bits.
-/

namespace SynologyFilestation.Openvpn

open Core Library

/-- `leading_ones`. -/
def leadingOnes {w : ℕ} (bits : BitVec w) : ℕ := (~~~bits).clz.toNat

/-- `checked_shl`. -/
def checkedShl {w : ℕ} (bits : BitVec w) (n : ℕ) : Option (BitVec w) :=
  if n < w then some (bits <<< n) else none

/-- `prefix_of_netmask`, of the bits. -/
def prefixOfBits {w : ℕ} (bits : BitVec w) : Option ℕ :=
  let ones := leadingOnes bits
  if ones = 0 ∨ (checkedShl bits ones).getD 0 ≠ 0 then none else some ones

/-- `prefix_of_netmask`. -/
def prefixOfNetmask (candidate : Bytes) : Option ℕ :=
  prefixOfBits (fromBeBytes candidate).toBitVec

/-- `Ifconfig`. An address is its octets, and `prefixLength` is `prefix`. -/
structure Ifconfig where
  address : Bytes
  prefixLength : ℕ
  deriving DecidableEq

/-- `Ifconfig::from_push`: what is not a mask is the peer of a block of four addresses. -/
def Ifconfig.fromPush (address second : Bytes) : Ifconfig :=
  match prefixOfNetmask second with
  | some ones => ⟨address, ones⟩
  | none => ⟨address, 30⟩

/-! ### Runs of ones -/

section Bits

variable {w n : ℕ} {bits : BitVec w}

/-- So many ones with zeros behind them. -/
def onesFirst (w n : ℕ) : ℕ := 2 ^ w - 2 ^ (w - n)

theorem leadingOnes_le : leadingOnes bits ≤ w := by
  have h := BitVec.le_def.mp (BitVec.clz_le (x := ~~~bits))
  simpa [leadingOnes, Nat.mod_eq_of_lt Nat.lt_two_pow_self] using h

/-- What is in front are ones. -/
theorem onesFirst_le : onesFirst w (leadingOnes bits) ≤ bits.toNat := by
  have hless : (~~~bits).toNat < 2 ^ (w - leadingOnes bits) := BitVec.toNat_lt_two_pow_sub_clz
  have hbits := bits.isLt
  rw [BitVec.toNat_not] at hless
  rw [onesFirst]
  omega

theorem onesFirst_lt {m : ℕ} (hless : m < n) (hn : n ≤ w) : onesFirst w m < onesFirst w n := by
  have hpow : 2 ^ (w - n) < 2 ^ (w - m) := Nat.pow_lt_pow_right (by omega) (by omega)
  have hall : 2 ^ (w - m) ≤ 2 ^ w := Nat.pow_le_pow_right (by omega) (by omega)
  simp only [onesFirst]
  omega

/-- Behind them is a zero, if there is anything. -/
theorem lt_onesFirst (h : leadingOnes bits < w) :
    bits.toNat < onesFirst w (leadingOnes bits + 1) := by
  have hne : ~~~bits ≠ 0#w := by
    intro hzero
    have hclz := BitVec.clz_eq_iff_eq_zero.mpr hzero
    rw [leadingOnes, hclz] at h
    simp [Nat.mod_eq_of_lt Nat.lt_two_pow_self] at h
  have hge := BitVec.two_pow_sub_clz_le_toNat_of_ne_zero (by omega) hne
  have hbits := bits.isLt
  rw [BitVec.toNat_not, Nat.sub_sub, Nat.add_comm 1] at hge
  rw [leadingOnes] at h ⊢
  simp only [onesFirst]
  have hpos := Nat.two_pow_pos (w - ((~~~bits).clz.toNat + 1))
  omega

theorem checkedShl_eq_zero_iff (hn : n ≤ w) :
    (checkedShl bits n).getD 0 = 0 ↔ 2 ^ (w - n) ∣ bits.toNat := by
  rcases hn.lt_or_eq with hless | rfl
  · have hw : 2 ^ w = 2 ^ (w - n) * 2 ^ n := by
      rw [← pow_add]
      congr 1
      omega
    rw [checkedShl, if_pos hless, Option.getD_some, ← BitVec.toNat_inj, BitVec.toNat_shiftLeft,
      Nat.shiftLeft_eq, hw, Nat.mul_mod_mul_right, Nat.dvd_iff_mod_eq_zero]
    simp
  · simp [checkedShl]

theorem dvd_onesFirst (hn : n ≤ w) : 2 ^ (w - n) ∣ onesFirst w n :=
  Nat.dvd_sub (Nat.pow_dvd_pow 2 (by omega)) (Nat.dvd_refl _)

/-- With nothing but zeros behind the ones, there is nothing but the ones. -/
theorem eq_onesFirst_of_dvd (h : 2 ^ (w - leadingOnes bits) ∣ bits.toNat) :
    bits.toNat = onesFirst w (leadingOnes bits) := by
  have hle : onesFirst w (leadingOnes bits) ≤ bits.toNat := onesFirst_le
  have hbits := bits.isLt
  have hrest := Nat.dvd_sub h (dvd_onesFirst leadingOnes_le)
  have hzero := Nat.eq_zero_of_dvd_of_lt hrest (by simp only [onesFirst] at hle ⊢; omega)
  omega

theorem leadingOnes_of_onesFirst (hn : n ≤ w) (h : bits.toNat = onesFirst w n) :
    leadingOnes bits = n := by
  have hle : onesFirst w (leadingOnes bits) ≤ bits.toNat := onesFirst_le
  have hbound : leadingOnes bits ≤ w := leadingOnes_le
  rcases lt_trichotomy (leadingOnes bits) n with hless | hsame | hmore
  · have hafter := lt_onesFirst (hless.trans_le hn)
    have hmono : onesFirst w (leadingOnes bits + 1) ≤ onesFirst w n := by
      rcases (show leadingOnes bits + 1 ≤ n by omega).lt_or_eq with hgap | hnext
      · exact (onesFirst_lt hgap hn).le
      · rw [hnext]
    omega
  · exact hsame
  · have hmono := onesFirst_lt hmore hbound
    omega

/-- **A mask is told by its bits**: a length is given of a run of ones that is not empty, and of
nothing else. -/
theorem prefixOfBits_eq_some_iff :
    prefixOfBits bits = some n ↔ 1 ≤ n ∧ n ≤ w ∧ bits.toNat = onesFirst w n := by
  have hbound : leadingOnes bits ≤ w := leadingOnes_le
  rw [prefixOfBits, Option.ite_none_left_eq_some, not_or, not_not, checkedShl_eq_zero_iff hbound,
    Option.some_inj]
  constructor
  · rintro ⟨⟨hne, hdvd⟩, rfl⟩
    exact ⟨Nat.one_le_iff_ne_zero.mpr hne, hbound, eq_onesFirst_of_dvd hdvd⟩
  · rintro ⟨hpos, hn, h⟩
    have hones := leadingOnes_of_onesFirst hn h
    rw [hones, h]
    exact ⟨⟨Nat.one_le_iff_ne_zero.mp hpos, dvd_onesFirst hn⟩, rfl⟩

end Bits

/-- The octets of a mask of so many ones. -/
def netmask (ones : ℕ) : Bytes := toBeBytes (.ofNat (onesFirst 32 ones))

theorem prefixOfNetmask_eq_some_iff {candidate : Bytes} (h : candidate.length = 4) {ones : ℕ} :
    prefixOfNetmask candidate = some ones ↔ 1 ≤ ones ∧ ones ≤ 32 ∧ candidate = netmask ones := by
  have hless : onesFirst 32 ones < 2 ^ 32 := by
    have hpos := Nat.two_pow_pos (32 - ones)
    simp only [onesFirst]
    omega
  rw [prefixOfNetmask, prefixOfBits_eq_some_iff]
  refine and_congr_right fun _ => and_congr_right fun _ => ?_
  constructor
  · intro hbits
    rw [netmask, ← hbits, UInt32.toNat_toBitVec, UInt32.ofNat_toNat, toBeBytes_fromBeBytes h]
  · rintro rfl
    rw [netmask, fromBeBytes_toBeBytes, UInt32.toNat_toBitVec, UInt32.toNat_ofNat_of_lt' hless]

/-- **The second address is read as a mask exactly if it is one**: the mask of one to all bits
gives its length, and every other address is a peer's, which is one of a block of four. -/
theorem fromPush_eq_iff {second : Bytes} (h : second.length = 4) {address : Bytes}
    {ifconfig : Ifconfig} :
    Ifconfig.fromPush address second = ifconfig ↔ ifconfig.address = address ∧
      ((1 ≤ ifconfig.prefixLength ∧ ifconfig.prefixLength ≤ 32 ∧
          second = netmask ifconfig.prefixLength) ∨
        (ifconfig.prefixLength = 30 ∧ ∀ ones, 1 ≤ ones → ones ≤ 32 → second ≠ netmask ones)) := by
  obtain ⟨ours, length⟩ := ifconfig
  rw [Ifconfig.fromPush]
  split
  case h_1 ones hones =>
    have hmask := (prefixOfNetmask_eq_some_iff h).mp hones
    rw [Ifconfig.mk.injEq, eq_comm (a := address)]
    refine and_congr_right fun _ => ?_
    constructor
    · rintro rfl
      exact .inl hmask
    · rintro (hlength | ⟨-, hpeer⟩)
      · have hsome := (prefixOfNetmask_eq_some_iff h).mpr hlength
        exact Option.some.inj (hones.symm.trans hsome)
      · exact absurd hmask.2.2 (hpeer ones hmask.1 hmask.2.1)
  case h_2 hnone =>
    have hpeer : ∀ ones, 1 ≤ ones → ones ≤ 32 → second ≠ netmask ones := by
      intro ones hpos hle hsecond
      rw [(prefixOfNetmask_eq_some_iff h).mpr ⟨hpos, hle, hsecond⟩] at hnone
      cases hnone
    rw [Ifconfig.mk.injEq, eq_comm (a := address)]
    refine and_congr_right fun _ => ?_
    constructor
    · rintro rfl
      exact .inr ⟨rfl, hpeer⟩
    · rintro (⟨hpos, hle, hsecond⟩ | ⟨hlength, -⟩)
      · exact absurd hsecond (hpeer length hpos hle)
      · exact hlength.symm

/-- The shape of the address that the server at hand pushes, and of the one that a server of a
later version does. -/
theorem fromPush_both_topologies :
    Ifconfig.fromPush [10, 90, 24, 6] [10, 90, 24, 5] = ⟨[10, 90, 24, 6], 30⟩ ∧
      Ifconfig.fromPush [10, 8, 0, 2] [255, 255, 255, 0] = ⟨[10, 8, 0, 2], 24⟩ :=
  ⟨(fromPush_eq_iff rfl).mpr ⟨rfl, .inr ⟨rfl, by decide +kernel⟩⟩,
    (fromPush_eq_iff rfl).mpr ⟨rfl, .inl ⟨by decide, by decide, by decide +kernel⟩⟩⟩

end SynologyFilestation.Openvpn
