import SynologyFilestation.Core.Error
import SynologyFilestation.Core.Path

/-!
A read, assembled out of blocks (`read_range` in `fuse/src/fs/mod.rs`). Each
block of the range is found in the cache, downloaded under a claim, or waited
for while someone else downloads it. An empty block says that the file has ended,
and so does a short one.

A script says how each block is come by; who else acts on the cache meanwhile is
in what it says.
-/

namespace SynologyFilestation.Fuse

open Core

/-- How one block of a read is come by: what `get` finds, whether `claim_inflight`
is won, what the download brings, and what a wait on another's claim does. -/
structure BlockScript where
  cached : Option Bytes
  claimed : Bool
  downloaded : Except SynoFsError Bytes
  waited : Option Bytes

/-- An empty block is the end of the file. -/
def untilEof (block : Bytes) : Option Bytes := if block = [] then none else some block

def resolveBlock (b : BlockScript) : Except SynoFsError (Option Bytes) :=
  match b.cached with
  | some cached => .ok (untilEof cached)
  | none =>
      if b.claimed then b.downloaded.map untilEof
      else
        match b.waited with
        | some block => .ok (untilEof block)
        | none => .error (.io "block download failed")

/-- The part of a block that lies in the range. -/
def overlap (blockSize offset size blockIdx : ℕ) (block : Bytes) : Bytes :=
  let blockStart := blockIdx * blockSize
  let localStart := offset - blockStart
  let localEnd := min (min (offset + size - blockStart) blockSize) block.length
  if localStart < localEnd then (block.take localEnd).drop localStart else []

/-- The blocks left of `read_range`, from `blockIdx` on. -/
def readBlocks (blockSize : ℕ) (sc : ℕ → BlockScript) (offset size : ℕ) :
    ℕ → ℕ → Bytes → Except SynoFsError Bytes
  | 0, _, result => .ok result
  | left + 1, blockIdx, result =>
      match resolveBlock (sc blockIdx) with
      | .error e => .error e
      | .ok none => .ok result
      | .ok (some block) =>
          let result := result ++ overlap blockSize offset size blockIdx block
          -- A short block is the last one with data.
          if block.length < blockSize then .ok result
          else readBlocks blockSize sc offset size left (blockIdx + 1) result

def readRange (blockSize : ℕ) (sc : ℕ → BlockScript) (offset size : ℕ) :
    Except SynoFsError Bytes :=
  let firstBlock := offset / blockSize
  let lastBlock := (offset + size - 1) / blockSize
  readBlocks blockSize sc offset size (lastBlock + 1 - firstBlock) firstBlock []

/-! ### Blocks of a file -/

/-- `file[from .. to)`. -/
def bytesBetween (file : Bytes) (start stop : ℕ) : Bytes := (file.take stop).drop start

/-- A block of the file: its slice if it has data, beyond the end if it has none. -/
def IsBlock (blockSize : ℕ) (file : Bytes) (blockIdx : ℕ) (block : Bytes) : Prop :=
  if block = [] then file.length ≤ blockIdx * blockSize
  else block = (file.drop (blockIdx * blockSize)).take blockSize

instance (blockSize : ℕ) (file : Bytes) (blockIdx : ℕ) (block : Bytes) :
    Decidable (IsBlock blockSize file blockIdx block) :=
  inferInstanceAs (Decidable (if block = [] then file.length ≤ blockIdx * blockSize
    else block = (file.drop (blockIdx * blockSize)).take blockSize))

/-- Every block the script comes by is the file's. -/
structure BlockScript.Truthful (blockSize : ℕ) (file : Bytes) (blockIdx : ℕ)
    (b : BlockScript) : Prop where
  cached : ∀ block, b.cached = some block → IsBlock blockSize file blockIdx block
  downloaded : ∀ block, b.downloaded = .ok block → IsBlock blockSize file blockIdx block
  waited : ∀ block, b.waited = some block → IsBlock blockSize file blockIdx block

section Blocks

variable {blockSize offset size blockIdx : ℕ} {file block : Bytes} {b : BlockScript}

/-- However a block is come by, it is the file's. -/
theorem resolveBlock_truthful (h : b.Truthful blockSize file blockIdx) {found : Option Bytes}
    (hfound : resolveBlock b = .ok found) :
    ∃ block, found = untilEof block ∧ IsBlock blockSize file blockIdx block := by
  unfold resolveBlock at hfound
  split at hfound
  case h_1 cached hcached => exact ⟨cached, (Except.ok.inj hfound).symm, h.cached cached hcached⟩
  case h_2 =>
    split at hfound
    case isTrue =>
      cases hdown : b.downloaded with
      | error e =>
          rw [hdown] at hfound
          cases hfound
      | ok block =>
          rw [hdown] at hfound
          exact ⟨block, (Except.ok.inj hfound).symm, h.downloaded block hdown⟩
    case isFalse =>
      split at hfound
      case h_1 block hwaited => exact ⟨block, (Except.ok.inj hfound).symm, h.waited block hwaited⟩
      case h_2 => cases hfound

theorem bytesBetween_of_length_le {stop stop' : ℕ} (h : file.length ≤ stop)
    (h' : file.length ≤ stop') (start : ℕ) :
    bytesBetween file start stop = bytesBetween file start stop' := by
  rw [bytesBetween, bytesBetween, List.take_of_length_le h, List.take_of_length_le h']

theorem bytesBetween_of_le {start stop : ℕ} (h : stop ≤ start) :
    bytesBetween file start stop = [] := by
  rw [bytesBetween, List.drop_eq_nil_iff, List.length_take]
  omega

/-- The guard of `overlap` saves work and changes nothing. -/
theorem overlap_eq : overlap blockSize offset size blockIdx block =
    (block.take (min (offset + size - blockIdx * blockSize) blockSize)).drop
      (offset - blockIdx * blockSize) := by
  rw [overlap]
  split
  case isTrue => rw [← List.take_take, List.take_length]
  case isFalse h =>
    symm
    rw [List.drop_eq_nil_iff, List.length_take]
    omega

/-- A block's part of the range goes on where the blocks before it end. -/
theorem bytesBetween_append_overlap (hstart : blockIdx * blockSize ≤ file.length)
    (hrange : blockIdx * blockSize ≤ offset + size) :
    bytesBetween file offset (blockIdx * blockSize) ++
        overlap blockSize offset size blockIdx
          ((file.drop (blockIdx * blockSize)).take blockSize) =
      bytesBetween file offset (min ((blockIdx + 1) * blockSize) (offset + size)) := by
  have hstop : min ((blockIdx + 1) * blockSize) (offset + size) =
      blockIdx * blockSize + min (offset + size - blockIdx * blockSize) blockSize := by
    rw [Nat.succ_mul]
    omega
  rw [overlap_eq, bytesBetween, bytesBetween, hstop, List.take_add, List.drop_append,
    List.length_take, Nat.min_eq_left hstart, List.take_take,
    Nat.min_eq_left (Nat.min_le_right _ _)]

theorem bytesBetween_of_ended {stop stop' : ℕ} (h : file.length ≤ stop) (h' : stop ≤ stop')
    (start : ℕ) : bytesBetween file start stop = bytesBetween file start stop' :=
  bytesBetween_of_length_le h (h.trans h') start

/-- **The loop.** With the blocks before `blockIdx` in `result`, it returns the
range. -/
theorem readBlocks_truthful {sc : ℕ → BlockScript} (hpos : 0 < blockSize) (hsize : 0 < size)
    (h : ∀ idx, (sc idx).Truthful blockSize file idx) {left : ℕ} {result data : Bytes}
    (hlast : (offset + size - 1) / blockSize + 1 = blockIdx + left)
    (hresult : result = bytesBetween file offset (min (blockIdx * blockSize) (offset + size)))
    (hdata : readBlocks blockSize sc offset size left blockIdx result = .ok data) :
    data = bytesBetween file offset (offset + size) := by
  induction left generalizing blockIdx result with
  | zero =>
      have hend : offset + size ≤ blockIdx * blockSize := by
        have hlt := Nat.lt_mul_div_succ (offset + size - 1) hpos
        rw [hlast, Nat.add_zero, Nat.mul_comm] at hlt
        omega
      rw [readBlocks] at hdata
      rw [← Except.ok.inj hdata, hresult, Nat.min_eq_right hend]
  | succ left ih =>
      have hstart : blockIdx * blockSize < offset + size := by
        have hle : blockIdx ≤ (offset + size - 1) / blockSize := by omega
        have hmul := (Nat.le_div_iff_mul_le hpos).mp hle
        omega
      rw [Nat.min_eq_left hstart.le] at hresult
      rw [readBlocks] at hdata
      cases hfound : resolveBlock (sc blockIdx) with
      | error e =>
          rw [hfound] at hdata
          cases hdata
      | ok found =>
          obtain ⟨block, rfl, hblock⟩ := resolveBlock_truthful (h blockIdx) hfound
          rw [hfound, untilEof] at hdata
          rw [IsBlock] at hblock
          by_cases hempty : block = []
          · rw [if_pos hempty] at hblock hdata
            rw [← Except.ok.inj hdata, hresult]
            exact bytesBetween_of_ended hblock hstart.le offset
          · rw [if_neg hempty] at hblock hdata
            have hbegun : blockIdx * blockSize ≤ file.length := by
              by_contra hover
              rw [List.drop_eq_nil_of_le (Nat.le_of_not_le hover)] at hblock
              exact hempty (hblock.trans (List.take_nil))
            have hnext : result ++ overlap blockSize offset size blockIdx block =
                bytesBetween file offset (min ((blockIdx + 1) * blockSize) (offset + size)) := by
              rw [hresult, hblock, bytesBetween_append_overlap hbegun hstart.le]
            dsimp only at hdata
            split at hdata
            case isTrue hshort =>
              have hended : file.length ≤ (blockIdx + 1) * blockSize := by
                rw [hblock, List.length_take, List.length_drop] at hshort
                rw [Nat.succ_mul]
                omega
              rw [← Except.ok.inj hdata, hnext]
              rcases Nat.le_total ((blockIdx + 1) * blockSize) (offset + size) with hle | hle
              · rw [Nat.min_eq_left hle]
                exact bytesBetween_of_ended hended hle offset
              · rw [Nat.min_eq_right hle]
            case isFalse => exact ih (by omega) hnext hdata

/-- **A read returns the file's bytes.** -/
theorem readRange_truthful {sc : ℕ → BlockScript} (hpos : 0 < blockSize) (hsize : 0 < size)
    (h : ∀ idx, (sc idx).Truthful blockSize file idx) {data : Bytes}
    (hdata : readRange blockSize sc offset size = .ok data) :
    data = bytesBetween file offset (min (offset + size) file.length) := by
  have hfirst : offset / blockSize ≤ (offset + size - 1) / blockSize :=
    Nat.div_le_div_right (by omega)
  have hnothing : [] = bytesBetween file offset
      (min (offset / blockSize * blockSize) (offset + size)) := by
    symm
    apply bytesBetween_of_le
    exact (Nat.min_le_left _ _).trans (Nat.div_mul_le_self offset blockSize)
  have hbytes : data = bytesBetween file offset (offset + size) :=
    readBlocks_truthful hpos hsize h (by omega) hnothing hdata
  rw [hbytes, bytesBetween, bytesBetween, ← List.take_take, List.take_length]

end Blocks

/-- One block cached, the next waited for, and nothing behind it. -/
def threeWays (blockIdx : ℕ) : BlockScript :=
  match blockIdx with
  | 0 => ⟨some [1, 2, 3, 4], false, .error .notFound, none⟩
  | 1 => ⟨none, false, .error .notFound, some [5, 6]⟩
  | _ => ⟨none, true, .ok [], none⟩

theorem threeWays_truthful (idx : ℕ) :
    (threeWays idx).Truthful 4 [1, 2, 3, 4, 5, 6] idx := by
  match idx with
  | 0 =>
      refine ⟨fun block h => ?_, nofun, nofun⟩
      obtain rfl := Option.some.inj h
      decide
  | 1 =>
      refine ⟨nofun, nofun, fun block h => ?_⟩
      obtain rfl := Option.some.inj h
      decide
  | idx + 2 =>
      refine ⟨nofun, fun block h => ?_, nofun⟩
      obtain rfl := Except.ok.inj h
      rw [IsBlock, if_pos rfl]
      simp only [List.length_cons, List.length_nil]
      omega

theorem threeWays_read :
    ([3, 4, 5, 6] : Bytes) = bytesBetween [1, 2, 3, 4, 5, 6] 2 (min (2 + 9) 6) :=
  readRange_truthful (by decide) (by decide) threeWays_truthful
    (show readRange 4 threeWays 2 9 = .ok [3, 4, 5, 6] by decide)

end SynologyFilestation.Fuse
