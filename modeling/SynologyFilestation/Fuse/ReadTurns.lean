import SynologyFilestation.Fuse.ReadRange
import SynologyFilestation.Library.Patch

/-!
A read taken block by block (the loop of `read_range` in `fuse/src/fs/mod.rs`),
with the writes that had returned when it was asked for. Between two of its
blocks anything may happen to the cache and to the NAS, so a turn is told its
block and nothing else.

A turn leaves what the read has so far right exactly when its block shows, in
the range, the file as written: `FileRead.Turning` holds between two turns, and
`FileRead.Sound` of a read in any state.
-/

namespace SynologyFilestation.Fuse

open Core Library

/-- What the kernel is answered. -/
inductive ReadReply
  | data (bytes : Bytes)
  /-- The inode has no path: `ENOENT`. -/
  | noEntry
  | failed (e : SynoFsError)
  deriving DecidableEq

structure FileRead where
  offset : ℕ
  size : ℕ
  /-- The writes that had returned `Ok` when the read was asked for, in order. -/
  written : List (Write UInt8)
  /-- The inode had a path then. -/
  named : Bool
  blockIdx : ℕ
  /-- The blocks still to come, `blockIdx` with them. -/
  left : ℕ
  result : Bytes
  /-- The blocks it was given, by their indices. -/
  taken : List (ℕ × Bytes)
  reply : Option ReadReply

namespace FileRead

/-- `read`, up to its first block. -/
def ask (blockSize : ℕ) (named : Bool) (written : List (Write UInt8)) (offset size : ℕ) :
    FileRead where
  offset := offset
  size := size
  written := written
  named := named
  blockIdx := offset / blockSize
  left := (offset + size - 1) / blockSize + 1 - offset / blockSize
  result := []
  taken := []
  reply := if size = 0 then some (.data []) else if named then none else some .noEntry

/-- One round of the loop of `read_range`, with its block at hand. -/
def take (blockSize : ℕ) (block : Bytes) (r : FileRead) : FileRead :=
  let taken := r.taken ++ [(r.blockIdx, block)]
  match untilEof block with
  | none => { r with taken := taken, reply := some (.data r.result) }
  | some block =>
      let result := r.result ++ overlap blockSize r.offset r.size r.blockIdx block
      -- A short block is the last one with data.
      if block.length < blockSize ∨ r.left = 1 then
        { r with taken := taken, result := result, reply := some (.data result) }
      else
        { r with taken := taken, result := result, blockIdx := r.blockIdx + 1, left := r.left - 1 }

/-- A block that could not be had ends the read. -/
def fail (e : SynoFsError) (r : FileRead) : FileRead := { r with reply := some (.failed e) }

/-- What is left of `read_range`. -/
def rest (blockSize : ℕ) (sc : ℕ → BlockScript) (r : FileRead) : Except SynoFsError Bytes :=
  readBlocks blockSize sc r.offset r.size r.left r.blockIdx r.result

/-- Asking begins `read_range`. -/
theorem rest_ask (blockSize : ℕ) (sc : ℕ → BlockScript) (named : Bool)
    (written : List (Write UInt8)) (offset size : ℕ) :
    (ask blockSize named written offset size).rest blockSize sc =
      readRange blockSize sc offset size := rfl

/-- A turn is a round of its loop. -/
theorem rest_take {blockSize : ℕ} {sc : ℕ → BlockScript} {r : FileRead} {block : Bytes}
    (hopen : r.reply = none) (hleft : 0 < r.left)
    (hblock : resolveBlock (sc r.blockIdx) = .ok (untilEof block)) :
    r.rest blockSize sc =
      match (r.take blockSize block).reply with
      | some (.data bytes) => .ok bytes
      | _ => (r.take blockSize block).rest blockSize sc := by
  obtain ⟨left, hsucc⟩ : ∃ left, r.left = left + 1 := ⟨r.left - 1, by omega⟩
  rw [rest, hsucc, readBlocks, hblock, take]
  cases huntil : untilEof block with
  | none => rfl
  | some block =>
      dsimp only
      by_cases hshort : block.length < blockSize
      · rw [if_pos hshort, if_pos (Or.inl hshort)]
      · rw [if_neg hshort]
        by_cases hlast : r.left = 1
        · obtain rfl : left = 0 := by omega
          rw [if_pos (Or.inr hlast), readBlocks]
        · rw [if_neg (by simp [hshort, hlast]), hopen, rest, hsucc]
          rfl

end FileRead

/-! ### What a block shows of a file -/

/-- A block of the file. -/
def blockOf (blockSize : ℕ) (file : Bytes) (blockIdx : ℕ) : Bytes :=
  (file.drop (blockIdx * blockSize)).take blockSize

/-- Where the block lies in the range, it has what the file has. -/
def Shows (blockSize : ℕ) (file : Bytes) (offset size blockIdx : ℕ) (block : Bytes) : Prop :=
  ∀ i < offset + size, offset ≤ i → blockIdx * blockSize ≤ i → i < (blockIdx + 1) * blockSize →
    block[i - blockIdx * blockSize]? = file[i]?

instance (blockSize : ℕ) (file : Bytes) (offset size blockIdx : ℕ) (block : Bytes) :
    Decidable (Shows blockSize file offset size blockIdx block) :=
  inferInstanceAs (Decidable (∀ i < offset + size, offset ≤ i → blockIdx * blockSize ≤ i →
    i < (blockIdx + 1) * blockSize → block[i - blockIdx * blockSize]? = file[i]?))

section Blocks

variable {blockSize offset size blockIdx : ℕ} {file block more : Bytes}

theorem length_overlap : (overlap blockSize offset size blockIdx block).length =
    min (min (offset + size - blockIdx * blockSize) blockSize) block.length -
      (offset - blockIdx * blockSize) := by
  rw [overlap_eq, List.length_drop, List.length_take]

theorem length_blockOf :
    (blockOf blockSize file blockIdx).length =
      min blockSize (file.length - blockIdx * blockSize) := by
  rw [blockOf, List.length_take, List.length_drop]

theorem getElem?_blockOf {j : ℕ} (h : j < blockSize) :
    (blockOf blockSize file blockIdx)[j]? = file[blockIdx * blockSize + j]? := by
  rw [blockOf, List.getElem?_take_of_lt h, List.getElem?_drop]

/-- Such a block gives the read what the file's own would. -/
theorem shows_iff : Shows blockSize file offset size blockIdx block ↔
    overlap blockSize offset size blockIdx block =
      overlap blockSize offset size blockIdx (blockOf blockSize file blockIdx) := by
  rw [overlap_eq, overlap_eq]
  constructor
  · intro h
    apply List.ext_getElem?
    intro k
    rw [List.getElem?_drop, List.getElem?_drop, List.getElem?_take, List.getElem?_take]
    split
    case isFalse => rfl
    case isTrue hin =>
      have hi := h (blockIdx * blockSize + (offset - blockIdx * blockSize + k)) (by omega)
        (by omega) (by omega) (by rw [Nat.succ_mul]; omega)
      rw [Nat.add_sub_cancel_left] at hi
      rw [hi, getElem?_blockOf (by omega)]
  · intro h i hhigh hlow hbegun hends
    rw [Nat.succ_mul] at hends
    have hk := congrArg (·[i - blockIdx * blockSize - (offset - blockIdx * blockSize)]?) h
    have hat : offset - blockIdx * blockSize +
        (i - blockIdx * blockSize - (offset - blockIdx * blockSize)) =
          i - blockIdx * blockSize := by omega
    have hin : i - blockIdx * blockSize <
        min (offset + size - blockIdx * blockSize) blockSize := by omega
    simp only [List.getElem?_drop, hat, List.getElem?_take_of_lt hin] at hk
    rw [hk, getElem?_blockOf (by omega), Nat.add_sub_cancel' hbegun]

theorem shows_blockOf_iff {stored : Bytes} :
    Shows blockSize file offset size blockIdx (blockOf blockSize stored blockIdx) ↔
      ∀ i < offset + size, offset ≤ i → blockIdx * blockSize ≤ i →
        i < (blockIdx + 1) * blockSize → stored[i]? = file[i]? := by
  have hat : ∀ i, blockIdx * blockSize ≤ i → i < (blockIdx + 1) * blockSize →
      (blockOf blockSize stored blockIdx)[i - blockIdx * blockSize]? = stored[i]? := by
    intro i hbegun hends
    rw [Nat.succ_mul] at hends
    rw [getElem?_blockOf (by omega), Nat.add_sub_cancel' hbegun]
  refine forall₃_congr fun i _ _ => forall₂_congr fun hbegun hends => ?_
  rw [hat i hbegun hends]

/-- The file's own block goes on where the blocks before it end. -/
theorem bytesBetween_append_blockOf
    (hbegun : blockIdx * blockSize ≤ offset ∨ blockIdx * blockSize ≤ file.length)
    (hrange : blockIdx * blockSize ≤ offset + size) :
    bytesBetween file offset (min (blockIdx * blockSize) (offset + size)) ++
        overlap blockSize offset size blockIdx (blockOf blockSize file blockIdx) =
      bytesBetween file offset (min ((blockIdx + 1) * blockSize) (offset + size)) := by
  rw [Nat.min_eq_left hrange]
  by_cases hstart : blockIdx * blockSize ≤ file.length
  · exact bytesBetween_append_overlap hstart hrange
  · have hoffset : file.length ≤ offset := by omega
    have hnothing : ∀ stop, bytesBetween file offset stop = [] := by
      intro stop
      rw [bytesBetween, List.drop_eq_nil_iff, List.length_take]
      omega
    have hblock : blockOf blockSize file blockIdx = [] := by
      rw [blockOf, List.drop_eq_nil_of_le (by omega), List.take_nil]
    rw [hnothing, hnothing, hblock, overlap_eq, List.take_nil, List.drop_nil, List.append_nil]

/-- Where a block that shows the file is short, the file ends. -/
theorem Shows.ended (h : Shows blockSize file offset size blockIdx block)
    (hshort : block.length < blockSize) (hoffset : offset < (blockIdx + 1) * blockSize) :
    bytesBetween file offset (min ((blockIdx + 1) * blockSize) (offset + size)) =
      bytesBetween file offset (offset + size) := by
  by_cases hlast : offset + size ≤ (blockIdx + 1) * blockSize
  · rw [Nat.min_eq_right hlast]
  · have hlength := congrArg List.length (shows_iff.mp h)
    rw [length_overlap, length_overlap, length_blockOf] at hlength
    rw [Nat.succ_mul] at hoffset hlast ⊢
    rw [Nat.min_eq_left (by omega)]
    exact bytesBetween_of_ended (by omega) (by omega) offset

/-- Where it is whole, and the range goes on, so does the file. -/
theorem Shows.goesOn (hpos : 0 < blockSize) (h : Shows blockSize file offset size blockIdx block)
    (hwhole : blockSize ≤ block.length) (hoffset : offset < (blockIdx + 1) * blockSize)
    (hrange : (blockIdx + 1) * blockSize < offset + size) :
    (blockIdx + 1) * blockSize ≤ file.length := by
  have hlength := congrArg List.length (shows_iff.mp h)
  rw [length_overlap, length_overlap, length_blockOf] at hlength
  rw [Nat.succ_mul] at hoffset hrange ⊢
  omega

/-- Two pieces of `n` elements at most that begin the same list, each full unless the list ends
with it. -/
theorem eq_of_append_eq_append {α : Type} {a b as bs : List α} {n : ℕ} (h : a ++ as = b ++ bs)
    (ha : a.length ≤ n) (hb : b.length ≤ n) (hfull : as = [] ∨ a.length = n)
    (hfull' : bs = [] ∨ b.length = n) : a = b := by
  have hlength := congrArg List.length h
  rw [List.length_append, List.length_append] at hlength
  have hsame : a.length = b.length := by
    rcases hfull with rfl | hfull
    · rcases hfull' with rfl | hfull'
      · simpa using hlength
      · rw [List.length_nil] at hlength
        omega
    · rcases hfull' with rfl | hfull'
      · rw [List.length_nil] at hlength
        omega
      · rw [hfull, hfull']
  exact (List.append_inj h hsame).1

/-- **Only such a block will do.** A block after which the read has what the range begins with
shows the file, if it is whole or the read ends with it. -/
theorem shows_of_append
    (hbegun : blockIdx * blockSize ≤ offset ∨ blockIdx * blockSize ≤ file.length)
    (hrange : blockIdx * blockSize < offset + size)
    (hfull : more = [] ∨ min (offset + size - blockIdx * blockSize) blockSize ≤ block.length)
    (h : bytesBetween file offset (min (blockIdx * blockSize) (offset + size)) ++
        overlap blockSize offset size blockIdx block ++ more =
      bytesBetween file offset (offset + size)) :
    Shows blockSize file offset size blockIdx block := by
  obtain ⟨beyond, hbeyond, hwhole⟩ : ∃ beyond,
      bytesBetween file offset (offset + size) =
        bytesBetween file offset (min ((blockIdx + 1) * blockSize) (offset + size)) ++ beyond ∧
      (beyond = [] ∨ (blockIdx + 1) * blockSize ≤ file.length) := by
    by_cases hends : file.length ≤ (blockIdx + 1) * blockSize ∨
        offset + size ≤ (blockIdx + 1) * blockSize
    · refine ⟨[], ?_, Or.inl rfl⟩
      rw [List.append_nil]
      rcases Nat.le_total (offset + size) ((blockIdx + 1) * blockSize) with hlast | hlast
      · rw [Nat.min_eq_right hlast]
      · rw [Nat.min_eq_left hlast]
        rcases hends with hends | hends
        · exact (bytesBetween_of_ended hends hlast offset).symm
        · rw [Nat.le_antisymm hends hlast]
    · refine ⟨((file.take (offset + size)).drop ((blockIdx + 1) * blockSize)).drop
        (offset - (blockIdx + 1) * blockSize), ?_, Or.inr (by omega)⟩
      rw [Nat.min_eq_left (by omega), bytesBetween, bytesBetween]
      have htake : file.take ((blockIdx + 1) * blockSize) =
          (file.take (offset + size)).take ((blockIdx + 1) * blockSize) := by
        rw [List.take_take, Nat.min_eq_left (by omega)]
      conv_lhs => rw [← List.take_append_drop ((blockIdx + 1) * blockSize)
        (file.take (offset + size))]
      rw [htake, List.drop_append, List.length_take, List.length_take]
      congr 2
      omega
  rw [hbeyond, ← bytesBetween_append_blockOf hbegun hrange.le, List.append_assoc,
    List.append_assoc] at h
  have hpieces := List.append_cancel_left h
  refine shows_iff.mpr (eq_of_append_eq_append hpieces
    (n := min (offset + size - blockIdx * blockSize) blockSize - (offset - blockIdx * blockSize))
    ?_ ?_ (hfull.imp_right fun hfull => ?_) (hwhole.imp_right fun hwhole => ?_))
  · rw [length_overlap]
    omega
  · rw [length_overlap]
    omega
  · rw [length_overlap]
    omega
  · rw [length_overlap, length_blockOf]
    rw [Nat.succ_mul] at hwhole
    omega

end Blocks

/-! ### The file as written -/

section Written

variable {base : Bytes} {r : FileRead} {blockSize : ℕ}

/-- The file as it stood when the read was asked for: its content at first, with every write
that had returned. -/
def FileRead.file (base : Bytes) (r : FileRead) : Bytes := patchAll base r.written

/-- What the read is to return. -/
def FileRead.wanted (base : Bytes) (r : FileRead) : Bytes :=
  bytesBetween (r.file base) r.offset (r.offset + r.size)

/-- A reply with bytes has the right ones, and there is one unless a block could not be had. -/
def ReadReply.Right (wanted : Bytes) : ReadReply → Prop
  | .data bytes => bytes = wanted
  | .noEntry => False
  | .failed _ => True

def FileRead.Right (base : Bytes) (r : FileRead) : Prop :=
  ∀ reply, r.reply = some reply → reply.Right (r.wanted base)

theorem FileRead.getElem?_wanted {i : ℕ} (hlow : r.offset ≤ i) (hhigh : i < r.offset + r.size) :
    (r.wanted base)[i - r.offset]? = (r.file base)[i]? := by
  rw [wanted, bytesBetween, List.getElem?_drop, Nat.add_sub_cancel' hlow,
    List.getElem?_take_of_lt hhigh]

/-- Where a write covers the range, the byte of the latest. -/
theorem FileRead.wanted_latest {i : ℕ} {byte : UInt8} (h : lastByte r.written i = some byte)
    (hlow : r.offset ≤ i) (hhigh : i < r.offset + r.size) :
    (r.wanted base)[i - r.offset]? = some byte := by
  rw [getElem?_wanted hlow hhigh]
  exact patchAll_holds base r.written i byte h

/-- Where none does, the byte that was there. -/
theorem FileRead.wanted_kept {i : ℕ} (h : lastByte r.written i = none) (hin : i < base.length)
    (hlow : r.offset ≤ i) (hhigh : i < r.offset + r.size) :
    (r.wanted base)[i - r.offset]? = base[i]? := by
  have hread := getD_patchAll base r.written i
  have hlength : i < (patchAll base r.written).length := by
    rw [length_patchAll]
    exact lt_of_lt_of_le hin (le_max_left _ _)
  rw [h, Option.getD_none, List.getD_eq_getElem _ _ hlength, List.getD_eq_getElem _ _ hin] at hread
  rw [getElem?_wanted hlow hhigh, file, List.getElem?_eq_getElem hlength, hread,
    List.getElem?_eq_getElem hin]

/-- Every block it was given shows, in the range, the file as written. -/
def FileRead.AllShow (blockSize : ℕ) (base : Bytes) (r : FileRead) : Prop :=
  ∀ p ∈ r.taken, Shows blockSize (r.file base) r.offset r.size p.1 p.2

/-- A read between two turns. -/
structure FileRead.Turning (blockSize : ℕ) (base : Bytes) (r : FileRead) : Prop where
  size_pos : 0 < r.size
  named : r.named = true
  left_pos : 0 < r.left
  last : (r.offset + r.size - 1) / blockSize + 1 = r.blockIdx + r.left
  first : r.offset / blockSize ≤ r.blockIdx
  begun : r.AllShow blockSize base →
    r.blockIdx * blockSize ≤ r.offset ∨ r.blockIdx * blockSize ≤ (r.file base).length
  right : r.AllShow blockSize base → r.result =
    bytesBetween (r.file base) r.offset (min (r.blockIdx * blockSize) (r.offset + r.size))
  /-- Nothing the read may still add makes good a block that did not show the file. -/
  spoiled : ¬ r.AllShow blockSize base → ∀ more, r.result ++ more ≠ r.wanted base

/-- A read in any state. -/
def FileRead.Sound (blockSize : ℕ) (base : Bytes) (r : FileRead) : Prop :=
  match r.reply with
  | none => r.Turning blockSize base
  | some (.data bytes) =>
      (r.size = 0 ∨ r.named = true) ∧ (bytes = r.wanted base ↔ r.AllShow blockSize base)
  | some .noEntry => r.size ≠ 0 ∧ r.named = false
  | some (.failed _) => True

theorem FileRead.Sound.fail (e : SynoFsError) : (r.fail e).Sound blockSize base := trivial

theorem FileRead.ask_sound (base : Bytes) (named : Bool)
    (written : List (Write UInt8)) (offset size : ℕ) :
    (FileRead.ask blockSize named written offset size).Sound blockSize base := by
  by_cases hsize : size = 0
  · subst hsize
    rw [Sound, ask, if_pos rfl]
    refine ⟨Or.inl rfl, fun _ => nofun, fun _ => ?_⟩
    rw [wanted, bytesBetween_of_le (Nat.add_zero offset).le]
  · cases named with
    | false =>
        rw [Sound, ask, if_neg hsize, if_neg (by simp)]
        exact ⟨hsize, rfl⟩
    | true =>
        rw [Sound, ask, if_neg hsize, if_pos rfl]
        have hfirst : offset / blockSize ≤ (offset + size - 1) / blockSize :=
          Nat.div_le_div_right (by omega)
        refine ⟨Nat.pos_of_ne_zero hsize, rfl, by dsimp only; omega, by dsimp only; omega, le_rfl,
          fun _ => Or.inl (Nat.div_mul_le_self offset blockSize), fun _ => ?_,
          fun hnot => absurd (fun p hp => by simp at hp) hnot⟩
        symm
        apply bytesBetween_of_le
        exact (Nat.min_le_left _ _).trans (Nat.div_mul_le_self offset blockSize)

section Turn

variable {block : Bytes}

theorem FileRead.Turning.offset_lt (h : r.Turning blockSize base) (hpos : 0 < blockSize) :
    r.offset < (r.blockIdx + 1) * blockSize :=
  Nat.lt_mul_of_div_lt (Nat.lt_succ_of_le h.first) hpos

theorem FileRead.Turning.begins_lt (h : r.Turning blockSize base) (hpos : 0 < blockSize) :
    r.blockIdx * blockSize < r.offset + r.size := by
  have hleft := h.left_pos
  have hsize := h.size_pos
  have hle : r.blockIdx ≤ (r.offset + r.size - 1) / blockSize := by
    have hlast := h.last
    omega
  have hmul := (Nat.le_div_iff_mul_le hpos).mp hle
  omega

/-- With one block left the range ends in it, and with more it does not. -/
theorem FileRead.Turning.ends_iff (h : r.Turning blockSize base) (hpos : 0 < blockSize) :
    r.offset + r.size ≤ (r.blockIdx + 1) * blockSize ↔ r.left = 1 := by
  have hlast := h.last
  have hleft := h.left_pos
  have hsize := h.size_pos
  have hlt := Nat.div_lt_iff_lt_mul hpos (x := r.offset + r.size - 1) (y := r.blockIdx + 1)
  omega

theorem FileRead.allShow_concat {r' : FileRead} (hwritten : r'.written = r.written)
    (hoffset : r'.offset = r.offset) (hsize : r'.size = r.size)
    (htaken : r'.taken = r.taken ++ [(r.blockIdx, block)]) :
    r'.AllShow blockSize base ↔ r.AllShow blockSize base ∧
      Shows blockSize (r.file base) r.offset r.size r.blockIdx block := by
  simp only [AllShow, file, hwritten, hoffset, hsize, htaken, List.mem_append, List.mem_singleton,
    or_imp, forall_and, forall_eq]

/-- The read that ends with this block is right exactly when all it was given was. -/
theorem FileRead.Turning.answers_iff (h : r.Turning blockSize base) (hpos : 0 < blockSize)
    (hends : block.length < blockSize ∨ r.left = 1) :
    r.result ++ overlap blockSize r.offset r.size r.blockIdx block = r.wanted base ↔
      r.AllShow blockSize base ∧
        Shows blockSize (r.file base) r.offset r.size r.blockIdx block := by
  have hrange := h.begins_lt hpos
  by_cases hall : r.AllShow blockSize base
  · rw [h.right hall]
    constructor
    · intro heq
      refine ⟨hall, shows_of_append (h.begun hall) hrange (Or.inl rfl) ?_⟩
      rwa [List.append_nil]
    · rintro ⟨-, hshows⟩
      have happend := bytesBetween_append_blockOf (h.begun hall) hrange.le
      rw [← shows_iff.mp hshows] at happend
      rw [happend, wanted]
      rcases hends with hshort | hlast
      · exact hshows.ended hshort (h.offset_lt hpos)
      · rw [Nat.min_eq_right ((h.ends_iff hpos).mpr hlast)]
  · constructor
    · intro heq
      exact absurd heq (h.spoiled hall _)
    · rintro ⟨hall', -⟩
      exact absurd hall' hall

/-- A whole block with more to come. -/
theorem FileRead.Turning.next (h : r.Turning blockSize base) (hpos : 0 < blockSize)
    (hwhole : blockSize ≤ block.length) (hleft : r.left ≠ 1) {r' : FileRead}
    (heq : r' = { r with
      taken := r.taken ++ [(r.blockIdx, block)]
      result := r.result ++ overlap blockSize r.offset r.size r.blockIdx block
      blockIdx := r.blockIdx + 1
      left := r.left - 1 }) : r'.Turning blockSize base := by
  have hrange := h.begins_lt hpos
  have hmore : (r.blockIdx + 1) * blockSize < r.offset + r.size := by
    rw [← Nat.not_le, h.ends_iff hpos]
    exact hleft
  have hall : r'.AllShow blockSize base ↔ r.AllShow blockSize base ∧
      Shows blockSize (r.file base) r.offset r.size r.blockIdx block := by
    rw [heq]
    exact FileRead.allShow_concat rfl rfl rfl rfl
  have hleft_pos := h.left_pos
  constructor
  case size_pos => rw [heq]; exact h.size_pos
  case named => rw [heq]; exact h.named
  case left_pos =>
    rw [heq]
    show 0 < r.left - 1
    omega
  case last =>
    have hlast := h.last
    rw [heq]
    show (r.offset + r.size - 1) / blockSize + 1 = r.blockIdx + 1 + (r.left - 1)
    omega
  case first => rw [heq]; exact h.first.trans (Nat.le_succ _)
  case begun =>
    rw [hall, heq]
    rintro ⟨-, hshows⟩
    exact Or.inr (hshows.goesOn hpos hwhole (h.offset_lt hpos) hmore)
  case right =>
    rw [hall, heq]
    rintro ⟨hall, hshows⟩
    have happend := bytesBetween_append_blockOf (h.begun hall) hrange.le
    rwa [← shows_iff.mp hshows, ← h.right hall] at happend
  case spoiled =>
    -- Either the blocks before this one were spoiled, or this one is, and it was not cut short.
    rw [hall, heq]
    intro hnot more hmake
    rw [List.append_assoc] at hmake
    by_cases hall : r.AllShow blockSize base
    · refine hnot ⟨hall, shows_of_append (h.begun hall) hrange (Or.inr ?_)
        (by rwa [List.append_assoc, ← h.right hall])⟩
      exact (Nat.min_le_right _ _).trans hwhole
    · exact h.spoiled hall _ hmake

/-- The last block. -/
theorem FileRead.Turning.answer (h : r.Turning blockSize base) (hpos : 0 < blockSize)
    (hends : block.length < blockSize ∨ r.left = 1) {r' : FileRead} {result bytes : Bytes}
    (hbytes : bytes = r.result ++ overlap blockSize r.offset r.size r.blockIdx block)
    (heq : r' = { r with
      taken := r.taken ++ [(r.blockIdx, block)]
      result := result
      reply := some (.data bytes) }) :
    r'.Sound blockSize base := by
  have hall : r'.AllShow blockSize base ↔ r.AllShow blockSize base ∧
      Shows blockSize (r.file base) r.offset r.size r.blockIdx block := by
    rw [heq]
    exact FileRead.allShow_concat rfl rfl rfl rfl
  rw [← h.answers_iff hpos hends, ← hbytes, heq] at hall
  rw [heq]
  exact ⟨Or.inr h.named, hall.symm⟩

/-- **A turn** keeps the account: what the read has is right exactly when every block showed the
file. -/
theorem FileRead.Turning.take (h : r.Turning blockSize base) (hopen : r.reply = none)
    (hpos : 0 < blockSize) (block : Bytes) : (r.take blockSize block).Sound blockSize base := by
  rw [FileRead.take]
  by_cases hempty : block = []
  · have hnothing : r.result =
        r.result ++ overlap blockSize r.offset r.size r.blockIdx block := by
      rw [hempty, overlap_eq, List.take_nil, List.drop_nil, List.append_nil]
    have hshort : block.length < blockSize := by
      rw [hempty]
      exact hpos
    rw [untilEof, if_pos hempty]
    exact h.answer hpos (Or.inl hshort) hnothing rfl
  · rw [untilEof, if_neg hempty]
    dsimp only
    split
    case isTrue hends => exact h.answer hpos hends rfl rfl
    case isFalse hends =>
      rw [not_or, Nat.not_lt] at hends
      rw [FileRead.Sound]
      dsimp only
      rw [hopen]
      exact h.next hpos hends.1 hends.2 (by rw [hopen])

theorem FileRead.take_unchanged (blockSize : ℕ) (block : Bytes) (r : FileRead) :
    (r.take blockSize block).written = r.written ∧ (r.take blockSize block).offset = r.offset ∧
      (r.take blockSize block).size = r.size ∧ (r.take blockSize block).named = r.named := by
  unfold FileRead.take
  split
  · exact ⟨rfl, rfl, rfl, rfl⟩
  · dsimp only
    split <;> exact ⟨rfl, rfl, rfl, rfl⟩

theorem FileRead.take_taken (blockSize : ℕ) (block : Bytes) (r : FileRead) :
    (r.take blockSize block).taken = r.taken ++ [(r.blockIdx, block)] := by
  unfold FileRead.take
  split
  · rfl
  · dsimp only
    split <;> rfl

theorem FileRead.allShow_take : (r.take blockSize block).AllShow blockSize base ↔
    r.AllShow blockSize base ∧
      Shows blockSize (r.file base) r.offset r.size r.blockIdx block := by
  obtain ⟨hwritten, hoffset, hsize, -⟩ := FileRead.take_unchanged blockSize block r
  exact allShow_concat hwritten hoffset hsize (take_taken blockSize block r)

end Turn

/-- The inode had a path when the read was asked for, and every block it was given shows the
file. -/
def FileRead.Informed (blockSize : ℕ) (base : Bytes) (r : FileRead) : Prop :=
  (r.size = 0 ∨ r.named = true) ∧ r.AllShow blockSize base

/-- **A read that was answered**, with bytes or with `ENOENT`, is right exactly when it was
informed. -/
theorem FileRead.Sound.right_iff (h : r.Sound blockSize base) {reply : ReadReply}
    (hreply : r.reply = some reply) (hanswered : ∀ e, reply ≠ .failed e) :
    r.Right base ↔ r.Informed blockSize base := by
  have hright : r.Right base ↔ reply.Right (r.wanted base) := by
    rw [Right, hreply]
    exact ⟨fun h => h reply rfl, fun h _ heq => Option.some.inj heq ▸ h⟩
  rw [Sound, hreply] at h
  rw [hright]
  cases reply with
  | data bytes =>
      rw [ReadReply.Right, h.2]
      exact ⟨fun hall => ⟨h.1, hall⟩, fun hall => hall.2⟩
  | noEntry =>
      refine ⟨False.elim, fun hall => ?_⟩
      rcases hall.1 with hsize | hnamed
      · exact h.1 hsize
      · simp [h.2] at hnamed
  | failed e => exact absurd rfl (hanswered e)

theorem FileRead.Sound.right (h : r.Sound blockSize base) (hinformed : r.Informed blockSize base) :
    r.Right base := by
  intro reply hreply
  cases reply with
  | failed e => trivial
  | data bytes => exact (h.right_iff hreply (by simp)).mpr hinformed _ hreply
  | noEntry => exact (h.right_iff hreply (by simp)).mpr hinformed _ hreply

end Written

end SynologyFilestation.Fuse
