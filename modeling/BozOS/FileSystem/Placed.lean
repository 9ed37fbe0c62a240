import BozOS.FileSystem.Access
import BozOS.Lib.Memory

namespace BozOS.FileSystem

open BozOS.Data BozOS.Lib

/-! `read_data` in the memory its image lies in. The caller's buffer is a range of the
same memory, and a copy that runs into the image changes what the loop reads next. The
pointers of `filesystem.h` and the locals are outside of this memory. -/

/-- The bytes from `start` on, as an image. -/
def imageAt (mem : Memory) (start : Nat) : Image := ⟨fun address => mem (start + address)⟩

/-- What `fs_init` sets. The other two pointers are at fixed distances from `boot`;
where the data blocks start is worked out once. -/
structure Tables where
  boot : Nat
  dataBlocks : Nat

def fsInit (mem : Memory) (start : Nat) : Tables where
  boot := start
  dataBlocks := start + 4096 * ((imageAt mem start).inodes + 1)

/-- The loop of `read_data`, with `memcpy` between two ranges of the memory. -/
def placedBlocks (tables : Tables) (inode offset buf : Nat) : Nat → Nat → Int → Int → Memory → Traced
  | 0, _, _, bytesCopied, mem => ⟨⟨bytesCopied, bytesCopied.toNat, mem⟩, [], none⟩
  | iterations + 1, i, bytesToCopy, bytesCopied, mem =>
      let initialOffset : Nat := if i = offset / 4096 then offset % 4096 else 0
      let copyLen := copyLen bytesToCopy initialOffset
      let number := (imageAt mem tables.boot).block inode i
      if number > (imageAt mem tables.boot).datablocks then
        ⟨⟨-1, bytesCopied.toNat, mem⟩, [.entry i], some (.data number)⟩
      else
        let mem := memcpy mem (buf + bytesCopied.toNat) (tables.dataBlocks + 4096 * number + initialOffset)
          (u32 copyLen)
        let copied := blocksRead number initialOffset (u32 copyLen)
        if bytesToCopy - copyLen ≤ 0 then
          ⟨⟨bytesCopied + copyLen, bytesCopied.toNat + u32 copyLen, mem⟩, .entry i :: copied, none⟩
        else
          let rest := placedBlocks tables inode offset buf iterations (i + 1) (bytesToCopy - copyLen)
            (bytesCopied + copyLen) mem
          { rest with accesses := .entry i :: copied ++ rest.accesses }

def placedRead (tables : Tables) (inode offset : Nat) (mem : Memory) (buf length : Nat) : Traced :=
  if inode > (imageAt mem tables.boot).inodes then ⟨⟨-1, 0, mem⟩, [], some (.inode inode)⟩
  else if buf = 0 then ⟨⟨-1, 0, mem⟩, [], none⟩
  else
    let rest := settle (imageAt mem tables.boot) inode offset length ⟨⟨-1, 0, mem⟩, [], none⟩
      fun iterations i bytesToCopy => placedBlocks tables inode offset buf iterations i bytesToCopy 0 mem
    { rest with accesses := .inode inode :: rest.accesses }

variable {first mem : Memory} {start inode offset buf length : Nat}

/-- The bytes of an image: the boot block, the inodes and the data blocks. -/
def Image.size (image : Image) : Nat := 4096 * (1 + image.inodes + image.datablocks)

/-- The range does not meet the image. -/
def OutsideImage (mem : Memory) (start buf count : Nat) : Prop :=
  buf + count ≤ start ∨ start + (imageAt mem start).size ≤ buf

/-- A memory that still holds the image. -/
def HoldsImage (first : Memory) (start : Nat) (mem : Memory) : Prop :=
  ∀ address < (imageAt first start).size, mem (start + address) = first (start + address)

section Image

theorem HoldsImage.le32_eq {address : Nat} (holds : HoldsImage first start mem)
    (inside : address + 4 ≤ (imageAt first start).size) :
    le32 (imageAt mem start).bytes address = le32 (imageAt first start).bytes address := by
  simp only [le32, imageAt]
  rw [holds address (by omega), holds (address + 1) (by omega), holds (address + 2) (by omega),
    holds (address + 3) (by omega)]

theorem HoldsImage.datablocks (holds : HoldsImage first start mem) :
    (imageAt mem start).datablocks = (imageAt first start).datablocks :=
  holds.le32_eq (by unfold Image.size; omega)

theorem HoldsImage.block {i : Nat} (holds : HoldsImage first start mem)
    (inodeExists : inode < (imageAt first start).inodes) (inList : i ≤ 1022) :
    (imageAt mem start).block inode i = (imageAt first start).block inode i :=
  holds.le32_eq (by unfold Image.size; omega)

theorem HoldsImage.store {source : Memory} {dest count : Nat} (holds : HoldsImage first start mem)
    (apart : OutsideImage first start dest count) : HoldsImage first start (mem.blit dest source count) := by
  intro address inside
  rw [Memory.blit_outside (by unfold OutsideImage at apart; omega)]
  exact holds address inside

/-- A copy out of a data block takes the bytes of the image. -/
theorem HoldsImage.memcpy_eq {number within dest count : Nat} (holds : HoldsImage first start mem)
    (blockExists : number < (imageAt first start).datablocks) (room : within + count ≤ 4096)
    (apart : OutsideImage first start dest count) :
    memcpy mem dest ((fsInit first start).dataBlocks + 4096 * number + within) count =
      mem.blit dest (fun k => (imageAt first start).contents number (within + k)) count := by
  have inside : 4096 * ((imageAt first start).inodes + 1) + 4096 * number + within + count ≤
      (imageAt first start).size := by
    unfold Image.size
    omega
  have place : (fsInit first start).dataBlocks + 4096 * number + within =
      start + (4096 * ((imageAt first start).inodes + 1) + 4096 * number + within) := by
    simp only [fsInit]
    omega
  rw [place, memcpy_eq_copied (by unfold OutsideImage at apart; omega), copied]
  funext cell
  unfold Memory.blit
  split
  · rename_i reached
    have taken := holds (4096 * ((imageAt first start).inodes + 1) + 4096 * number + within + (cell - dest)) (by omega)
    simp only [Image.contents, imageAt] at taken ⊢
    simp only [Nat.add_assoc] at taken ⊢
    exact taken
  · rfl

end Image

/-- While the buffer is apart from the image, the loop is the one over an image that
nothing stores to. -/
theorem placedBlocks_eq {iterations i want done : Nat} (holds : HoldsImage first start mem)
    (inodeExists : inode < (imageAt first start).inodes)
    (place : offset + done = 4096 * i + if i = offset / 4096 then offset % 4096 else 0) (positive : 0 < want)
    (valid : ∀ j, 4096 * j < offset + done + want →
      j ≤ 1022 ∧ (imageAt first start).block inode j < (imageAt first start).datablocks)
    (apart : OutsideImage first start buf (done + want)) :
    placedBlocks (fsInit first start) inode offset buf iterations i want done mem =
      tracedBlocks (imageAt first start) inode offset buf iterations i want done mem := by
  induction iterations generalizing i want done mem with
  | zero => rfl
  | succ iterations ih =>
      generalize initial : (if i = offset / 4096 then offset % 4096 else 0) = within at place
      have withinBound : within < 4096 := by subst initial; split <;> omega
      obtain ⟨inList, blockExists⟩ := valid i (by omega)
      rw [placedBlocks, tracedBlocks]
      simp only [initial, copyLen_natCast withinBound, Int.toNat_natCast]
      generalize chunkLength : min want (4096 - within) = chunk
      have width : u32 (chunk : Int) = chunk := by
        rw [u32_of_range (by omega) (by omega), Int.toNat_natCast]
      have boot : (fsInit first start).boot = start := rfl
      have chunkApart : OutsideImage first start (buf + done) chunk := by
        unfold OutsideImage at apart ⊢
        omega
      have copied := holds.memcpy_eq blockExists (show within + chunk ≤ 4096 by omega) chunkApart
      simp only [width, boot, holds.block inodeExists inList, holds.datablocks, copied]
      rw [if_neg (Nat.not_lt.mpr (Nat.le_of_lt blockExists)), if_neg (Nat.not_lt.mpr (Nat.le_of_lt blockExists))]
      by_cases last : (want : Int) - chunk ≤ 0
      · rw [if_pos last, if_pos last]
      · have remaining : (want : Int) - chunk = ((want - chunk : Nat) : Int) := by omega
        have progress : (done : Int) + chunk = ((done + chunk : Nat) : Int) := by omega
        have next := place_next initial place chunkLength (by omega)
        have restApart : OutsideImage first start buf (done + chunk + (want - chunk)) := by
          unfold OutsideImage at apart ⊢
          omega
        rw [if_neg last, if_neg last, remaining, progress,
          ih (holds.store chunkApart) next (by omega) (fun j before => valid j (by omega)) restApart]

/-- Where the buffer is apart from the image, one memory does what two do. -/
theorem placedRead_eq (file : (imageAt mem start).FileWellFormed inode)
    (nonempty : 0 < (imageAt mem start).length inode) (asked : 1 ≤ length) (word : length < 4294967296)
    (inside : offset = 0 ∨ offset + length ≤ (imageAt mem start).length inode)
    (apart : OutsideImage mem start buf (min length ((imageAt mem start).length inode - offset))) :
    placedRead (fsInit mem start) inode offset mem buf length =
      tracedRead (imageAt mem start) inode offset mem buf length := by
  have small := file.lengthFits
  have boot : (fsInit mem start).boot = start := rfl
  have requested := bytesRequested_inside small inside
  generalize count : min length ((imageAt mem start).length inode - offset) = n at requested apart
  have same (iterations : Nat) :
      placedBlocks (fsInit mem start) inode offset buf iterations (offset / 4096) n (0 : Nat) mem =
        tracedBlocks (imageAt mem start) inode offset buf iterations (offset / 4096) n (0 : Nat) mem :=
    placedBlocks_eq (fun _ _ => rfl) file.inodeExists place_first (by omega)
      (fun j before => ⟨by omega, file.blocksExist j (by omega)⟩) (by rwa [Nat.zero_add])
  have first : ((0 : Nat) : Int) = 0 := rfl
  simp only [placedRead, tracedRead, boot]
  rw [settle_blocks nonempty (by omega) (by omega) asked word, settle_blocks nonempty (by omega) (by omega) asked word,
    requested, ← first, same]

/-- A read that starts with the file, or that ends inside it, delivers the file to every
buffer apart from the image, and reads no block but those of the bytes delivered. -/
theorem placedRead_exact (mem : Memory) (start inode offset buf length : Nat)
    (file : (imageAt mem start).FileWellFormed inode) (nonempty : 0 < (imageAt mem start).length inode)
    (target : buf ≠ 0) (asked : 1 ≤ length) (word : length < 4294967296)
    (inside : offset = 0 ∨ offset + length ≤ (imageAt mem start).length inode)
    (apart : OutsideImage mem start buf (min length ((imageAt mem start).length inode - offset))) :
    (placedRead (fsInit mem start) inode offset mem buf length).result.ret =
      (min length ((imageAt mem start).length inode - offset) : Nat) ∧
    (∀ k < min length ((imageAt mem start).length inode - offset),
      (placedRead (fsInit mem start) inode offset mem buf length).result.mem (buf + k) =
        (imageAt mem start).content inode (offset + k)) ∧
    (∀ cell, cell < buf ∨ buf + min length ((imageAt mem start).length inode - offset) ≤ cell →
      (placedRead (fsInit mem start) inode offset mem buf length).result.mem cell = mem cell) ∧
    ∀ number, .data number ∈ (placedRead (fsInit mem start) inode offset mem buf length).accesses →
      ∃ i, offset / 4096 ≤ i ∧
        i ≤ (offset + min length ((imageAt mem start).length inode - offset) - 1) / 4096 ∧
        number = (imageAt mem start).block inode i := by
  obtain ⟨returned, stored, kept, same, reads⟩ := readData_exact (imageAt mem start) inode offset mem buf length file
    nonempty target asked word inside
  rw [placedRead_eq file nonempty asked word inside apart, same]
  exact ⟨returned, stored, kept, reads⟩

/-- `twoBlockImage` from address 0x1000 on. -/
def placedTwoBlocks : Memory := fun address => if address < 0x1000 then 0 else twoBlockImage.bytes (address - 0x1000)

theorem placedTwoBlocks_image : imageAt placedTwoBlocks 0x1000 = twoBlockImage := by
  have bytes : (fun address => placedTwoBlocks (0x1000 + address)) = twoBlockImage.bytes := by
    funext address
    rw [placedTwoBlocks, if_neg (by omega), Nat.add_sub_cancel_left]
  rw [imageAt, bytes]

/-- The last byte of one block and the first two of the next, to a buffer in front of the
image. -/
theorem placedTwoBlocks_exact :
    (placedRead (fsInit placedTwoBlocks 0x1000) 0 4095 placedTwoBlocks 0x800 3).result.ret = 3 ∧
    (placedRead (fsInit placedTwoBlocks 0x1000) 0 4095 placedTwoBlocks 0x800 3).result.mem (0x800 + 0) = 6 ∧
    (placedRead (fsInit placedTwoBlocks 0x1000) 0 4095 placedTwoBlocks 0x800 3).result.mem (0x800 + 1) = 7 := by
  have file : (imageAt placedTwoBlocks 0x1000).FileWellFormed 0 := placedTwoBlocks_image ▸ twoBlockImage_wellFormed
  have count : min 3 ((imageAt placedTwoBlocks 0x1000).length 0 - 4095) = 3 := by
    rw [placedTwoBlocks_image]
    decide
  have exactly := placedRead_exact placedTwoBlocks 0x1000 0 4095 0x800 3 file
    (by rw [placedTwoBlocks_image]; decide) (by decide) (by decide) (by decide)
    (.inr (by rw [placedTwoBlocks_image]; decide)) (.inl (by rw [count]; decide))
  rw [count, placedTwoBlocks_image] at exactly
  obtain ⟨returned, stored, -⟩ := exactly
  exact ⟨returned, (stored 0 (by decide)).trans (by decide), (stored 1 (by decide)).trans (by decide)⟩

/-- The same read to a buffer on entry 1 of the file's block list: the first byte copied
is taken for the number of the next block. -/
theorem overlapping_read_fails : ¬∀ (mem : Memory) (start inode offset buf length : Nat),
    (imageAt mem start).FileWellFormed inode → 0 < (imageAt mem start).length inode → buf ≠ 0 → 1 ≤ length →
    length < 4294967296 → (offset = 0 ∨ offset + length ≤ (imageAt mem start).length inode) →
    (placedRead (fsInit mem start) inode offset mem buf length).result.ret =
      (min length ((imageAt mem start).length inode - offset) : Nat) := by
  intro claim
  have returned := claim placedTwoBlocks 0x1000 0 4095 0x2008 3 (placedTwoBlocks_image ▸ twoBlockImage_wellFormed)
    (by rw [placedTwoBlocks_image]; decide) (by decide) (by decide) (by decide)
    (.inr (by rw [placedTwoBlocks_image]; decide))
  rw [placedTwoBlocks_image] at returned
  revert returned
  decide

end BozOS.FileSystem
