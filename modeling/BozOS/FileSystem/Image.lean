import BozOS.Data.Memory
import BozOS.Data.Word
import BozOS.Lib.Strings

namespace BozOS.FileSystem

open BozOS.Data BozOS.Lib

/-! The file system image as `fs_init` lays it over the boot module: the boot
block statistics, 64-byte directory entries behind them, one 4096-byte record
per inode, and the data blocks. Every accessor is plain pointer arithmetic, so
an index past the end of a table reads whatever bytes follow it. -/

/-- The bytes from `mod_start` on. -/
structure Image where
  bytes : Memory

/-- A 64-byte directory entry: 32 name bytes, the file type, the inode number
and 24 reserved bytes. -/
structure Dentry where
  bytes : Memory

/-- The name bytes. A name of 32 characters has no NUL of its own, and a walk
over it continues into the file type. -/
def Dentry.fileName (dentry : Dentry) : Memory := dentry.bytes

def Dentry.fileType (dentry : Dentry) : Nat := le32 dentry.bytes 32

def Dentry.inode (dentry : Dentry) : Nat := le32 dentry.bytes 36

namespace Image

/-- The image with the given bytes at the given addresses, and zeros elsewhere. -/
def ofRuns (runs : List (Nat × List UInt8)) : Image :=
  ⟨fun address => (runs.findSome? fun run =>
    if run.1 ≤ address then run.2[address - run.1]? else none).getD 0⟩

def dirEntries (image : Image) : Nat := le32 image.bytes 0

def inodes (image : Image) : Nat := le32 image.bytes 4

def datablocks (image : Image) : Nat := le32 image.bytes 8

def dentries (image : Image) (index : Nat) : Dentry :=
  ⟨fun offset => image.bytes (64 + 64 * index + offset)⟩

def length (image : Image) (inode : Nat) : Nat := le32 image.bytes (4096 * (inode + 1))

def block (image : Image) (inode index : Nat) : Nat :=
  le32 image.bytes (4096 * (inode + 1) + 4 + 4 * index)

def contents (image : Image) (block offset : Nat) : UInt8 :=
  image.bytes (4096 * (image.inodes + 1) + 4096 * block + offset)

/-- Byte `position` of the file behind an inode. -/
def content (image : Image) (inode position : Nat) : UInt8 :=
  image.contents (image.block inode (position / 4096)) (position % 4096)

/-- The image lies in an address space of 32 bits: a pointer into it that runs past the
end of that space goes on at its start. -/
def Wraps (image : Image) : Prop := ∀ address, image.bytes (address + 4294967296) = image.bytes address

def wrapped (image : Image) : Image := ⟨fun address => image.bytes (address % 4294967296)⟩

theorem wrapped_wraps (image : Image) : image.wrapped.Wraps := fun address => by
  simp only [wrapped, Nat.add_mod_right]

theorem Wraps.bytes_eq {image : Image} (wraps : image.Wraps) (rounds address : Nat) :
    image.bytes (address + 4294967296 * rounds) = image.bytes address := by
  induction rounds with
  | zero => rfl
  | succ rounds ih => rw [Nat.mul_succ, ← Nat.add_assoc, wraps, ih]

theorem Wraps.le32_eq {image : Image} (wraps : image.Wraps) (rounds address : Nat) :
    le32 image.bytes (address + 4294967296 * rounds) = le32 image.bytes address := by
  have moved (index : Nat) : image.bytes (address + 4294967296 * rounds + index) = image.bytes (address + index) := by
    rw [Nat.add_right_comm, wraps.bytes_eq]
  have first := moved 0
  rw [Nat.add_zero, Nat.add_zero] at first
  simp only [le32, first, moved]

/-- There is room for 2^20 blocks, so only so many inode records differ. -/
theorem Wraps.length_eq {image : Image} (wraps : image.Wraps) (inode : Nat) :
    image.length (inode % 1048576) = image.length inode := by
  have place : 4096 * (inode + 1) = 4096 * (inode % 1048576 + 1) + 4294967296 * (inode / 1048576) := by omega
  rw [length, length, place, wraps.le32_eq]

theorem Wraps.block_eq {image : Image} (wraps : image.Wraps) (inode index : Nat) :
    image.block (inode % 1048576) index = image.block inode index := by
  have place : 4096 * (inode + 1) + 4 + 4 * index =
      4096 * (inode % 1048576 + 1) + 4 + 4 * index + 4294967296 * (inode / 1048576) := by omega
  rw [block, block, place, wraps.le32_eq]

/-- What an image promises of a regular file: its inode exists, its length is
one an inode can hold, and every block it occupies exists. -/
structure FileWellFormed (image : Image) (inode : Nat) : Prop where
  inodeExists : inode < image.inodes
  lengthFits : image.length inode ≤ 1023 * 4096
  blocksExist : ∀ index, 4096 * index < image.length inode → image.block inode index < image.datablocks

end Image

/-- `MAX_D_ENTRIES` is 62, so entry 62 is out of the search's reach. -/
def readDentryByNameFrom (image : Image) (fname : Memory) : Nat → Nat → Option Dentry
  | 0, _ => none
  | remaining + 1, i =>
      if strncmp fname (image.dentries i).fileName 32 = 0 then some (image.dentries i)
      else readDentryByNameFrom image fname remaining (i + 1)

/-- `none` is the return value -1. -/
def readDentryByName (image : Image) (fname : Memory) : Option Dentry :=
  if strlen fname addressSpace = 0 then none else readDentryByNameFrom image fname 62 0

theorem readDentryByNameFrom_some {image : Image} {fname : Memory} {dentry : Dentry} {remaining start : Nat} :
    readDentryByNameFrom image fname remaining start = some dentry ↔
      ∃ i, start ≤ i ∧ i < start + remaining ∧ dentry = image.dentries i ∧
        text fname 32 = text (image.dentries i).fileName 32 ∧
        ∀ j, start ≤ j → j < i → text fname 32 ≠ text (image.dentries j).fileName 32 := by
  induction remaining generalizing start with
  | zero => exact ⟨fun found => (nomatch found), fun ⟨i, lower, upper, _⟩ => by omega⟩
  | succ remaining ih =>
      rw [readDentryByNameFrom]
      by_cases matched : text fname 32 = text (image.dentries start).fileName 32
      · rw [if_pos (strncmp_eq_zero.mpr matched)]
        constructor
        · intro found
          exact ⟨start, Nat.le_refl start, by omega, (Option.some.inj found).symm, matched,
            fun j lower upper => by omega⟩
        · rintro ⟨i, lower, -, rfl, -, first⟩
          by_cases same : i = start
          · rw [same]
          · exact absurd matched (first start (Nat.le_refl start) (by omega))
      · rw [if_neg (mt strncmp_eq_zero.mp matched), ih]
        constructor
        · rintro ⟨i, lower, upper, rfl, same, first⟩
          refine ⟨i, by omega, by omega, rfl, same, fun j from_ before => ?_⟩
          by_cases here : j = start
          · rwa [here]
          · exact first j (by omega) before
        · rintro ⟨i, lower, upper, rfl, same, first⟩
          have later : i ≠ start := fun here => matched (here ▸ same)
          exact ⟨i, by omega, by omega, rfl, same, fun j from_ before => first j (by omega) before⟩

/-- The entry a lookup delivers is the first of the 62 slots with that name. -/
theorem readDentryByName_some {image : Image} {fname : Memory} {dentry : Dentry} :
    readDentryByName image fname = some dentry ↔
      text fname addressSpace ≠ [] ∧ ∃ i < 62, dentry = image.dentries i ∧
        text fname 32 = text (image.dentries i).fileName 32 ∧
        ∀ j < i, text fname 32 ≠ text (image.dentries j).fileName 32 := by
  rw [readDentryByName, ne_eq, text_nil]
  by_cases empty : strlen fname addressSpace = 0
  · rw [if_pos empty]
    exact ⟨fun found => (nomatch found), fun found => absurd empty found.1⟩
  · rw [if_neg empty, readDentryByNameFrom_some]
    constructor
    · rintro ⟨i, -, upper, delivered, same, first⟩
      exact ⟨empty, i, by omega, delivered, same, fun j before => first j (Nat.zero_le j) before⟩
    · rintro ⟨-, i, upper, delivered, same, first⟩
      exact ⟨i, Nat.zero_le i, by omega, delivered, same, fun j _ before => first j before⟩

/-- The terminator goes to byte 32 of the copy, which is the low byte of its
file type. `none` is the return value -1. -/
def readDentryByIndex (image : Image) (index : Nat) : Option Dentry :=
  if index > 62 then none
  else if strlen (image.dentries index).fileName addressSpace > 0 then
    some ⟨(image.dentries index).bytes.store 32 0⟩
  else none

end BozOS.FileSystem
