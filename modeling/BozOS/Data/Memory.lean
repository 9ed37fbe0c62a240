import Mathlib.Data.Nat.Notation
import Mathlib.Tactic.Common

namespace BozOS.Data

/-! Byte-addressed memories and the block stores that programs perform on
them. Every operation comes with its pointwise equation, so that clients never
unfold a memory. -/

/-- A byte memory, or any array viewed from its first cell on. -/
abbrev Memory := Nat → UInt8

namespace Memory

variable {memory : Memory} {address dest count : Nat} {byte : UInt8} {source : Nat → UInt8}

def store (memory : Memory) (address : Nat) (byte : UInt8) : Memory :=
  fun cell => if cell = address then byte else memory cell

/-- Stores `count` bytes of a separate `source` from `dest` on. -/
def blit (memory : Memory) (dest : Nat) (source : Nat → UInt8) (count : Nat) : Memory :=
  fun cell => if dest ≤ cell ∧ cell < dest + count then source (cell - dest) else memory cell

def fill (memory : Memory) (dest : Nat) (byte : UInt8) (count : Nat) : Memory :=
  memory.blit dest (fun _ => byte) count

def window (memory : Memory) (address count : Nat) : List UInt8 :=
  (List.range count).map (fun index => memory (address + index))

@[simp] theorem store_same : memory.store address byte address = byte := by simp [store]

theorem store_other {cell : Nat} (different : cell ≠ address) :
    memory.store address byte cell = memory cell := by simp [store, different]

theorem store_eq {cell : Nat} {value : UInt8} (kept : memory cell = value) (written : cell = address → byte = value) :
    memory.store address byte cell = value := by
  by_cases same : cell = address
  · rw [same, store_same, written same]
  · rw [store_other same, kept]

theorem blit_inside {index : Nat} (inside : index < count) :
    memory.blit dest source count (dest + index) = source index := by
  simp [blit, inside]

theorem blit_at {cell : Nat} (lower : dest ≤ cell) (upper : cell < dest + count) :
    memory.blit dest source count cell = source (cell - dest) := by
  simp [blit, lower, upper]

theorem blit_outside {cell : Nat} (outside : cell < dest ∨ dest + count ≤ cell) :
    memory.blit dest source count cell = memory cell := by
  have excluded : ¬(dest ≤ cell ∧ cell < dest + count) := by omega
  simp only [blit, if_neg excluded]

@[simp] theorem blit_zero : memory.blit dest source 0 = memory := by
  funext cell
  exact blit_outside (by omega)

theorem blit_blit (first second : Nat) :
    (memory.blit dest source first).blit (dest + first) (fun index => source (first + index)) second =
      memory.blit dest source (first + second) := by
  funext cell
  by_cases below : cell < dest
  · simp [blit_outside (Or.inl below), blit_outside (Or.inl (show cell < dest + first by omega))]
  · by_cases left : cell < dest + first
    · rw [blit_outside (Or.inl left), blit_at (by omega) left, blit_at (by omega) (by omega)]
    · by_cases right : cell < dest + (first + second)
      · rw [blit_at (by omega) (by omega), blit_at (by omega) right]
        congr 1
        omega
      · simp only [blit_outside (Or.inr (show dest + (first + second) ≤ cell by omega)),
          blit_outside (Or.inr (show dest + first + second ≤ cell by omega)),
          blit_outside (Or.inr (show dest + first ≤ cell by omega))]

theorem store_eq_blit (source : Nat → UInt8) : memory.store dest (source 0) = memory.blit dest source 1 := by
  funext cell
  by_cases same : cell = dest
  · rw [same, store_same, blit_at (by omega) (by omega), Nat.sub_self]
  · rw [store_other same, blit_outside (by omega)]

theorem store_blit (source : Nat → UInt8) :
    (memory.store dest (source 0)).blit (dest + 1) (fun index => source (index + 1)) count =
      memory.blit dest source (count + 1) := by
  have joined : (memory.blit dest source 1).blit (dest + 1) (fun index => source (1 + index)) count =
      memory.blit dest source (1 + count) := blit_blit 1 count
  rw [store_eq_blit, Nat.add_comm count 1, ← joined]
  simp only [Nat.add_comm 1]

theorem fill_at {cell : Nat} (lower : dest ≤ cell) (upper : cell < dest + count) :
    memory.fill dest byte count cell = byte := blit_at lower upper

theorem store_eq_fill : memory.store dest byte = memory.fill dest byte 1 := store_eq_blit fun _ => byte

theorem store_fill : (memory.store dest byte).fill (dest + 1) byte count = memory.fill dest byte (count + 1) :=
  store_blit fun _ => byte

theorem fill_outside {cell : Nat} (outside : cell < dest ∨ dest + count ≤ cell) :
    memory.fill dest byte count cell = memory cell := blit_outside outside

@[simp] theorem window_length : (memory.window address count).length = count := by simp [window]

theorem window_at {bytes : List UInt8} {i : Nat} (window : memory.window address bytes.length = bytes)
    (inside : i < bytes.length) : memory (address + i) = bytes[i] := by
  have shown : i < (memory.window address bytes.length).length := by rwa [window_length]
  have same : (memory.window address bytes.length)[i] = bytes[i] := by simp only [window]
  rw [← same]
  simp [Memory.window]

theorem window_blit : (memory.blit dest source count).window dest count =
    (List.range count).map source := by
  unfold window
  apply List.map_congr_left
  intro index member
  exact blit_inside (List.mem_range.mp member)

end Memory

end BozOS.Data
