import Mathlib.Data.Nat.Notation
import Mathlib.Tactic.Common

namespace BozOS.Data

/-! Fixed-width integers of a 32-bit machine, kept as mathematical integers
with the wrap written where the machine applies it. -/

/-- The value an unsigned 32-bit cell holds after storing `value`. -/
def u32 (value : Int) : Nat := (value % 4294967296).toNat

/-- The value a two's-complement 32-bit cell holds after storing `value`. -/
def i32 (value : Int) : Int :=
  if value % 4294967296 < 2147483648 then value % 4294967296
  else value % 4294967296 - 4294967296

theorem u32_of_range {value : Int} (lower : 0 ≤ value) (upper : value < 4294967296) :
    u32 value = value.toNat := by
  rw [u32, Int.emod_eq_of_lt lower upper]

theorem i32_of_range {value : Int} (lower : -2147483648 ≤ value) (upper : value < 2147483648) :
    i32 value = value := by
  unfold i32
  split <;> omega

theorem i32_of_high {value : Int} (lower : 2147483648 ≤ value) (upper : value < 4294967296) :
    i32 value = value - 4294967296 := by
  unfold i32
  split <;> omega

def le32 (bytes : Nat → UInt8) (address : Nat) : Nat :=
  (bytes address).toNat + 256 * (bytes (address + 1)).toNat +
    65536 * (bytes (address + 2)).toNat + 16777216 * (bytes (address + 3)).toNat

theorem le32_lt (bytes : Nat → UInt8) (address : Nat) : le32 bytes address < 4294967296 := by
  have first := (bytes address).toNat_lt
  have second := (bytes (address + 1)).toNat_lt
  have third := (bytes (address + 2)).toNat_lt
  have fourth := (bytes (address + 3)).toNat_lt
  unfold le32
  omega

end BozOS.Data
