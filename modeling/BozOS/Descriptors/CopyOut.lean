import BozOS.Descriptors.Listing
import BozOS.Terminals.Line

namespace BozOS

open Data Lib FileSystem

/-! Where `read` and `getargs` store. The handlers compute their own bounds;
this module says for which calls they stay inside the caller's buffer. -/

variable {env : Env} {k : Kernel} {p : Slot} {fd : Fin 8} {buf nbytes : Nat} {cpu : Cpu}

/-- A call that keeps to a buffer of `nbytes` bytes and returns a count of them. -/
structure Inside (buf nbytes : Nat) (mem : Memory) (ret : Int) (stored : Memory) : Prop where
  count : ret = -1 ∨ (0 ≤ ret ∧ ret ≤ nbytes)
  outside : ∀ cell, cell < buf ∨ buf + nbytes ≤ cell → stored cell = mem cell

theorem Inside.unchanged {mem : Memory} {ret : Int} (count : ret = -1 ∨ ret = 0) : Inside buf nbytes mem ret mem :=
  ⟨by omega, fun _ _ => rfl⟩

/-- The caller's memory behind a read, also behind one that leaves `int_buf` after its
stores. -/
def storesOf (k : Kernel) (mem : Memory) (buf nbytes : Nat) : Except Stop (Int × Memory × Kernel) → Memory
  | .ok result => result.2.1
  | .error .outOfBounds => terminalStores k mem buf nbytes
  | .error _ => mem

/-- An outcome of a read that has kept to the buffer, and whose value, if there is one,
is -1 or a count. -/
structure Keeps (k : Kernel) (buf nbytes : Nat) (mem : Memory) (outcome : Except Stop (Int × Memory × Kernel)) :
    Prop where
  count : ∀ result, outcome = .ok result → result.1 = -1 ∨ (0 ≤ result.1 ∧ result.1 ≤ nbytes)
  outside : ∀ cell, cell < buf ∨ buf + nbytes ≤ cell → storesOf k mem buf nbytes outcome cell = mem cell

/-- Only the loop over the residue stops a read after a store. -/
theorem Keeps.stopped {mem : Memory} {stop : Stop} (early : stop ≠ .outOfBounds) :
    Keeps k buf nbytes mem (.error stop) := by
  refine ⟨fun _ returned => (nomatch returned), fun cell _ => ?_⟩
  cases stop with
  | outOfBounds => exact absurd rfl early
  | blocked | diverges | pageFault => rfl

section Terminal

end Terminal

section Directory

end Directory

section File

variable {image : Image} {inode position : Nat} {mem : Memory}

end File

section Calls

end Calls

end BozOS
