import Mathlib.Algebra.Ring.Nat
import Mathlib.Tactic.Common

namespace BozOS.Data.Paging

/-! Two-level translation of 32-bit addresses with pages of 4 KiB and 4 MiB. A
directory entry stands for 4 MiB of addresses and a table entry for 4 KiB; the low
bits of both say what may go through. -/

/-- The low bits the translation reads. -/
def present (entry : Nat) : Bool := entry.testBit 0
def writable (entry : Nat) : Bool := entry.testBit 1
def user (entry : Nat) : Bool := entry.testBit 2
def large (entry : Nat) : Bool := entry.testBit 7

structure Access where
  user : Bool
  write : Bool
deriving DecidableEq, Repr

/-- The supervisor is held to the write bit too, as with `WP` set. -/
def permits (entry : Nat) (access : Access) : Bool :=
  present entry && (!access.user || user entry) && (!access.write || writable entry)

/-- A page directory, and the page tables by their addresses. -/
structure Tables where
  directory : Nat → Nat
  tableAt : Nat → Nat → Nat

/-- The physical address an access goes to, or `none` for a page fault. -/
def translate (tables : Tables) (access : Access) (linear : Nat) : Option Nat :=
  let entry := tables.directory (linear / 0x400000)
  if permits entry access then
    if large entry then some (entry / 0x400000 * 0x400000 + linear % 0x400000)
    else
      let page := tables.tableAt (entry / 0x1000 * 0x1000) (linear / 0x1000 % 1024)
      if permits page access then some (page / 0x1000 * 0x1000 + linear % 0x1000) else none
  else none

variable {tables : Tables} {access : Access} {linear base frame flags entry bits : Nat}

theorem entry_frame (aligned : 2 ^ bits ∣ frame) (small : flags < 2 ^ bits) :
    (frame ||| flags) / 2 ^ bits * 2 ^ bits = frame := by
  obtain ⟨count, rfl⟩ := aligned
  rw [← Nat.two_pow_add_eq_or_of_lt small, Nat.mul_add_div (Nat.two_pow_pos bits), Nat.div_eq_of_lt small,
    Nat.add_zero, Nat.mul_comm]

theorem entry_flag {bit : Nat} (aligned : 2 ^ bits ∣ frame) (low : bit < bits) :
    (frame ||| flags).testBit bit = flags.testBit bit := by
  obtain ⟨count, rfl⟩ := aligned
  rw [Nat.testBit_or, Nat.testBit_two_pow_mul, decide_eq_false (by omega), Bool.false_and, Bool.false_or]

/-- The rights of an entry are those of its flags. -/
theorem permits_entry (aligned : 2 ^ 12 ∣ frame) : permits (frame ||| flags) access = permits flags access := by
  unfold permits present user writable
  rw [entry_flag aligned (by decide), entry_flag aligned (by decide), entry_flag aligned (by decide)]

theorem large_entry (aligned : 2 ^ 12 ∣ frame) : large (frame ||| flags) = large flags :=
  entry_flag aligned (by decide)

theorem translate_denied (denied : permits (tables.directory (linear / 0x400000)) access = false) :
    translate tables access linear = none := by
  rw [translate, denied]
  rfl

/-- A page of 4 MiB. -/
theorem translate_large (held : tables.directory (linear / 0x400000) = frame ||| flags)
    (aligned : 2 ^ 22 ∣ frame) (small : flags < 2 ^ 22) (page : large flags = true) :
    translate tables access linear =
      if permits flags access then some (frame + linear % 0x400000) else none := by
  have coarse : 2 ^ 12 ∣ frame := Nat.dvd_trans (by decide) aligned
  have whole : (frame ||| flags) / 0x400000 * 0x400000 = frame := entry_frame aligned small
  rw [translate, held, permits_entry coarse, large_entry coarse, page, whole]
  rfl

/-- An address below a page table, whose entry decides with the directory's. -/
theorem translate_table (held : tables.directory (linear / 0x400000) = frame ||| flags)
    (aligned : 2 ^ 12 ∣ frame) (small : flags < 2 ^ 12) (table : large flags = false) :
    translate tables access linear =
      if permits flags access ∧ permits (tables.tableAt frame (linear / 0x1000 % 1024)) access then
        some (tables.tableAt frame (linear / 0x1000 % 1024) / 0x1000 * 0x1000 + linear % 0x1000)
      else none := by
  have whole : (frame ||| flags) / 0x1000 * 0x1000 = frame := entry_frame aligned small
  rw [translate, held, permits_entry aligned, large_entry aligned, table, whole]
  by_cases upper : permits flags access = true
  · by_cases lower : permits (tables.tableAt frame (linear / 0x1000 % 1024)) access = true
    · simp [upper, lower]
    · simp [upper, lower]
  · simp [upper]

/-- An entry of a page table that maps its page. -/
theorem translate_page {mapped : Nat} {rights : Nat}
    (held : tables.directory (linear / 0x400000) = frame ||| flags)
    (aligned : 2 ^ 12 ∣ frame) (small : flags < 2 ^ 12) (table : large flags = false)
    (entered : tables.tableAt frame (linear / 0x1000 % 1024) = mapped ||| rights)
    (whole : 2 ^ 12 ∣ mapped) (low : rights < 2 ^ 12) :
    translate tables access linear =
      if permits flags access ∧ permits rights access then some (mapped + linear % 0x1000) else none := by
  have page : (mapped ||| rights) / 0x1000 * 0x1000 = mapped := entry_frame whole low
  rw [translate_table held aligned small table, entered, permits_entry whole, page]

end BozOS.Data.Paging
