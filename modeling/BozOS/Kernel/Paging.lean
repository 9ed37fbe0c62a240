import BozOS.Data.Paging
import BozOS.Kernel.System

namespace BozOS

open Data

/-! The page directory and the tables of `paging.c` as the processor reads them,
and the stores a user program makes through them. -/

/-- The addresses of the two page tables. Both are aligned to 4 KiB by attribute. -/
structure Layout (env : Env) where
  pageTableAddr : Nat
  aligned : 2 ^ 12 ∣ pageTableAddr
  vidmapAligned : 2 ^ 12 ∣ env.vidmapPtableAddr
  apart : env.vidmapPtableAddr ≠ pageTableAddr

/-- `page_table` as `paging_init` leaves it: the screen and the three pages behind
it, for the supervisor. Nothing else writes to the table. -/
def initPageTable : Nat → Nat :=
  let table := fun _ => 0x2
  let table := Function.update table (0xB8000 >>> 12) (0xB8000 ||| 0x3)
  let table := Function.update table (termVideo 0 >>> 12) (termVideo 0 ||| 0x3)
  let table := Function.update table (termVideo 1 >>> 12) (termVideo 1 ||| 0x3)
  Function.update table (termVideo 2 >>> 12) (termVideo 2 ||| 0x3)

def pagingInit {env : Env} (layout : Layout env) (k : Kernel) : Kernel :=
  let directory := fun i => if i < 1024 then 0x2 else k.pageDirectory i
  let directory := Function.update directory (0x400000 >>> 22) (0x400000 ||| 0x83)
  { k with pageDirectory := Function.update directory 0 (layout.pageTableAddr ||| 0x3) }

/-- What the processor finds behind `CR3`. -/
def Kernel.tables {env : Env} (k : Kernel) (layout : Layout env) : Paging.Tables where
  directory := k.pageDirectory
  tableAt address :=
    if address = layout.pageTableAddr then initPageTable
    else if address = env.vidmapPtableAddr then k.vidmapPtable
    else fun _ => 0

/-- A store by the running program. The user pages of the processes follow one
another in physical memory from 8 MiB on; any other physical address than these
and the video pages is none a program should reach. -/
def userStore {env : Env} (layout : Layout env) (k : Kernel) (linear : UInt32) (byte : UInt8) : Except Stop Kernel :=
  match Paging.translate (k.tables layout) ⟨true, true⟩ linear.toNat with
  | none => .error .pageFault
  | some physical =>
      if inside : 0x800000 ≤ physical ∧ physical < 0x2000000 then
        let p : Slot := ⟨(physical - 0x800000) / 0x400000, by omega⟩
        let page := (k.userPages p).store (0x8000000 + physical % 0x400000) byte
        .ok { k with userPages := Function.update k.userPages p page }
      else if 0xB8000 ≤ physical ∧ physical < 0xBC000 then
        .ok { k with videoMemory := k.videoMemory.store physical byte }
      else .error .outOfBounds

/-- The kernel's events and the stores of the programs between them. -/
inductive Action where
  | event (event : Event)
  | store (linear : UInt32) (byte : UInt8)

def act {env : Env} (layout : Layout env) (k : Kernel) : Action → Except Stop Kernel
  | .event event => next env k event
  | .store linear byte => userStore layout k linear byte

def Acts {env : Env} (layout : Layout env) (k : Kernel) (action : Action) (after : Kernel) : Prop :=
  act layout k action = .ok after

end BozOS
