import BozOS.FileSystem.Image
import Mathlib.Logic.Function.Basic
import Mathlib.Data.Fin.Basic
import Mathlib.Algebra.Ring.Nat

namespace BozOS

open Data FileSystem

/-! The kernel's global variables, one record field each, in the groups of the
files that declare them. The video pages, the PCBs and the user pages are the
only parts of memory the modelled functions write outside of their arguments. A
caller's buffer is memory of its own here, apart from the kernel's page with the
variables and PCBs in it and from the file system image: `Kernel.OneMemory` has
the PCBs in the caller's memory, and `FileSystem.Placed` the image. -/

/-- A terminal number. `switch_terminal` and `set_active_task` admit no other. -/
abbrev TermId := Fin 3

instance termCount_neZero : NeZero (3 : Nat) := ⟨by decide⟩

/-- A process number. A `pcb_t*` is `NULL` or `get_PCB_base` of a process
number, and is modelled as an `Option Slot`. -/
abbrev Slot := Fin 6

/-- The five file operation tables of `syscalls.c`. -/
inductive Fotp where
  | stdin | stdout | file | dir | rtc
deriving DecidableEq, Repr

structure Fd where
  fotp : Option Fotp
  inodeNumber : Nat
  filePosition : Nat
  inUseFlag : Nat
  arg : Memory
  textFileFlag : Nat

structure Pcb where
  status : Nat
  pid : Nat
  fdArr : Fin 8 → Fd
  selfEsp : Nat
  selfEbp : Nat
  selfKStack : Nat
  selfPage : Nat
  espSwitch : Nat
  ebpSwitch : Nat
  childPcb : Option Slot
  /-- The bytes of the kernel area that no field names: padding and stack. -/
  slack : Memory

/-- `enum pu_t`. -/
inductive Usage where
  | notUsed | inUse
deriving DecidableEq, Repr

/-- `enum kb_t`. -/
inductive ReadRelease where
  | enterWaiting | enterReleased
deriving DecidableEq, Repr

structure Term where
  pcbHead : Option Slot
  kbBuf : Memory
  video : Nat
  x : Int
  y : Int
  color : Nat

structure Kernel where
  -- multi_term.c
  activeTerminal : TermId
  terminalTable : TermId → Term
  processUsage : Slot → Usage
  -- scheduling.c
  activeTask : TermId
  -- the PCBs below KERNEL_BASE and the 4 MiB user pages, by process number
  pcbs : Slot → Pcb
  userPages : Slot → Memory
  -- paging.h, syscalls.h, x86_desc.S
  pageDirectory : Nat → Nat
  vidmapPtable : Nat → Nat
  tssEsp0 : Nat
  -- keyboard.c
  kbBuf : Memory
  intBuf : Memory
  terminalReadRelease : TermId → ReadRelease
  keyStatus : UInt32
  -- video memory and the last position sent to the cursor registers
  videoMemory : Memory
  cursor : Nat
  -- filesystem.c
  dreadLoc : Nat
  -- RTC_handler.c and register A of the device
  interruptFlag : TermId → Nat
  rtcRegA : UInt8

structure Env where
  image : Image
  fotpAddr : Fotp → Nat
  vidmapPtableAddr : Nat

/-- The parts of the processor a kernel entry finds and may store: the stack
registers, and the stack bytes its uninitialised locals start with. -/
structure Cpu where
  esp : Nat
  ebp : Nat
  stack : Memory

/-- Why a call does not return a value: it waits for an interrupt, it loops for
ever, it touches an unmapped page, or it leaves an array of the kernel. -/
inductive Stop where
  | blocked | diverges | pageFault | outOfBounds
deriving DecidableEq, Repr

/-- The kernel as the loader leaves it, every variable zero. -/
def Kernel.loaded : Kernel where
  activeTerminal := 0
  terminalTable _ := { pcbHead := none, kbBuf := fun _ => 0, video := 0, x := 0, y := 0, color := 0 }
  processUsage _ := .notUsed
  activeTask := 0
  pcbs _ := {
    status := 0, pid := 0, selfEsp := 0, selfEbp := 0, selfKStack := 0, selfPage := 0
    espSwitch := 0, ebpSwitch := 0, childPcb := none, slack := fun _ => 0
    fdArr := fun _ => {
      fotp := none, inodeNumber := 0, filePosition := 0, inUseFlag := 0, arg := fun _ => 0, textFileFlag := 0 } }
  userPages _ _ := 0
  pageDirectory _ := 0
  vidmapPtable _ := 0
  tssEsp0 := 0
  kbBuf _ := 0
  intBuf _ := 0
  terminalReadRelease _ := .enterWaiting
  keyStatus := 0
  videoMemory _ := 0
  cursor := 0
  dreadLoc := 0
  interruptFlag _ := 0
  rtcRegA := 0

def Cpu.reset : Cpu := ⟨0, 0, fun _ => 0⟩

def Kernel.setTerm (k : Kernel) (t : TermId) (term : Term) : Kernel :=
  { k with terminalTable := Function.update k.terminalTable t term }

def Kernel.setPcb (k : Kernel) (p : Slot) (pcb : Pcb) : Kernel :=
  { k with pcbs := Function.update k.pcbs p pcb }

def Kernel.setFd (k : Kernel) (p : Slot) (fd : Fin 8) (entry : Fd) : Kernel :=
  k.setPcb p { k.pcbs p with fdArr := Function.update (k.pcbs p).fdArr fd entry }

/-- The address of the PCB of process `p`, 8 KiB apart below 8 MiB. -/
def pcbAddr (p : Slot) : Nat := 0x800000 - (p.val + 1) * 0x2000

section Lemmas

variable {k : Kernel} {t u : TermId} {p q : Slot} {term : Term} {pcb : Pcb} {fd : Fin 8} {entry : Fd}

@[simp] theorem Kernel.setTerm_same : (k.setTerm t term).terminalTable t = term :=
  Function.update_self ..

theorem Kernel.setTerm_other (different : u ≠ t) :
    (k.setTerm t term).terminalTable u = k.terminalTable u :=
  Function.update_of_ne different ..

@[simp] theorem Kernel.setPcb_same : (k.setPcb p pcb).pcbs p = pcb :=
  Function.update_self ..

theorem Kernel.setPcb_other (different : q ≠ p) : (k.setPcb p pcb).pcbs q = k.pcbs q :=
  Function.update_of_ne different ..

end Lemmas

end BozOS
