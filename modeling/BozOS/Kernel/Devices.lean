import BozOS.Kernel.Keyboard
import BozOS.FileSystem.ReadData

namespace BozOS

open Data Lib FileSystem

/-! The operations behind the file operation tables: `terminal.c`,
`RTC_handler.c`, and the file and directory calls of `filesystem.c`. A read
takes the caller's memory and gives it back. -/

/-- The copy loop of `terminal_read`: the index it stops at, the caller's memory
and the flushed intermediate buffer. -/
def copyLine (buf : Nat) : Nat → Nat → Memory → Memory → Nat × Memory × Memory
  | 0, i, dest, source => (i, dest, source)
  | fuel + 1, i, dest, source =>
      if source i = 0x0A then (i, dest.store (buf + i) (source i), source)
      else copyLine buf fuel (i + 1) (dest.store (buf + i) (source i)) (source.store i 0)

/-- The loop that moves what follows the line to the front of the buffer. It
looks for a NUL without a bound of its own; the array ends at 128. -/
def shiftResidue : Nat → Nat → Nat → Memory → Except Stop Memory
  | 0, _, _, _ => .error .outOfBounds
  | fuel + 1, i, c, source =>
      if 128 ≤ i then .error .outOfBounds
      else if source i = 0 then .ok source
      else shiftResidue fuel (i + 1) (c + 1) ((source.store c (source i)).store i 0)

/-- With `nbytes = 0` the forced newline goes to the byte before `buf`. -/
def terminalRead (k : Kernel) (mem : Memory) (buf : Nat) (nbytes : Int) :
    Except Stop (Int × Memory × Kernel) :=
  if buf = 0 ∨ nbytes < 0 then .ok (-1, mem, k)
  else if k.terminalReadRelease k.activeTask ≠ .enterReleased then .error .blocked
  else
    let bytesToCopy := if nbytes < 128 then nbytes.toNat else 128
    let copied := copyLine buf bytesToCopy 0 mem k.intBuf
    let dest := copied.2.1.store (buf + bytesToCopy - 1) 0x0A
    do
      let source ← shiftResidue 129 (copied.1 + 1) 0 copied.2.2
      return (copied.1, dest, { k with
        intBuf := source
        terminalReadRelease := Function.update k.terminalReadRelease k.activeTask .enterWaiting })

/-- The caller's memory when `terminal_read` comes to the loop over the residue. These
stores are made also where that loop then leaves the array. -/
def terminalStores (k : Kernel) (mem : Memory) (buf : Nat) (nbytes : Int) : Memory :=
  if buf = 0 ∨ nbytes < 0 then mem
  else if k.terminalReadRelease k.activeTask ≠ .enterReleased then mem
  else
    let bytesToCopy := if nbytes < 128 then nbytes.toNat else 128
    (copyLine buf bytesToCopy 0 mem k.intBuf).2.1.store (buf + bytesToCopy - 1) 0x0A

/-- The loop of `terminal_write`, which counts the bytes it wrote. -/
def terminalWriteFrom (textFileFlag : Nat) (mem : Memory) (buf : Nat) : Nat → Nat → Kernel → Nat × Kernel
  | 0, i, k => (i, k)
  | fuel + 1, i, k =>
      if textFileFlag = 1 ∧ mem (buf + i) = 0 then (i + 1, putc k (mem (buf + i)))
      else terminalWriteFrom textFileFlag mem buf fuel (i + 1) (putc k (mem (buf + i)))

def terminalWrite (k : Kernel) (fd : Fin 8) (mem : Memory) (buf : Nat) (nbytes : Int) :
    Except Stop (Int × Kernel) :=
  if buf = 0 ∨ nbytes < 0 then .ok (-1, k)
  else do
    match ← getPCBTail k k.activeTask with
    | none => .error .pageFault
    | some p =>
        let written := terminalWriteFrom ((k.pcbs p).fdArr fd).textFileFlag mem buf nbytes.toNat 0 k
        return (written.1, written.2)

def rtcHandler (k : Kernel) : Kernel := { k with interruptFlag := fun _ => 1 }

def rtcRead (k : Kernel) : Except Stop (Int × Kernel) :=
  if k.interruptFlag k.activeTask = 0 then .error .blocked
  else .ok (0, { k with interruptFlag := Function.update k.interruptFlag k.activeTask 0 })

/-- The `switch` of `rtc_write`, from a rate in Hz to the device's own code. -/
def rtcRate : Nat → Option UInt8
  | 2 => some 0x0F
  | 4 => some 0x0E
  | 8 => some 0x0D
  | 16 => some 0x0C
  | 32 => some 0x0B
  | 64 => some 0x0A
  | 128 => some 0x09
  | 256 => some 0x08
  | 512 => some 0x07
  | _ => none

def rtcSetRate (k : Kernel) (inputRate : Nat) : Int × Kernel :=
  match rtcRate inputRate with
  | none => (-1, k)
  | some rate => (0, { k with rtcRegA := (k.rtcRegA &&& 0xF0) ||| rate })

def rtcWrite (k : Kernel) (mem : Memory) (buf : Nat) : Int × Kernel :=
  if buf = 0 then (-1, k) else rtcSetRate k (le32 mem buf)

/-- `INIT_RATE` is 2 Hz. -/
def rtcOpen (k : Kernel) : Int × Kernel := (0, (rtcSetRate k 2).2)

def fopen (image : Image) (fname : Memory) : Int :=
  match readDentryByName image fname with
  | none => -1
  | some _ => 0

def fread (env : Env) (k : Kernel) (fd : Fin 8) (mem : Memory) (buf : Nat) (nbytes : Int) :
    Except Stop (Int × Memory × Kernel) := do
  match ← getPCBTail k k.activeTask with
  | none => .error .pageFault
  | some p =>
      let entry := (k.pcbs p).fdArr fd
      if entry.filePosition ≥ env.image.length entry.inodeNumber then return (0, mem, k)
      let result := readData env.image entry.inodeNumber entry.filePosition mem buf (u32 nbytes)
      if result.ret = -1 then return (-1, result.mem, k)
      return (result.ret, result.mem,
        k.setFd p fd { entry with filePosition := u32 (entry.filePosition + result.ret) })

/-- The local dentry of `dread`: the copy `read_dentry_by_index` made, or what
the stack held. -/
def tempDentry (image : Image) (stack : Memory) (index : Nat) : Memory :=
  match readDentryByIndex image index with
  | some dentry => stack.blit 0 dentry.bytes 64
  | none => stack

/-- `dread_loc` is one file-scope variable; neither the descriptor nor `nbytes`
takes part. -/
def dread (env : Env) (k : Kernel) (mem : Memory) (buf : Nat) (cpu : Cpu) : Int × Memory × Kernel :=
  if (k.dreadLoc + 1) % 4294967296 > env.image.dirEntries then (0, mem, { k with dreadLoc := 0 })
  else
    let temp := tempDentry env.image cpu.stack k.dreadLoc
    (i32 (strlen temp addressSpace), strncpy mem buf temp 32,
      { k with dreadLoc := (k.dreadLoc + 1) % 4294967296 })

end BozOS
