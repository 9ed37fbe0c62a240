import BozOS.Kernel.Syscalls

namespace BozOS

open Data Lib FileSystem

/-! `execute`, `halt` and `task_switch`. -/

/-- A space, a newline or the terminator ends a word of the command. -/
def endsWord (c : UInt8) : Bool := c = 0x0A || c = 0 || c = 0x20

/-- The first scanning loop from index `i` on: the index of the first byte that
ends a word, at most 128. -/
def wordEnd (command : Memory) : Nat → Nat → Nat
  | 0, i => i
  | fuel + 1, i => if endsWord (command i) then i else wordEnd command fuel (i + 1)

/-- The loop over the spaces. Its index has 8 bits, so that 256 spaces make it
run for ever. -/
def skipSpaces (command : Memory) : Nat → Nat → Except Stop Nat
  | 0, _ => .error .diverges
  | fuel + 1, i =>
      if command i = 0x20 then skipSpaces command fuel ((i + 1) % 256) else .ok i

structure Parsed where
  cmd1 : Memory
  cmd2 : Memory
  argNbytes : Nat

/-- Step 1 of `execute`. A command without a word end in its first 128 bytes is
copied whole; an argument that does not end there is dropped. -/
def parseCommand (command : Memory) : Except Stop Parsed := do
  let nbytes := wordEnd command 128 0
  let cmd1 := strncpy (fun _ => 0) 0 command nbytes
  let i ← skipSpaces command 256 nbytes
  let j := wordEnd command (128 - i) i
  let argNbytes := if j < 128 then j - i else 0
  return { cmd1, cmd2 := strncpy (fun _ => 0) 0 (fun index => command (i + index)) argNbytes, argNbytes }

/-- A local array of `execute`: the address only has to differ from `NULL`. -/
def localBuf : Nat := 0x7FF000

/-- Step 2 of `execute`: the dentry and the entry point of an executable, or
`none` for the return value -1. -/
def checkExecutable (image : Image) (cmd1 : Memory) (stack : Memory) : Option (Dentry × Nat) :=
  match readDentryByName image cmd1 with
  | none => none
  | some dentry =>
      let exe := readData image dentry.inode 0 stack localBuf 4
      if exe.ret = -1 then none
      else if exe.mem localBuf ≠ 0x7F then none
      else if exe.mem (localBuf + 1) ≠ 0x45 then none
      else if exe.mem (localBuf + 2) ≠ 0x4C then none
      else if exe.mem (localBuf + 3) ≠ 0x46 then none
      else
        let entryPt := readData image dentry.inode 24 stack localBuf 4
        if entryPt.ret = -1 then none else some (dentry, le32 entryPt.mem localBuf)

/-- `USER_MEM_P + process_num * USER_PROG_SIZE`. -/
def userPage (p : Slot) : Nat := 0x800000 + p.val * 0x400000

/-- `KERNEL_BASE - process_num * PCB_OFFSET - BYTES_4`. -/
def kernelStack (p : Slot) : Nat := 0x800000 - p.val * 0x2000 - 4

/-- A descriptor after the initialisation loop of step 5: `arg` and
`text_file_flag` stay as the slot's last process left them. -/
def clearedFd (entry : Fd) : Fd :=
  { entry with fotp := none, inodeNumber := 0, filePosition := 0, inUseFlag := 0 }

def isTextFile (cmd2 : Memory) : Bool :=
  let len := strlen cmd2 128
  len > 4 && strncmp (fun index => cmd2 (len - 4 + index)) (fun index => (literal ".txt").getD index 0) 4 = 0

def newFdArr (old : Fin 8 → Fd) (parsed : Parsed) : Fin 8 → Fd := fun fd =>
  let entry := clearedFd (old fd)
  match fd with
  | 0 => { entry with
      fotp := some .stdin
      inUseFlag := 1
      arg := strncpy (entry.arg.fill 0 0 128) 0 parsed.cmd2 parsed.argNbytes }
  | 1 => { entry with
      fotp := some .stdout
      inUseFlag := 1
      textFileFlag := if isTextFile parsed.cmd2 then 1 else 0 }
  | _ => entry

/-- Step 5 of `execute`: every field but `child_pcb` is set. -/
def newPcb (old : Pcb) (p : Slot) (parsed : Parsed) (cpu : Cpu) : Pcb :=
  { old with
    status := 1
    pid := p.val
    selfKStack := kernelStack p
    selfPage := userPage p
    fdArr := newFdArr old.fdArr parsed
    selfEsp := cpu.esp
    selfEbp := cpu.ebp
    espSwitch := cpu.esp
    ebpSwitch := cpu.ebp }

/-- How `execute` leaves: it returns to its caller, or it enters the new program
at its entry point. -/
inductive Executed where
  | returned (ret : Int) (k : Kernel)
  | launched (entryPt : Nat) (k : Kernel)

def mapUserPage (k : Kernel) (page : Nat) : Kernel :=
  { k with pageDirectory := Function.update k.pageDirectory 32 (page ||| 0x87) }

/-- Steps 4 to 6 of `execute` for the slot `add_PCB` chose. The copy faults when
it leaves the 4 MiB page, which ends at 132 MiB. -/
def loadAndLaunch (env : Env) (k : Kernel) (p : Slot) (dentry : Dentry) (entryPt : Nat) (parsed : Parsed)
    (cpu : Cpu) : Except Stop Executed :=
  let mapped := mapUserPage k (userPage p)
  let load := readData env.image dentry.inode 0 (mapped.userPages p) 0x8048000 0x400000
  if 0x8048000 + load.stored > 0x8400000 then .error .pageFault
  else
    let loaded := { mapped with userPages := Function.update mapped.userPages p load.mem }
    if load.ret = -1 then .ok (.returned (-1) loaded)
    else
      let created := loaded.setPcb p (newPcb (loaded.pcbs p) p parsed cpu)
      .ok (.launched entryPt { created with tssEsp0 := kernelStack p })

def execute (env : Env) (k : Kernel) (command : Memory) (cpu : Cpu) : Except Stop Executed := do
  let parsed ← parseCommand command
  match checkExecutable env.image parsed.cmd1 cpu.stack with
  | none => return .returned (-1) k
  | some (dentry, entryPt) =>
      match ← addPCB k k.activeTask with
      | (none, k) => return .returned 256 (puts k (literal "Maximum number of processes exceeded.\n"))
      | (some p, k) => loadAndLaunch env k p dentry entryPt parsed cpu

/-- How `halt` leaves: the parent's `execute` returns the status on the saved
stack, or a new base shell starts. -/
inductive Halted where
  | resumed (status esp ebp : Nat) (k : Kernel)
  | restarted (entryPt : Nat) (k : Kernel)

def closedFd (entry : Fd) : Fd := if entry.inUseFlag = 1 then clearedFd entry else entry

/-- `halt` from the search for the parent on. Running off the end of the list
reads through a `NULL` pointer. -/
def returnToParent (k : Kernel) (head : Option Slot) (self : Slot) (status : Nat) : Except Stop Halted :=
  match predecessorFrom k.child self 6 head with
  | none => .error .diverges
  | some none => .error .pageFault
  | some (some parent) =>
      let unlinked := k.setPcb parent { k.pcbs parent with childPcb := none }
      let mapped := mapUserPage unlinked (unlinked.pcbs parent).selfPage
      let closed := mapped.setPcb self
        { mapped.pcbs self with fdArr := fun fd => closedFd ((mapped.pcbs self).fdArr fd) }
      let resumed := { closed with tssEsp0 := (closed.pcbs parent).selfKStack }
      .ok (.resumed status (resumed.pcbs self).selfEsp (resumed.pcbs self).selfEbp resumed)

def shellCommand : Memory := fun index => (literal "shell").getD index 0

def halt (env : Env) (k : Kernel) (status : Nat) (cpu : Cpu) : Except Stop Halted := do
  let status := if status = 255 then 256 else status
  let head := (k.terminalTable k.activeTask).pcbHead
  match ← getPCBTail k k.activeTask with
  | none => .error .pageFault
  | some self =>
      let k ← unsetProcessUsage k (k.pcbs self).pid
      if head = some self then
        match ← execute env (resetPcbHead k k.activeTask) shellCommand cpu with
        | .launched entryPt k => return .restarted entryPt k
        | .returned _ k => returnToParent k head self status
      else returnToParent k head self status

/-- How `task_switch` leaves: no process was running, the incoming terminal got
its first shell, that shell could not be started, or the processor continues on
the incoming stack. -/
inductive Switched where
  | idle (k : Kernel)
  | launched (entryPt : Nat) (k : Kernel)
  | launchFailed (k : Kernel)
  | resumed (esp ebp : Nat) (k : Kernel)

def saveSwitch (k : Kernel) (p : Slot) (cpu : Cpu) : Kernel :=
  k.setPcb p { k.pcbs p with espSwitch := cpu.esp, ebpSwitch := cpu.ebp }

def taskSwitch (env : Env) (k : Kernel) (cpu : Cpu) : Except Stop Switched := do
  let incomingTask : TermId := k.activeTask + 1
  let incoming ← getPCBTail k incomingTask
  match ← getPCBTail k k.activeTask with
  | none => return .idle k
  | some outgoing =>
      let switched := setActiveTask k incomingTask.val
      match incoming with
      | none =>
          match ← execute env (saveSwitch switched outgoing cpu) shellCommand cpu with
          | .launched entryPt k => return .launched entryPt k
          | .returned _ k => return .launchFailed k
      | some incoming =>
          let ready := { switched with tssEsp0 := (switched.pcbs incoming).selfKStack }
          let mapped := mapUserPage ready (ready.pcbs incoming).selfPage
          let saved := saveSwitch mapped outgoing cpu
          return .resumed (saved.pcbs incoming).espSwitch (saved.pcbs incoming).ebpSwitch saved

end BozOS
