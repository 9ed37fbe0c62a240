import BozOS.Kernel.Devices

namespace BozOS

open Data Lib FileSystem

/-! The descriptor system calls, `getargs` and `vidmap`. -/

/-- The process the calls act for: the tail of the running task's PCB list. The
bound `USER_MEM_P` is checked as the source does. -/
def callerPcb (k : Kernel) : Except Stop (Option Slot) := do
  match ← getPCBTail k k.activeTask with
  | none => return none
  | some p => return if pcbAddr p ≥ 0x800000 then none else some p

def fdOf (fd : Int) : Option (Fin 8) :=
  if inRange : 0 ≤ fd ∧ fd ≤ 7 then some ⟨fd.toNat, by omega⟩ else none

/-- The entry `FOTP_READ` of a table, called. -/
def readOp (env : Env) (k : Kernel) (fotp : Fotp) (fd : Fin 8) (mem : Memory) (buf : Nat) (nbytes : Int)
    (cpu : Cpu) : Except Stop (Int × Memory × Kernel) :=
  match fotp with
  | .stdin => terminalRead k mem buf nbytes
  | .stdout => .ok (-1, mem, k)
  | .file => fread env k fd mem buf nbytes
  | .dir => .ok (dread env k mem buf cpu)
  | .rtc => (rtcRead k).map fun result => (result.1, mem, result.2)

/-- The entry `FOTP_WRITE` of a table, called. -/
def writeOp (k : Kernel) (fotp : Fotp) (fd : Fin 8) (mem : Memory) (buf : Nat) (nbytes : Int) :
    Except Stop (Int × Kernel) :=
  match fotp with
  | .stdin => .ok (-1, k)
  | .stdout => terminalWrite k fd mem buf nbytes
  | .file => .ok (-1, k)
  | .dir => .ok (0, k)
  | .rtc => .ok (rtcWrite k mem buf)

def sysRead (env : Env) (k : Kernel) (fd : Int) (mem : Memory) (buf : Nat) (nbytes : Int) (cpu : Cpu) :
    Except Stop (Int × Memory × Kernel) := do
  match ← callerPcb k with
  | none => return (-1, mem, k)
  | some p =>
      if buf = 0 ∨ nbytes < 0 then return (-1, mem, k)
      match fdOf fd with
      | none => return (-1, mem, k)
      | some fd =>
          if ((k.pcbs p).fdArr fd).inUseFlag = 0 then return (-1, mem, k)
          match ((k.pcbs p).fdArr fd).fotp with
          | none => return (-1, mem, k)
          | some fotp => readOp env k fotp fd mem buf nbytes cpu

/-- Unlike `read`, `write` indexes the table without a `NULL` test. -/
def sysWrite (k : Kernel) (fd : Int) (mem : Memory) (buf : Nat) (nbytes : Int) :
    Except Stop (Int × Kernel) := do
  match ← callerPcb k with
  | none => return (-1, k)
  | some p =>
      if buf = 0 ∨ nbytes < 0 then return (-1, k)
      match fdOf fd with
      | none => return (-1, k)
      | some fd =>
          if ((k.pcbs p).fdArr fd).inUseFlag = 0 then return (-1, k)
          match ((k.pcbs p).fdArr fd).fotp with
          | none => .error .pageFault
          | some fotp => writeOp k fotp fd mem buf nbytes

/-- The search loop of `open`. -/
def firstUnused (fdArr : Fin 8 → Fd) : Option (Fin 8) :=
  (List.finRange 8).find? fun fd => (fdArr fd).inUseFlag ≠ 1

/-- The entry `open` fills in for a table and an inode number. `inode_number`
has 8 bits. -/
def openedFd (entry : Fd) (fotp : Fotp) (inode : Nat) : Fd :=
  { entry with inodeNumber := inode % 256, filePosition := 0, fotp := some fotp, inUseFlag := 1 }

def sysOpen (env : Env) (k : Kernel) (filename : Memory) : Except Stop (Int × Kernel) := do
  match ← callerPcb k with
  | none => return (-1, k)
  | some p =>
      match readDentryByName env.image filename with
      | none => return (-1, k)
      | some dentry =>
          match firstUnused (k.pcbs p).fdArr with
          | none => return (-1, k)
          | some fd =>
              let entry := (k.pcbs p).fdArr fd
              if dentry.fileType = 1 then return (fd.val, k.setFd p fd (openedFd entry .dir 0))
              else if dentry.fileType = 2 then
                if fopen env.image filename ≠ 0 then return (-1, k)
                return (fd.val, k.setFd p fd (openedFd entry .file dentry.inode))
              else if dentry.fileType = 0 then
                let opened := rtcOpen k
                if opened.1 ≠ 0 then return (-1, opened.2)
                return (fd.val, opened.2.setFd p fd (openedFd entry .rtc 0))
              else return (-1, k)

/-- All five `FOTP_CLOSE` entries return 0 and have no effect. -/
def closeOp (_ : Fotp) : Int := 0

def sysClose (k : Kernel) (fd : Int) : Except Stop (Int × Kernel) := do
  match ← callerPcb k with
  | none => return (-1, k)
  | some p =>
      if fd = 0 ∨ fd = 1 then return (-1, k)
      match fdOf fd with
      | none => return (-1, k)
      | some fd =>
          let entry := (k.pcbs p).fdArr fd
          if entry.inUseFlag ≠ 1 then return (-1, k)
          match entry.fotp with
          | none => .error .pageFault
          | some fotp =>
              if closeOp fotp ≠ 0 then return (-1, k)
              return (0, k.setFd p fd { entry with inUseFlag := 0 })

def wordByte (word index : Nat) : UInt8 := UInt8.ofNat (word / 256 ^ index)

/-- The 144 bytes of an `fd_t`, with `arg` at offset 13. -/
def Fd.byte (env : Env) (entry : Fd) (slack : Memory) (offset : Nat) : UInt8 :=
  if offset < 4 then wordByte ((entry.fotp.map env.fotpAddr).getD 0) offset
  else if offset = 4 then UInt8.ofNat entry.inodeNumber
  else if 8 ≤ offset ∧ offset < 12 then wordByte entry.filePosition (offset - 8)
  else if offset = 12 then UInt8.ofNat entry.inUseFlag
  else if 13 ≤ offset ∧ offset < 141 then entry.arg (offset - 13)
  else if offset = 141 then UInt8.ofNat entry.textFileFlag
  else slack offset

/-- The bytes of a `pcb_t` and of what follows it in the process's kernel area.
`fd_arr` starts at offset 4, the seven words behind it at 1156. -/
def Pcb.byte (env : Env) (pcb : Pcb) (offset : Nat) : UInt8 :=
  if offset = 0 then UInt8.ofNat pcb.status
  else if offset = 1 then UInt8.ofNat pcb.pid
  else if inTable : 4 ≤ offset ∧ offset < 1156 then
    (pcb.fdArr ⟨(offset - 4) / 144, by omega⟩).byte env
      (fun inner => pcb.slack (offset - (offset - 4) % 144 + inner)) ((offset - 4) % 144)
  else if 1156 ≤ offset ∧ offset < 1184 then
    wordByte ([pcb.selfEsp, pcb.selfEbp, pcb.selfKStack, pcb.selfPage, pcb.espSwitch, pcb.ebpSwitch,
      (pcb.childPcb.map pcbAddr).getD 0].getD ((offset - 1156) / 4) 0) ((offset - 1156) % 4)
  else pcb.slack offset

/-- The memory from `fd_arr[0].arg` on. -/
def Pcb.fromArg (env : Env) (pcb : Pcb) : Memory := fun index => pcb.byte env (17 + index)

def getargs (env : Env) (k : Kernel) (mem : Memory) (buf : Nat) (nbytes : Int) :
    Except Stop (Int × Memory) := do
  match ← callerPcb k with
  | none => return (-1, mem)
  | some p =>
      if strlen ((k.pcbs p).fromArg env) addressSpace = 0 then return (-1, mem)
      return (0, (mem.fill buf 0 1024).blit buf ((k.pcbs p).fromArg env) (u32 nbytes))

def storeWord (mem : Memory) (address word : Nat) : Memory := mem.blit address (wordByte word) 4

/-- The page directory entries of the user program (128 MiB) and of the user's
video pages (136 MiB) are 32 and 34. -/
def vidmap (env : Env) (k : Kernel) (mem : Memory) (screenStart : Nat) : Int × Memory × Kernel :=
  if screenStart = 0 then (-1, mem, k)
  else if 0x400000 ≤ screenStart ∧ screenStart < 0x800000 then (-1, mem, k)
  else
    (0, storeWord mem screenStart (0x8800000 + 0x1000 * k.activeTask.val),
      { k with
        pageDirectory := Function.update k.pageDirectory 34 (env.vidmapPtableAddr ||| 0x7)
        vidmapPtable := mapVideoPages (fun i => if i < 1024 then 0x6 else k.vidmapPtable i) k.activeTask })

end BozOS
