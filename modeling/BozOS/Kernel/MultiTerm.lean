import BozOS.Kernel.Console
import BozOS.Data.Chain
import BozOS.Lib.Strings

namespace BozOS

open Data Lib

/-! Terminals, the process table and the PCB lists of `multi_term.c`, and the
task number of `scheduling.c`. -/

/-- `TERM_1_VIDEO` to `TERM_3_VIDEO`: the pages behind the screen's own. -/
def termVideo (t : TermId) : Nat := 0xB8000 + (t.val + 1) * 0x1000

def termColor : TermId → Nat
  | 0 => 0x7
  | 1 => 0xA
  | 2 => 0xC

def setActiveTerminal (k : Kernel) (newTerminal : TermId) : Kernel :=
  { k with activeTerminal := newTerminal }

def setActiveTask (k : Kernel) (newTask : Nat) : Kernel :=
  if inRange : newTask < 3 then { k with activeTask := ⟨newTask, inRange⟩ } else k

def multiTermInit (k : Kernel) : Kernel :=
  { setActiveTerminal k 0 with
    processUsage := fun _ => .notUsed
    terminalTable := fun t =>
      { k.terminalTable t with pcbHead := none, video := termVideo t, x := 0, y := 0, color := termColor t }
    videoMemory := [0, 1, 2].foldl
      (fun memory t => blankCells memory (termVideo t) (UInt8.ofNat (termColor t)) 0 2000) k.videoMemory }

/-- The video entries of `vidmap_ptable`: every terminal's own page, except that
`shown` gets the screen. -/
def mapVideoPages (ptable : Nat → Nat) (shown : TermId) : Nat → Nat :=
  let ptable := Function.update ptable 0 (termVideo 0 ||| 0x7)
  let ptable := Function.update ptable 1 (termVideo 1 ||| 0x7)
  let ptable := Function.update ptable 2 (termVideo 2 ||| 0x7)
  Function.update ptable shown.val (0xB8000 ||| 0x7)

/-- The part of `switch_terminal` behind its two checks. -/
def switchTo (k : Kernel) (new : TermId) : Kernel :=
  let old := k.terminalTable k.activeTerminal
  let saved := k.setTerm k.activeTerminal { old with kbBuf := old.kbBuf.blit 0 k.kbBuf 128 }
  let video := memcpy k.videoMemory old.video 0xB8000 4000
  let kbBuf := k.kbBuf.fill 0 0 128
  let video := video.fill 0xB8000 0x20 4000
  let video := memcpy video 0xB8000 (saved.terminalTable new).video 4000
  let kbBuf := kbBuf.blit 0 (saved.terminalTable new).kbBuf 128
  let bufLen := strlen kbBuf 128
  let moved := updateCursor { saved with videoMemory := video, kbBuf := kbBuf }
    ((saved.terminalTable new).x + (bufLen % 80 : Nat)) ((saved.terminalTable new).y + (bufLen / 80 : Nat))
  setActiveTerminal { moved with vidmapPtable := mapVideoPages k.vidmapPtable new } new

def switchTerminal (k : Kernel) (newTerminal : Nat) : Kernel :=
  if inRange : newTerminal < 3 then
    if newTerminal = k.activeTerminal.val then k else switchTo k ⟨newTerminal, inRange⟩
  else k

def resetPcbHead (k : Kernel) (t : TermId) : Kernel :=
  k.setTerm t { k.terminalTable t with pcbHead := none }

/-- The bound check admits `pid = MAX_PROCESSES`, one past the table. -/
def unsetProcessUsage (k : Kernel) (pid : Nat) : Except Stop Kernel :=
  if pid > 6 then .ok k
  else if inTable : pid < 6 then
    .ok { k with processUsage := Function.update k.processUsage ⟨pid, inTable⟩ .notUsed }
  else .error .outOfBounds

def Kernel.child (k : Kernel) (p : Slot) : Option Slot := (k.pcbs p).childPcb

/-- The loop both list walks run. Six PCBs that do not reach `NULL` form a
cycle, on which the loop never ends. -/
def walkToTail (k : Kernel) (head : Slot) : Except Stop Slot :=
  match lastFrom k.child 6 head with
  | some tail => .ok tail
  | none => .error .diverges

def getPCBTail (k : Kernel) (t : TermId) : Except Stop (Option Slot) :=
  match (k.terminalTable t).pcbHead with
  | none => .ok none
  | some head => (walkToTail k head).map some

/-- The search loop of `add_PCB`. -/
def freeSlot (k : Kernel) : Option Slot :=
  (List.finRange 6).find? fun p => k.processUsage p = .notUsed

/-- `none` is the return value -1. -/
def addPCB (k : Kernel) (t : TermId) : Except Stop (Option Slot × Kernel) :=
  match freeSlot k with
  | none => .ok (none, k)
  | some p =>
      let k := { k with processUsage := Function.update k.processUsage p .inUse }
      match (k.terminalTable t).pcbHead with
      | none => .ok (some p, k.setTerm t { k.terminalTable t with pcbHead := some p })
      | some head => do
          let tail ← walkToTail k head
          return (some p, k.setPcb tail { k.pcbs tail with childPcb := some p })

end BozOS
