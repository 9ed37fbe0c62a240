import BozOS.Kernel.State
import BozOS.Lib.Memory

namespace BozOS

open Data Lib

/-! Screen output of `lib.c`. -/

/-- `enum active_t`: the terminal of the running task, or the displayed one. -/
inductive Active where
  | activeTask | activeTerm

/-- The `task_n` that the screen helpers compute from their argument. -/
def Kernel.selected (k : Kernel) : Active → TermId
  | .activeTask => k.activeTask
  | .activeTerm => k.activeTerminal

def getVideoMem (k : Kernel) : Active → Nat
  | .activeTerm => 0xB8000
  | .activeTask =>
      if k.activeTask = k.activeTerminal then 0xB8000 else (k.terminalTable k.activeTask).video

def getTerminalColor (k : Kernel) (arg : Active) : UInt8 :=
  if (k.terminalTable (k.selected arg)).color = 0 then 0x7
  else UInt8.ofNat (k.terminalTable (k.selected arg)).color

def updateCursor (k : Kernel) (x y : Int) : Kernel :=
  { k with cursor := ((y * 80 + x) % 65536).toNat }

def blankCells (memory : Memory) (video : Nat) (color : UInt8) (first : Nat) : Nat → Memory
  | 0 => memory
  | count + 1 =>
      blankCells ((memory.store (video + 2 * first) 0x20).store (video + 2 * first + 1) color)
        video color (first + 1) count

/-- `memcpy` of rows 1 to 24 over rows 0 to 23, then a blank bottom row. -/
def videoScroll (k : Kernel) (arg : Active) : Kernel :=
  let videoMem := getVideoMem k arg
  { k with
    videoMemory := blankCells (memcpy k.videoMemory videoMem (videoMem + 160) 3840) videoMem
      (getTerminalColor k arg) (80 * 24) 80 }

def setScreenX (k : Kernel) (val : Int) (arg : Active) : Kernel :=
  let task := k.selected arg
  if 0 ≤ val ∧ val < 80 then
    updateCursor (k.setTerm task { k.terminalTable task with x := val }) val (k.terminalTable task).y
  else k

def setScreenY (k : Kernel) (val : Int) (arg : Active) : Kernel :=
  let task := k.selected arg
  if 0 ≤ val ∧ val < 25 then
    updateCursor (k.setTerm task { k.terminalTable task with y := val }) (k.terminalTable task).x val
  else k

def clearScreen (k : Kernel) : Kernel :=
  let blank := { k with
    videoMemory := blankCells k.videoMemory (getVideoMem k .activeTerm)
      (getTerminalColor k .activeTerm) 0 2000 }
  setScreenX (setScreenY blank 0 .activeTerm) 0 .activeTerm

/-- The cursor moves of `putc`: what a character other than a line break does. -/
def advance (x y : Int) : Int × Int :=
  let x := (x + 1).tmod 80
  let y := if x = 0 then y + 1 else y
  (x, (y + x.tdiv 80).tmod 25)

/-- `putc` without its last line, which moves the hardware cursor. -/
def putcScreen (k : Kernel) (c : UInt8) : Kernel :=
  let task := k.activeTask
  let term := k.terminalTable task
  let videoMem := getVideoMem k .activeTask
  if c = 0x0A ∨ c = 0x0D then
    if term.y = 24 then (videoScroll k .activeTask).setTerm task { term with x := 0 }
    else k.setTerm task { term with x := 0, y := term.y + 1 }
  else
    let cell := ((videoMem : Int) + 2 * (80 * term.y + term.x)).toNat
    let written := { k with
      videoMemory := (k.videoMemory.store cell c).store (cell + 1) (getTerminalColor k .activeTask) }
    if term.y = 24 ∧ term.x = 79 then
      (videoScroll written .activeTask).setTerm task { term with x := 0, y := 24 }
    else
      written.setTerm task { term with x := (advance term.x term.y).1, y := (advance term.x term.y).2 }

def putc (k : Kernel) (c : UInt8) : Kernel :=
  let after := putcScreen k c
  if k.activeTerminal = k.activeTask then
    updateCursor after (after.terminalTable k.activeTask).x (after.terminalTable k.activeTask).y
  else after

/-- `printf` of a text without conversions, and `puts`. -/
def puts (k : Kernel) (text : List UInt8) : Kernel := text.foldl putc k

def literal (text : String) : List UInt8 := text.toList.map fun c => UInt8.ofNat c.toNat

end BozOS
