import BozOS.Kernel.MultiTerm

namespace BozOS

open Data Lib

/-! The keyboard driver: scancodes, the line buffer and its echo. -/

/-- One of the four 90-entry parts of `scanCodeTable`, from the keys that carry
a character. -/
def keyTable (digits top home bottom : String) : List UInt8 :=
  [0, 27] ++ literal digits ++ [0x08, 0] ++ literal top ++ [0x0A, 0] ++ literal home ++ [0] ++
    literal bottom ++ [0, 0x2A, 0, 0x20] ++ List.replicate 16 0 ++ [0x2D, 0, 0, 0, 0x2B] ++
    List.replicate 11 0

def scanCodeTable : List UInt8 :=
  keyTable "1234567890-=" "qwertyuiop[]" "asdfghjkl;'`" "\\zxcvbnm,./" ++
    keyTable "!@#$%^&*()_+" "QWERTYUIOP\x7b\x7d" "ASDFGHJKL:\"~" "|ZXCVBNM<>?" ++
    keyTable "1234567890-=" "QWERTYUIOP[]" "ASDFGHJKL;'~" "\\ZXCVBNM<>?" ++
    keyTable "!@#$%^&*()_+" "qwertyuiop\x7b\x7d" "asdfghjkl:\"`" "|zxcvbnm<>?"

/-- The table has 512 entries, the last of them zero. -/
def keyOf (c : Nat) : UInt8 := scanCodeTable.getD c 0

def putNewlnKb (k : Kernel) : Kernel :=
  let y := (k.terminalTable k.activeTerminal).y
  if y = 24 then setScreenX (videoScroll k .activeTerm) 0 .activeTerm
  else setScreenX (setScreenY k (y + 1) .activeTerm) 0 .activeTerm

def convertToVidIdx (x y bufLen : Int) : Int := 80 * y + x + bufLen

def screenCell (index : Int) : Nat := (0xB8000 + 2 * index).toNat

/-- What `add_char_to_buf` shows for a character that went into the buffer. -/
def echoChar (k : Kernel) (c : UInt8) (bufLen : Nat) : Kernel :=
  let x := (k.terminalTable k.activeTerminal).x
  let y := (k.terminalTable k.activeTerminal).y
  let shown :=
    if c = 0x0A then
      if u32 (bufLen + x) ≥ 80 then putNewlnKb (putNewlnKb k) else putNewlnKb k
    else
      let cell := screenCell (convertToVidIdx x y bufLen)
      updateCursor
        { k with
          videoMemory := (k.videoMemory.store cell c).store (cell + 1) (getTerminalColor k .activeTerm) }
        (x + 1 + (bufLen % 80 : Nat)) (y + (bufLen / 80 : Nat))
  if y = 24 ∧ u32 (bufLen + x) = 79 then setScreenY (videoScroll shown .activeTerm) (y - 1) .activeTerm
  else shown

def addCharToBuf (k : Kernel) (c : UInt8) : Kernel :=
  let bufLen := strlen k.kbBuf 128
  if bufLen < 127 then
    echoChar { k with kbBuf := (k.kbBuf.store (bufLen + 1) 0).store bufLen c } c bufLen
  else if c = 0x0A then putNewlnKb (putNewlnKb k)
  else k

def delCharFromBuf (k : Kernel) : Kernel :=
  let bufLen := strlen k.kbBuf 128
  if bufLen > 0 then
    let x := (k.terminalTable k.activeTerminal).x
    let y := (k.terminalTable k.activeTerminal).y
    updateCursor
      { k with
        kbBuf := k.kbBuf.store (bufLen - 1) 0
        videoMemory := k.videoMemory.store (screenCell (convertToVidIdx x y bufLen - 1)) 0x20 }
      (x - 1 + (bufLen % 80 : Nat)) (y + (bufLen / 80 : Nat))
  else k

/-- The loop of `copy_kb_buf`: `int_buf` and `kb_buf` after it. -/
def copyKbBufFrom : Nat → Nat → Memory → Memory → Memory × Memory
  | 0, _, intBuf, kbBuf => (intBuf, kbBuf)
  | fuel + 1, i, intBuf, kbBuf =>
      if kbBuf i = 0x0A then (intBuf.store i (kbBuf i), kbBuf.store i 0)
      else copyKbBufFrom fuel (i + 1) (intBuf.store i (kbBuf i)) (kbBuf.store i 0)

def copyKbBuf (k : Kernel) : Kernel :=
  let copied := copyKbBufFrom 128 0 k.intBuf k.kbBuf
  { k with intBuf := copied.1, kbBuf := copied.2 }

/-- The released-key half of `get_scan_code`. -/
def keyReleased (k : Kernel) (scanCode : UInt8) : Kernel :=
  if scanCode = 0xAA then { k with keyStatus := k.keyStatus &&& 0x11110 }
  else if scanCode = 0x9D then { k with keyStatus := k.keyStatus &&& 0x11011 }
  else if scanCode = 0xB8 then { k with keyStatus := k.keyStatus &&& 0x10111 }
  else k

/-- The table position of an ordinary key under the current modifiers. The last
branch tests `key_status && CAPS_FLAG && SHIFT_FLAG`, which any modifier meets. -/
def keyPosition (keyStatus : UInt32) (scanCode : UInt8) : Nat :=
  if keyStatus = 0 then
    if scanCode.toNat < 90 then scanCode.toNat else 0
  else if keyStatus = 0x1 then
    if scanCode.toNat + 90 < 180 then scanCode.toNat + 90 else 0
  else if keyStatus = 0x10 then
    if scanCode.toNat + 180 < 270 then scanCode.toNat + 180 else 0
  else if scanCode.toNat + 270 < 360 then scanCode.toNat + 270 else 0

/-- The pressed-key half of `get_scan_code`. -/
def keyPressed (k : Kernel) (scanCode : UInt8) : Nat × Kernel :=
  if scanCode = 0x2A then (0, { k with keyStatus := k.keyStatus + 0x1 })
  else if scanCode = 0x3A then (0, { k with keyStatus := k.keyStatus ^^^ 0x10 })
  else if scanCode = 0x1D then (0, { k with keyStatus := k.keyStatus + 0x100 })
  else if scanCode = 0x26 ∧ k.keyStatus &&& 0x100 ≠ 0 then
    let cleared := clearScreen k
    (0, { cleared with kbBuf := cleared.kbBuf.store 0 0 })
  else if scanCode = 0x38 then (0, { k with keyStatus := k.keyStatus + 0x1000 })
  else if scanCode = 0x3B ∧ k.keyStatus &&& 0x1000 ≠ 0 then (0, switchTerminal k 0)
  else if scanCode = 0x3C ∧ k.keyStatus &&& 0x1000 ≠ 0 then (0, switchTerminal k 1)
  else if scanCode = 0x3D ∧ k.keyStatus &&& 0x1000 ≠ 0 then (0, switchTerminal k 2)
  else if scanCode = 0x1C then
    (28, { k with
      terminalReadRelease := Function.update k.terminalReadRelease k.activeTerminal .enterReleased })
  else (keyPosition k.keyStatus scanCode, k)

def getScanCode (k : Kernel) (scanCode : UInt8) : Nat × Kernel :=
  if scanCode &&& 0x80 ≠ 0 then (0, keyReleased k scanCode) else keyPressed k scanCode

/-- What `kb_int_handler` does with the character it looked up. -/
def handleKey (k : Kernel) (c : UInt8) : Kernel :=
  if c = 0x08 then delCharFromBuf k
  else if c = 0x0A then copyKbBuf (addCharToBuf k c)
  else if c ≠ 0 then addCharToBuf k c
  else k

/-- What a scancode can do before its character is looked up: change the
modifiers, clear the screen, switch terminals, release a reader, or nothing. -/
inductive Scanned (k : Kernel) (scanCode : UInt8) : Nat × Kernel → Prop where
  | modifier (keyStatus : UInt32) : Scanned k scanCode (0, { k with keyStatus := keyStatus })
  | clear (pressed : scanCode = 0x26 ∧ k.keyStatus &&& 0x100 ≠ 0) :
      Scanned k scanCode (0, { clearScreen k with kbBuf := (clearScreen k).kbBuf.store 0 0 })
  | switch (t : Nat) : Scanned k scanCode (0, switchTerminal k t)
  | enter (pressed : scanCode = 0x1C) : Scanned k scanCode
      (28, { k with
        terminalReadRelease := Function.update k.terminalReadRelease k.activeTerminal .enterReleased })
  | character (other : scanCode ≠ 0x1C) : Scanned k scanCode (keyPosition k.keyStatus scanCode, k)

theorem keyReleased_scanned (k : Kernel) (scanCode : UInt8) :
    Scanned k scanCode (0, keyReleased k scanCode) := by
  rw [keyReleased]
  by_cases shift : scanCode = 0xAA
  · rw [if_pos shift]; exact .modifier _
  rw [if_neg shift]
  by_cases ctrl : scanCode = 0x9D
  · rw [if_pos ctrl]; exact .modifier _
  rw [if_neg ctrl]
  by_cases alt : scanCode = 0xB8
  · rw [if_pos alt]; exact .modifier _
  rw [if_neg alt]
  exact .modifier k.keyStatus

theorem keyPressed_scanned (k : Kernel) (scanCode : UInt8) : Scanned k scanCode (keyPressed k scanCode) := by
  rw [keyPressed]
  by_cases shift : scanCode = 0x2A
  · rw [if_pos shift]; exact .modifier _
  rw [if_neg shift]
  by_cases caps : scanCode = 0x3A
  · rw [if_pos caps]; exact .modifier _
  rw [if_neg caps]
  by_cases ctrl : scanCode = 0x1D
  · rw [if_pos ctrl]; exact .modifier _
  rw [if_neg ctrl]
  by_cases ctrlL : scanCode = 0x26 ∧ k.keyStatus &&& 0x100 ≠ 0
  · rw [if_pos ctrlL]; exact .clear ctrlL
  rw [if_neg ctrlL]
  by_cases alt : scanCode = 0x38
  · rw [if_pos alt]; exact .modifier _
  rw [if_neg alt]
  by_cases altF1 : scanCode = 0x3B ∧ k.keyStatus &&& 0x1000 ≠ 0
  · rw [if_pos altF1]; exact .switch 0
  rw [if_neg altF1]
  by_cases altF2 : scanCode = 0x3C ∧ k.keyStatus &&& 0x1000 ≠ 0
  · rw [if_pos altF2]; exact .switch 1
  rw [if_neg altF2]
  by_cases altF3 : scanCode = 0x3D ∧ k.keyStatus &&& 0x1000 ≠ 0
  · rw [if_pos altF3]; exact .switch 2
  rw [if_neg altF3]
  by_cases enter : scanCode = 0x1C
  · rw [if_pos enter]; exact .enter enter
  rw [if_neg enter]
  exact .character enter

theorem getScanCode_scanned (k : Kernel) (scanCode : UInt8) : Scanned k scanCode (getScanCode k scanCode) := by
  rw [getScanCode]
  by_cases released : scanCode &&& 0x80 ≠ 0
  · rw [if_pos released]; exact keyReleased_scanned k scanCode
  · rw [if_neg released]; exact keyPressed_scanned k scanCode

def kbIntHandler (k : Kernel) (scanCode : UInt8) : Kernel :=
  handleKey (getScanCode k scanCode).2 (keyOf (getScanCode k scanCode).1)

end BozOS
