import BozOS.Terminals.Input
import BozOS.Terminals.Isolation

namespace BozOS

open Data Lib

/-! The cursors: every terminal's own position, which output and the keyboard
both move, and the hardware's, which should stand behind the line being typed. -/

variable {k after : Kernel} {c : UInt8} {t : TermId} {key : Keystroke}

/-- Everything a key can do. -/
inductive Pressed (k : Kernel) : Keystroke → Kernel → Prop where
  | modifier (keyStatus : UInt32) : Pressed k .none { k with keyStatus := keyStatus }
  | switch (newTerminal : Nat) : Pressed k .none (switchTerminal k newTerminal)
  | clear : Pressed k .clear { clearScreen k with kbBuf := (clearScreen k).kbBuf.store 0 0 }
  | erase : Pressed k .erase (delCharFromBuf k)
  | enter (release : TermId → ReadRelease) :
      Pressed k .enter (copyKbBuf (addCharToBuf { k with terminalReadRelease := release } 0x0A))
  | char (c : UInt8) (plain : c ≠ 0 ∧ c ≠ 0x0A) : Pressed k (.char c plain) (addCharToBuf k c)

theorem handleKey_pressed (k : Kernel) (c : UInt8) : Pressed k (keystrokeOf c) (handleKey k c) := by
  unfold handleKey keystrokeOf
  by_cases backspace : c = 0x08
  · rw [if_pos backspace, if_pos backspace]
    exact .erase
  rw [if_neg backspace, if_neg backspace]
  by_cases newline : c = 0x0A
  · rw [if_pos newline, dif_pos newline, newline]
    exact .enter k.terminalReadRelease
  rw [if_neg newline, dif_neg newline]
  by_cases blank : c = 0
  · rw [if_neg (not_not_intro blank), dif_pos blank]
    exact .modifier k.keyStatus
  · rw [if_pos blank, dif_neg blank]
    exact .char c ⟨blank, newline⟩

theorem kbIntHandler_pressed (k : Kernel) (scanCode : UInt8) :
    Pressed k (keystroke k scanCode) (kbIntHandler k scanCode) := by
  rw [kbIntHandler, keystroke]
  by_cases clears : scanCode = 0x26 ∧ k.keyStatus &&& 0x100 ≠ 0
  · rw [if_pos clears, getScanCode_clear clears]
    exact .clear
  · rw [if_neg clears]
    have scanned := getScanCode_scanned k scanCode
    generalize getScanCode k scanCode = result at scanned
    cases scanned with
    | modifier keyStatus => exact .modifier keyStatus
    | clear pressed => exact absurd pressed clears
    | switch newTerminal => exact .switch newTerminal
    | enter pressed => exact .enter _
    | character other => exact handleKey_pressed k _

/-- The cell behind the line being typed on the displayed terminal. -/
def lineCursor (k : Kernel) : Int :=
  80 * (k.terminalTable k.activeTerminal).y + (k.terminalTable k.activeTerminal).x + strlen k.kbBuf 128

section Range

structure Term.InRange (term : Term) : Prop where
  column : 0 ≤ term.x ∧ term.x ≤ 79
  row : 0 ≤ term.y ∧ term.y ≤ 24

def CursorsInRange (k : Kernel) : Prop := ∀ t, (k.terminalTable t).InRange

theorem CursorsInRange.screen (inRange : CursorsInRange k) (t : TermId) : (k.screen t).InRange :=
  ⟨⟨(inRange t).column.1, Int.lt_add_one_of_le (inRange t).column.2⟩,
    ⟨(inRange t).row.1, Int.lt_add_one_of_le (inRange t).row.2⟩⟩

/-- What an edit of the line does to the display: it moves the position of the
displayed terminal alone and keeps it in range, and it draws on the screen only
if the cell of the edit is there. -/
structure Redraws (inside : Prop) (k after : Kernel) : Prop where
  shown : after.activeTerminal = k.activeTerminal
  others : ∀ t, t ≠ k.activeTerminal → after.terminalTable t = k.terminalTable t
  position : (k.terminalTable k.activeTerminal).InRange → (after.terminalTable k.activeTerminal).InRange
  page : inside → ChangesPage 0xB8000 k.videoMemory after.videoMemory

section Redraws

variable {inside : Prop} {middle : Kernel}

theorem Redraws.refl : Redraws inside k k := ⟨rfl, fun _ _ => rfl, id, fun _ _ _ => rfl⟩

theorem Redraws.trans (first : Redraws inside k middle) (second : Redraws inside middle after) :
    Redraws inside k after := by
  obtain ⟨shown, others, position, page⟩ := second
  rw [first.shown] at shown others position
  exact ⟨shown, fun t different => (others t different).trans (first.others t different),
    fun inRange => position (first.position inRange), fun drawn => (first.page drawn).trans (page drawn)⟩

theorem Redraws.inRange (redraws : Redraws inside k after) (inRange : CursorsInRange k) : CursorsInRange after := by
  intro t
  by_cases displayed : t = k.activeTerminal
  · rw [displayed]
    exact redraws.position (inRange k.activeTerminal)
  · rw [redraws.others t displayed]
    exact inRange t

theorem Redraws.ofMemory {memory : Memory} (changes : inside → ChangesPage 0xB8000 k.videoMemory memory) :
    Redraws inside k { k with videoMemory := memory } := ⟨rfl, fun _ _ => rfl, id, changes⟩

theorem Redraws.move {term : Term} (position : (k.terminalTable k.activeTerminal).InRange → term.InRange) :
    Redraws inside k (k.setTerm k.activeTerminal term) := by
  refine ⟨rfl, fun t different => Kernel.setTerm_other different, fun inRange => ?_, fun _ _ _ => rfl⟩
  rw [Kernel.setTerm_same]
  exact position inRange

theorem updateCursor_redraws {x y : Int} : Redraws inside k (updateCursor k x y) :=
  ⟨rfl, fun _ _ => rfl, id, fun _ _ _ => rfl⟩

theorem setScreenX_redraws {val : Int} : Redraws inside k (setScreenX k val .activeTerm) := by
  unfold setScreenX
  simp only
  split
  · rename_i column
    refine (Redraws.move fun inRange => ?_).trans updateCursor_redraws
    exact ⟨⟨column.1, Int.le_of_lt_add_one column.2⟩, inRange.row⟩
  · exact .refl

theorem setScreenY_redraws {val : Int} : Redraws inside k (setScreenY k val .activeTerm) := by
  unfold setScreenY
  simp only
  split
  · rename_i row
    refine (Redraws.move fun inRange => ?_).trans updateCursor_redraws
    exact ⟨inRange.column, ⟨row.1, Int.le_of_lt_add_one row.2⟩⟩
  · exact .refl

theorem videoScroll_redraws : Redraws inside k (videoScroll k .activeTerm) := .ofMemory fun _ => scrolled_changes

theorem clearScreen_redraws : Redraws inside k (clearScreen k) := by
  have blanked : ChangesPage 0xB8000 k.videoMemory
      (blankCells k.videoMemory (getVideoMem k .activeTerm) (getTerminalColor k .activeTerm) 0 2000) := by
    intro cell outside
    rw [blankCells_eq, getVideoMem]
    exact if_neg (by omega)
  unfold clearScreen
  exact ((Redraws.ofMemory fun _ => blanked).trans setScreenY_redraws).trans setScreenX_redraws

theorem putNewlnKb_redraws : Redraws inside k (putNewlnKb k) := by
  unfold putNewlnKb
  simp only
  split
  · exact videoScroll_redraws.trans setScreenX_redraws
  · exact setScreenY_redraws.trans setScreenX_redraws

theorem stored_changes {index : Int} (memory : Memory) (c color : UInt8) (lower : 0 ≤ index) (upper : index ≤ 1999) :
    ChangesPage 0xB8000 memory ((memory.store (screenCell index) c).store (screenCell index + 1) color) := by
  intro cell outside
  unfold screenCell
  rw [Memory.store_other (by omega), Memory.store_other (by omega)]

theorem echoChar_redraws {bufLen : Nat} (cell : inside → c ≠ 0x0A →
      0 ≤ convertToVidIdx (k.terminalTable k.activeTerminal).x (k.terminalTable k.activeTerminal).y bufLen ∧
      convertToVidIdx (k.terminalTable k.activeTerminal).x (k.terminalTable k.activeTerminal).y bufLen ≤ 1999) :
    Redraws inside k (echoChar k c bufLen) := by
  unfold echoChar
  extract_lets x y video shown
  have echoed : Redraws inside k shown := by
    subst shown
    split
    · split
      · exact putNewlnKb_redraws.trans putNewlnKb_redraws
      · exact putNewlnKb_redraws
    · rename_i plain
      refine (Redraws.ofMemory fun drawn => ?_).trans updateCursor_redraws
      exact stored_changes k.videoMemory c _ (cell drawn plain).1 (cell drawn plain).2
  split
  · exact (echoed.trans videoScroll_redraws).trans setScreenY_redraws
  · exact echoed

theorem addCharToBuf_redraws (cell : inside → c ≠ 0x0A → strlen k.kbBuf 128 < 127 →
    0 ≤ lineCursor k ∧ lineCursor k ≤ 1999) : Redraws inside k (addCharToBuf k c) := by
  unfold addCharToBuf
  simp only
  split
  · rename_i room
    have typed : Redraws inside k { k with
        kbBuf := (k.kbBuf.store (strlen k.kbBuf 128 + 1) 0).store (strlen k.kbBuf 128) c } :=
      ⟨rfl, fun _ _ => rfl, id, fun _ _ _ => rfl⟩
    exact typed.trans (echoChar_redraws fun drawn plain => cell drawn plain room)
  split
  · exact putNewlnKb_redraws.trans putNewlnKb_redraws
  · exact .refl

theorem delCharFromBuf_redraws (cell : inside → 0 < strlen k.kbBuf 128 →
    0 ≤ lineCursor k - 1 ∧ lineCursor k - 1 ≤ 1999) : Redraws inside k (delCharFromBuf k) := by
  unfold delCharFromBuf
  simp only
  split
  · rename_i nonempty
    refine ⟨rfl, fun _ _ => rfl, id, fun drawn index outside => Memory.store_other ?_⟩
    obtain ⟨lower, upper⟩ := cell drawn nonempty
    rw [show convertToVidIdx (k.terminalTable k.activeTerminal).x (k.terminalTable k.activeTerminal).y
      (strlen k.kbBuf 128) = lineCursor k from rfl, screenCell]
    omega
  · exact .refl

end Redraws

theorem switchTerminal_inRange {newTerminal : Nat} (inRange : CursorsInRange k) :
    CursorsInRange (switchTerminal k newTerminal) := by
  rcases switchTerminal_cases k newTerminal with kept | ⟨new, -, switched⟩
  · rwa [kept]
  · rw [switched]
    intro t
    obtain ⟨kbBuf, terminal⟩ := switchTo_terminals k new t
    rw [terminal]
    exact ⟨(inRange t).column, (inRange t).row⟩

/-- The cell `add_char_to_buf` or `del_char_from_buf` writes for a key, if it
writes one. -/
def echoIndex (k : Kernel) : Keystroke → Option Int
  | .char _ _ =>
      if strlen k.kbBuf 128 < 127 then
        some (convertToVidIdx (k.terminalTable k.activeTerminal).x (k.terminalTable k.activeTerminal).y
          (strlen k.kbBuf 128))
      else none
  | .erase =>
      if strlen k.kbBuf 128 > 0 then
        some (convertToVidIdx (k.terminalTable k.activeTerminal).x (k.terminalTable k.activeTerminal).y
          (strlen k.kbBuf 128) - 1)
      else none
  | _ => none

/-- Every key but the modifiers and the ones that switch terminals. -/
theorem pressed_redraws (pressed : Pressed k key after) (edits : key ≠ .none) :
    Redraws (∀ index, echoIndex k key = some index → 0 ≤ index ∧ index ≤ 1999) k after := by
  cases pressed with
  | modifier keyStatus => exact absurd rfl edits
  | switch newTerminal => exact absurd rfl edits
  | clear =>
      have cleared : Redraws True k (clearScreen k) := clearScreen_redraws
      generalize clearScreen k = blank at cleared ⊢
      exact ⟨cleared.shown, cleared.others, cleared.position, fun _ => cleared.page trivial⟩
  | erase => exact delCharFromBuf_redraws fun cell nonempty => cell (lineCursor k - 1) (if_pos nonempty)
  | enter release =>
      have entered : Redraws True { k with terminalReadRelease := release }
          (addCharToBuf { k with terminalReadRelease := release } 0x0A) :=
        addCharToBuf_redraws fun _ plain => absurd rfl plain
      exact ⟨entered.shown, entered.others, entered.position, fun _ => entered.page trivial⟩
  | char c plain => exact addCharToBuf_redraws fun cell _ room => cell (lineCursor k) (if_pos room)

theorem pressed_inRange (pressed : Pressed k key after) (inRange : CursorsInRange k) : CursorsInRange after := by
  cases pressed with
  | modifier keyStatus => exact inRange
  | switch newTerminal => exact switchTerminal_inRange inRange
  | clear => exact (pressed_redraws .clear (by simp)).inRange inRange
  | erase => exact (pressed_redraws .erase (by simp)).inRange inRange
  | enter release => exact (pressed_redraws (.enter release) (by simp)).inRange inRange
  | char c plain => exact (pressed_redraws (.char c plain) (by simp)).inRange inRange

theorem putc_cursors (inRange : CursorsInRange k) : CursorsInRange (putc k c) := by
  intro t
  have draws : DrawsOn k (putc k c) _ := putc_draws (inRange.screen k.activeTask)
  by_cases own : t = k.activeTask
  · obtain ⟨column, row⟩ : ((putc k c).screen t).InRange := by
      rw [own, draws.screen_self]
      exact Screen.putc_inRange (inRange.screen _)
    exact ⟨⟨column.1, Int.le_of_lt_add_one column.2⟩, ⟨row.1, Int.le_of_lt_add_one row.2⟩⟩
  · rw [draws.others t own]
    exact inRange t

inductive DisplayEvent where
  | putc (c : UInt8)
  | setActiveTask (newTask : Nat)
  | key (scanCode : UInt8)
  | clearScreen
  | switchTerminal (newTerminal : Nat)

def displayNext (k : Kernel) : DisplayEvent → Kernel
  | .putc c => putc k c
  | .setActiveTask newTask => setActiveTask k newTask
  | .key scanCode => kbIntHandler k scanCode
  | .clearScreen => clearScreen k
  | .switchTerminal newTerminal => switchTerminal k newTerminal

def displayRun (k : Kernel) (events : List DisplayEvent) : Kernel := events.foldl displayNext k

theorem displayNext_inRange (event : DisplayEvent) (inRange : CursorsInRange k) :
    CursorsInRange (displayNext k event) := by
  cases event with
  | putc c => exact putc_cursors inRange
  | setActiveTask newTask =>
      simp only [displayNext, setActiveTask]
      split
      · exact inRange
      · exact inRange
  | key scanCode => exact pressed_inRange (kbIntHandler_pressed k scanCode) inRange
  | clearScreen => exact Redraws.inRange (clearScreen_redraws : Redraws True k (clearScreen k)) inRange
  | switchTerminal newTerminal => exact switchTerminal_inRange inRange

theorem displayRun_inRange (events : List DisplayEvent) (inRange : CursorsInRange k) :
    CursorsInRange (displayRun k events) := by
  induction events generalizing k with
  | nil => exact inRange
  | cons event rest ih => exact ih (displayNext_inRange event inRange)

theorem multiTermInit_inRange (boot : Kernel) : CursorsInRange (multiTermInit boot) :=
  fun _ => ⟨⟨Int.le_refl 0, (by decide : (0 : Int) ≤ 79)⟩, ⟨Int.le_refl 0, (by decide : (0 : Int) ≤ 24)⟩⟩

/-- `putc` puts its character into a cell of the 80 by 25 cells of the page that
`get_video_mem` selects, and changes nothing outside of that page. -/
structure PutcInside (k : Kernel) (c : UInt8) : Prop where
  cell : 0 ≤ 80 * (k.terminalTable k.activeTask).y + (k.terminalTable k.activeTask).x ∧
    80 * (k.terminalTable k.activeTask).y + (k.terminalTable k.activeTask).x ≤ 1999
  page : ChangesPage (getVideoMem k .activeTask) k.videoMemory (putc k c).videoMemory

theorem CursorsInRange.putcInside (inRange : CursorsInRange k) (c : UInt8) : PutcInside k c where
  cell := by
    obtain ⟨column, row⟩ := inRange k.activeTask
    omega
  page := (putc_draws (inRange.screen k.activeTask)).page

theorem cursors_inRange (boot : Kernel) (events : List DisplayEvent) :
    (∀ t, 0 ≤ ((displayRun (multiTermInit boot) events).terminalTable t).x ∧
      ((displayRun (multiTermInit boot) events).terminalTable t).x ≤ 79 ∧
      0 ≤ ((displayRun (multiTermInit boot) events).terminalTable t).y ∧
      ((displayRun (multiTermInit boot) events).terminalTable t).y ≤ 24) ∧
    ∀ c, PutcInside (displayRun (multiTermInit boot) events) c := by
  have inRange := displayRun_inRange events (multiTermInit_inRange boot)
  refine ⟨fun t => ?_, fun c => inRange.putcInside c⟩
  obtain ⟨column, row⟩ := inRange t
  exact ⟨column.1, column.2, row.1, row.2⟩

end Range

section Typing

/-- The test in `add_char_to_buf` for a character that goes into the last cell
of the screen. -/
def FillsScreen (k : Kernel) : Prop :=
  (k.terminalTable k.activeTerminal).y = 24 ∧ u32 (strlen k.kbBuf 128 + (k.terminalTable k.activeTerminal).x) = 79

theorem strlen_lineAfter {buffer : Memory} (nonzero : c ≠ 0) (room : strlen buffer 128 < 127) :
    strlen (lineAfter buffer c) 128 = strlen buffer 128 + 1 := by
  rw [lineAfter, if_pos room]
  refine strlen_eq (by omega) (fun i before => ?_) ?_
  · by_cases last : i = strlen buffer 128
    · rw [last, Memory.store_same]
      exact nonzero
    · rw [Memory.store_other last, Memory.store_other (by omega)]
      exact strlen_nonzero (by omega : i < strlen buffer 128)
  · rw [Memory.store_other (by omega), Memory.store_same]

theorem strlen_lineErased {buffer : Memory} (nonempty : 0 < strlen buffer 128) :
    strlen (lineErased buffer) 128 = strlen buffer 128 - 1 := by
  have bound := strlen_le buffer 128
  rw [lineErased, if_pos nonempty]
  refine strlen_eq (by omega) (fun i before => ?_) Memory.store_same
  rw [Memory.store_other (by omega)]
  exact strlen_nonzero (by omega : i < strlen buffer 128)

theorem strlen_cleared (buffer : Memory) : strlen (buffer.store 0 0) 128 = 0 :=
  Nat.le_zero.mp (strlen_le_of_zero Memory.store_same)

theorem addCharToBuf_kbBuf : (addCharToBuf k c).kbBuf = lineAfter k.kbBuf c := by
  obtain ⟨_, _, _, _, typed⟩ := addCharToBuf_screenFrame (k := k) (c := c)
  rw [typed]

theorem addCharToBuf_shown : (addCharToBuf k c).activeTerminal = k.activeTerminal := by
  obtain ⟨_, _, _, _, typed⟩ := addCharToBuf_screenFrame (k := k) (c := c)
  rw [typed]

theorem addCharToBuf_longer (nonzero : c ≠ 0) (room : strlen k.kbBuf 128 < 127) :
    strlen (addCharToBuf k c).kbBuf 128 = strlen k.kbBuf 128 + 1 := by
  rw [addCharToBuf_kbBuf, strlen_lineAfter nonzero room]

theorem addCharToBuf_full (plain : c ≠ 0x0A) (full : ¬strlen k.kbBuf 128 < 127) : addCharToBuf k c = k := by
  simp only [addCharToBuf, if_neg full, if_neg plain]

/-- The hardware cursor at a cell, cut to the 16 bits of its registers. -/
def cursorAt (index : Int) : Nat := (index % 65536).toNat

theorem updateCursor_eq {x y : Int} : updateCursor k x y = { k with cursor := cursorAt (80 * y + x) } := by
  rw [updateCursor, cursorAt, Int.mul_comm]

/-- A character inside the screen leaves the position alone. -/
theorem addCharToBuf_stays (plain : c ≠ 0x0A) (room : strlen k.kbBuf 128 < 127) (inside : ¬FillsScreen k) :
    (addCharToBuf k c).terminalTable = k.terminalTable ∧
      (addCharToBuf k c).cursor = cursorAt (80 * (k.terminalTable k.activeTerminal).y +
        (k.terminalTable k.activeTerminal).x + strlen k.kbBuf 128 + 1) := by
  unfold FillsScreen at inside
  simp only [addCharToBuf, if_pos room, echoChar, if_neg plain, if_neg inside, updateCursor_eq, true_and]
  congr 1
  omega

/-- A character in the last cell of the screen moves the position one row up
with the text, and the hardware cursor to the new position itself. -/
theorem addCharToBuf_scrolls (plain : c ≠ 0x0A) (room : strlen k.kbBuf 128 < 127) (fills : FillsScreen k) :
    (addCharToBuf k c).terminalTable = Function.update k.terminalTable k.activeTerminal
        { k.terminalTable k.activeTerminal with y := 23 } ∧
      (addCharToBuf k c).cursor = cursorAt (80 * 23 + (k.terminalTable k.activeTerminal).x) := by
  unfold FillsScreen at fills
  simp only [addCharToBuf, if_pos room, echoChar, if_neg plain, if_pos fills, setScreenY, updateCursor_eq]
  rw [if_pos (by omega)]
  simp only [Kernel.setTerm, videoScroll, Kernel.selected, fills.1]
  exact ⟨rfl, rfl⟩

theorem delCharFromBuf_moves (nonempty : 0 < strlen k.kbBuf 128) :
    (delCharFromBuf k).terminalTable = k.terminalTable ∧
      (delCharFromBuf k).cursor = cursorAt (80 * (k.terminalTable k.activeTerminal).y +
        (k.terminalTable k.activeTerminal).x + strlen k.kbBuf 128 - 1) := by
  simp only [delCharFromBuf, if_pos nonempty, updateCursor_eq, true_and]
  congr 1
  omega

theorem delCharFromBuf_shorter (nonempty : 0 < strlen k.kbBuf 128) :
    strlen (delCharFromBuf k).kbBuf 128 = strlen k.kbBuf 128 - 1 ∧
      (delCharFromBuf k).activeTerminal = k.activeTerminal := by
  obtain ⟨_, _, _, _, erased⟩ := delCharFromBuf_screenFrame (k := k)
  rw [erased]
  exact ⟨strlen_lineErased nonempty, rfl⟩

theorem delCharFromBuf_empty (empty : ¬0 < strlen k.kbBuf 128) : delCharFromBuf k = k := by
  simp only [delCharFromBuf]
  rw [if_neg empty]

end Typing

section Follows

/-- While that cell is on the screen, the hardware cursor is there. -/
def Follows (k : Kernel) : Prop := 0 ≤ lineCursor k → lineCursor k < 2000 → (k.cursor : Int) = lineCursor k

theorem follows_of_placed {index : Int} (placed : k.cursor = cursorAt index) (same : lineCursor k = index) :
    Follows k := by
  intro lower upper
  rw [placed, same, cursorAt]
  omega

/-- At the beginning of a row, with the hardware cursor there. -/
def AtHome (k : Kernel) : Prop :=
  (k.terminalTable k.activeTerminal).x = 0 ∧ k.cursor = cursorAt (80 * (k.terminalTable k.activeTerminal).y)

theorem setScreenX_home (k : Kernel) : AtHome (setScreenX k 0 .activeTerm) := by
  simp only [setScreenX, Kernel.selected, updateCursor_eq, AtHome]
  rw [if_pos (by decide)]
  simp only [Kernel.setTerm, Function.update_self, Int.add_zero, and_self]

theorem setScreenY_home {val : Int} (home : AtHome k) : AtHome (setScreenY k val .activeTerm) := by
  obtain ⟨column, placed⟩ := home
  simp only [setScreenY, Kernel.selected, updateCursor_eq, AtHome]
  split
  · simp only [Kernel.setTerm, Function.update_self, column, Int.add_zero, and_self]
  · exact ⟨column, placed⟩

theorem putNewlnKb_home (k : Kernel) : AtHome (putNewlnKb k) := by
  unfold putNewlnKb
  simp only
  split
  · exact setScreenX_home _
  · exact setScreenX_home _

theorem echoNewline_home (k : Kernel) (bufLen : Nat) : AtHome (echoChar k 0x0A bufLen) := by
  unfold echoChar
  extract_lets x y cell shown
  have shownHome : AtHome shown := by
    subst shown
    rw [if_pos rfl]
    split
    · exact putNewlnKb_home _
    · exact putNewlnKb_home _
  split
  · exact setScreenY_home shownHome
  · exact shownHome

theorem newline_home (k : Kernel) : AtHome (addCharToBuf k 0x0A) := by
  unfold addCharToBuf
  simp only
  split
  · exact echoNewline_home _ _
  · rw [if_pos trivial]
    exact putNewlnKb_home _

theorem copyKbBufFrom_below {fuel i cell : Nat} {intBuf kbBuf : Memory} (below : cell < i) :
    (copyKbBufFrom fuel i intBuf kbBuf).2 cell = kbBuf cell := by
  induction fuel generalizing i intBuf kbBuf with
  | zero => rfl
  | succ fuel ih =>
      rw [copyKbBufFrom]
      split
      · exact Memory.store_other (by omega)
      · rw [ih (by omega), Memory.store_other (by omega)]

/-- Enter leaves an empty line, whatever was in the buffer. -/
theorem copyKbBuf_empty (k : Kernel) : strlen (copyKbBuf k).kbBuf 128 = 0 := by
  have first : (copyKbBufFrom 128 0 k.intBuf k.kbBuf).2 0 = 0 := by
    rw [copyKbBufFrom]
    split
    · show k.kbBuf.store 0 0 0 = 0
      exact Memory.store_same
    · rw [copyKbBufFrom_below (by decide), Memory.store_same]
  exact Nat.le_zero.mp (strlen_le_of_zero first)

theorem AtHome.follows (home : AtHome k) (empty : strlen k.kbBuf 128 = 0) : Follows k := by
  refine follows_of_placed home.2 ?_
  rw [lineCursor, home.1, empty]
  simp

theorem switchTerminal_follows (follows : Follows k) (newTerminal : Nat) : Follows (switchTerminal k newTerminal) := by
  rcases switchTerminal_cases k newTerminal with kept | ⟨new, -, switched⟩
  · rwa [kept]
  · rw [switched]
    have placed : (switchTo k new).cursor = cursorAt (80 * (((switchTo k new).terminalTable new).y +
        (strlen (switchTo k new).kbBuf 128 / 80 : Nat)) + (((switchTo k new).terminalTable new).x +
        (strlen (switchTo k new).kbBuf 128 % 80 : Nat))) := by
      simp only [switchTo, updateCursor_eq, setActiveTerminal]
    have shown : (switchTo k new).activeTerminal = new := rfl
    refine follows_of_placed placed ?_
    rw [lineCursor, shown]
    omega

/-- A character typed into the last cell of the screen. -/
def Overtakes (k : Kernel) (key : Keystroke) : Prop :=
  (∃ c plain, key = .char c plain) ∧ strlen k.kbBuf 128 < 127 ∧ (k.terminalTable k.activeTerminal).y = 24 ∧
    (k.terminalTable k.activeTerminal).x + strlen k.kbBuf 128 = 79

theorem char_follows (plain : c ≠ 0 ∧ c ≠ 0x0A) (follows : Follows k) (fine : ¬Overtakes k (.char c plain)) :
    Follows (addCharToBuf k c) := by
  by_cases room : strlen k.kbBuf 128 < 127
  · have longer := addCharToBuf_longer plain.1 room
    by_cases fills : FillsScreen k
    · obtain ⟨moved, -⟩ := addCharToBuf_scrolls plain.2 room fills
      obtain ⟨last, column⟩ := fills
      have elsewhere : (k.terminalTable k.activeTerminal).x + strlen k.kbBuf 128 ≠ 79 :=
        fun here => fine ⟨⟨c, plain, rfl⟩, room, last, here⟩
      -- The test is made on 32 bits; a position that only matches there is off the screen.
      intro lower upper
      rw [lineCursor, addCharToBuf_shown, moved, Function.update_self, longer] at lower upper
      simp only [u32] at column lower upper
      omega
    · obtain ⟨same, placed⟩ := addCharToBuf_stays plain.2 room fills
      refine follows_of_placed placed ?_
      rw [lineCursor, addCharToBuf_shown, same, longer]
      omega
  · rwa [addCharToBuf_full plain.2 room]

theorem overtakes_lost (plain : c ≠ 0 ∧ c ≠ 0x0A) (overtakes : Overtakes k (.char c plain)) :
    ¬Follows (addCharToBuf k c) := by
  obtain ⟨-, room, last, column⟩ := overtakes
  have fills : FillsScreen k := ⟨last, by simp only [u32]; omega⟩
  obtain ⟨moved, placed⟩ := addCharToBuf_scrolls plain.2 room fills
  have behind : lineCursor (addCharToBuf k c) = 80 * 23 + (k.terminalTable k.activeTerminal).x +
      (strlen k.kbBuf 128 + 1 : Nat) := by
    rw [lineCursor, addCharToBuf_shown, moved, Function.update_self, addCharToBuf_longer plain.1 room]
  intro follows
  have here := follows (by omega) (by omega)
  rw [placed, behind, cursorAt] at here
  omega

theorem delCharFromBuf_follows (follows : Follows k) : Follows (delCharFromBuf k) := by
  by_cases nonempty : 0 < strlen k.kbBuf 128
  · obtain ⟨same, placed⟩ := delCharFromBuf_moves nonempty
    obtain ⟨shorter, shown⟩ := delCharFromBuf_shorter nonempty
    refine follows_of_placed placed ?_
    rw [lineCursor, shown, same, shorter]
    omega
  · rwa [delCharFromBuf_empty nonempty]

theorem clearScreen_home (k : Kernel) : AtHome (clearScreen k) := by
  unfold clearScreen
  exact setScreenX_home _

theorem clear_follows (k : Kernel) : Follows { clearScreen k with kbBuf := (clearScreen k).kbBuf.store 0 0 } := by
  have home := clearScreen_home k
  refine AtHome.follows ?_ (strlen_cleared (clearScreen k).kbBuf)
  exact ⟨home.1, home.2⟩

theorem pressed_follows (pressed : Pressed k key after) (follows : Follows k)
    (fine : ¬Overtakes k key) : Follows after := by
  cases pressed with
  | modifier keyStatus => exact follows
  | switch newTerminal => exact switchTerminal_follows follows newTerminal
  | clear => exact clear_follows k
  | erase => exact delCharFromBuf_follows follows
  | enter release =>
      refine AtHome.follows ?_ (copyKbBuf_empty _)
      exact newline_home { k with terminalReadRelease := release }
  | char c plain => exact char_follows plain follows fine

theorem cursor_follows_iff (k : Kernel) (codes : List UInt8) (start : (k.cursor : Int) = lineCursor k) :
    (∀ front back, codes = front ++ back → Follows (front.foldl kbIntHandler k)) ↔
      ∀ front code back, codes = front ++ code :: back →
        ¬Overtakes (front.foldl kbIntHandler k) (keystroke (front.foldl kbIntHandler k) code) := by
  constructor
  · intro followed front code back whole overtakes
    have later := followed (front ++ [code]) back (by simp [whole])
    rw [List.foldl_append, List.foldl_cons, List.foldl_nil] at later
    have pressed := kbIntHandler_pressed (front.foldl kbIntHandler k) code
    obtain ⟨⟨c, plain, typed⟩, -⟩ := id overtakes
    rw [typed] at pressed overtakes
    generalize kbIntHandler (front.foldl kbIntHandler k) code = after at pressed later
    cases pressed
    exact overtakes_lost plain overtakes later
  · intro fine front
    induction front using List.reverseRecOn with
    | nil => exact fun _ _ _ _ => start
    | append_singleton front code ih =>
        intro back whole
        have split : codes = front ++ code :: back := by simpa using whole
        rw [List.foldl_append, List.foldl_cons, List.foldl_nil]
        exact pressed_follows (kbIntHandler_pressed _ code) (ih _ split) (fine front code back split)

/-- Two letters, a backspace and Enter. -/
def typedCodes : List UInt8 := [0x1E, 0x30, 0x0E, 0x1C]

theorem booted_follows : Follows (typedCodes.foldl kbIntHandler (multiTermInit .loaded)) := by
  have iff := cursor_follows_iff (multiTermInit .loaded) typedCodes rfl
  refine iff.mpr (fun front code back whole overtakes => ?_) typedCodes [] rfl
  -- The line stays in row 0.
  have row := overtakes.2.2.1
  rcases front with _ | ⟨first, _ | ⟨second, _ | ⟨third, _ | ⟨fourth, rest⟩⟩⟩⟩ <;>
    simp only [typedCodes, List.nil_append, List.cons_append, List.cons.injEq] at whole
  · exact absurd row (by decide)
  · obtain ⟨rfl, -⟩ := whole
    exact absurd row (by decide)
  · obtain ⟨rfl, rfl, -⟩ := whole
    exact absurd row (by decide)
  · obtain ⟨rfl, rfl, rfl, -⟩ := whole
    exact absurd row (by decide)
  · simp at whole

/-- The output has filled the screen up to the last cell. -/
def lastCell : Kernel :=
  { (multiTermInit .loaded).setTerm 0 { (multiTermInit .loaded).terminalTable 0 with x := 79, y := 24 } with
    cursor := 1999 }

/-- One letter: the hardware cursor ends in cell 1919, on the letter itself. -/
theorem lastCell_lost : ¬∀ (k : Kernel) (codes : List UInt8), (k.cursor : Int) = lineCursor k →
    Follows (codes.foldl kbIntHandler k) := by
  intro claim
  have follows := claim lastCell [0x1E] (by decide)
  have behind : lineCursor ([0x1E].foldl kbIntHandler lastCell) = 1920 := by decide
  have cursor : ([0x1E].foldl kbIntHandler lastCell).cursor = 1919 := by decide
  rw [Follows, behind, cursor] at follows
  exact absurd (follows (by decide) (by decide)) (by decide)

end Follows

end BozOS
