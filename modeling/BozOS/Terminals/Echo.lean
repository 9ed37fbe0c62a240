import BozOS.Terminals.Cursor
import BozOS.Terminals.Residue

namespace BozOS

open Data Lib

/-! The echo of the keyboard. A key writes the cell at the terminal's position
plus the length of the line, and only a line that ends in the last cell of the
screen makes it scroll. -/

variable {k after : Kernel} {c : UInt8} {t : TermId} {key : Keystroke} {index : Int}

/-- A key that echoes writes one of the 2000 cells of the screen, and no key that
edits the line changes a byte behind them. -/
structure EchoInside (k : Kernel) (scanCode : UInt8) : Prop where
  cell : ∀ index, echoIndex k (keystroke k scanCode) = some index → 0 ≤ index ∧ index ≤ 1999
  page : keystroke k scanCode ≠ .none → ChangesPage 0xB8000 k.videoMemory (kbIntHandler k scanCode).videoMemory

theorem echoIndex_char {plain : c ≠ 0 ∧ c ≠ 0x0A} (echoes : echoIndex k (.char c plain) = some index) :
    strlen k.kbBuf 128 < 127 ∧ index = lineCursor k := by
  simp only [echoIndex, Option.ite_none_right_eq_some, Option.some.injEq] at echoes
  exact ⟨echoes.1, echoes.2.symm⟩

theorem echoIndex_erase (echoes : echoIndex k .erase = some index) :
    0 < strlen k.kbBuf 128 ∧ index = lineCursor k - 1 := by
  simp only [echoIndex, Option.ite_none_right_eq_some, Option.some.injEq] at echoes
  exact ⟨echoes.1, echoes.2.symm⟩

section Lines

/-- The length of a terminal's unfinished line. -/
def lineLength (k : Kernel) (t : TermId) : Nat := strlen (lineBuffer k t) 128

/-- The cell behind a character that a program prints at a terminal's position.
Behind the last row there is none: the screen scrolls. -/
def outputEnd (term : Term) (c : UInt8) : Int :=
  if c = 0x0A ∨ c = 0x0D ∨ term.x = 79 then if term.y = 24 then 80 * 24 else 80 * (term.y + 1)
  else 80 * term.y + term.x + 1

/-- How far behind the terminal's position a line of this length is edited next: a
full one by a backspace only. -/
def editOffset (length : Nat) : Nat := if length < 127 then length else length - 1

/-- There is room on the screen for a character of output and the unfinished
line behind it, and a character is not typed into a line that begins in row 23
and already fills the rest of the screen. -/
def EchoSafe (k : Kernel) : DisplayEvent → Prop
  | .putc c => outputEnd (k.terminalTable k.activeTask) c + editOffset (lineLength k k.activeTask) ≤ 1999
  | .key scanCode => (∃ c plain, keystroke k scanCode = .char c plain) → strlen k.kbBuf 128 < 127 →
      (k.terminalTable k.activeTerminal).y = 23 → (k.terminalTable k.activeTerminal).x + strlen k.kbBuf 128 < 160
  | _ => True

/-- A line in the last row ends before its last cell, and one in the row above
it at the latest behind the screen. -/
structure LineFits (term : Term) (length : Nat) : Prop where
  last : term.y = 24 → term.x + length ≤ 79
  above : term.y = 23 → term.x + length ≤ 160

/-- What holds in every state of a run whose events are all safe. -/
structure EchoInv (k : Kernel) : Prop where
  inRange : CursorsInRange k
  fits : ∀ t, LineFits (k.terminalTable t) (lineLength k t)

theorem lineLength_shown : lineLength k k.activeTerminal = strlen k.kbBuf 128 := by
  rw [lineLength, lineBuffer, if_pos rfl]

theorem lineLength_congr (same : ∀ i < 128, lineBuffer after t i = lineBuffer k t i) :
    lineLength after t = lineLength k t := strlen_congr same

theorem EchoInv.edit {inside : Prop} (inv : EchoInv k) (redraws : Redraws inside k after)
    (own : LineFits (after.terminalTable k.activeTerminal) (strlen after.kbBuf 128)) : EchoInv after := by
  refine ⟨redraws.inRange inv.inRange, fun t => ?_⟩
  by_cases displayed : t = k.activeTerminal
  · subst displayed
    rwa [← redraws.shown, lineLength_shown, redraws.shown]
  · have kept := inv.fits t
    rw [lineLength, lineBuffer, if_neg displayed] at kept
    rw [lineLength, lineBuffer, redraws.shown, if_neg displayed, redraws.others t displayed]
    exact kept

theorem EchoInv.switch (inv : EchoInv k) (newTerminal : Nat) : EchoInv (switchTerminal k newTerminal) := by
  refine ⟨switchTerminal_inRange inv.inRange, fun t => ?_⟩
  rcases switchTerminal_cases k newTerminal with kept | ⟨new, -, switched⟩
  · rw [kept]
    exact inv.fits t
  · obtain ⟨kbBuf, terminal⟩ := switchTo_terminals k new t
    rw [switched, lineLength_congr (switchTo_lineBuffer t), terminal]
    exact ⟨(inv.fits t).last, (inv.fits t).above⟩

theorem EchoInv.char (inv : EchoInv k) (plain : c ≠ 0 ∧ c ≠ 0x0A)
    (room : strlen k.kbBuf 128 < 127 → (k.terminalTable k.activeTerminal).y = 23 →
      (k.terminalTable k.activeTerminal).x + strlen k.kbBuf 128 < 160) : EchoInv (addCharToBuf k c) := by
  obtain ⟨column, -⟩ := inv.inRange k.activeTerminal
  obtain ⟨last, above⟩ := inv.fits k.activeTerminal
  rw [lineLength_shown] at last above
  by_cases short : strlen k.kbBuf 128 < 127
  · have longer := addCharToBuf_longer plain.1 short
    refine inv.edit (pressed_redraws (.char c plain) (by simp)) ?_
    rw [longer]
    by_cases fills : FillsScreen k
    · obtain ⟨moved, -⟩ := addCharToBuf_scrolls plain.2 short fills
      obtain ⟨bottom, corner⟩ := fills
      rw [moved, Function.update_self]
      exact ⟨fun impossible => by simp at impossible, fun _ => by simp only; omega⟩
    · obtain ⟨same, -⟩ := addCharToBuf_stays plain.2 short fills
      rw [same]
      refine ⟨fun bottom => ?_, fun second => ?_⟩
      · have before : (k.terminalTable k.activeTerminal).x + strlen k.kbBuf 128 ≠ 79 :=
          fun corner => fills ⟨bottom, by simp only [u32]; omega⟩
        have inside := last bottom
        omega
      · have inside := room short second
        omega
  · rwa [addCharToBuf_full plain.2 short]

theorem EchoInv.erase (inv : EchoInv k) : EchoInv (delCharFromBuf k) := by
  by_cases nonempty : 0 < strlen k.kbBuf 128
  · obtain ⟨same, -⟩ := delCharFromBuf_moves nonempty
    obtain ⟨shorter, -⟩ := delCharFromBuf_shorter nonempty
    obtain ⟨last, above⟩ := inv.fits k.activeTerminal
    rw [lineLength_shown] at last above
    refine inv.edit (pressed_redraws .erase (by simp)) ?_
    rw [same, shorter]
    refine ⟨fun bottom => ?_, fun second => ?_⟩
    · have inside := last bottom
      omega
    · have inside := above second
      omega
  · rwa [delCharFromBuf_empty nonempty]

/-- A new line, at the beginning of a row. -/
theorem EchoInv.home {inside : Prop} (inv : EchoInv k) (redraws : Redraws inside k after) (home : AtHome after)
    (empty : strlen after.kbBuf 128 = 0) : EchoInv after := by
  have column := home.1
  rw [redraws.shown] at column
  refine inv.edit redraws ?_
  rw [empty]
  exact ⟨fun _ => by omega, fun _ => by omega⟩

theorem pressed_echoInv (pressed : Pressed k key after) (inv : EchoInv k)
    (safe : (∃ c plain, key = .char c plain) → strlen k.kbBuf 128 < 127 →
      (k.terminalTable k.activeTerminal).y = 23 →
      (k.terminalTable k.activeTerminal).x + strlen k.kbBuf 128 < 160) : EchoInv after := by
  cases pressed with
  | modifier keyStatus => exact ⟨inv.inRange, inv.fits⟩
  | switch newTerminal => exact inv.switch newTerminal
  | clear =>
      have home := clearScreen_home k
      exact inv.home (pressed_redraws .clear (by simp)) ⟨home.1, home.2⟩ (strlen_cleared (clearScreen k).kbBuf)
  | erase => exact inv.erase
  | enter release =>
      have home := newline_home { k with terminalReadRelease := release }
      exact inv.home (pressed_redraws (.enter release) (by simp)) ⟨home.1, home.2⟩ (copyKbBuf_empty _)
  | char c plain => exact inv.char plain (safe ⟨c, plain, rfl⟩)

theorem putc_outputEnd (inRange : CursorsInRange k) :
    80 * ((putc k c).terminalTable k.activeTask).y + ((putc k c).terminalTable k.activeTask).x =
      outputEnd (k.terminalTable k.activeTask) c := by
  have draws : DrawsOn k (putc k c) _ := putc_draws (inRange.screen k.activeTask)
  obtain ⟨column, row⟩ := inRange k.activeTask
  rw [draws.cursor.1, draws.cursor.2]
  unfold Screen.putc outputEnd Kernel.screen
  simp only
  generalize k.terminalTable k.activeTask = term at column row
  by_cases newline : c = 0x0A ∨ c = 0x0D
  · have breaks : c = 0x0A ∨ c = 0x0D ∨ term.x = 79 := newline.imp_right .inl
    rw [if_pos newline, if_pos breaks]
    split
    · simp only
      omega
    · simp only
      omega
  · rw [if_neg newline]
    by_cases corner : term.y = 24 ∧ term.x = 79
    · rw [if_pos corner, if_pos (.inr (.inr corner.2)), if_pos corner.1]
      rfl
    · rw [if_neg corner, Screen.advance_eq (by omega) (by omega) corner]
      by_cases edge : term.x = 79
      · rw [if_pos edge, if_pos (.inr (.inr edge)), if_neg fun bottom => corner ⟨bottom, edge⟩, Int.add_zero]
      · have inner : ¬(c = 0x0A ∨ c = 0x0D ∨ term.x = 79) := fun breaks =>
          edge ((or_assoc.mpr breaks).resolve_left newline)
        rw [if_neg edge, if_neg inner]
        exact (Int.add_assoc _ _ _).symm

theorem EchoInv.putc (inv : EchoInv k)
    (safe : outputEnd (k.terminalTable k.activeTask) c + editOffset (lineLength k k.activeTask) ≤ 1999) :
    EchoInv (putc k c) := by
  have draws : DrawsOn k (BozOS.putc k c) _ := putc_draws (inv.inRange.screen k.activeTask)
  have lengths : ∀ t, lineLength (BozOS.putc k c) t = lineLength k t := by
    intro t
    obtain ⟨_, _, _, _, written⟩ := putc_screenFrame (k := k) (c := c)
    rw [lineLength, lineBuffer, written]
    rfl
  refine ⟨putc_cursors inv.inRange, fun t => ?_⟩
  by_cases own : t = k.activeTask
  · subst own
    have column := (putc_cursors (c := c) inv.inRange k.activeTask).column
    rw [← putc_outputEnd inv.inRange, ← lengths] at safe
    generalize lineLength (BozOS.putc k c) k.activeTask = length at safe ⊢
    unfold editOffset at safe
    split at safe
    · exact ⟨fun bottom => by omega, fun second => by omega⟩
    · exact ⟨fun bottom => by omega, fun second => by omega⟩
  · rw [draws.others t own, lengths]
    exact inv.fits t

theorem clearScreen_top (k : Kernel) : ((clearScreen k).terminalTable k.activeTerminal).y = 0 := by
  unfold clearScreen
  simp only [setScreenX, setScreenY, Kernel.selected]
  rw [if_pos (by decide), if_pos (by decide)]
  simp only [updateCursor, Kernel.setTerm, Function.update_self]

theorem EchoInv.clear (inv : EchoInv k) : EchoInv (clearScreen k) := by
  refine inv.edit (clearScreen_redraws : Redraws True k (clearScreen k)) ?_
  have top := clearScreen_top k
  exact ⟨fun bottom => by omega, fun second => by omega⟩

theorem displayNext_echoInv {event : DisplayEvent} (inv : EchoInv k) (safe : EchoSafe k event) :
    EchoInv (displayNext k event) := by
  cases event with
  | putc c => exact inv.putc safe
  | setActiveTask newTask =>
      simp only [displayNext, setActiveTask]
      split
      · exact ⟨inv.inRange, inv.fits⟩
      · exact inv
  | key scanCode => exact pressed_echoInv (kbIntHandler_pressed k scanCode) inv safe
  | clearScreen => exact inv.clear
  | switchTerminal newTerminal => exact inv.switch newTerminal

theorem EchoInv.inside {scanCode : UInt8} (inv : EchoInv k) (safe : EchoSafe k (.key scanCode)) :
    EchoInside k scanCode := by
  have cell : ∀ index, echoIndex k (keystroke k scanCode) = some index → 0 ≤ index ∧ index ≤ 1999 := by
    intro index echoes
    obtain ⟨column, row⟩ := inv.inRange k.activeTerminal
    obtain ⟨last, above⟩ := inv.fits k.activeTerminal
    have length := strlen_le k.kbBuf 128
    rw [lineLength_shown] at last above
    generalize typed : keystroke k scanCode = key at echoes
    cases key with
    | none => cases echoes
    | clear => cases echoes
    | enter => cases echoes
    | erase =>
        obtain ⟨nonempty, rfl⟩ := echoIndex_erase echoes
        unfold lineCursor
        omega
    | char c plain =>
        obtain ⟨room, rfl⟩ := echoIndex_char echoes
        have filling := safe ⟨c, plain, typed⟩ room
        unfold lineCursor
        omega
  exact ⟨cell, fun edits => (pressed_redraws (kbIntHandler_pressed k scanCode) edits).page cell⟩

theorem multiTermInit_echoInv (boot : Kernel) : EchoInv (multiTermInit boot) where
  inRange := multiTermInit_inRange boot
  fits t := by
    have top : ((multiTermInit boot).terminalTable t).y = 0 := rfl
    exact ⟨fun bottom => by omega, fun second => by omega⟩

theorem displayRun_echoInv {events : List DisplayEvent} (inv : EchoInv k)
    (safe : ∀ front event back, events = front ++ event :: back → EchoSafe (displayRun k front) event) :
    EchoInv (displayRun k events) := by
  induction events using List.reverseRecOn with
  | nil => exact inv
  | append_singleton front event ih =>
      rw [displayRun, List.foldl_append, List.foldl_cons, List.foldl_nil]
      refine displayNext_echoInv (ih fun before next behind whole => ?_) (safe front event [] rfl)
      exact safe before next (behind ++ [event]) (by simp [whole])

/-- In a run of safe events every echo stays on the screen. -/
theorem safe_echo_inside (boot : Kernel) (events : List DisplayEvent)
    (safe : ∀ front event back, events = front ++ event :: back →
      EchoSafe (displayRun (multiTermInit boot) front) event) :
    ∀ front scanCode back, events = front ++ .key scanCode :: back →
      EchoInside (displayRun (multiTermInit boot) front) scanCode := by
  intro front scanCode back whole
  have inv : EchoInv (displayRun (multiTermInit boot) front) := by
    refine displayRun_echoInv (multiTermInit_echoInv boot) fun before event behind earlier => ?_
    exact safe before event (behind ++ .key scanCode :: back) (by simp [whole, earlier])
  exact inv.inside (safe front (.key scanCode) back whole)

/-- A prompt, two letters, a backspace and a third letter. -/
def promptedLine : List DisplayEvent :=
  [.putc 0x3E, .putc 0x20, .key 0x1E, .key 0x30, .key 0x0E, .key 0x2E]

theorem promptedLine_safe (front : List DisplayEvent) (event : DisplayEvent) (back : List DisplayEvent)
    (whole : promptedLine = front ++ event :: back) : EchoSafe (displayRun (multiTermInit .loaded) front) event := by
  rcases front with _ | ⟨first, _ | ⟨second, _ | ⟨third, _ | ⟨fourth, _ | ⟨fifth, _ | ⟨sixth, rest⟩⟩⟩⟩⟩⟩ <;>
    simp only [promptedLine, List.nil_append, List.cons_append, List.cons.injEq] at whole
  · obtain ⟨rfl, -⟩ := whole
    exact show _ ≤ _ by decide
  · obtain ⟨rfl, rfl, -⟩ := whole
    exact show _ ≤ _ by decide
  -- The keys are pressed in row 0.
  · obtain ⟨rfl, rfl, rfl, -⟩ := whole
    exact fun _ _ row => absurd row (by decide)
  · obtain ⟨rfl, rfl, rfl, rfl, -⟩ := whole
    exact fun _ _ row => absurd row (by decide)
  · obtain ⟨rfl, rfl, rfl, rfl, rfl, -⟩ := whole
    exact fun _ _ row => absurd row (by decide)
  · obtain ⟨rfl, rfl, rfl, rfl, rfl, rfl, -⟩ := whole
    exact fun _ _ row => absurd row (by decide)
  · simp at whole

theorem promptedLine_inside : EchoInside (displayRun (multiTermInit .loaded) (promptedLine.take 4)) 0x0E ∧
    EchoInside (displayRun (multiTermInit .loaded) (promptedLine.take 5)) 0x2E := by
  have inside := safe_echo_inside .loaded promptedLine promptedLine_safe
  exact ⟨inside _ 0x0E [.key 0x2E] rfl, inside _ 0x2E [] rfl⟩

end Lines

section Overrun

/-! Output between two keys: it moves the position on while the line stays as
long as it is. -/

variable {x y column row : Int} {length : Nat}

/-- A line of some length typed behind output that ended at a position of the
displayed terminal. -/
structure Prompt (k : Kernel) (x y : Int) (length : Nat) : Prop where
  inRange : CursorsInRange k
  task : k.activeTask = k.activeTerminal
  plain : k.keyStatus = 0
  position : (k.terminalTable k.activeTerminal).x = x ∧ (k.terminalTable k.activeTerminal).y = y
  typed : strlen k.kbBuf 128 = length

theorem displayRun_append (first second : List DisplayEvent) :
    displayRun k (first ++ second) = displayRun (displayRun k first) second := List.foldl_append

theorem Prompt.printed (prompt : Prompt k x y length) (c : UInt8) :
    ∃ column row, Prompt (putc k c) column row length ∧
      80 * row + column = outputEnd (k.terminalTable k.activeTask) c := by
  have ends := putc_outputEnd (c := c) prompt.inRange
  obtain ⟨_, _, _, _, written⟩ := putc_screenFrame (k := k) (c := c)
  have shown : k.activeTask = (putc k c).activeTerminal := by
    rw [written]
    exact prompt.task
  rw [shown] at ends
  refine ⟨_, _, ⟨putc_cursors prompt.inRange, ?_, ?_, ⟨rfl, rfl⟩, ?_⟩, ends.trans (by rw [shown])⟩
  · rw [← shown, written]
  · rw [written]
    exact prompt.plain
  · rw [written]
    exact prompt.typed

theorem Prompt.output (prompt : Prompt k x y length) (next : 0 ≤ column ∧ column ≤ 79)
    (ends : outputEnd (k.terminalTable k.activeTask) c = 80 * row + column) :
    Prompt (displayNext k (.putc c)) column row length := by
  obtain ⟨column', row', printed, moved⟩ := prompt.printed c
  have inner := (printed.inRange (putc k c).activeTerminal).column
  rw [printed.position.1] at inner
  obtain ⟨rfl, rfl⟩ : column' = column ∧ row' = row := by omega
  exact printed

theorem Prompt.newlines (prompt : Prompt k 0 y length) (count : Nat) (above : y + count ≤ 24) :
    Prompt (displayRun k (List.replicate count (.putc 0x0A))) 0 (y + count) length := by
  induction count generalizing k y with
  | zero => simpa [displayRun] using prompt
  | succ count ih =>
      have next : Prompt (displayNext k (.putc 0x0A)) 0 (y + 1) length := by
        refine prompt.output (by decide) ?_
        rw [outputEnd, if_pos (.inl rfl), prompt.task, prompt.position.2, if_neg (by omega)]
        omega
      have rest := ih next (by omega)
      rwa [show y + 1 + (count : Int) = y + (count + 1 : Nat) by omega] at rest

theorem Prompt.letter (prompt : Prompt k x y length) (room : length < 127) (inside : ¬(y = 24 ∧ x + length = 79)) :
    Prompt (displayNext k (.key 0x1E)) x y (length + 1) := by
  obtain ⟨inRange, task, plain, ⟨column, row⟩, typed⟩ := prompt
  have stays : ¬FillsScreen k := by
    rintro ⟨bottom, corner⟩
    have bounds := (inRange k.activeTerminal).column
    rw [typed] at corner
    simp only [u32] at corner
    exact inside ⟨row ▸ bottom, by omega⟩
  have echoed : displayNext k (.key 0x1E) = addCharToBuf k 0x61 := kbIntHandler_letterA plain
  obtain ⟨same, -⟩ := addCharToBuf_stays (by decide : (0x61 : UInt8) ≠ 0x0A) (typed ▸ room) stays
  have longer := addCharToBuf_longer (by decide : (0x61 : UInt8) ≠ 0) (typed ▸ room)
  obtain ⟨_, _, _, _, frame⟩ := addCharToBuf_screenFrame (k := k) (c := 0x61)
  have pressed : Pressed k _ (addCharToBuf k 0x61) := .char 0x61 ⟨by decide, by decide⟩
  rw [echoed]
  refine ⟨pressed_inRange pressed inRange, ?_, ?_, ?_, longer.trans (by rw [typed])⟩
  · rw [frame]
    exact task
  · rw [frame]
    exact plain
  · rw [addCharToBuf_shown, same]
    exact ⟨column, row⟩

theorem Prompt.letters (prompt : Prompt k x y length) (count : Nat) (room : length + count ≤ 127)
    (inside : x + length + count ≤ 79) :
    Prompt (displayRun k (List.replicate count (.key 0x1E))) x y (length + count) := by
  induction count generalizing k length with
  | zero => exact prompt
  | succ count ih =>
      have rest := ih (prompt.letter (by omega) (by omega)) (by omega) (by omega)
      rwa [show length + 1 + count = length + (count + 1) by omega] at rest

theorem keystroke_letterA (plain : k.keyStatus = 0) : ∃ other, keystroke k 0x1E = .char 0x61 other := by
  refine ⟨⟨by decide, by decide⟩, ?_⟩
  rw [keystroke, if_neg (by simp), getScanCode_letterA plain]
  rfl

theorem getScanCode_backspace (plain : k.keyStatus = 0) : getScanCode k 0x0E = (14, k) := by
  have pressed : ¬(0x0E : UInt8) &&& 0x80 ≠ 0 := by decide
  rw [getScanCode, if_neg pressed]
  simp [keyPressed, keyPosition, plain]

theorem keystroke_backspace (plain : k.keyStatus = 0) : keystroke k 0x0E = .erase := by
  rw [keystroke, if_neg (by simp), getScanCode_backspace plain]
  rfl

theorem EchoInside.letterA (inside : EchoInside k 0x1E) (plain : k.keyStatus = 0) (room : strlen k.kbBuf 128 < 127) :
    lineCursor k ≤ 1999 := by
  obtain ⟨other, typed⟩ := keystroke_letterA plain
  exact (inside.cell (lineCursor k) (by rw [typed]; exact if_pos room)).2

theorem EchoInside.backspace (inside : EchoInside k 0x0E) (plain : k.keyStatus = 0)
    (nonempty : 0 < strlen k.kbBuf 128) : lineCursor k - 1 ≤ 1999 :=
  (inside.cell (lineCursor k - 1) (by rw [keystroke_backspace plain]; exact if_pos nonempty)).2

/-- A key that is not safe is itself echoed outside. -/
theorem key_safe_of_inside {scanCode : UInt8} (inside : EchoInside k scanCode) : EchoSafe k (.key scanCode) := by
  rintro ⟨c, plain, typed⟩ room second
  have index := (inside.cell (lineCursor k) (by rw [typed]; exact if_pos room)).2
  rw [lineCursor, second] at index
  omega

/-- Behind output that is not safe a letter or a backspace is echoed outside. -/
theorem Prompt.safe_of_inside (prompt : Prompt k x y length) (inside : ∀ scanCode, EchoInside (putc k c) scanCode) :
    EchoSafe k (.putc c) := by
  obtain ⟨column, row, printed, moved⟩ := prompt.printed c
  have own : lineLength k k.activeTask = length := by
    rw [prompt.task, lineLength_shown, prompt.typed]
  have cursor : lineCursor (putc k c) = outputEnd (k.terminalTable k.activeTask) c + length := by
    rw [lineCursor, printed.position.1, printed.position.2, printed.typed, moved]
  rw [EchoSafe, own, editOffset]
  by_cases room : length < 127
  · have index := (inside 0x1E).letterA printed.plain (printed.typed.trans_lt room)
    rwa [if_pos room, ← cursor]
  · have index := (inside 0x0E).backspace printed.plain (by rw [printed.typed]; omega)
    rw [if_neg room]
    omega

theorem Prompt.overruns (prompt : Prompt k x y length) (room : length < 127) (behind : 2000 ≤ 80 * y + x + length) :
    ¬EchoInside k 0x1E := by
  intro inside
  have index := inside.letterA prompt.plain (prompt.typed.trans_lt room)
  rw [lineCursor, prompt.position.1, prompt.position.2, prompt.typed] at index
  omega

/-- Output down to the last row, a line up to its last cell, and one character of
output more. -/
def overrunEvents : List DisplayEvent :=
  List.replicate 24 (.putc 0x0A) ++ (List.replicate 79 (.key 0x1E) ++ [.putc 0x61])

theorem overrun_prompt : Prompt (displayRun (multiTermInit .loaded) overrunEvents) 1 24 79 := by
  have start : Prompt (multiTermInit .loaded) 0 0 0 :=
    ⟨multiTermInit_inRange .loaded, rfl, rfl, ⟨rfl, rfl⟩, by decide⟩
  have bottom := start.newlines 24 (by decide)
  have line := bottom.letters 79 (by decide) (by decide)
  rw [overrunEvents, displayRun_append, displayRun_append]
  generalize displayRun (displayRun (multiTermInit .loaded) _) _ = k at line ⊢
  rw [displayRun, List.foldl_cons, List.foldl_nil]
  refine line.output (by decide) ?_
  rw [line.task, outputEnd, line.position.1, line.position.2, if_neg (by decide)]
  rfl

theorem overrun_leaves : ¬∀ (boot : Kernel) (events : List DisplayEvent), ∀ front scanCode back,
    events = front ++ .key scanCode :: back → EchoInside (displayRun (multiTermInit boot) front) scanCode := by
  intro claim
  have inside := claim .loaded (overrunEvents ++ [.key 0x1E]) overrunEvents 0x1E [] rfl
  exact overrun_prompt.overruns (by decide) (by decide) inside

end Overrun

end BozOS
