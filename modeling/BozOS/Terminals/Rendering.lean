import BozOS.Terminals.Isolation

namespace BozOS

open Data Lib

/-! The console against an unbounded one. The reference never scrolls: it writes
on a grid without a last row, and the screen is the window on its last 25 rows. -/

structure Rendering where
  grid : Nat → Nat → UInt8
  row : Nat
  column : Nat

namespace Rendering

def blank : Rendering := ⟨fun _ _ => 0x20, 0, 0⟩

def put (r : Rendering) (c : UInt8) : Nat → Nat → UInt8 := fun row column =>
  if row = r.row ∧ column = r.column then c else r.grid row column

def write (r : Rendering) (c : UInt8) : Rendering :=
  if c = 0x0A ∨ c = 0x0D then ⟨r.grid, r.row + 1, 0⟩
  else if r.column = 79 then ⟨r.put c, r.row + 1, 0⟩
  else ⟨r.put c, r.row, r.column + 1⟩

def render (text : List UInt8) : Rendering := text.foldl write blank

/-- The 80 by 25 cells that end at row 24 or at the row of the cursor, with the
attribute byte behind each character. -/
def cells (grid : Nat → Nat → UInt8) (row : Nat) (color : UInt8) : Fin 4000 → UInt8 := fun index =>
  if index.val % 2 = 0 then grid (row - 24 + index.val / 160) (index.val % 160 / 2) else color

def window (r : Rendering) (color : UInt8) : Screen := ⟨cells r.grid r.row color, r.column, (min r.row 24 : Nat)⟩

/-- The cursor is on the grid, and the rows behind it are still blank. -/
structure Fresh (r : Rendering) : Prop where
  inside : r.column < 80
  below : ∀ row column, r.row < row → r.grid row column = 0x20

variable {r : Rendering} {grid : Nat → Nat → UInt8} {row : Nat} {color c : UInt8}

theorem Fresh.put (fresh : r.Fresh) (row column : Nat) (behind : r.row < row) : r.put c row column = 0x20 := by
  rw [Rendering.put, if_neg (by omega)]
  exact fresh.below row column behind

theorem Fresh.write (fresh : r.Fresh) : (r.write c).Fresh := by
  have inside := fresh.inside
  unfold Rendering.write
  split
  · exact ⟨by simp only; omega, fun row column behind => fresh.below row column (by simp only at behind; omega)⟩
  split
  · exact ⟨by simp only; omega, fun row column behind => fresh.put row column (by simp only at behind; omega)⟩
  · exact ⟨by simp only; omega, fun row column behind => fresh.put row column behind⟩

/-- Scrolling the window is moving it down one row. -/
theorem scroll_cells (full : 24 ≤ row) (below : ∀ column, grid (row + 1) column = 0x20) :
    Screen.scroll (cells grid row color) color = cells grid (row + 1) color := by
  funext index
  have bound := index.isLt
  unfold Screen.scroll cells
  by_cases upper : index.val + 160 < 4000
  · rw [dif_pos upper]
    simp only
    rw [show (index.val + 160) % 2 = index.val % 2 by omega, show (index.val + 160) % 160 = index.val % 160 by omega,
      show row - 24 + (index.val + 160) / 160 = row + 1 - 24 + index.val / 160 by omega]
  · rw [dif_neg upper, show row + 1 - 24 + index.val / 160 = row + 1 by omega, below]

/-- A character drawn on the screen is a character put on the grid. -/
theorem draw_window (fresh : r.Fresh) : (r.window color).draw color c = cells (r.put c) r.row color := by
  have inside := fresh.inside
  funext index
  have bound := index.isLt
  unfold Screen.draw window cells Rendering.put
  simp only
  by_cases here : (index.val : Int) = 2 * (80 * (min r.row 24 : Nat) + r.column)
  · rw [if_pos here, if_pos (by omega), if_pos (by omega)]
  · rw [if_neg here]
    by_cases colored : (index.val : Int) = 2 * (80 * (min r.row 24 : Nat) + r.column) + 1
    · rw [if_pos colored, if_neg (by omega)]
    · rw [if_neg colored]
      by_cases character : index.val % 2 = 0
      · rw [if_pos character, if_pos character, if_neg (by omega)]
      · rw [if_neg character, if_neg character]

/-- The same rows are shown before and after a move inside the first screen. -/
theorem cells_first {other : Nat} (first : row ≤ 24) (second : other ≤ 24) :
    cells grid row color = cells grid other color := by
  unfold cells
  rw [show row - 24 = other - 24 by omega]

/-- `putc` on the window is a step of the reference. -/
theorem putc_window (fresh : r.Fresh) : (r.window color).putc color c = (r.write c).window color := by
  have inside := fresh.inside
  have drawn : (r.window color).draw color c = cells (r.put c) r.row color := draw_window fresh
  have x : (r.window color).x = r.column := rfl
  have y : (r.window color).y = (min r.row 24 : Nat) := rfl
  unfold Screen.putc Rendering.write
  rw [drawn, x, y]
  by_cases lineBreak : c = 0x0A ∨ c = 0x0D
  · rw [if_pos lineBreak, if_pos lineBreak]
    by_cases last : 24 ≤ r.row
    · rw [if_pos (by omega)]
      simp only [window, Screen.mk.injEq]
      exact ⟨scroll_cells last fun column => fresh.below _ column (by omega), rfl, by omega⟩
    · rw [if_neg (by omega)]
      simp only [window, Screen.mk.injEq]
      exact ⟨cells_first (by omega) (by omega), rfl, by omega⟩
  · rw [if_neg lineBreak, if_neg lineBreak]
    by_cases corner : 24 ≤ r.row ∧ r.column = 79
    · rw [if_pos (by omega), if_pos corner.2]
      simp only [window, Screen.mk.injEq]
      exact ⟨scroll_cells corner.1 fun column => fresh.put _ column (by omega), rfl, by omega⟩
    · rw [if_neg (by omega), Screen.advance_eq (by omega) (by omega) (by omega)]
      by_cases wraps : r.column = 79
      · rw [if_pos wraps, if_pos (by omega)]
        simp only [window, Screen.mk.injEq]
        exact ⟨cells_first (by omega) (by omega), rfl, by omega⟩
      · rw [if_neg wraps, if_neg (by omega)]
        simp only [window, Screen.mk.injEq, true_and, and_true]
        omega

theorem write_window (fresh : r.Fresh) (text : List UInt8) :
    (r.window color).write color text = (text.foldl write r).window color := by
  induction text generalizing r with
  | nil => rfl
  | cons c rest ih =>
      rw [Screen.write, List.foldl_cons, List.foldl_cons, putc_window fresh]
      exact ih fresh.write

end Rendering

/-- An empty screen with the cursor in its first cell. -/
def Screen.blank (color : UInt8) : Screen := ⟨fun index => if index.val % 2 = 0 then 0x20 else color, 0, 0⟩

/-- The console refines the reference: whatever is written, a terminal shows the
last 25 rows of it. -/
theorem console_refines (k : Kernel) (text : List UInt8)
    (blank : k.screen k.activeTask = .blank (k.color k.activeTask)) :
    (puts k text).screen k.activeTask = (Rendering.render text).window (k.color k.activeTask) := by
  have home : Rendering.blank.Fresh := ⟨by decide, fun _ _ _ => rfl⟩
  have shown : Rendering.blank.window (k.color k.activeTask) = .blank (k.color k.activeTask) := rfl
  have inRange : (k.screen k.activeTask).InRange := by
    rw [blank]
    exact ⟨(by decide : (0 : Int) ≤ 0 ∧ (0 : Int) < 80), (by decide : (0 : Int) ≤ 0 ∧ (0 : Int) < 25)⟩
  rw [puts_screen inRange, blank, ← shown, Rendering.write_window home, Rendering.render]

/-- The second terminal's task, as `multi_term_init` leaves its screen. -/
def hiddenTask : Kernel := { multiTermInit .loaded with activeTask := 1 }

theorem hiddenTask_blank :
    hiddenTask.screen hiddenTask.activeTask = .blank (hiddenTask.color hiddenTask.activeTask) := by
  have memory : hiddenTask.videoMemory =
      blankCells (blankCells (blankCells (fun _ => 0) (termVideo 0) 0x7 0 2000) (termVideo 1) 0xA 0 2000)
        (termVideo 2) 0xC 0 2000 := by
    simp only [hiddenTask, multiTermInit, List.foldl_cons, List.foldl_nil, Kernel.loaded, setActiveTerminal]
    rfl
  have base : hiddenTask.screenBase hiddenTask.activeTask = 0xBA000 := by decide
  have cells : view hiddenTask.videoMemory 0xBA000 = fun index => if index.val % 2 = 0 then 0x20 else 0xA := by
    funext index
    have bound := index.isLt
    rw [view, memory, blankCells_eq, if_neg (by simp [termVideo]; omega), blankCells_eq,
      if_pos (by simp [termVideo]; omega)]
    rw [show 0xBA000 + index.val - termVideo 1 = index.val by simp [termVideo]]
  rw [Kernel.screen, base, cells]
  rfl

theorem hiddenTask_refines : (puts hiddenTask [0x61, 0x0A, 0x62]).screen hiddenTask.activeTask =
    (Rendering.render [0x61, 0x0A, 0x62]).window (hiddenTask.color hiddenTask.activeTask) :=
  console_refines hiddenTask [0x61, 0x0A, 0x62] hiddenTask_blank

end BozOS
