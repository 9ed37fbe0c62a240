import BozOS.Kernel.MultiTerm

namespace BozOS

open Data Lib

/-! Each terminal's logical screen: 80 by 25 cells of two bytes and a cursor,
wherever in video memory the cells lie. `putc` acts on one screen, and a
terminal switch moves screens without changing any. -/

structure Screen where
  cells : Fin 4000 → UInt8
  x : Int
  y : Int

namespace Screen

/-- Rows 1 to 24 move up, and the last row becomes blank. -/
def scroll (cells : Fin 4000 → UInt8) (color : UInt8) : Fin 4000 → UInt8 := fun index =>
  if inside : index.val + 160 < 4000 then cells ⟨index.val + 160, inside⟩
  else if index.val % 2 = 0 then 0x20 else color

def draw (screen : Screen) (color c : UInt8) : Fin 4000 → UInt8 := fun index =>
  if (index.val : Int) = 2 * (80 * screen.y + screen.x) then c
  else if (index.val : Int) = 2 * (80 * screen.y + screen.x) + 1 then color
  else screen.cells index

def putc (screen : Screen) (color c : UInt8) : Screen :=
  if c = 0x0A ∨ c = 0x0D then
    if screen.y = 24 then { screen with cells := scroll screen.cells color, x := 0 }
    else { screen with x := 0, y := screen.y + 1 }
  else if screen.y = 24 ∧ screen.x = 79 then ⟨scroll (screen.draw color c) color, 0, 24⟩
  else ⟨screen.draw color c, (advance screen.x screen.y).1, (advance screen.x screen.y).2⟩

structure InRange (screen : Screen) : Prop where
  column : 0 ≤ screen.x ∧ screen.x < 80
  row : 0 ≤ screen.y ∧ screen.y < 25

/-- The moves of `putc` in front of the last cell of the screen. -/
theorem advance_eq {x y : Int} (column : 0 ≤ x ∧ x < 80) (row : 0 ≤ y ∧ y < 25) (room : ¬(y = 24 ∧ x = 79)) :
    advance x y = if x = 79 then (0, y + 1) else (x + 1, y) := by
  have next : (x + 1).tmod 80 = (x + 1) % 80 := Int.tmod_eq_emod_of_nonneg (by omega)
  unfold advance
  simp only [next]
  by_cases wraps : x = 79
  · rw [if_pos wraps, if_pos (by omega), show (x + 1) % 80 = 0 by omega]
    rw [Int.zero_tdiv, Int.add_zero, Int.tmod_eq_emod_of_nonneg (by omega), Int.emod_eq_of_lt (by omega) (by omega)]
  · rw [if_neg wraps, if_neg (by omega), Int.emod_eq_of_lt (by omega) (by omega),
      Int.tdiv_eq_zero_of_lt (by omega) (by omega), Int.add_zero, Int.tmod_eq_emod_of_nonneg (by omega),
      Int.emod_eq_of_lt (by omega) (by omega)]

theorem putc_inRange {screen : Screen} {color c : UInt8} (ready : screen.InRange) :
    (screen.putc color c).InRange := by
  obtain ⟨column, row⟩ := ready
  unfold putc
  split
  · split
    · exact ⟨by simp, row⟩
    · exact ⟨by simp, by simp only; omega⟩
  · split
    · exact ⟨by simp, by simp⟩
    · rename_i corner
      rw [advance_eq column row corner]
      split
      · exact ⟨by simp, by simp only; omega⟩
      · exact ⟨by simp only; omega, row⟩

end Screen

def view (memory : Memory) (base : Nat) : Fin 4000 → UInt8 := fun index => memory (base + index.val)

def Apart (first second : Nat) : Prop := first + 4000 ≤ second ∨ second + 4000 ≤ first

instance (first second : Nat) : Decidable (Apart first second) :=
  inferInstanceAs (Decidable (_ ∨ _))

/-- The memories differ at most inside one screen page. -/
def ChangesPage (base : Nat) (before after : Memory) : Prop :=
  ∀ cell, cell < base ∨ base + 4000 ≤ cell → after cell = before cell

section Memory

variable {memory after : Memory} {base other : Nat} {color c : UInt8}

theorem ChangesPage.view_eq (changes : ChangesPage base memory after) (apart : Apart other base) :
    view after other = view memory other := by
  funext index
  have bound := index.isLt
  unfold Apart at apart
  exact changes _ (by omega)

theorem ChangesPage.trans {middle : Memory} (first : ChangesPage base memory middle)
    (second : ChangesPage base middle after) : ChangesPage base memory after :=
  fun cell outside => (second cell outside).trans (first cell outside)

theorem blankCells_eq {first count cell : Nat} :
    blankCells memory base color first count cell =
      if base + 2 * first ≤ cell ∧ cell < base + 2 * (first + count) then
        if (cell - base) % 2 = 0 then 0x20 else color
      else memory cell := by
  induction count generalizing memory first with
  | zero =>
      rw [blankCells, if_neg (by omega)]
  | succ count ih =>
      rw [blankCells, ih]
      by_cases here : cell = base + 2 * first
      · rw [if_neg (by omega), if_pos (by omega), if_pos (by omega), Memory.store_other (by omega), here,
          Memory.store_same]
      · by_cases colored : cell = base + 2 * first + 1
        · rw [if_neg (by omega), if_pos (by omega), if_neg (by omega), colored, Memory.store_same]
        · rw [Memory.store_other colored, Memory.store_other here]
          by_cases later : base + 2 * (first + 1) ≤ cell ∧ cell < base + 2 * (first + 1 + count)
          · have whole : base + 2 * first ≤ cell ∧ cell < base + 2 * (first + (count + 1)) := by omega
            rw [if_pos later, if_pos whole]
          · rw [if_neg later, if_neg (by omega)]

def scrolled (memory : Memory) (base : Nat) (color : UInt8) : Memory :=
  blankCells (memcpy memory base (base + 160) 3840) base color (80 * 24) 80

theorem scrolled_eq {cell : Nat} :
    scrolled memory base color cell =
      if base ≤ cell ∧ cell < base + 3840 then memory (cell + 160)
      else if base + 3840 ≤ cell ∧ cell < base + 4000 then if (cell - base) % 2 = 0 then 0x20 else color
      else memory cell := by
  rw [scrolled, memcpy_eq_copied (by omega), blankCells_eq, copied]
  by_cases upper : base ≤ cell ∧ cell < base + 3840
  · rw [if_neg (by omega), if_pos upper, Memory.blit_at upper.1 upper.2]
    congr 1
    omega
  · rw [if_neg upper]
    by_cases bottom : base + 3840 ≤ cell ∧ cell < base + 4000
    · rw [if_pos (by omega), if_pos bottom]
    · rw [if_neg (by omega), if_neg bottom, Memory.blit_outside (by omega)]

theorem scrolled_changes : ChangesPage base memory (scrolled memory base color) := by
  intro cell outside
  rw [scrolled_eq, if_neg (by omega), if_neg (by omega)]

theorem view_scrolled : view (scrolled memory base color) base = Screen.scroll (view memory base) color := by
  funext index
  have bound := index.isLt
  simp only [view, Screen.scroll, scrolled_eq]
  by_cases upper : index.val + 160 < 4000
  · rw [if_pos (by omega), dif_pos upper, Nat.add_assoc]
  · rw [if_neg (by omega), if_pos (by omega), dif_neg upper, Nat.add_sub_cancel_left]

end Memory

def Kernel.screenBase (k : Kernel) (t : TermId) : Nat :=
  if t = k.activeTerminal then 0xB8000 else (k.terminalTable t).video

def Kernel.screen (k : Kernel) (t : TermId) : Screen :=
  ⟨view k.videoMemory (k.screenBase t), (k.terminalTable t).x, (k.terminalTable t).y⟩

def Kernel.color (k : Kernel) (t : TermId) : UInt8 :=
  if (k.terminalTable t).color = 0 then 0x7 else UInt8.ofNat (k.terminalTable t).color

/-- Cursors in range, and four screen pages without a common byte. -/
structure ScreensReady (k : Kernel) : Prop where
  cursors : ∀ t, (k.screen t).InRange
  fromScreen : ∀ t, Apart 0xB8000 (k.terminalTable t).video
  fromOthers : ∀ t u, t ≠ u → Apart (k.terminalTable t).video (k.terminalTable u).video

variable {k after : Kernel} {t u : TermId} {c : UInt8}

theorem Apart.symm {first second : Nat} (apart : Apart first second) : Apart second first :=
  Or.symm apart

theorem ScreensReady.apart (ready : ScreensReady k) (different : t ≠ u) :
    Apart (k.screenBase t) (k.screenBase u) := by
  unfold Kernel.screenBase
  by_cases first : t = k.activeTerminal
  · rw [if_pos first, if_neg (fun second => different (first.trans second.symm))]
    exact ready.fromScreen u
  · rw [if_neg first]
    by_cases second : u = k.activeTerminal
    · rw [if_pos second]
      exact (ready.fromScreen t).symm
    · rw [if_neg second]
      exact ready.fromOthers t u different

/-- What a step keeps of the terminals: which one is displayed, where their
pages lie and how they are coloured. -/
structure LayoutFrame (before after : Kernel) : Prop where
  shown : after.activeTerminal = before.activeTerminal
  task : after.activeTask = before.activeTask
  video : ∀ t, (after.terminalTable t).video = (before.terminalTable t).video
  color : ∀ t, (after.terminalTable t).color = (before.terminalTable t).color

theorem LayoutFrame.screenBase (frame : LayoutFrame k after) : after.screenBase t = k.screenBase t := by
  rw [Kernel.screenBase, Kernel.screenBase, frame.shown, frame.video]

/-- A step of the running task that draws only on its own page and moves only
its own cursor. -/
structure DrawsOn (k after : Kernel) (screen : Screen) : Prop where
  layout : LayoutFrame k after
  page : ChangesPage (k.screenBase k.activeTask) k.videoMemory after.videoMemory
  cells : view after.videoMemory (k.screenBase k.activeTask) = screen.cells
  cursor : (after.terminalTable k.activeTask).x = screen.x ∧ (after.terminalTable k.activeTask).y = screen.y
  others : ∀ t, t ≠ k.activeTask → after.terminalTable t = k.terminalTable t

theorem layout_setTerm {memory : Memory} {term : Term}
    (video : term.video = (k.terminalTable t).video) (color : term.color = (k.terminalTable t).color) :
    LayoutFrame k (({ k with videoMemory := memory } : Kernel).setTerm t term) := by
  refine ⟨rfl, rfl, fun u => ?_, fun u => ?_⟩
  · by_cases same : u = t
    · subst same
      rw [Kernel.setTerm_same, video]
    · rw [Kernel.setTerm_other same]
  · by_cases same : u = t
    · subst same
      rw [Kernel.setTerm_same, color]
    · rw [Kernel.setTerm_other same]

theorem drawsOn_setTerm (k : Kernel) (memory : Memory) (screen : Screen)
    (page : ChangesPage (k.screenBase k.activeTask) k.videoMemory memory)
    (cells : view memory (k.screenBase k.activeTask) = screen.cells) :
    DrawsOn k (({ k with videoMemory := memory } : Kernel).setTerm k.activeTask
      { k.terminalTable k.activeTask with x := screen.x, y := screen.y }) screen where
  layout := layout_setTerm rfl rfl
  page := page
  cells := cells
  cursor := by rw [Kernel.setTerm_same]; exact ⟨rfl, rfl⟩
  others u different := Kernel.setTerm_other different

theorem view_draw {base : Nat} {color : UInt8} {screen : Screen} {memory : Memory} (ready : screen.InRange)
    (shown : screen.cells = view memory base) :
    view ((memory.store ((base : Int) + 2 * (80 * screen.y + screen.x)).toNat c).store
      (((base : Int) + 2 * (80 * screen.y + screen.x)).toNat + 1) color) base = screen.draw color c := by
  obtain ⟨column, row⟩ := ready
  funext index
  unfold view Screen.draw
  rw [shown]
  by_cases here : (index.val : Int) = 2 * (80 * screen.y + screen.x)
  · rw [if_pos here, Memory.store_other (by omega)]
    rw [show base + index.val = ((base : Int) + 2 * (80 * screen.y + screen.x)).toNat by omega,
      Memory.store_same]
  · rw [if_neg here]
    by_cases colored : (index.val : Int) = 2 * (80 * screen.y + screen.x) + 1
    · rw [if_pos colored,
        show base + index.val = ((base : Int) + 2 * (80 * screen.y + screen.x)).toNat + 1 by omega,
        Memory.store_same]
    · rw [if_neg colored, Memory.store_other (by omega), Memory.store_other (by omega)]
      rfl

theorem draw_changes {base : Nat} {color : UInt8} {screen : Screen} {memory : Memory} (ready : screen.InRange) :
    ChangesPage base memory ((memory.store ((base : Int) + 2 * (80 * screen.y + screen.x)).toNat c).store
      (((base : Int) + 2 * (80 * screen.y + screen.x)).toNat + 1) color) := by
  obtain ⟨column, row⟩ := ready
  intro cell outside
  rw [Memory.store_other (by omega), Memory.store_other (by omega)]

/-- The bytes `putc` writes for an ordinary character of the running task. -/
def drawn (k : Kernel) (c : UInt8) : Memory :=
  (k.videoMemory.store ((k.screenBase k.activeTask : Int) +
    2 * (80 * (k.screen k.activeTask).y + (k.screen k.activeTask).x)).toNat c).store
    (((k.screenBase k.activeTask : Int) +
      2 * (80 * (k.screen k.activeTask).y + (k.screen k.activeTask).x)).toNat + 1) (k.color k.activeTask)

/-- `putc` up to the hardware cursor is the abstract one on the running task's
screen. -/
theorem putcScreen_draws (inRange : (k.screen k.activeTask).InRange) :
    DrawsOn k (putcScreen k c) ((k.screen k.activeTask).putc (k.color k.activeTask) c) := by
  have drawnPage : ChangesPage (k.screenBase k.activeTask) k.videoMemory (drawn k c) := draw_changes inRange
  have drawnCells : view (drawn k c) (k.screenBase k.activeTask) =
      (k.screen k.activeTask).draw (k.color k.activeTask) c := view_draw inRange rfl
  have sameX : (k.screen k.activeTask).x = (k.terminalTable k.activeTask).x := rfl
  have sameY : (k.screen k.activeTask).y = (k.terminalTable k.activeTask).y := rfl
  unfold putcScreen Screen.putc
  simp only [sameX, sameY]
  by_cases lineBreak : c = 0x0A ∨ c = 0x0D
  · rw [if_pos lineBreak, if_pos lineBreak]
    by_cases last : (k.terminalTable k.activeTask).y = 24
    · rw [if_pos last, if_pos last]
      exact drawsOn_setTerm k (scrolled k.videoMemory (k.screenBase k.activeTask) (k.color k.activeTask))
        ⟨_, 0, _⟩ scrolled_changes view_scrolled
    · rw [if_neg last, if_neg last]
      exact drawsOn_setTerm k k.videoMemory ⟨_, 0, _⟩ (fun _ _ => rfl) rfl
  · rw [if_neg lineBreak, if_neg lineBreak]
    by_cases corner : (k.terminalTable k.activeTask).y = 24 ∧ (k.terminalTable k.activeTask).x = 79
    · rw [if_pos corner, if_pos corner, ← drawnCells]
      exact drawsOn_setTerm k (scrolled (drawn k c) (k.screenBase k.activeTask) (k.color k.activeTask))
        ⟨_, 0, 24⟩ (drawnPage.trans scrolled_changes) view_scrolled
    · rw [if_neg corner, if_neg corner]
      exact drawsOn_setTerm k (drawn k c) ⟨_, _, _⟩ drawnPage drawnCells

theorem putc_draws (inRange : (k.screen k.activeTask).InRange) :
    DrawsOn k (putc k c) ((k.screen k.activeTask).putc (k.color k.activeTask) c) := by
  have draws : DrawsOn k (putcScreen k c) _ := putcScreen_draws inRange
  unfold putc
  simp only
  split
  · exact ⟨⟨draws.layout.shown, draws.layout.task, draws.layout.video, draws.layout.color⟩, draws.page,
      draws.cells, draws.cursor, draws.others⟩
  · exact draws

theorem DrawsOn.screen_self {screen : Screen} (draws : DrawsOn k after screen) :
    after.screen k.activeTask = screen := by
  rw [Kernel.screen, draws.layout.screenBase, draws.cells, draws.cursor.1, draws.cursor.2]

theorem DrawsOn.screen_other {screen : Screen} (draws : DrawsOn k after screen) (ready : ScreensReady k)
    (different : t ≠ k.activeTask) : after.screen t = k.screen t := by
  rw [Kernel.screen, draws.layout.screenBase, draws.page.view_eq (ready.apart different),
    draws.others t different]
  rfl

theorem putc_screen (ready : ScreensReady k) :
    (putc k c).screen t = if t = k.activeTask then (k.screen t).putc (k.color t) c else k.screen t := by
  split
  · rename_i same
    subst same
    exact (putc_draws (ready.cursors _)).screen_self
  · rename_i different
    exact (putc_draws (ready.cursors _)).screen_other ready different

theorem LayoutFrame.ready (frame : LayoutFrame k after) (ready : ScreensReady k)
    (cursors : ∀ t, (after.screen t).InRange) : ScreensReady after where
  cursors := cursors
  fromScreen t := by rw [frame.video]; exact ready.fromScreen t
  fromOthers t u different := by rw [frame.video, frame.video]; exact ready.fromOthers t u different

theorem putc_ready (ready : ScreensReady k) : ScreensReady (putc k c) := by
  refine (putc_draws (ready.cursors _)).layout.ready ready fun t => ?_
  rw [putc_screen ready]
  split
  · exact Screen.putc_inRange (ready.cursors t)
  · exact ready.cursors t

/-- The three copies of `switch_terminal`: the old screen goes to its page, the
display is cleared, the new screen comes in. -/
def exchanged (memory : Memory) (old new : Nat) : Memory :=
  memcpy ((memcpy memory old 0xB8000 4000).fill 0xB8000 0x20 4000) 0xB8000 new 4000

section Exchange

variable {memory : Memory} {old new other : Nat}

theorem exchanged_eq (oldApart : Apart 0xB8000 old) (newApart : Apart 0xB8000 new) :
    exchanged memory old new =
      ((memory.blit old (fun index => memory (0xB8000 + index)) 4000).fill 0xB8000 0x20 4000).blit 0xB8000
        (fun index => ((memory.blit old (fun index => memory (0xB8000 + index)) 4000).fill 0xB8000 0x20 4000)
          (new + index)) 4000 := by
  unfold Apart at oldApart newApart
  rw [exchanged, memcpy_eq_copied (by omega), memcpy_eq_copied (by omega), copied, copied]

theorem view_exchanged_new (oldApart : Apart 0xB8000 old) (newApart : Apart 0xB8000 new)
    (apart : Apart old new) : view (exchanged memory old new) 0xB8000 = view memory new := by
  rw [exchanged_eq oldApart newApart]
  unfold Apart at *
  funext index
  have bound := index.isLt
  rw [view, Memory.blit_inside bound, Memory.fill_outside (by omega), Memory.blit_outside (by omega), view]

theorem view_exchanged_old (oldApart : Apart 0xB8000 old) (newApart : Apart 0xB8000 new) :
    view (exchanged memory old new) old = view memory 0xB8000 := by
  rw [exchanged_eq oldApart newApart]
  unfold Apart at *
  funext index
  have bound := index.isLt
  rw [view, Memory.blit_outside (by omega), Memory.fill_outside (by omega), Memory.blit_inside bound, view]

theorem view_exchanged_other (oldApart : Apart 0xB8000 old) (newApart : Apart 0xB8000 new)
    (otherApart : Apart 0xB8000 other) (apart : Apart old other) :
    view (exchanged memory old new) other = view memory other := by
  rw [exchanged_eq oldApart newApart]
  unfold Apart at *
  funext index
  have bound := index.isLt
  rw [view, Memory.blit_outside (by omega), Memory.fill_outside (by omega), Memory.blit_outside (by omega), view]

end Exchange

theorem switchTo_terminals (k : Kernel) (new t : TermId) :
    ∃ kbBuf, (switchTo k new).terminalTable t = { k.terminalTable t with kbBuf := kbBuf } := by
  by_cases same : t = k.activeTerminal
  · subst same
    exact ⟨_, Kernel.setTerm_same⟩
  · exact ⟨(k.terminalTable t).kbBuf, Kernel.setTerm_other same⟩

theorem switchTo_videoMemory {new : TermId} (different : new ≠ k.activeTerminal) :
    (switchTo k new).videoMemory =
      exchanged k.videoMemory (k.terminalTable k.activeTerminal).video (k.terminalTable new).video := by
  simp only [switchTo, setActiveTerminal, updateCursor, exchanged, Kernel.setTerm_other different]

/-- A switch moves the screens between the pages and keeps them all. -/
theorem switchTo_screen (ready : ScreensReady k) {new : TermId} (different : new ≠ k.activeTerminal) :
    (switchTo k new).screen t = k.screen t := by
  obtain ⟨kbBuf, terminal⟩ := switchTo_terminals k new t
  have oldApart := ready.fromScreen k.activeTerminal
  have newApart := ready.fromScreen new
  have shown : (switchTo k new).activeTerminal = new := rfl
  have cells : view (switchTo k new).videoMemory ((switchTo k new).screenBase t) =
      view k.videoMemory (k.screenBase t) := by
    rw [switchTo_videoMemory different, Kernel.screenBase, Kernel.screenBase, shown, terminal]
    simp only
    by_cases incoming : t = new
    · subst incoming
      rw [if_pos rfl, if_neg different]
      exact view_exchanged_new oldApart newApart (ready.fromOthers _ _ different.symm)
    · rw [if_neg incoming]
      by_cases outgoing : t = k.activeTerminal
      · subst outgoing
        rw [if_pos rfl]
        exact view_exchanged_old oldApart newApart
      · rw [if_neg outgoing]
        exact view_exchanged_other oldApart newApart (ready.fromScreen t)
          (ready.fromOthers _ _ (Ne.symm outgoing))
  rw [Kernel.screen, cells, terminal]
  rfl

end BozOS
