import BozOS.Terminals.Screen

namespace BozOS

open Data Lib

/-! Output isolation: a terminal's screen is a function of what its own task
wrote, however output, task switches and terminal switches are interleaved. -/

inductive ScreenEvent where
  | putc (c : UInt8)
  | setActiveTask (newTask : Nat)
  | switchTerminal (newTerminal : Nat)

def screenNext (k : Kernel) : ScreenEvent → Kernel
  | .putc c => putc k c
  | .setActiveTask newTask => setActiveTask k newTask
  | .switchTerminal newTerminal => switchTerminal k newTerminal

def screenRun (k : Kernel) (events : List ScreenEvent) : Kernel := events.foldl screenNext k

/-- The characters written while `t` was the running task, with `task` running
at first. -/
def writtenBy (t : TermId) : TermId → List ScreenEvent → List UInt8
  | _, [] => []
  | task, .putc c :: rest => if task = t then c :: writtenBy t task rest else writtenBy t task rest
  | task, .setActiveTask newTask :: rest =>
      writtenBy t (if inRange : newTask < 3 then ⟨newTask, inRange⟩ else task) rest
  | task, .switchTerminal _ :: rest => writtenBy t task rest

variable {k : Kernel} {t : TermId} {events : List ScreenEvent} {event : ScreenEvent}

def Screen.write (screen : Screen) (color : UInt8) (text : List UInt8) : Screen :=
  text.foldl (fun screen c => screen.putc color c) screen

theorem setActiveTask_screen {newTask : Nat} : (setActiveTask k newTask).screen t = k.screen t := by
  unfold setActiveTask
  split <;> rfl

theorem setActiveTask_color {newTask : Nat} : (setActiveTask k newTask).color t = k.color t := by
  unfold setActiveTask
  split <;> rfl

theorem setActiveTask_ready {newTask : Nat} (ready : ScreensReady k) : ScreensReady (setActiveTask k newTask) := by
  unfold setActiveTask
  split
  · exact ⟨ready.cursors, ready.fromScreen, ready.fromOthers⟩
  · exact ready

theorem setActiveTask_task {newTask : Nat} : (setActiveTask k newTask).activeTask =
    if inRange : newTask < 3 then ⟨newTask, inRange⟩ else k.activeTask := by
  unfold setActiveTask
  split <;> rfl

theorem switchTerminal_cases (k : Kernel) (newTerminal : Nat) :
    switchTerminal k newTerminal = k ∨
      ∃ new : TermId, new ≠ k.activeTerminal ∧ switchTerminal k newTerminal = switchTo k new := by
  unfold switchTerminal
  by_cases inRange : newTerminal < 3
  · rw [dif_pos inRange]
    by_cases same : newTerminal = k.activeTerminal.val
    · rw [if_pos same]
      exact .inl rfl
    · rw [if_neg same]
      exact .inr ⟨⟨newTerminal, inRange⟩, fun equal => same (congrArg Fin.val equal), rfl⟩
  · rw [dif_neg inRange]
    exact .inl rfl

theorem switchTerminal_screen {newTerminal : Nat} (ready : ScreensReady k) :
    (switchTerminal k newTerminal).screen t = k.screen t := by
  rcases switchTerminal_cases k newTerminal with kept | ⟨new, different, switched⟩
  · rw [kept]
  · rw [switched, switchTo_screen ready different]

theorem switchTerminal_color {newTerminal : Nat} : (switchTerminal k newTerminal).color t = k.color t := by
  rcases switchTerminal_cases k newTerminal with kept | ⟨new, -, switched⟩
  · rw [kept]
  · obtain ⟨kbBuf, terminal⟩ := switchTo_terminals k new t
    rw [switched, Kernel.color, terminal, Kernel.color]

theorem switchTerminal_ready {newTerminal : Nat} (ready : ScreensReady k) :
    ScreensReady (switchTerminal k newTerminal) := by
  rcases switchTerminal_cases k newTerminal with kept | ⟨new, different, switched⟩
  · rwa [kept]
  · rw [switched]
    have pages : ∀ u, ((switchTo k new).terminalTable u).video = (k.terminalTable u).video := by
      intro u
      obtain ⟨kbBuf, terminal⟩ := switchTo_terminals k new u
      rw [terminal]
    refine ⟨fun u => ?_, fun u => ?_, fun u v apart => ?_⟩
    · rw [switchTo_screen ready different]
      exact ready.cursors u
    · rw [pages]
      exact ready.fromScreen u
    · rw [pages, pages]
      exact ready.fromOthers u v apart

theorem switchTerminal_task {newTerminal : Nat} : (switchTerminal k newTerminal).activeTask = k.activeTask := by
  rcases switchTerminal_cases k newTerminal with kept | ⟨new, -, switched⟩
  · rw [kept]
  · rw [switched]
    rfl

theorem putc_color (inRange : (k.screen k.activeTask).InRange) {c : UInt8} : (putc k c).color t = k.color t := by
  rw [Kernel.color, Kernel.color, (putc_draws inRange).layout.color]

theorem screenNext_ready (ready : ScreensReady k) (event : ScreenEvent) : ScreensReady (screenNext k event) := by
  cases event with
  | putc c => exact putc_ready ready
  | setActiveTask newTask => exact setActiveTask_ready ready
  | switchTerminal newTerminal => exact switchTerminal_ready ready

theorem screenNext_color (ready : ScreensReady k) : (screenNext k event).color t = k.color t := by
  cases event with
  | putc c => exact putc_color (ready.cursors _)
  | setActiveTask newTask => exact setActiveTask_color
  | switchTerminal newTerminal => exact switchTerminal_color

/-- After any run, a terminal shows what its own task wrote. -/
theorem screenRun_screen (ready : ScreensReady k) :
    (screenRun k events).screen t = (k.screen t).write (k.color t) (writtenBy t k.activeTask events) := by
  induction events generalizing k with
  | nil => rfl
  | cons event rest ih =>
      rw [screenRun, List.foldl_cons]
      have later := ih (screenNext_ready ready event)
      rw [screenRun, screenNext_color ready] at later
      rw [later]
      cases event with
      | putc c =>
          have sameTask : (putc k c).activeTask = k.activeTask := (putc_draws (ready.cursors _)).layout.task
          rw [screenNext, putc_screen ready, sameTask, writtenBy]
          by_cases own : k.activeTask = t
          · rw [if_pos own.symm, if_pos own]
            rfl
          · rw [if_neg (Ne.symm own), if_neg own]
      | setActiveTask newTask => rw [screenNext, setActiveTask_screen, setActiveTask_task, writtenBy]
      | switchTerminal newTerminal =>
          rw [screenNext, switchTerminal_screen ready, switchTerminal_task, writtenBy]

theorem puts_screen (inRange : (k.screen k.activeTask).InRange) {text : List UInt8} :
    (puts k text).screen k.activeTask = (k.screen k.activeTask).write (k.color k.activeTask) text := by
  induction text generalizing k with
  | nil => rfl
  | cons c rest ih =>
      have draws : DrawsOn k (putc k c) _ := putc_draws inRange
      have later : ((putc k c).screen (putc k c).activeTask).InRange → _ := ih
      rw [draws.layout.task, putc_color inRange, draws.screen_self] at later
      exact later (Screen.putc_inRange inRange)

theorem terminal_output_isolated (k : Kernel) (ready : ScreensReady k) (events : List ScreenEvent) (t : TermId) :
    (screenRun k events).screen t =
      (puts { k with activeTask := t } (writtenBy t k.activeTask events)).screen t := by
  have alone : ScreensReady { k with activeTask := t } := ⟨ready.cursors, ready.fromScreen, ready.fromOthers⟩
  rw [screenRun_screen ready]
  exact (puts_screen (alone.cursors t)).symm

/-- `multi_term_init` puts the pages 4 KiB apart and the cursors home. -/
theorem multiTermInit_ready (k : Kernel) : ScreensReady (multiTermInit k) where
  cursors _ := ⟨(by decide : (0 : Int) ≤ 0 ∧ (0 : Int) < 80), (by decide : (0 : Int) ≤ 0 ∧ (0 : Int) < 25)⟩
  fromScreen := by
    have apart : ∀ t : TermId, Apart 0xB8000 (termVideo t) := by decide
    exact apart
  fromOthers := by
    have apart : ∀ t u : TermId, t ≠ u → Apart (termVideo t) (termVideo u) := by decide
    exact apart

theorem boot_output_isolated :
    (screenRun (multiTermInit .loaded) [.putc 0x61, .switchTerminal 1, .setActiveTask 1, .putc 0x62,
      .setActiveTask 0, .putc 0x0A]).screen 0 =
        (puts { multiTermInit .loaded with activeTask := 0 } [0x61, 0x0A]).screen 0 :=
  terminal_output_isolated (multiTermInit .loaded) (multiTermInit_ready .loaded) _ 0

end BozOS
