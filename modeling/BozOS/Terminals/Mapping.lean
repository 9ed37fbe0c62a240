import BozOS.Processes.DeviceFrame
import BozOS.Processes.Launch
import Mathlib.Tactic.FinCases

namespace BozOS

open Data Lib FileSystem

/-! The user's view of the screens: `vidmap_ptable` against the page the kernel
draws a terminal on. -/

variable {env : Env} {k after : Kernel} {cpu : Cpu}

inductive VideoEvent where
  | vidmap (mem : Memory) (screenStart : Nat)
  | switchTerminal (newTerminal : Nat)
  | taskSwitch (cpu : Cpu)

def videoNext (env : Env) (k : Kernel) : VideoEvent → Except Stop Kernel
  | .vidmap mem screenStart => .ok (vidmap env k mem screenStart).2.2
  | .switchTerminal newTerminal => .ok (switchTerminal k newTerminal)
  | .taskSwitch cpu => (taskSwitch env k cpu).map Switched.kernel

def VideoSteps (env : Env) (k : Kernel) (event : VideoEvent) (after : Kernel) : Prop :=
  videoNext env k event = .ok after

/-- The event is a `vidmap` whose pointer passes the two checks. -/
def VideoEvent.Maps : VideoEvent → Prop
  | .vidmap _ screenStart => screenStart ≠ 0 ∧ ¬(0x400000 ≤ screenStart ∧ screenStart < 0x800000)
  | _ => False

def screenPage (k : Kernel) (t : TermId) : Nat := if t = k.activeTerminal then 0xB8000 else termVideo t

/-- Every terminal's user page is the one the kernel draws on, mapped present,
writable and for the user. -/
def MappingAgrees (k : Kernel) : Prop := ∀ t : TermId, k.vidmapPtable t.val = screenPage k t ||| 0x7

theorem mapVideoPages_eq (ptable : Nat → Nat) (shown t : TermId) :
    mapVideoPages ptable shown t.val = (if t = shown then 0xB8000 else termVideo t) ||| 0x7 := by
  fin_cases shown <;> fin_cases t <;> rfl

theorem mapVideoPages_agrees {ptable : Nat → Nat} {shown : TermId}
    (mapped : k.vidmapPtable = mapVideoPages ptable shown) : MappingAgrees k ↔ shown = k.activeTerminal := by
  have distinct : ∀ t : TermId, 0xB8000 ||| 0x7 ≠ termVideo t ||| 0x7 := by decide
  constructor
  · intro agrees
    have own := agrees shown
    rw [mapped, mapVideoPages_eq, if_pos rfl, screenPage] at own
    by_contra other
    rw [if_neg other] at own
    exact distinct shown own
  · rintro rfl t
    rw [mapped, mapVideoPages_eq, screenPage]

/-- A mapping event made while another terminal's task runs is the only one that
can map wrongly. -/
def InSync (k : Kernel) (event : VideoEvent) : Prop := event.Maps → k.activeTask = k.activeTerminal

theorem vidmap_mapped {event : VideoEvent} (maps : event.Maps) (step : VideoSteps env k event after) :
    (∃ ptable, after.vidmapPtable = mapVideoPages ptable k.activeTask) ∧
      after.activeTerminal = k.activeTerminal := by
  cases event with
  | vidmap mem screenStart =>
      obtain rfl := Except.ok.inj step
      simp only [vidmap, if_neg maps.1, if_neg maps.2]
      exact ⟨⟨_, rfl⟩, trivial⟩
  | switchTerminal newTerminal => cases maps
  | taskSwitch cpu => cases maps

theorem switchTerminal_mapped {newTerminal : Nat} :
    DeviceFrame k (switchTerminal k newTerminal) ∨
      (switchTerminal k newTerminal).vidmapPtable =
        mapVideoPages k.vidmapPtable (switchTerminal k newTerminal).activeTerminal := by
  unfold switchTerminal
  split
  · split
    · exact .inl .refl
    · exact .inr rfl
  · exact .inl .refl

theorem DeviceFrame.agrees (frame : DeviceFrame k after) (agrees : MappingAgrees k) : MappingAgrees after := by
  intro t
  rw [frame.ptable, agrees t, screenPage, screenPage, frame.shown]

/-- One step in sync keeps the agreement, and a successful `vidmap` brings it
about. -/
theorem videoStep_agrees {event : VideoEvent} (step : VideoSteps env k event after) (sync : InSync k event)
    (before : event.Maps ∨ MappingAgrees k) : MappingAgrees after := by
  by_cases maps : event.Maps
  · obtain ⟨⟨ptable, mapped⟩, shown⟩ := vidmap_mapped maps step
    exact (mapVideoPages_agrees mapped).mpr ((sync maps).trans shown.symm)
  · have agrees := before.resolve_left maps
    cases event with
    | vidmap mem screenStart =>
        obtain rfl := Except.ok.inj step
        simp only [vidmap]
        split
        · exact agrees
        · rename_i nonzero
          have refused : 0x400000 ≤ screenStart ∧ screenStart < 0x800000 := by
            by_contra accepted
            exact maps ⟨nonzero, accepted⟩
          rw [if_pos refused]
          exact agrees
    | switchTerminal newTerminal =>
        obtain rfl := Except.ok.inj step
        rcases switchTerminal_mapped with frame | mapped
        · exact frame.agrees agrees
        · exact (mapVideoPages_agrees mapped).mpr rfl
    | taskSwitch cpu =>
        obtain ⟨result, called, rfl⟩ := map_ok.mp step
        exact (taskSwitch_manageFrame called).device.agrees agrees

theorem videoRun_agrees {first last : Kernel} {events : List VideoEvent}
    (run : Run (VideoSteps env) first events last)
    (sync : ∀ before event behind state, events = before ++ event :: behind →
      Run (VideoSteps env) first before state → InSync state event)
    (mapped : ∃ event ∈ events, event.Maps) : MappingAgrees last := by
  induction events using List.reverseRecOn generalizing last with
  | nil => simp at mapped
  | append_singleton events event ih =>
      obtain ⟨state, front, step⟩ := run.unsnoc
      refine videoStep_agrees step (sync events event [] state rfl front) ?_
      by_cases maps : event.Maps
      · exact .inl maps
      · refine .inr (ih front (fun before other behind state split reached => ?_) ?_)
        · exact sync before other (behind ++ [event]) state (by simp [split]) reached
        · obtain ⟨other, member, otherMaps⟩ := mapped
          rcases List.mem_append.mp member with earlier | last
          · exact ⟨other, earlier, otherMaps⟩
          · rw [List.mem_singleton] at last
            exact absurd (last ▸ otherMaps) maps

theorem videoMapping_agrees_iff (env : Env) (first : Kernel) (events : List VideoEvent) (last : Kernel)
    (run : Run (VideoSteps env) first events last) :
    (∀ before behind state, events = before ++ behind → Run (VideoSteps env) first before state →
      (∃ event ∈ before, event.Maps) → MappingAgrees state) ↔
    (∀ before event behind state, events = before ++ event :: behind → Run (VideoSteps env) first before state →
      event.Maps → state.activeTask = state.activeTerminal) := by
  constructor
  · intro agree before event behind state split reached maps
    obtain ⟨middle, front, back⟩ : ∃ middle, Run (VideoSteps env) first before middle ∧
        Run (VideoSteps env) middle (event :: behind) last := Run.split (split ▸ run)
    obtain ⟨mem, screenStart, rfl⟩ : ∃ mem screenStart, event = .vidmap mem screenStart := by
      cases event with
      | vidmap mem screenStart => exact ⟨mem, screenStart, rfl⟩
      | switchTerminal newTerminal => cases maps
      | taskSwitch cpu => cases maps
    have step : VideoSteps env state (.vidmap mem screenStart) _ := rfl
    have agrees := agree (before ++ [.vidmap mem screenStart]) behind _ (by simp [split]) (reached.snoc step)
      ⟨_, by simp, maps⟩
    obtain ⟨⟨ptable, mapped⟩, shown⟩ := vidmap_mapped maps step
    exact ((mapVideoPages_agrees mapped).mp agrees).trans shown
  · intro sync before behind state split reached mapped
    refine videoRun_agrees reached (fun early event late middle inner front => ?_) mapped
    exact sync early event (late ++ behind) middle (by simp [split, inner]) front

def mapScreen : VideoEvent := .vidmap (fun _ => 0) 0x8048000

theorem mapScreen_maps : mapScreen.Maps := ⟨by decide, by decide⟩

/-- The first terminal's shell maps its screen, the second terminal is displayed and
gets its shell, and that shell maps its own. -/
def twoScreens : List VideoEvent := [mapScreen, .switchTerminal 1, .taskSwitch .reset, mapScreen]

theorem baseShell_mapping_agrees :
    ∃ last, Run (VideoSteps shellEnv) baseShell twoScreens last ∧ last.activeTerminal = 1 ∧ MappingAgrees last := by
  have run : Run (VideoSteps shellEnv) baseShell twoScreens (endState (videoNext shellEnv) baseShell twoScreens) :=
    endState_run (by decide)
  refine ⟨_, run, by decide, ?_⟩
  refine (videoMapping_agrees_iff shellEnv baseShell _ _ run).mpr ?_ twoScreens [] _ (by simp) run
    ⟨mapScreen, List.mem_cons_self, mapScreen_maps⟩
  intro before event behind state split reached maps
  obtain rfl := run_endState reached
  rcases before with _ | ⟨first, _ | ⟨second, _ | ⟨third, _ | ⟨fourth, rest⟩⟩⟩⟩ <;>
    simp only [twoScreens, List.nil_append, List.cons_append, List.cons.injEq] at split
  · rfl
  · obtain ⟨-, rfl, -⟩ := split
    cases maps
  · obtain ⟨-, -, rfl, -⟩ := split
    cases maps
  · obtain ⟨rfl, rfl, rfl, -⟩ := split
    decide
  · simp at split

/-- The second terminal's shell, with the first terminal displayed. -/
def hiddenShell : Kernel := stateAfter shellEnv baseShell [.tick .reset]

/-- When the hidden shell maps its screen, the displayed terminal's user page is
no longer the screen. -/
theorem vidmap_hidden_disagrees :
    ¬∀ (env : Env) (boot first last : Kernel) (earlier : List Event) (events : List VideoEvent),
      Run (Steps env) (multiTermInit boot) earlier first → Run (VideoSteps env) first events last →
      (∃ event ∈ events, event.Maps) → MappingAgrees last := by
  intro agrees
  have reached : Run (Steps shellEnv) (multiTermInit .loaded) [.execute shellCommand .reset] baseShell :=
    stateAfter_run (by decide)
  have run : Run (VideoSteps shellEnv) baseShell [.taskSwitch .reset, mapScreen]
      (vidmap shellEnv hiddenShell (fun _ => 0) 0x8048000).2.2 :=
    .cons (show VideoSteps shellEnv baseShell (.taskSwitch .reset) hiddenShell from rfl) (.cons rfl .nil)
  have own := agrees shellEnv .loaded baseShell _ _ _ reached run ⟨mapScreen, by simp, mapScreen_maps⟩ 0
  exact absurd own (by decide)

end BozOS
