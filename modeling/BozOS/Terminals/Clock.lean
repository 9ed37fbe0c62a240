import BozOS.Processes.DeviceFrame
import Mathlib.Data.List.Count

namespace BozOS

open Data Lib

/-! The clock's interrupt and the reads of the three terminals. `rtc_read` runs
with interrupts enabled, so that a handler or a task switch can come between any
two of its statements; it is taken apart into these here. -/

/-- Where the task of a terminal is in `rtc_read`: outside, in the wait loop,
behind it, or behind the statement that resets the flag. The loop and the reset
use the task number the call began with. -/
inductive Reading where
  | idle
  | waiting (currTask : TermId)
  | released (currTask : TermId)
  | returning
deriving DecidableEq, Repr

structure Clock where
  kernel : Kernel
  readers : TermId → Reading

inductive ClockEvent where
  | handler
  | elsewhere
  | call (t : TermId)
  | look (t : TermId)
  | reset (t : TermId)
  | ret (t : TermId)
deriving DecidableEq, Repr

def Clock.setReader (s : Clock) (t : TermId) (reading : Reading) : Clock :=
  { s with readers := Function.update s.readers t reading }

/-- The interrupt, anything else the kernel does that leaves the flags alone, and
the statements of a read by the running task. -/
inductive ClockSteps (s : Clock) : ClockEvent → Clock → Prop where
  | handler : ClockSteps s .handler { s with kernel := rtcHandler s.kernel }
  | elsewhere {after : Kernel} (flags : after.interruptFlag = s.kernel.interruptFlag) :
      ClockSteps s .elsewhere { s with kernel := after }
  | call {t : TermId} (running : s.kernel.activeTask = t) (outside : s.readers t = .idle) :
      ClockSteps s (.call t) (s.setReader t (.waiting s.kernel.activeTask))
  | look {t currTask : TermId} (running : s.kernel.activeTask = t) (waits : s.readers t = .waiting currTask) :
      ClockSteps s (.look t)
        (if s.kernel.interruptFlag currTask = 0 then s else s.setReader t (.released currTask))
  | reset {t currTask : TermId} (running : s.kernel.activeTask = t) (passed : s.readers t = .released currTask) :
      ClockSteps s (.reset t) { s.setReader t .returning with
        kernel := { s.kernel with interruptFlag := Function.update s.kernel.interruptFlag currTask 0 } }
  | ret {t : TermId} (running : s.kernel.activeTask = t) (leaves : s.readers t = .returning) :
      ClockSteps s (.ret t) (s.setReader t .idle)

/-- No task is in `rtc_read`, and the flags are zero, as the loader leaves them. -/
structure Clock.Starts (s : Clock) : Prop where
  flags : ∀ t, s.kernel.interruptFlag t = 0
  readers : ∀ t, s.readers t = .idle

variable {s after last : Clock} {event : ClockEvent} {events : List ClockEvent} {t u : TermId} {reading : Reading}
  {env : Env} {k : Kernel} {cpu : Cpu}

/-! A task switch is one of the things that leave the flags alone. -/

theorem ScreenFrame.flags {k after : Kernel} (frame : ScreenFrame k after) :
    after.interruptFlag = k.interruptFlag := by
  obtain ⟨_, _, _, _, rfl⟩ := frame
  rfl

theorem Added.flags {k after : Kernel} {p : Slot} (added : Added k t p after) :
    after.interruptFlag = k.interruptFlag := by
  cases added with
  | first empty => rfl
  | behind nonempty => rfl

theorem execute_flags {command : Memory} {result : Executed} (called : execute env k command cpu = .ok result) :
    result.kernel.interruptFlag = k.interruptFlag := by
  rcases execute_cases called with
    rfl | ⟨message, rfl⟩ | ⟨p, linked, userPages, -, added, rfl | ⟨entryPt, parsed, -, rfl⟩⟩
  · rfl
  · exact puts_screenFrame.flags
  · exact added.flags
  · exact added.flags

theorem setActiveTask_flags {task : Nat} : (setActiveTask k task).interruptFlag = k.interruptFlag := by
  unfold setActiveTask
  split <;> rfl

theorem taskSwitch_flags {result : Switched} (called : taskSwitch env k cpu = .ok result) :
    result.kernel.interruptFlag = k.interruptFlag := by
  obtain ⟨incoming, -, called⟩ := bind_ok.mp called
  obtain ⟨outgoing, -, called⟩ := bind_ok.mp called
  cases outgoing with
  | none => cases called; rfl
  | some outgoing =>
      simp only at called
      cases incoming with
      | none =>
          obtain ⟨executed, started, called⟩ := bind_ok.mp called
          have flags := (execute_flags started).trans setActiveTask_flags
          cases executed with
          | returned ret after => cases called; exact flags
          | launched entryPt after => cases called; exact flags
      | some incoming => cases called; exact setActiveTask_flags

theorem taskSwitch_elsewhere {result : Switched} (called : taskSwitch env s.kernel cpu = .ok result) :
    ClockSteps s .elsewhere { s with kernel := result.kernel } := .elsewhere (taskSwitch_flags called)

/-! One statement of a read concerns its own reader only, and the flag it uses
is that of its own terminal. -/

@[simp] theorem setReader_same : (s.setReader t reading).readers t = reading := Function.update_self ..

theorem setReader_other (different : u ≠ t) : (s.setReader t reading).readers u = s.readers u :=
  Function.update_of_ne different ..

/-- The task number a read began with is that of its terminal. -/
def Clock.Captured (s : Clock) : Prop :=
  ∀ t currTask, s.readers t = .waiting currTask ∨ s.readers t = .released currTask → currTask = t

theorem Clock.Captured.setReader (captured : s.Captured)
    (own : ∀ currTask, reading = .waiting currTask ∨ reading = .released currTask → currTask = t) :
    (s.setReader t reading).Captured := by
  intro u currTask inside
  by_cases same : u = t
  · subst same
    rw [setReader_same] at inside
    exact own currTask inside
  · rw [setReader_other same] at inside
    exact captured u currTask inside

theorem clockSteps_captured (step : ClockSteps s event after) (captured : s.Captured) : after.Captured := by
  cases step with
  | handler => exact captured
  | elsewhere flags => exact captured
  | call running outside =>
      refine captured.setReader fun currTask inside => ?_
      rw [← running]
      rcases inside with waits | passed
      · cases waits; rfl
      · cases passed
  | look running waits =>
      split
      · exact captured
      · refine captured.setReader fun currTask inside => ?_
        rcases inside with impossible | passed
        · cases impossible
        · cases passed
          exact captured _ _ (.inl waits)
  | reset running passed =>
      exact captured.setReader fun currTask inside => by rcases inside with impossible | impossible <;> cases impossible
  | ret running leaves =>
      exact captured.setReader fun currTask inside => by rcases inside with impossible | impossible <;> cases impossible

/-- What one step does to the flag and the reader of the terminal `t`. -/
inductive Moves (t : TermId) : Nat → Reading → ClockEvent → Nat → Reading → Prop where
  | handler {flag : Nat} {reading : Reading} : Moves t flag reading .handler 1 reading
  | other {flag : Nat} {reading : Reading} {event : ClockEvent} (foreign : event ≠ .handler)
      (silent : event ≠ .reset t) (stays : event ≠ .ret t) : Moves t flag reading event flag reading
  | call {flag : Nat} : Moves t flag .idle (.call t) flag (.waiting t)
  | pass {flag : Nat} (raised : flag ≠ 0) : Moves t flag (.waiting t) (.look t) flag (.released t)
  | reset {flag : Nat} : Moves t flag (.released t) (.reset t) 0 .returning
  | ret {flag : Nat} : Moves t flag .returning (.ret t) flag .idle

theorem clockSteps_moves (t : TermId) (captured : s.Captured) (step : ClockSteps s event after) :
    Moves t (s.kernel.interruptFlag t) (s.readers t) event (after.kernel.interruptFlag t) (after.readers t) := by
  cases step with
  | handler => exact .handler
  | elsewhere flags =>
      simp only [flags]
      exact .other (by simp) (by simp) (by simp)
  | @call u running outside =>
      by_cases own : u = t
      · subst own
        rw [outside, setReader_same, running]
        exact .call
      · rw [setReader_other (Ne.symm own)]
        exact .other (by simp) (by simp) (by simp)
  | @look u currTask running waits =>
      obtain rfl := captured u currTask (.inl waits)
      split
      · exact .other (by simp) (by simp) (by simp)
      · rename_i raised
        by_cases own : currTask = t
        · subst own
          rw [waits, setReader_same]
          exact .pass raised
        · rw [setReader_other (Ne.symm own)]
          exact .other (by simp) (by simp) (by simp)
  | @reset u currTask running passed =>
      obtain rfl := captured u currTask (.inr passed)
      by_cases own : currTask = t
      · subst own
        rw [passed, setReader_same]
        simp only [Function.update_self]
        exact .reset
      · rw [setReader_other (Ne.symm own)]
        simp only [Function.update_of_ne (Ne.symm own)]
        exact .other (by simp) (by simpa using own) (by simp)
  | @ret u running leaves =>
      by_cases own : u = t
      · subst own
        rw [leaves, setReader_same]
        exact .ret
      · rw [setReader_other (Ne.symm own)]
        exact .other (by simp) (by simp) (by simpa using own)

section Moves

variable {flag flag' : Nat} {reading' : Reading}

/-- The flag reset but the return to come. -/
def Reading.due (reading : Reading) : Nat := if reading = .returning then 1 else 0

def pending (flag : Nat) : Nat := if flag = 0 then 0 else 1

/-- A read behind the wait loop still finds the flag up. -/
def Raised (flag : Nat) (reading : Reading) : Prop := ∀ currTask, reading = .released currTask → flag ≠ 0

theorem Moves.raised (moves : Moves t flag reading event flag' reading') (raised : Raised flag reading) :
    Raised flag' reading' := by
  cases moves with
  | handler => exact fun _ _ => Nat.one_ne_zero
  | other => exact raised
  | call => exact fun _ impossible => by cases impossible
  | pass up => exact fun _ _ => up
  | reset => exact fun _ impossible => by cases impossible
  | ret => exact fun _ impossible => by cases impossible

/-- Each step counted: a handler pays for the flag it raises, the flag for the
reset, and the reset for the return. -/
theorem Moves.balance (moves : Moves t flag reading event flag' reading') (raised : Raised flag reading) :
    (if event = .ret t then 1 else 0) + reading'.due + pending flag' ≤
      reading.due + pending flag + if event = .handler then 1 else 0 := by
  cases moves with
  | handler =>
      have bound : pending 1 = 1 := rfl
      simp only [reduceCtorEq, if_false, if_true]
      omega
  | other foreign silent stays =>
      rw [if_neg stays]
      omega
  | call => simp [Reading.due]
  | pass up => simp [Reading.due]
  | reset =>
      have up : pending flag = 1 := if_neg (raised t rfl)
      simp only [reduceCtorEq, if_false, up]
      rfl
  | ret => simp [Reading.due]

/-- A read that needs nothing from outside any more. -/
def Able (t : TermId) (flag : Nat) (reading : Reading) : Prop :=
  reading = .waiting t ∧ flag ≠ 0 ∨ reading = .released t ∨ reading = .returning

theorem Moves.inside (moves : Moves t flag reading event flag' reading') (inside : reading ≠ .idle)
    (stays : event ≠ .ret t) : reading' ≠ .idle := by
  cases moves with
  | handler => exact inside
  | other => exact inside
  | call => exact absurd rfl inside
  | pass up => simp
  | reset => simp
  | ret => exact absurd rfl stays

theorem Moves.able (moves : Moves t flag reading event flag' reading') (able : Able t flag reading)
    (stays : event ≠ .ret t) : Able t flag' reading' := by
  cases moves with
  | handler =>
      rcases able with ⟨waits, -⟩ | later
      · exact .inl ⟨waits, Nat.one_ne_zero⟩
      · exact .inr later
  | other => exact able
  | call => rcases able with ⟨impossible, -⟩ | impossible | impossible <;> cases impossible
  | pass up => exact .inr (.inl rfl)
  | reset => exact .inr (.inr rfl)
  | ret => exact absurd rfl stays

end Moves

section Runs

/-- What holds of the reader and the flag of every terminal in every run. -/
structure ClockValid (s : Clock) : Prop where
  captured : s.Captured
  raised : ∀ t, Raised (s.kernel.interruptFlag t) (s.readers t)

theorem Clock.Starts.valid (starts : s.Starts) : ClockValid s where
  captured t currTask inside := by
    rw [starts.readers t] at inside
    rcases inside with impossible | impossible <;> cases impossible
  raised t currTask passed := by
    rw [starts.readers t] at passed
    cases passed

theorem clockSteps_valid (step : ClockSteps s event after) (valid : ClockValid s) : ClockValid after where
  captured := clockSteps_captured step valid.captured
  raised t := (clockSteps_moves t valid.captured step).raised (valid.raised t)

theorem clockRun_valid (run : Run ClockSteps s events last) (valid : ClockValid s) : ClockValid last :=
  Run.invariant ClockValid run (fun step valid => clockSteps_valid step valid) valid

/-- The returns of a whole run, paid for by its handlers and by what was due at
its start. -/
theorem clockRun_balance (t : TermId) (run : Run ClockSteps s events last) (valid : ClockValid s) :
    events.count (.ret t) + (last.readers t).due + pending (last.kernel.interruptFlag t) ≤
      (s.readers t).due + pending (s.kernel.interruptFlag t) + events.count .handler := by
  induction run with
  | nil => simp
  | cons step rest ih =>
      have later := ih (clockSteps_valid step valid)
      have now := (clockSteps_moves t valid.captured step).balance (valid.raised t)
      simp only [List.count_cons, beq_iff_eq]
      omega

/-- A read that has begun is inside until it returns. -/
theorem clockRun_inside (run : Run ClockSteps s events last) (valid : ClockValid s) (inside : s.readers t ≠ .idle)
    (stays : .ret t ∉ events) : last.readers t ≠ .idle := by
  induction run with
  | nil => exact inside
  | cons step rest ih =>
      rw [List.mem_cons, not_or] at stays
      exact ih (clockSteps_valid step valid)
        ((clockSteps_moves t valid.captured step).inside inside (Ne.symm stays.1)) stays.2

theorem clockRun_able (run : Run ClockSteps s events last) (valid : ClockValid s)
    (able : Able t (s.kernel.interruptFlag t) (s.readers t)) (stays : .ret t ∉ events) :
    Able t (last.kernel.interruptFlag t) (last.readers t) := by
  induction run with
  | nil => exact able
  | cons step rest ih =>
      rw [List.mem_cons, not_or] at stays
      exact ih (clockSteps_valid step valid)
        ((clockSteps_moves t valid.captured step).able able (Ne.symm stays.1)) stays.2

/-- The task of `t` becomes the running one. -/
def Clock.switchTo (s : Clock) (t : TermId) : Clock := { s with kernel := setActiveTask s.kernel t.val }

/-- The read of `t` comes to its return by its own statements alone. -/
def CanReturn (t : TermId) (s : Clock) : Prop :=
  ∃ own last, Run ClockSteps (s.switchTo t) (own ++ [.ret t]) last ∧ ∀ event ∈ own, event = .look t ∨ event = .reset t

theorem switchTo_running : (s.switchTo t).kernel.activeTask = t := by
  rw [Clock.switchTo, setActiveTask, dif_pos t.isLt]

theorem returning_run (s : Clock) (running : s.kernel.activeTask = t) (leaves : s.readers t = .returning) :
    ∃ last, Run ClockSteps s [.ret t] last := ⟨_, .cons (.ret running leaves) .nil⟩

theorem released_run (s : Clock) (running : s.kernel.activeTask = t) (passed : s.readers t = .released t) :
    ∃ last, Run ClockSteps s [.reset t, .ret t] last := by
  obtain ⟨last, run⟩ := returning_run { s.setReader t .returning with
    kernel := { s.kernel with interruptFlag := Function.update s.kernel.interruptFlag t 0 } } running setReader_same
  exact ⟨last, .cons (.reset running passed) run⟩

theorem look_released (running : s.kernel.activeTask = t) (waits : s.readers t = .waiting t)
    (raised : s.kernel.interruptFlag t ≠ 0) : ClockSteps s (.look t) (s.setReader t (.released t)) := by
  have step : ClockSteps s (.look t) (if s.kernel.interruptFlag t = 0 then s else s.setReader t (.released t)) :=
    .look running waits
  rwa [if_neg raised] at step

theorem Able.returns (able : Able t (s.kernel.interruptFlag t) (s.readers t)) : CanReturn t s := by
  have flags : (s.switchTo t).kernel.interruptFlag = s.kernel.interruptFlag := setActiveTask_flags
  rcases able with ⟨waits, raised⟩ | passed | leaves
  · have look : ClockSteps (s.switchTo t) (.look t) ((s.switchTo t).setReader t (.released t)) :=
      look_released switchTo_running waits (by rwa [flags])
    obtain ⟨last, run⟩ := released_run ((s.switchTo t).setReader t (.released t)) switchTo_running setReader_same
    exact ⟨[.look t, .reset t], last, .cons look run, by simp⟩
  · obtain ⟨last, run⟩ := released_run (s.switchTo t) switchTo_running passed
    exact ⟨[.reset t], last, run, by simp⟩
  · obtain ⟨last, run⟩ := returning_run (s.switchTo t) switchTo_running leaves
    exact ⟨[], last, run, by simp⟩

/-- The four statements without an interruption are the call as one step. -/
theorem rtcRead_run {after : Kernel} (running : s.kernel.activeTask = t) (outside : s.readers t = .idle)
    (called : rtcRead s.kernel = .ok (0, after)) :
    Run ClockSteps s [.call t, .look t, .reset t, .ret t] { s with kernel := after } := by
  subst running
  unfold rtcRead at called
  split at called
  · cases called
  · rename_i raised
    cases called
    have run : Run ClockSteps s [.call s.kernel.activeTask, .look s.kernel.activeTask, .reset s.kernel.activeTask,
        .ret s.kernel.activeTask] _ :=
      .cons (.call rfl outside) (.cons (look_released rfl setReader_same raised)
        (.cons (.reset rfl setReader_same) (.cons (.ret rfl setReader_same) .nil)))
    simpa only [Clock.setReader, Function.update_idem, ← outside, Function.update_eq_self] using run

theorem Moves.afterReset {flag flag' : Nat} {reading' : Reading}
    (moves : Moves t flag reading (.reset t) flag' reading') : flag' = 0 ∧ reading' = .returning := by
  cases moves with
  | other foreign silent stays => exact absurd rfl silent
  | reset => exact ⟨rfl, rfl⟩

/-- From the reset of one read to the return of the next. -/
theorem handler_between {a b c d : List ClockEvent} (valid : ClockValid s)
    (run : Run ClockSteps s (a ++ .reset t :: (b ++ .ret t :: (c ++ .ret t :: d))) last) :
    .handler ∈ b ∨ .handler ∈ c := by
  obtain ⟨before, front, run⟩ := run.split
  have validBefore := clockRun_valid front valid
  cases run with
  | cons reset run =>
      obtain ⟨down, due⟩ := (clockSteps_moves t validBefore.captured reset).afterReset
      have split : b ++ .ret t :: (c ++ .ret t :: d) = (b ++ .ret t :: (c ++ [.ret t])) ++ d := by simp
      rw [split] at run
      obtain ⟨behind, twice, -⟩ := run.split
      have balance := clockRun_balance t twice (clockSteps_valid reset validBefore)
      rw [down, due] at balance
      -- Two returns, of which the reset pays for one.
      have once : Reading.returning.due + pending 0 = 1 := rfl
      simp only [List.count_append, List.count_cons, beq_self_eq_true, if_true, List.count_nil, beq_iff_eq,
        reduceCtorEq, if_false] at balance
      have some : 0 < b.count .handler ∨ 0 < c.count .handler := by omega
      exact some.imp List.count_pos_iff.mp List.count_pos_iff.mp

theorem ClockValid.inside (valid : ClockValid s) (inside : s.readers t ≠ .idle) :
    s.readers t = .waiting t ∨ s.readers t = .released t ∨ s.readers t = .returning := by
  cases place : s.readers t with
  | idle => exact absurd place inside
  | waiting currTask => exact .inl (by rw [valid.captured t currTask (.inl place)])
  | released currTask => exact .inr (.inl (by rw [valid.captured t currTask (.inr place)]))
  | returning => exact .inr (.inr rfl)

theorem clock_ticks (first last : Clock) (events : List ClockEvent) (t : TermId) (starts : first.Starts)
    (run : Run ClockSteps first events last) :
    (∀ a b c d, events = a ++ .reset t :: (b ++ .ret t :: (c ++ .ret t :: d)) → .handler ∈ b ∨ .handler ∈ c) ∧
    (∀ currTask a b later, last.readers t = .waiting currTask → Run ClockSteps last (a ++ .handler :: b) later →
      .ret t ∉ a ++ b → CanReturn t later) ∧
    events.count (.ret t) ≤ events.count .handler := by
  have valid := clockRun_valid run starts.valid
  refine ⟨fun a b c d whole => ?_, fun currTask a b later waits ran stays => ?_, ?_⟩
  · subst whole
    exact handler_between starts.valid run
  · obtain ⟨middle, before, ran⟩ := ran.split
    rw [List.mem_append, not_or] at stays
    have inside : middle.readers t ≠ .idle := clockRun_inside before valid (by simp [waits]) stays.1
    have validMiddle := clockRun_valid before valid
    cases ran with
    | cons step after =>
        cases step
        refine (clockRun_able after (clockSteps_valid .handler validMiddle) ?_ stays.2).returns
        exact (validMiddle.inside inside).imp (fun waits => ⟨waits, Nat.one_ne_zero⟩) id
  · have balance := clockRun_balance t run starts.valid
    rw [starts.readers t, starts.flags t] at balance
    have none : Reading.idle.due + pending 0 = 0 := rfl
    omega

/-- The clock after the loader. -/
def Clock.loaded : Clock := ⟨.loaded, fun _ => .idle⟩

theorem Clock.loaded_starts : Clock.loaded.Starts := ⟨fun _ => rfl, fun _ => rfl⟩

/-- One tick and one read, and then another read that waits for the next tick. -/
theorem clock_ticks_once : ∃ last, Run ClockSteps .loaded [.handler, .call 0, .look 0, .reset 0, .ret 0, .call 0] last ∧
    List.count (ClockEvent.ret 0) [.handler, .call 0, .look 0, .reset 0, .ret 0, .call 0] ≤
      List.count ClockEvent.handler [.handler, .call 0, .look 0, .reset 0, .ret 0, .call 0] := by
  have run : Run ClockSteps .loaded [.handler, .call 0, .look 0, .reset 0, .ret 0, .call 0] _ :=
    .cons .handler (.cons (.call rfl rfl) (.cons (look_released rfl rfl (by decide)) (.cons (.reset rfl rfl)
      (.cons (.ret rfl rfl) (.cons (.call rfl rfl) .nil)))))
  exact ⟨_, run, (clock_ticks _ _ _ 0 Clock.loaded_starts run).2.2⟩

/-- A tick between the reset of the flag and the return is the next read's. -/
theorem returns_without_handler : ¬∀ (first last : Clock) (events a c d : List ClockEvent) (t : TermId), first.Starts →
    Run ClockSteps first events last → events = a ++ .ret t :: (c ++ .ret t :: d) → .handler ∈ c := by
  intro claim
  have run : Run ClockSteps .loaded [.handler, .call 0, .look 0, .reset 0, .handler, .ret 0, .call 0, .look 0, .reset 0,
      .ret 0] _ :=
    .cons .handler (.cons (.call rfl rfl) (.cons (look_released rfl rfl (by decide)) (.cons (.reset rfl rfl)
      (.cons .handler (.cons (.ret rfl rfl) (.cons (.call rfl rfl) (.cons (look_released rfl rfl (by decide))
        (.cons (.reset rfl rfl) (.cons (.ret rfl rfl) .nil)))))))))
  have between := claim _ _ _ [.handler, .call 0, .look 0, .reset 0, .handler] [.call 0, .look 0, .reset 0] [] 0
    Clock.loaded_starts run rfl
  simp at between

end Runs

end BozOS
