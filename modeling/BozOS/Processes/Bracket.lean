import BozOS.Processes.Sparing

namespace BozOS

open Data Lib FileSystem

/-! `execute` and `halt` as brackets: a process that has started a child finds
its list, its PCBs and its mapping as they were when the child halts, whatever
ran in between, as long as no call stored into the kernel's page. -/

variable {env : Env} {start k after : Kernel} {pool : Stacks TermId Slot} {t : TermId}
  {parent child : Slot} {front above : List Slot} {event : Event} {events : List Event}

/-- The event is the `halt` of the process `child` of terminal `t`. -/
def HaltOf (t : TermId) (child : Slot) (k : Kernel) (event : Event) : Prop :=
  event.isHalt ∧ k.activeTask = t ∧ getPCBTail k t = .ok (some child)

/-- A step that is not that `halt`. -/
def Before (Step : Kernel → Event → Kernel → Prop) (t : TermId) (child : Slot) (k : Kernel) (event : Event)
    (after : Kernel) : Prop :=
  Step k event after ∧ ¬HaltOf t child k event

theorem before_of_sparing (sparing : Before (OneMemory.SparingSteps env) t child k event after) :
    Before (Steps env) t child k (event.seen env k) after :=
  ⟨sparing.1.steps, fun ⟨halts, here⟩ => sparing.2 ⟨by simpa using halts, here⟩⟩

/-- While the child lives, its ancestors sit below it and only the links of
their PCBs may differ from the start. -/
structure Suspended (start : Kernel) (t : TermId) (front : List Slot) (parent child : Slot)
    (pool : Stacks TermId Slot) (above : List Slot) (k : Kernel) : Prop where
  represents : Represents k pool
  stacked : pool.stack t = front ++ parent :: child :: above
  kept : ∀ q ∈ front ++ [parent], k.pcbs q = { start.pcbs q with childPcb := k.child q }

theorem listed_of_mem_dropLast {q : Slot} (member : q ∈ (pool.stack t).dropLast) : pool.Listed q :=
  ⟨t, List.mem_of_mem_dropLast member⟩

theorem ne_top_of_mem_dropLast {q : Slot} (member : q ∈ (pool.stack t).dropLast) {u : TermId}
    (topmost : pool.top u = some child) : q ≠ child := by
  rintro rfl
  obtain ⟨front, stacked⟩ := List.getLast?_eq_some_iff.mp topmost
  obtain rfl : t = u := pool.disjoint (List.mem_of_mem_dropLast member) (by rw [stacked]; simp)
  have once := pool.nodup t
  rw [stacked, List.nodup_append] at once
  rw [stacked, List.dropLast_concat] at member
  exact once.2.2 q member q (by simp) rfl

theorem mem_dropLast_of_suspended (stacked : pool.stack t = front ++ parent :: child :: above) {q : Slot}
    (member : q ∈ front ++ [parent]) : q ∈ (pool.stack t).dropLast := by
  have shape : front ++ parent :: child :: above = (front ++ [parent]) ++ (child :: above) := by simp
  rw [stacked, shape, List.dropLast_append_of_ne_nil (by simp)]
  exact List.mem_append_left _ member

theorem ListMove.suspended {halts : Prop} {list after : List Slot} (move : ListMove halts list after)
    (stacked : list = front ++ parent :: child :: above) (lives : halts → above ≠ []) :
    ∃ above', after = front ++ parent :: child :: above' := by
  cases move with
  | keep => exact ⟨above, stacked⟩
  | start p => exact ⟨above ++ [p], by rw [stacked]; simp⟩
  | @exit _ self ended =>
      obtain ⟨lower, last, rfl⟩ := List.eq_nil_or_concat above |>.resolve_left (lives ended)
      refine ⟨lower, ?_⟩
      have shape : after ++ [self] = (front ++ parent :: child :: lower) ++ [last] := by rw [stacked]; simp
      exact (List.append_inj' shape rfl).1
  | restart p ended =>
      have lengths := congrArg List.length stacked
      simp only [List.length_append, List.length_cons, List.length_nil] at lengths
      omega

theorem Suspended.step (suspended : Suspended start t front parent child pool above k)
    (loadable : Loadable env) (step : Before (Steps env) t child k event after) :
    ∃ pool' above', Suspended start t front parent child pool' above' after := by
  obtain ⟨stepped, lives⟩ := step
  obtain ⟨pool', moved⟩ := next_step suspended.represents loadable stepped
  have goesOn : event.isHalt = true ∧ t = k.activeTask → above ≠ [] := by
    rintro ⟨halting, rfl⟩ rfl
    refine lives ⟨halting, rfl, ?_⟩
    rw [suspended.represents.getPCBTail_eq, Stacks.top, suspended.stacked]
    simp
  obtain ⟨above', stacked⟩ := (moved.moves t).suspended suspended.stacked goesOn
  refine ⟨pool', above', moved.represents, stacked, fun q member => ?_⟩
  have below := mem_dropLast_of_suspended suspended.stacked member
  have kept := moved.others q (listed_of_mem_dropLast below)
    fun topmost => ne_top_of_mem_dropLast below topmost rfl
  rw [kept, suspended.kept q member]

theorem Represents.links_eq {pool' : Stacks TermId Slot} (first : Represents start pool)
    (second : Represents k pool') (same : pool'.stack t = pool.stack t) {q : Slot} (member : q ∈ pool.stack t) :
    k.child q = start.child q := by
  obtain ⟨before, behind, split⟩ := List.append_of_mem member
  have firstChain := first.lists t
  have secondChain := second.lists t
  rw [same] at secondChain
  rw [split] at firstChain secondChain
  rw [firstChain.next_eq, secondChain.next_eq]

theorem Suspended.above_nil (suspended : Suspended start t front parent child pool above k)
    (topmost : pool.top t = some child) : above = [] := by
  rcases List.eq_nil_or_concat above with nothing | ⟨lower, last, rfl⟩
  · exact nothing
  · have once := pool.nodup t
    have shape : front ++ parent :: child :: lower.concat last =
        (front ++ parent :: child :: lower) ++ [last] := by simp
    rw [suspended.stacked, shape, List.nodup_append] at once
    rw [Stacks.top, suspended.stacked, shape, List.getLast?_concat] at topmost
    cases topmost
    exact absurd rfl (once.2.2 child (by simp) child (by simp))

/-- The child's `halt` gives the parent back what it had at the start. -/
theorem Suspended.resume {initial : Stacks TermId Slot}
    (suspended : Suspended start start.activeTask front parent child pool above k)
    (represents : Represents start initial) (stacked : initial.stack start.activeTask = front ++ [parent])
    (loadable : Loadable env) (halts : HaltOf start.activeTask child k event) (step : Steps env k event after) :
    Chain after.child (after.terminalTable start.activeTask).pcbHead (front ++ [parent]) ∧
      (∀ q ∈ front ++ [parent], after.pcbs q = start.pcbs q) ∧
      after.pageDirectory 32 = start.pageDirectory 32 ∧ after.tssEsp0 = start.tssEsp0 := by
  obtain ⟨isHalt, sameTask, tail⟩ := halts
  rw [suspended.represents.getPCBTail_eq] at tail
  have topmost := Except.ok.inj tail
  have nothing := suspended.above_nil topmost
  have full : pool.stack k.activeTask = (front ++ [parent]) ++ [child] := by
    rw [sameTask, suspended.stacked, nothing]
    simp
  rw [← sameTask] at topmost
  obtain ⟨status, cpu, rfl⟩ : ∃ status cpu, event = .halt status cpu := by
    cases event <;> simp [Event.isHalt] at isHalt ⊢
  obtain ⟨result, called, rfl⟩ := map_ok.mp step
  rcases halt_ends suspended.represents loadable topmost with
    ⟨_, _, _, _, _, after, -, ended, effect⟩ | ⟨alone, -⟩
  · obtain rfl := Except.ok.inj (called.symm.trans ended)
    have popped : (pool.pop k.activeTask).stack start.activeTask = front ++ [parent] := by
      rw [← sameTask, Stacks.stack_pop_self, full, List.dropLast_concat]
    have once := pool.nodup k.activeTask
    rw [full, List.nodup_append] at once
    have restored : ∀ q ∈ front ++ [parent], after.pcbs q = start.pcbs q := by
      intro q member
      have link : after.child q = start.child q :=
        represents.links_eq effect.represents (popped.trans stacked.symm) (stacked ▸ member)
      rw [effect.kept q (once.2.2 q member child (by simp)), suspended.kept q member, link]
      rfl
    have atStart := represents.running parent (by rw [Stacks.top, stacked]; simp)
    have atEnd := effect.represents.running parent
      (by rw [effect.task.trans sameTask, Stacks.top, popped]; simp)
    refine ⟨popped ▸ effect.represents.lists start.activeTask, restored, ?_, ?_⟩
    · exact atEnd.1.trans atStart.1.symm
    · exact atEnd.2.trans atStart.2.symm
  · rw [full] at alone
    have lengths := congrArg List.length alone
    simp at lengths

theorem execute_halt_bracket (env : Env) (boot start launchedState ending after : Kernel)
    (earlier events : List Event) (front : List Slot) (parent child : Slot) (command : Memory) (cpu : Cpu)
    (entryPt : Nat) (event : Event)
    (unlinked : ∀ p, (boot.pcbs p).childPcb = none) (loadable : Loadable env)
    (reached : Run (OneMemory.SparingSteps env) (multiTermInit boot) earlier start)
    (listed : Chain start.child (start.terminalTable start.activeTask).pcbHead (front ++ [parent]))
    (launched : execute env start command cpu = .ok (.launched entryPt launchedState))
    (created : getPCBTail launchedState start.activeTask = .ok (some child))
    (run : Run (Before (OneMemory.SparingSteps env) start.activeTask child) launchedState events ending)
    (halts : HaltOf start.activeTask child ending event) (halted : OneMemory.Steps env ending event after) :
    Chain after.child (after.terminalTable start.activeTask).pcbHead (front ++ [parent]) ∧
      (∀ q ∈ front ++ [parent], after.pcbs q = start.pcbs q) ∧
      after.pageDirectory 32 = start.pageDirectory 32 ∧ after.tssEsp0 = start.tssEsp0 := by
  obtain ⟨_, reached⟩ := OneMemory.sparing_run reached
  obtain ⟨_, run⟩ := run.relabel fun sparing => ⟨_, before_of_sparing sparing⟩
  obtain ⟨pool, represents⟩ := run_represents unlinked loadable reached
  have stacked : pool.stack start.activeTask = front ++ [parent] :=
    (represents.lists start.activeTask).unique listed
  obtain ⟨parsed, parses, -⟩ := bind_ok.mp launched
  -- The launch suspends the parent.
  obtain ⟨p, fresh, effect⟩ : ∃ p fresh, Launched pool p fresh start launchedState := by
    rcases execute_ends represents loadable parses with
      ⟨ret, returned, ended, -⟩ | ⟨p, fresh, entry, result, ended, effect⟩
    · cases launched.symm.trans ended
    · cases launched.symm.trans ended
      exact ⟨p, fresh, effect⟩
  have pushed : (pool.push start.activeTask p fresh).stack start.activeTask = front ++ parent :: p :: [] := by
    rw [Stacks.stack_push_self, stacked]
    simp
  have isChild : p = child := by
    rw [effect.represents.getPCBTail_eq, Stacks.top, pushed] at created
    simpa using created
  subst isChild
  have suspended : Suspended start start.activeTask front parent p
      (pool.push start.activeTask p fresh) [] launchedState :=
    ⟨effect.represents, pushed, fun q member => effect.kept q ⟨start.activeTask, stacked ▸ member⟩⟩
  obtain ⟨poolEnd, above, suspendedEnd⟩ := Run.invariant
    (fun k => ∃ pool above, Suspended start start.activeTask front parent p pool above k) run
    (fun step invariant => by
      obtain ⟨pool, above, suspended⟩ := invariant
      exact suspended.step loadable step) ⟨_, _, suspended⟩
  exact suspendedEnd.resume represents stacked loadable halts ((OneMemory.steps_halt halts.1).mp halted)

/-- Events without a pointer the kernel stores through. -/
theorem runEvents_before (ends : (runEvents env k events).isOk = true)
    (plain : ∀ event ∈ events, event.isHalt = false ∧ event.stores = false) :
    Run (Before (OneMemory.SparingSteps env) t child) k events (stateAfter env k events) :=
  (stateAfter_run ends).transfer fun member step =>
    ⟨OneMemory.sparing_of_stores (plain _ member).2 step,
      fun halts => Bool.false_ne_true ((plain _ member).1.symm.trans halts.1)⟩

def childShell : Kernel := stateAfter shellEnv baseShell [.execute shellCommand .reset]

/-- The other terminals get their shells and one of them a child, until the
first terminal runs again. -/
def roundTrip : List Event :=
  [.tick .reset, .execute shellCommand .reset, .tick .reset, .open shellCommand, .tick .reset]

def readingChild : Kernel := stateAfter shellEnv childShell [.open shellCommand]

/-- The child reads four bytes of a file, and then the other terminals have their turns. -/
theorem childShell_bracket : ∃ ending after,
    Run (Before (OneMemory.SparingSteps shellEnv) 0 1) childShell
      (.open shellCommand :: .read 2 (fun _ => 0) 0x8048100 4 .reset :: roundTrip) ending ∧
    OneMemory.Steps shellEnv ending (.halt 0 .reset) after ∧
    (∀ q ∈ [] ++ [(0 : Slot)], after.pcbs q = baseShell.pcbs q) ∧ after.tssEsp0 = baseShell.tssEsp0 := by
  have reached : Run (OneMemory.SparingSteps shellEnv) (multiTermInit .loaded) [.execute shellCommand .reset]
      baseShell := .cons (OneMemory.sparing_of_stores rfl rfl) .nil
  have opened : Run (Before (OneMemory.SparingSteps shellEnv) 0 1) childShell [.open shellCommand] readingChild :=
    runEvents_before (by decide) (by decide)
  have read : Before (OneMemory.SparingSteps shellEnv) 0 1 readingChild
      (.read 2 (fun _ => 0) 0x8048100 4 .reset)
      (readingChild.setFd 1 2 { (readingChild.pcbs 1).fdArr 2 with filePosition := u32 4 }) :=
    ⟨sysRead_shell_sparing _ _ rfl ⟨rfl, by decide, rfl, by decide, rfl⟩ rfl rfl (by decide) (by decide)
      (.inr (by decide)), fun halts => by cases halts.1⟩
  have around : Run (Before (OneMemory.SparingSteps shellEnv) 0 1) _ roundTrip (stateAfter shellEnv
      (readingChild.setFd 1 2 { (readingChild.pcbs 1).fdArr 2 with filePosition := u32 4 }) roundTrip) :=
    runEvents_before (by decide) (by decide)
  have run := opened.append (.cons read around)
  have returned : Run (Steps shellEnv) (stateAfter shellEnv
      (readingChild.setFd 1 2 { (readingChild.pcbs 1).fdArr 2 with filePosition := u32 4 }) roundTrip)
      [.halt 0 .reset] _ := stateAfter_run (by decide)
  cases returned with
  | cons halted rest =>
      have bracket := execute_halt_bracket shellEnv .loaded baseShell childShell _ _ _ _ [] 0 1
        shellCommand .reset 0x8048018 (.halt 0 .reset) (fun _ => rfl) shellEnv_loadable reached
        (.cons .nil) rfl rfl run ⟨rfl, rfl, rfl⟩ halted
      exact ⟨_, _, run, halted, bracket.2.1, bracket.2.2.2⟩

def childTable : Kernel := stateAfter tableEnv baseTable [.execute shellCommand .reset]

def openedTable : Kernel := stateAfter tableEnv childTable [.open shellCommand]

/-- The child reads a byte into its parent's PCB and halts. -/
theorem readFlag_breaks_bracket : ¬∀ (env : Env) (boot start launchedState ending after : Kernel)
    (earlier events : List Event) (front : List Slot) (parent child : Slot) (command : Memory) (cpu : Cpu)
    (entryPt : Nat) (event : Event), (∀ p, (boot.pcbs p).childPcb = none) → Loadable env →
    Run (OneMemory.Steps env) (multiTermInit boot) earlier start →
    Chain start.child (start.terminalTable start.activeTask).pcbHead (front ++ [parent]) →
    execute env start command cpu = .ok (.launched entryPt launchedState) →
    getPCBTail launchedState start.activeTask = .ok (some child) →
    Run (Before (OneMemory.Steps env) start.activeTask child) launchedState events ending →
    HaltOf start.activeTask child ending event → OneMemory.Steps env ending event after →
    Chain after.child (after.terminalTable start.activeTask).pcbHead (front ++ [parent]) ∧
      (∀ q ∈ front ++ [parent], after.pcbs q = start.pcbs q) ∧
      after.pageDirectory 32 = start.pageDirectory 32 ∧ after.tssEsp0 = start.tssEsp0 := by
  intro bracket
  have reached : Run (OneMemory.Steps tableEnv) (multiTermInit .loaded) [.execute shellCommand .reset] baseTable :=
    .cons (show OneMemory.Steps _ _ _ baseTable from rfl) .nil
  have opened : Before (OneMemory.Steps tableEnv) 0 1 childTable (.open shellCommand) openedTable :=
    ⟨rfl, fun halts => by cases halts.1⟩
  have reads : Reads openedTable 2 flagAddr 1 1 2 .file := ⟨rfl, by decide, rfl, by decide, rfl⟩
  have called := sysRead_flag (fun _ => 0) .reset reads rfl rfl rfl (by decide)
  have read : Before (OneMemory.Steps tableEnv) 0 1 openedTable (.read 2 (fun _ => 0) flagAddr 1 .reset)
      (flagRead openedTable (fun _ => 0) 1 2) :=
    ⟨OneMemory.steps_read called, fun halts => by cases halts.1⟩
  have ended : Run (Steps tableEnv) (flagRead openedTable (fun _ => 0) 1 2) [.halt 0 .reset] _ :=
    stateAfter_run (by decide)
  cases ended with
  | cons halted rest =>
      cases rest
      have restored := (bracket tableEnv .loaded baseTable childTable _ _ _ _ [] 0 1 shellCommand .reset 0x8048018
        (.halt 0 .reset) (fun _ => rfl) tableEnv_loadable reached (.cons .nil) rfl rfl
        (.cons opened (.cons read .nil)) ⟨rfl, rfl, rfl⟩ halted).2.1 0 (by simp)
      have flag := congrArg (fun pcb : Pcb => (pcb.fdArr 1).inUseFlag) restored
      exact absurd flag (by decide)

end BozOS
