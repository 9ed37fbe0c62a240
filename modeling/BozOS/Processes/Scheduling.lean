import BozOS.Processes.DeviceFrame
import BozOS.Processes.Integrity

namespace BozOS

open Data Lib FileSystem

/-! The scheduler over whole runs: a terminal that gets the processor back finds
the registers of the last tick that took it away, and, as long as every first
shell finds a free slot, the running task always has a process. -/

variable {env : Env} {start k before after : Kernel} {pool pool' : Stacks TermId Slot} {t : TermId}
  {p q outgoing : Slot} {event : Event} {events : List Event} {cpu : Cpu}

section Contexts

/-- The event is a tick that takes the processor away from terminal `t`. -/
def Leaves (t : TermId) (k : Kernel) (event : Event) (after : Kernel) : Prop :=
  (∃ cpu, event = .tick cpu) ∧ k.activeTask = t ∧ after.activeTask ≠ t

def StepsAway (env : Env) (t : TermId) (k : Kernel) (event : Event) (after : Kernel) : Prop :=
  Steps env k event after ∧ ¬Leaves t k event after

/-- The most recent tick that left terminal `t` came at `esp` and `ebp`, and
saved them in the PCB of process `p`, then the last on the list of `t`. -/
def LastLeft (env : Env) (start : Kernel) (events : List Event) (k : Kernel) (t : TermId) (p : Slot)
    (esp ebp : Nat) : Prop :=
  ∃ front cpu back before next, events = front ++ .tick cpu :: back ∧
    Run (Steps env) start front before ∧ Steps env before (.tick cpu) next ∧
    Leaves t before (.tick cpu) next ∧ Run (StepsAway env t) next back k ∧
    getPCBTail before t = .ok (some p) ∧ cpu.esp = esp ∧ cpu.ebp = ebp ∧
    (next.pcbs p).espSwitch = esp ∧ (next.pcbs p).ebpSwitch = ebp

theorem LastLeft.snoc {esp ebp : Nat} (left : LastLeft env start events k t p esp ebp)
    (step : StepsAway env t k event after) : LastLeft env start (events ++ [event]) after t p esp ebp := by
  obtain ⟨front, cpu, back, before, next, rfl, run, tick, leaves, away, saved⟩ := left
  exact ⟨front, cpu, back ++ [event], before, next, by simp, run, tick, leaves, away.snoc step, saved⟩

/-- Every terminal that waits for the processor still has its context in the PCB
at the end of its list. -/
structure ContextsKept (env : Env) (start : Kernel) (pool : Stacks TermId Slot) (events : List Event)
    (k : Kernel) : Prop where
  represents : Represents k pool
  saved : ∀ t p, t ≠ k.activeTask → pool.top t = some p →
    LastLeft env start events k t p (k.pcbs p).espSwitch (k.pcbs p).ebpSwitch

theorem ContextsKept.boot (unlinked : ∀ p, k.child p = none) :
    ContextsKept env (multiTermInit k) Stacks.empty [] (multiTermInit k) where
  represents := .boot unlinked
  saved _ _ _ topmost := absurd (Stacks.listed_of_top topmost) Stacks.not_listed_empty

/-- A tick saves the registers it finds in the PCB at the end of the running
task's list. -/
theorem tick_saves (represents : Represents k pool) (loadable : Loadable env)
    (step : Steps env k (.tick cpu) after) (topmost : pool.top k.activeTask = some outgoing) :
    (after.pcbs outgoing).espSwitch = cpu.esp ∧ (after.pcbs outgoing).ebpSwitch = cpu.ebp := by
  obtain ⟨result, called, rfl⟩ := map_ok.mp step
  have written : (saveSwitch k outgoing cpu).pcbs outgoing =
      { k.pcbs outgoing with espSwitch := cpu.esp, ebpSwitch := cpu.ebp } := Kernel.setPcb_same
  rcases taskSwitch_ends represents loadable cpu with
    ⟨idle, -⟩ | ⟨found, topmost', ⟨incoming, after, -, ended, -, -, saved⟩ |
      ⟨after, -, ended, -, -, -, saved⟩ | ⟨p, fresh, entryPt, after, -, ended, effect⟩⟩
  · cases topmost.symm.trans idle
  all_goals
    obtain rfl := Except.ok.inj (called.symm.trans ended)
    obtain rfl : outgoing = found := Option.some.inj (topmost.symm.trans topmost')
  · rw [Switched.kernel, saved, written]
    exact ⟨rfl, rfl⟩
  · rw [Switched.kernel, saved, written]
    exact ⟨rfl, rfl⟩
  · rw [Switched.kernel, effect.kept outgoing (Stacks.listed_of_top topmost)]
    exact ⟨congrArg Pcb.espSwitch written, congrArg Pcb.ebpSwitch written⟩

theorem ContextsKept.step (kept : ContextsKept env start pool events k) (loadable : Loadable env)
    (run : Run (Steps env) start events k) (step : Steps env k event after) :
    ∃ pool', ContextsKept env start pool' (events ++ [event]) after := by
  obtain ⟨pool', moved⟩ := next_step kept.represents loadable step
  refine ⟨pool', moved.represents, fun t p waiting topmost => ?_⟩
  have same : pool.top t = some p := by rw [← topmost, Stacks.top, Stacks.top, moved.elsewhere t waiting]
  by_cases leaving : t = k.activeTask
  · -- Terminal `t` has just lost the processor: the event is a tick, and the newest one.
    subst leaving
    obtain ⟨cpu, rfl⟩ : ∃ cpu, event = .tick cpu := by
      by_contra never
      exact waiting (moved.steady fun cpu same => never ⟨cpu, same⟩).symm
    obtain ⟨esp, ebp⟩ := tick_saves kept.represents loadable step same
    exact ⟨events, cpu, [], k, after, rfl, run, step, ⟨⟨cpu, rfl⟩, rfl, waiting.symm⟩, .nil,
      by rw [kept.represents.getPCBTail_eq, same], esp.symm, ebp.symm, rfl, rfl⟩
  · have apart : pool.top k.activeTask ≠ some p := fun active =>
      leaving (pool.disjoint (List.mem_of_getLast? same) (List.mem_of_getLast? active))
    rw [moved.others p (Stacks.listed_of_top same) apart]
    exact (kept.saved t p leaving same).snoc ⟨step, fun leaves => leaving leaves.2.1.symm⟩

theorem run_contextsKept (unlinked : ∀ p, k.child p = none) (loadable : Loadable env)
    (run : Run (Steps env) (multiTermInit k) events after) :
    ∃ pool, ContextsKept env (multiTermInit k) pool events after := by
  refine run.history (fun events state => ∃ pool, ContextsKept env (multiTermInit k) pool events state) ?_
    ⟨_, .boot unlinked⟩
  intro before state event next front step earlier
  obtain ⟨pool, kept⟩ := earlier
  exact kept.step loadable front step

theorem contexts_restored (env : Env) (boot k : Kernel) (events : List Event) (cpu : Cpu) (running waiting : Slot)
    (unlinked : ∀ p, (boot.pcbs p).childPcb = none) (loadable : Loadable env)
    (run : Run (Steps env) (multiTermInit boot) events k)
    (outgoing : getPCBTail k k.activeTask = .ok (some running))
    (incoming : getPCBTail k (k.activeTask + 1) = .ok (some waiting)) :
    ∃ esp ebp after, taskSwitch env k cpu = .ok (.resumed esp ebp after) ∧
      after.activeTask.val = (k.activeTask.val + 1) % 3 ∧
      (k.pcbs waiting).espSwitch = esp ∧ (k.pcbs waiting).ebpSwitch = ebp ∧
      LastLeft env (multiTermInit boot) events k (k.activeTask + 1) waiting esp ebp := by
  obtain ⟨pool, kept⟩ := run_contextsKept unlinked loadable run
  rw [kept.represents.getPCBTail_eq, Except.ok.injEq] at outgoing incoming
  have left := kept.saved (k.activeTask + 1) waiting (succ_ne k.activeTask) incoming
  rcases taskSwitch_ends kept.represents loadable cpu with
    ⟨idle, -⟩ | ⟨found, -, ⟨next, after, topmost, ended, -, task, -⟩ |
      ⟨after, empty, -⟩ | ⟨p, fresh, entryPt, after, empty, -⟩⟩
  · cases outgoing.symm.trans idle
  · obtain rfl : waiting = next := Option.some.inj (incoming.symm.trans topmost)
    exact ⟨_, _, after, ended, by rw [task, Fin.val_add]; rfl, rfl, rfl, left⟩
  · cases incoming.symm.trans empty
  · cases incoming.symm.trans empty

/-- A shell starts a child, the scheduler starts the shells of the two other
terminals, and the third tick comes on terminal 2. -/
def roundEvents : List Event :=
  [.execute shellCommand .reset, .execute shellCommand .reset, .tick ⟨100, 200, fun _ => 0⟩, .tick .reset]

theorem roundEvents_restored : ∃ k after, Run (Steps shellEnv) (multiTermInit .loaded) roundEvents k ∧
    taskSwitch shellEnv k .reset = .ok (.resumed 100 200 after) ∧
    LastLeft shellEnv (multiTermInit .loaded) roundEvents k 0 1 100 200 := by
  have run : Run (Steps shellEnv) (multiTermInit .loaded) roundEvents
      (stateAfter shellEnv (multiTermInit .loaded) roundEvents) := stateAfter_run (by decide)
  obtain ⟨esp, ebp, after, switched, -, rfl, rfl, left⟩ :=
    contexts_restored shellEnv .loaded _ roundEvents .reset 3 1 (fun _ => rfl) shellEnv_loadable run
      (by decide) (by decide)
  exact ⟨_, after, run, switched, left⟩

end Contexts

section Occupancy

/-- "shell" names an executable of the image, and the program behind it loads. -/
def ShellLoads (env : Env) : Prop :=
  ∀ stack, ∃ dentry entryPt, checkExecutable env.image shellCommand stack = some (dentry, entryPt) ∧
    ∀ mem, (readData env.image dentry.inode 0 mem 0x8048000 0x400000).ret ≠ -1 ∧
      0x8048000 + (readData env.image dentry.inode 0 mem 0x8048000 0x400000).stored ≤ 0x8400000

theorem Loadable.shellLoads (loadable : Loadable env) : ShellLoads env := by
  intro stack
  obtain ⟨⟨dentry, entryPt⟩, found⟩ := loadable.shell stack
  exact ⟨dentry, entryPt, found, loadable.loads _ _ _ _ found⟩

/-- The PCB at the head of every list carries its own process number, so that
the slot of a base shell is free again once the shell has halted. -/
def HeadsOwned (k : Kernel) : Prop := ∀ t p, (k.terminalTable t).pcbHead = some p → (k.pcbs p).pid = p.val

structure Occupied (k : Kernel) : Prop where
  running : (k.terminalTable k.activeTask).pcbHead ≠ none
  owned : HeadsOwned k

/-- No list got another head, and a process number changed at most to its own
slot's. -/
structure HeadsKept (before after : Kernel) : Prop where
  heads : ∀ t, (after.terminalTable t).pcbHead = (before.terminalTable t).pcbHead
  pids : ∀ q, (after.pcbs q).pid = (before.pcbs q).pid ∨ (after.pcbs q).pid = q.val
  task : after.activeTask = before.activeTask

theorem HeadsKept.owned (kept : HeadsKept k after) (owned : HeadsOwned k) : HeadsOwned after := by
  intro t p headed
  rw [kept.heads] at headed
  rcases kept.pids p with same | own
  · rw [same, owned t p headed]
  · exact own

theorem HeadsKept.occupied (kept : HeadsKept k after) (occupied : Occupied k) : Occupied after :=
  ⟨by rw [kept.task, kept.heads]; exact occupied.running, kept.owned occupied.owned⟩

theorem CallFrame.headsKept {self : Option Slot} (frame : CallFrame self k after) : HeadsKept k after := by
  refine ⟨frame.heads, fun q => ?_, frame.task⟩
  obtain ⟨fdArr, same⟩ := frame.descriptors q
  rw [same]
  exact .inl rfl

theorem ProcessFrame.headsKept (frame : ProcessFrame k after) : HeadsKept k after :=
  (frame.toCallFrame : CallFrame none k after).headsKept

theorem getPCBTail_null : getPCBTail k t = .ok none ↔ (k.terminalTable t).pcbHead = none := by
  unfold getPCBTail
  cases headed : (k.terminalTable t).pcbHead with
  | none => simp
  | some head =>
      simp only [map_ok, reduceCtorEq, iff_false]
      rintro ⟨tail, -, impossible⟩
      cases impossible

theorem HeadsKept.trans {middle : Kernel} (first : HeadsKept k middle) (second : HeadsKept middle after) :
    HeadsKept k after where
  heads t := (second.heads t).trans (first.heads t)
  pids q := (second.pids q).elim (fun same => by rw [same]; exact first.pids q) .inr
  task := second.task.trans first.task

theorem HeadsKept.setPcb {pcb : Pcb} (own : pcb.pid = (k.pcbs p).pid ∨ pcb.pid = p.val) :
    HeadsKept k (k.setPcb p pcb) := by
  refine ⟨fun _ => rfl, fun q => ?_, rfl⟩
  by_cases same : q = p
  · subst same
    rwa [Kernel.setPcb_same]
  · exact .inl (by rw [Kernel.setPcb_other same])

theorem Added.headsKept (added : Added k t p after) (running : (k.terminalTable t).pcbHead ≠ none) :
    HeadsKept k after := by
  cases added with
  | first empty => exact absurd empty running
  | @behind tail nonempty =>
      have linked : HeadsKept k (k.setPcb tail { k.pcbs tail with childPcb := some p }) := .setPcb (.inl rfl)
      exact ⟨linked.heads, linked.pids, linked.task⟩

theorem execute_headsKept {command : Memory} {result : Executed}
    (running : (k.terminalTable k.activeTask).pcbHead ≠ none) (called : execute env k command cpu = .ok result) :
    HeadsKept k result.kernel := by
  rcases execute_cases called with
    rfl | ⟨message, rfl⟩ | ⟨p, linked, userPages, -, added, rfl | ⟨entryPt, parsed, -, rfl⟩⟩
  · exact ProcessFrame.refl.headsKept
  · exact puts_screenFrame.process.headsKept
  · exact (added.headsKept running).trans ⟨fun _ => rfl, fun _ => .inl rfl, rfl⟩
  · have created : HeadsKept linked (linked.setPcb p (newPcb (linked.pcbs p) p parsed cpu)) := .setPcb (.inr rfl)
    exact (added.headsKept running).trans ⟨created.heads, created.pids, created.task⟩

/-- The first shell of a terminal: it starts when there is a free slot, and
becomes the head of the list. -/
theorem firstShell_ends (shell : ShellLoads env) (empty : (k.terminalTable k.activeTask).pcbHead = none)
    (owned : HeadsOwned k) (cpu : Cpu) :
    (freeSlot k = none ∧ ∃ ret after, execute env k shellCommand cpu = .ok (.returned ret after)) ∨
    (freeSlot k ≠ none ∧ ∃ entryPt after,
      execute env k shellCommand cpu = .ok (.launched entryPt after) ∧ Occupied after) := by
  obtain ⟨parsed, parses, word⟩ := parseCommand_shell
  obtain ⟨dentry, entryPt, checked, loads⟩ := shell cpu.stack
  rw [← word] at checked
  rw [execute, parses]
  simp only [bind, Except.bind, checked]
  cases free : freeSlot k with
  | none =>
      simp only [addPCB, free]
      exact .inl ⟨trivial, _, _, rfl⟩
  | some p =>
      simp only [addPCB, free, empty]
      obtain ⟨after, launched, entered⟩ := loadAndLaunch_entered loads
      refine .inr ⟨Option.some_ne_none p, entryPt, after, launched, ?_, ?_⟩
      · rw [entered.task, entered.terminals]
        exact fun missing => by simp [Kernel.setTerm] at missing
      · intro t q headed
        by_cases own : q = p
        · rw [own, entered.created]
          rfl
        · rw [entered.untouched q own]
          refine owned t q ?_
          rw [entered.terminals] at headed
          by_cases same : t = k.activeTask
          · subst same
            rw [Kernel.setTerm_same] at headed
            exact absurd (Option.some.inj headed).symm own
          · rwa [Kernel.setTerm_other same] at headed

/-- The `halt` of a base shell frees the slot that the next one needs. -/
theorem baseHalt_restarts (shell : ShellLoads env) (owned : HeadsOwned k) {self : Slot} {status : Nat}
    (base : (k.terminalTable k.activeTask).pcbHead = some self)
    (alone : getPCBTail k k.activeTask = .ok (some self)) :
    ∃ entryPt after, halt env k status cpu = .ok (.restarted entryPt after) ∧ Occupied after := by
  simp only [halt, alone, unsetProcessUsage_own (owned k.activeTask self base), bind, Except.bind, if_pos base]
  have sameTask : (k.release self).activeTask = k.activeTask := rfl
  rw [sameTask]
  have empty : ((resetPcbHead (k.release self) k.activeTask).terminalTable k.activeTask).pcbHead = none := by
    rw [resetPcbHead, Kernel.setTerm_same]
  have still : HeadsOwned (resetPcbHead (k.release self) k.activeTask) := by
    intro t p headed
    by_cases same : t = k.activeTask
    · subst same
      cases empty.symm.trans headed
    · rw [resetPcbHead, Kernel.setTerm_other same] at headed
      exact owned t p headed
  have unused : (resetPcbHead (k.release self) k.activeTask).processUsage self = .notUsed :=
    Function.update_self ..
  obtain ⟨q, free⟩ := freeSlot_exists unused
  rcases firstShell_ends shell empty still cpu with ⟨none, -⟩ | ⟨-, entryPt, after, launched, occupied⟩
  · cases none.symm.trans free
  · rw [launched]
    exact ⟨entryPt, after, rfl, occupied⟩

theorem returnToParent_headsKept {head : Option Slot} {self : Slot} {status : Nat} {result : Halted}
    (called : returnToParent k head self status = .ok result) : HeadsKept k result.kernel := by
  unfold returnToParent at called
  split at called
  · cases called
  · cases called
  · rename_i parent found
    cases called
    have unlinked : HeadsKept k (k.setPcb parent { k.pcbs parent with childPcb := none }) := .setPcb (.inl rfl)
    have closing : ∀ middle : Kernel, HeadsKept middle (middle.setPcb self
        { middle.pcbs self with fdArr := fun fd => closedFd ((middle.pcbs self).fdArr fd) }) :=
      fun middle => .setPcb (.inl rfl)
    have closed := unlinked.trans (closing _)
    exact ⟨closed.heads, closed.pids, closed.task⟩

theorem halt_occupied (shell : ShellLoads env) (occupied : Occupied k) {status : Nat} {result : Halted}
    (called : halt env k status cpu = .ok result) : Occupied result.kernel := by
  obtain ⟨tail, walked, inner⟩ := bind_ok.mp called
  cases tail with
  | none => cases inner
  | some self =>
      by_cases base : (k.terminalTable k.activeTask).pcbHead = some self
      · obtain ⟨entryPt, after, restarted, still⟩ := baseHalt_restarts shell occupied.owned base walked
        obtain rfl := Except.ok.inj (called.symm.trans restarted)
        exact still
      · obtain ⟨freed, unset, inner⟩ := bind_ok.mp inner
        rw [if_neg base] at inner
        have released : HeadsKept k freed := by
          obtain ⟨usage, rfl⟩ := unsetProcessUsage_ok unset
          exact ⟨fun _ => rfl, fun _ => .inl rfl, rfl⟩
        exact (released.trans (returnToParent_headsKept inner)).occupied occupied

/-- A tick that ends while a process runs. It starts the incoming terminal's
shell only if there is a free slot; without one the processor stays with a
terminal that has no process. -/
theorem taskSwitch_occupied (shell : ShellLoads env) (occupied : Occupied k) {result : Switched}
    (called : taskSwitch env k cpu = .ok result) :
    (getPCBTail k (k.activeTask + 1) = .ok none ∧ freeSlot k = none ∧ ∃ after, result = .launchFailed after) ∨
    (¬(getPCBTail k (k.activeTask + 1) = .ok none ∧ freeSlot k = none) ∧ Occupied result.kernel ∧
      (∀ after, result ≠ .idle after) ∧ ∀ after, result ≠ .launchFailed after) := by
  obtain ⟨incoming, waiting, called⟩ := bind_ok.mp called
  obtain ⟨outgoing, leaving, called⟩ := bind_ok.mp called
  cases outgoing with
  | none => exact absurd (getPCBTail_null.mp leaving) occupied.running
  | some outgoing =>
      simp only [setActiveTask_eq] at called
      have saves : HeadsKept { k with activeTask := k.activeTask + 1 }
          (saveSwitch { k with activeTask := k.activeTask + 1 } outgoing cpu) := .setPcb (.inl rfl)
      cases incoming with
      | some incoming =>
          cases called
          have headed : (k.terminalTable (k.activeTask + 1)).pcbHead ≠ none := by
            intro missing
            cases waiting.symm.trans (getPCBTail_null.mpr missing)
          refine .inr ⟨fun stuck => ?_, ?_, nofun, nofun⟩
          · cases waiting.symm.trans stuck.1
          · have moved := saves.occupied ⟨headed, occupied.owned⟩
            exact ⟨moved.running, moved.owned⟩
      | none =>
          obtain ⟨executed, started, called⟩ := bind_ok.mp called
          have headless : (k.terminalTable (k.activeTask + 1)).pcbHead = none := getPCBTail_null.mp waiting
          have empty : ((saveSwitch { k with activeTask := k.activeTask + 1 } outgoing cpu).terminalTable
              (saveSwitch { k with activeTask := k.activeTask + 1 } outgoing cpu).activeTask).pcbHead = none :=
            headless
          rcases firstShell_ends shell empty (saves.owned occupied.owned) cpu with
            ⟨full, ret, after, returned⟩ | ⟨spare, entryPt, after, launched, still⟩
          · obtain rfl := Except.ok.inj (started.symm.trans returned)
            cases called
            exact .inl ⟨waiting, full, after, rfl⟩
          · obtain rfl := Except.ok.inj (started.symm.trans launched)
            cases called
            exact .inr ⟨fun stuck => spare stuck.2, still, nofun, nofun⟩

/-- The incoming terminal has a process, or there is a slot for its first shell. -/
def TickFits (k : Kernel) : Prop :=
  getPCBTail k (k.activeTask + 1) ≠ .ok none ∨ ∃ p, k.processUsage p = .notUsed

theorem tickFits_iff : TickFits k ↔ ¬(getPCBTail k (k.activeTask + 1) = .ok none ∧ freeSlot k = none) := by
  rw [TickFits, not_and_or]
  refine or_congr Iff.rfl ⟨fun unused full => ?_, fun spare => ?_⟩
  · obtain ⟨p, unused⟩ := unused
    obtain ⟨q, free⟩ := freeSlot_exists unused
    cases full.symm.trans free
  · obtain ⟨p, free⟩ := Option.ne_none_iff_exists'.mp spare
    exact ⟨p, freeSlot_unused free⟩

theorem next_occupied (shell : ShellLoads env) (occupied : Occupied k) (step : Steps env k event after)
    (fits : (∃ cpu, event = .tick cpu) → TickFits k) : Occupied after := by
  cases manages : event.managesProcesses with
  | false =>
      obtain ⟨self, frame⟩ := next_callFrame manages step
      exact frame.headsKept.occupied occupied
  | true =>
      cases event with
      | execute command cpu =>
          obtain ⟨result, called, rfl⟩ := map_ok.mp step
          exact (execute_headsKept occupied.running called).occupied occupied
      | halt status cpu =>
          obtain ⟨result, called, rfl⟩ := map_ok.mp step
          exact halt_occupied shell occupied called
      | tick cpu =>
          obtain ⟨result, called, rfl⟩ := map_ok.mp step
          rcases taskSwitch_occupied shell occupied called with ⟨empty, full, -⟩ | ⟨-, still, -⟩
          · exact absurd ⟨empty, full⟩ (tickFits_iff.mp (fits ⟨cpu, rfl⟩))
          · exact still
      | _ => cases manages

/-- In every state of the run the active task has a process, and neither a tick
nor the `halt` of a base shell misses the shell it starts. -/
structure NeverIdle (env : Env) (first : Kernel) (events : List Event) : Prop where
  running : ∀ front state, front <+: events → Run (Steps env) first front state →
    getPCBTail state state.activeTask ≠ .ok none
  switches : ∀ front cpu state after, front ++ [.tick cpu] <+: events → Run (Steps env) first front state →
    taskSwitch env state cpu ≠ .ok (.idle after) ∧ taskSwitch env state cpu ≠ .ok (.launchFailed after)
  restarts : ∀ front status cpu state self, front ++ [.halt status cpu] <+: events →
    Run (Steps env) first front state → (state.terminalTable state.activeTask).pcbHead = some self →
    getPCBTail state state.activeTask = .ok (some self) →
    ∃ entryPt after, halt env state status cpu = .ok (.restarted entryPt after)

def TicksFit (env : Env) (first : Kernel) (events : List Event) : Prop :=
  ∀ front cpu state after, front ++ [.tick cpu] <+: events → Run (Steps env) first front state →
    Steps env state (.tick cpu) after → TickFits state

theorem run_occupied {front : List Event} (shell : ShellLoads env) (occupied : Occupied start)
    (fits : ∀ front cpu state after, front ++ [.tick cpu] <+: events → Run (Steps env) start front state →
      Occupied state → Steps env state (.tick cpu) after → TickFits state)
    (early : front <+: events) (run : Run (Steps env) start front k) : Occupied k := by
  refine run.history (fun front state => front <+: events → Occupied state) ?_ (fun _ => occupied) early
  intro before state event next reached step earlier early
  have still := earlier ((List.prefix_append before [event]).trans early)
  refine next_occupied shell still step ?_
  rintro ⟨cpu, rfl⟩
  exact fits before cpu state next early reached still step

theorem tickFits_of_switches (shell : ShellLoads env) (occupied : Occupied k) (step : Steps env k (.tick cpu) after)
    (switches : ∀ after, taskSwitch env k cpu ≠ .ok (.launchFailed after)) : TickFits k := by
  obtain ⟨result, called, -⟩ := map_ok.mp step
  rcases taskSwitch_occupied shell occupied called with ⟨-, -, after, rfl⟩ | ⟨fits, -⟩
  · exact absurd called (switches after)
  · exact tickFits_iff.mpr fits

theorem neverIdle_iff (shell : ShellLoads env) (occupied : Occupied start) :
    NeverIdle env start events ↔ TicksFit env start events := by
  constructor
  · intro never front cpu state after early run step
    have fits : ∀ front cpu state after, front ++ [.tick cpu] <+: events → Run (Steps env) start front state →
        Occupied state → Steps env state (.tick cpu) after → TickFits state :=
      fun front cpu state after early run still step =>
        tickFits_of_switches shell still step fun failed => (never.switches front cpu state failed early run).2
    have still := run_occupied shell occupied fits ((List.prefix_append front _).trans early) run
    exact fits front cpu state after early run still step
  · intro fits
    have still : ∀ {front state}, front <+: events → Run (Steps env) start front state → Occupied state :=
      run_occupied shell occupied fun front cpu state after early run _ => fits front cpu state after early run
    refine ⟨fun front state early run missing => (still early run).running (getPCBTail_null.mp missing),
      fun front cpu state after early run => ?_, fun front status cpu state self early run base alone => ?_⟩
    · have before := still ((List.prefix_append front _).trans early) run
      refine ⟨fun idle => ?_, fun failed => ?_⟩
      · rcases taskSwitch_occupied shell before idle with ⟨-, -, other, different⟩ | ⟨-, -, never, -⟩
        · cases different
        · exact never after rfl
      · have fitting := fits front cpu state _ early run (map_ok.mpr ⟨_, failed, rfl⟩)
        rcases taskSwitch_occupied shell before failed with ⟨empty, full, -⟩ | ⟨-, -, -, never⟩
        · exact tickFits_iff.mp fitting ⟨empty, full⟩
        · exact never after rfl
    · have before := still ((List.prefix_append front _).trans early) run
      obtain ⟨entryPt, after, restarted, -⟩ := baseHalt_restarts shell before.owned base alone
      exact ⟨entryPt, after, restarted⟩

theorem boot_occupied {boot first : Kernel} {entryPt : Nat} (shell : ShellLoads env)
    (launch : execute env (multiTermInit boot) shellCommand cpu = .ok (.launched entryPt first)) :
    Occupied first := by
  rcases firstShell_ends shell (k := multiTermInit boot) rfl nofun cpu with
    ⟨-, ret, after, returned⟩ | ⟨-, entryPt, after, launched, occupied⟩
  · cases launch.symm.trans returned
  · cases launch.symm.trans launched
    exact occupied

theorem activeTask_occupied_iff (env : Env) (boot first : Kernel) (cpu : Cpu) (entryPt : Nat) (events : List Event)
    (shell : ShellLoads env)
    (launch : execute env (multiTermInit boot) shellCommand cpu = .ok (.launched entryPt first)) :
    (NeverIdle env first events ↔ TicksFit env first events) ∧
    -- On an intact process table the search for the tail also ends.
    (Loadable env → (∀ p, (boot.pcbs p).childPcb = none) → TicksFit env first events →
      ∀ front state, front <+: events → Run (Steps env) first front state →
        ∃ p, getPCBTail state state.activeTask = .ok (some p)) := by
  have occupied := boot_occupied shell launch
  refine ⟨neverIdle_iff shell occupied, fun loadable unlinked fits front state early run => ?_⟩
  have step : Steps env (multiTermInit boot) (.execute shellCommand cpu) first := map_ok.mpr ⟨_, launch, rfl⟩
  obtain ⟨pool, represents⟩ := run_represents unlinked loadable (.cons step run)
  have running := ((neverIdle_iff shell occupied).mpr fits).running front state early run
  rw [represents.getPCBTail_eq] at running ⊢
  cases topmost : pool.top state.activeTask with
  | none => exact absurd (congrArg Except.ok topmost) running
  | some p => exact ⟨p, rfl⟩

theorem baseShell_launched :
    ∃ entryPt, execute shellEnv (multiTermInit .loaded) shellCommand .reset = .ok (.launched entryPt baseShell) :=
  ⟨_, rfl⟩

theorem baseShell_tickFits : TicksFit shellEnv baseShell [.tick .reset] := by
  intro front cpu state after early run step
  have alone : front.length + 1 ≤ 1 := by simpa using early.length_le
  obtain rfl := List.eq_nil_of_length_eq_zero (Nat.le_zero.mp (Nat.le_of_succ_le_succ alone))
  cases run
  exact .inr ⟨1, by decide⟩

/-- The first tick finds five free slots for the second terminal's shell. -/
theorem firstTick_neverIdle : NeverIdle shellEnv baseShell [.tick .reset] ∧
    ∃ state, Run (Steps shellEnv) baseShell [.tick .reset] state ∧
      ∃ p, getPCBTail state state.activeTask = .ok (some p) := by
  obtain ⟨entryPt, launch⟩ := baseShell_launched
  obtain ⟨never, ends⟩ := activeTask_occupied_iff shellEnv .loaded baseShell .reset entryPt [.tick .reset]
    shellEnv_loadable.shellLoads launch
  have run : Run (Steps shellEnv) baseShell [.tick .reset] (stateAfter shellEnv baseShell [.tick .reset]) :=
    stateAfter_run (by decide)
  exact ⟨never.mpr baseShell_tickFits, _, run, ends shellEnv_loadable (fun _ => rfl) baseShell_tickFits _ _
    (List.prefix_refl _) run⟩

def nestedShells : List Event := List.replicate 5 (.execute shellCommand .reset)

def crowded : Kernel := stateAfter shellEnv baseShell nestedShells

theorem crowded_run : Run (Steps shellEnv) baseShell nestedShells crowded := stateAfter_run (by decide)

/-- Six shells on the first terminal take every slot, and the next tick makes the
second terminal, which has no process, the active task. -/
theorem crowded_tick_idle : ¬∀ (env : Env) (boot first : Kernel) (cpu : Cpu) (entryPt : Nat) (events : List Event)
    (state : Kernel), ShellLoads env →
    execute env (multiTermInit boot) shellCommand cpu = .ok (.launched entryPt first) →
    Run (Steps env) first events state → getPCBTail state state.activeTask ≠ .ok none := by
  intro claim
  obtain ⟨entryPt, launch⟩ := baseShell_launched
  have first : Steps shellEnv (multiTermInit .loaded) (.execute shellCommand .reset) baseShell :=
    map_ok.mpr ⟨_, launch, rfl⟩
  obtain ⟨pool, represents⟩ := run_represents (fun _ => rfl) shellEnv_loadable (.cons first crowded_run)
  have waiting := represents.getPCBTail_eq (crowded.activeTask + 1)
  have running := represents.getPCBTail_eq crowded.activeTask
  rw [show getPCBTail crowded (crowded.activeTask + 1) = .ok none by decide, Except.ok.injEq] at waiting
  rw [show getPCBTail crowded crowded.activeTask = .ok (some 5) by decide, Except.ok.injEq] at running
  rcases taskSwitch_ends represents shellEnv_loadable .reset with
    ⟨idle, -⟩ | ⟨-, -, ⟨incoming, -, found, -⟩ | ⟨after, -, failed, -, still, moved, -⟩ | ⟨p, fresh, -⟩⟩
  · cases running.trans idle
  · cases waiting.trans found
  · have tick : Steps shellEnv crowded (.tick .reset) after := map_ok.mpr ⟨_, failed, rfl⟩
    refine claim shellEnv .loaded baseShell .reset entryPt (nestedShells ++ [.tick .reset]) after
      shellEnv_loadable.shellLoads launch (crowded_run.snoc tick) ?_
    rw [still.getPCBTail_eq, moved, ← waiting]
  · have full : ∀ p, crowded.processUsage p = .inUse := by decide
    exact absurd ((represents.usage p).mp (full p)) fresh

end Occupancy

end BozOS
