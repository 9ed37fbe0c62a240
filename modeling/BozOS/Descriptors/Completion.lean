import BozOS.Descriptors.Law
import BozOS.Processes.Command
import BozOS.Terminals.Residue

namespace BozOS

open Data Lib FileSystem

/-! Which calls and interrupts complete. In the states a run can reach, every
process has a descriptor table the calls can rely on, and what is left of the
ways to stop is a short list. -/

variable {env : Env} {k after : Kernel} {pool pool' : Stacks TermId Slot} {p q outgoing : Slot} {event : Event}
  {events : List Event} {command mem : Memory} {cpu : Cpu} {fd : Int} {buf : Nat} {nbytes : Int} {stop : Stop}

section Tables

/-- Every process, running or not, has a valid descriptor table. -/
def TablesValid (pool : Stacks TermId Slot) (k : Kernel) : Prop :=
  ∀ p, pool.Listed p → TableValid (k.pcbs p).fdArr

theorem saveSwitch_fdArr : ((saveSwitch k outgoing cpu).pcbs q).fdArr = (k.pcbs q).fdArr := by
  by_cases same : q = outgoing
  · subst same
    rw [saveSwitch, Kernel.setPcb_same]
  · rw [saveSwitch_other same]

theorem TablesValid.congr (valid : TablesValid pool k) (same : ∀ p, (after.pcbs p).fdArr = (k.pcbs p).fdArr) :
    TablesValid pool after := fun p listed => by
  rw [same]
  exact valid p listed

theorem TablesValid.saveSwitch (valid : TablesValid pool k) : TablesValid pool (saveSwitch k outgoing cpu) :=
  valid.congr fun _ => saveSwitch_fdArr

/-- A process that starts brings its own table along. -/
theorem TablesValid.launched {fresh : ¬pool.Listed p} (valid : TablesValid pool k)
    (effect : Launched pool p fresh k after) : TablesValid (pool.push k.activeTask p fresh) after := by
  intro q listed
  rcases (Stacks.listed_push fresh).mp listed with rfl | old
  · obtain ⟨parsed, cpu, created⟩ := effect.created
    rw [created]
    exact newFdArr_valid _ parsed
  · rw [effect.kept q old]
    exact valid q old

theorem TablesValid.exited {self : Slot} {below : List Slot} (valid : TablesValid pool k)
    (stacked : pool.stack k.activeTask = below ++ [self]) (effect : Exited pool self k after) :
    TablesValid (pool.pop k.activeTask) after := by
  intro q listed
  obtain ⟨other, old⟩ := (Stacks.listed_pop stacked).mp listed
  rw [effect.kept q other]
  exact valid q old

theorem TablesValid.execute (valid : TablesValid pool k) (represents : Represents k pool) (loadable : Loadable env)
    (step : Steps env k (.execute command cpu) after) : ∃ pool', Represents after pool' ∧ TablesValid pool' after := by
  obtain ⟨result, called, rfl⟩ := map_ok.mp step
  obtain ⟨parsed, parses, -⟩ := bind_ok.mp called
  rcases execute_ends represents loadable parses with
    ⟨ret, other, ended, frame, -⟩ | ⟨p, fresh, entryPt, other, ended, effect⟩
  · cases called.symm.trans ended
    exact ⟨pool, represents.processFrame frame, valid.congr fun p => congrArg Pcb.fdArr (congrFun frame.pcbs p)⟩
  · cases called.symm.trans ended
    exact ⟨_, effect.represents, valid.launched effect⟩

theorem TablesValid.halt {status : Nat} (valid : TablesValid pool k) (represents : Represents k pool)
    (loadable : Loadable env) (step : Steps env k (.halt status cpu) after) :
    ∃ pool', Represents after pool' ∧ TablesValid pool' after := by
  obtain ⟨result, called, rfl⟩ := map_ok.mp step
  cases topmost : pool.top k.activeTask with
  | none =>
      simp only [BozOS.halt, represents.getPCBTail_eq, topmost, bind, Except.bind] at called
      cases called
  | some self =>
      rcases halt_ends represents loadable topmost with
        ⟨front, parent, ret, esp, ebp, other, stacked, ended, effect⟩ |
        ⟨alone, p, fresh, entryPt, other, ended, effect⟩
      · cases called.symm.trans ended
        have last : pool.stack k.activeTask = (front ++ [parent]) ++ [self] := by
          rw [stacked, List.append_assoc, List.singleton_append]
        exact ⟨_, effect.represents, valid.exited last effect⟩
      · cases called.symm.trans ended
        have stacked : pool.stack k.activeTask = [] ++ [self] := alone
        have popped : TablesValid (pool.pop k.activeTask) (resetPcbHead (k.release self) k.activeTask) :=
          fun q listed => valid q ((Stacks.listed_pop stacked).mp listed).2
        exact ⟨_, effect.represents, popped.launched effect⟩

theorem TablesValid.tick (valid : TablesValid pool k) (represents : Represents k pool) (loadable : Loadable env)
    (step : Steps env k (.tick cpu) after) : ∃ pool', Represents after pool' ∧ TablesValid pool' after := by
  obtain ⟨result, called, rfl⟩ := map_ok.mp step
  rcases taskSwitch_ends represents loadable cpu with ⟨-, ended⟩ | ⟨outgoing, -, resumed | failed | launched⟩
  · cases called.symm.trans ended
    exact ⟨pool, represents, valid⟩
  · obtain ⟨incoming, other, -, ended, moved, -, saved⟩ := resumed
    cases called.symm.trans ended
    exact ⟨pool, moved, valid.congr fun p => (congrArg Pcb.fdArr (congrFun saved p)).trans saveSwitch_fdArr⟩
  · obtain ⟨other, -, ended, -, moved, -, saved⟩ := failed
    cases called.symm.trans ended
    exact ⟨pool, moved, valid.congr fun p => (congrArg Pcb.fdArr (congrFun saved p)).trans saveSwitch_fdArr⟩
  · obtain ⟨p, fresh, entryPt, other, -, ended, effect⟩ := launched
    cases called.symm.trans ended
    have switched : TablesValid pool (BozOS.saveSwitch { k with activeTask := k.activeTask + 1 } outgoing cpu) :=
      TablesValid.saveSwitch (k := { k with activeTask := k.activeTask + 1 }) valid
    exact ⟨_, effect.represents, switched.launched effect⟩

/-- The calls of the running process, event by event; the tables of the others
stay as they are. -/
theorem TablesValid.call (valid : TablesValid pool k) (represents : Represents k pool)
    (plain : event.managesProcesses = false) (step : Steps env k event after) : TablesValid pool after := by
  have frame := next_frame plain (represents.getPCBTail_eq k.activeTask) step
  intro p listed
  by_cases runs : pool.top k.activeTask = some p
  · have caller : callerPcb k = .ok (some p) := callerPcb_ok.mpr (runs ▸ represents.getPCBTail_eq k.activeTask)
    have kept {other : Kernel} (frame : ProcessFrame k other) : TableValid (other.pcbs p).fdArr := by
      rw [frame.pcbs]
      exact valid p listed
    cases event with
    | execute command cpu => cases plain
    | halt status cpu => cases plain
    | tick cpu => cases plain
    | read fd mem buf nbytes cpu =>
        obtain ⟨⟨ret, stored, k'⟩, called, rfl⟩ := map_ok.mp step
        exact fdSteps_valid (.read caller called) (valid p listed)
    | write fd mem buf nbytes =>
        obtain ⟨⟨ret, k'⟩, called, rfl⟩ := map_ok.mp step
        have wrote : FdSteps env p k (.write fd mem buf nbytes) k' := .write caller called
        exact fdSteps_valid wrote (valid p listed)
    | «open» filename =>
        obtain ⟨⟨ret, k'⟩, called, rfl⟩ := map_ok.mp step
        exact fdSteps_valid (.open caller called) (valid p listed)
    | close fd =>
        obtain ⟨⟨ret, k'⟩, called, rfl⟩ := map_ok.mp step
        have closed : FdSteps env p k (.close fd) k' := .close caller called
        exact fdSteps_valid closed (valid p listed)
    | getargs mem buf nbytes =>
        obtain ⟨result, -, rfl⟩ := map_ok.mp step
        exact valid p listed
    | vidmap mem screenStart => exact Except.ok.inj step ▸ kept vidmap_frame
    | setHandler => exact Except.ok.inj step ▸ kept setHandler_screenFrame.process
    | sigreturn => exact Except.ok.inj step ▸ kept sigreturn_screenFrame.process
    | key scanCode => exact Except.ok.inj step ▸ kept kbIntHandler_frame
    | rtc => exact Except.ok.inj step ▸ kept rtcHandler_frame
  · rw [frame.others p runs]
    exact valid p listed

end Tables

/-- What a state the kernel can reach gives to its calls. -/
structure Working (pool : Stacks TermId Slot) (k : Kernel) : Prop where
  represents : Represents k pool
  tables : TablesValid pool k
  ended : BuffersEnded k

theorem Working.boot (unlinked : ∀ p, k.child p = none) (zeroed : BuffersEnded k) :
    Working Stacks.empty (multiTermInit k) where
  represents := .boot unlinked
  tables := fun _ listed => absurd listed Stacks.not_listed_empty
  ended := ⟨zeroed.kbBuf, zeroed.intBuf, zeroed.saved⟩

theorem Working.step (working : Working pool k) (loadable : Loadable env) (step : Steps env k event after) :
    ∃ pool', Working pool' after := by
  obtain ⟨represents, tables, ended⟩ := working
  suffices managed : ∃ pool', Represents after pool' ∧ TablesValid pool' after by
    obtain ⟨pool', represents, tables⟩ := managed
    exact ⟨pool', represents, tables, next_ended ended step⟩
  cases manages : event.managesProcesses with
  | false =>
      have frame := next_frame manages (represents.getPCBTail_eq k.activeTask) step
      exact ⟨pool, represents.frame frame, tables.call represents manages step⟩
  | true =>
      cases event with
      | execute command cpu => exact tables.execute represents loadable step
      | halt status cpu => exact tables.halt represents loadable step
      | tick cpu => exact tables.tick represents loadable step
      | _ => cases manages

section Loops

end Loops

section Calls

end Calls

end BozOS
