import BozOS.Data.Client
import BozOS.Descriptors.Completion

namespace BozOS.Programs

open Data Lib

/-! The kernel as the server of one process: the calls the process makes, and the
events of the rest of the system between them. -/

/-- A call's pointers point into the memory that goes with it. -/
inductive SysCall where
  | getargs (mem : Memory) (buf : Nat) (nbytes : Int)
  | open (mem : Memory) (filename : Nat)
  | close (fd : Int) (mem : Memory)
  | read (fd : Int) (mem : Memory) (buf : Nat) (nbytes : Int)
  | write (fd : Int) (mem : Memory) (buf : Nat) (nbytes : Int)

/-- The return value of a call, and the process's memory after it. -/
abbrev User := Client SysCall (Int × Memory)

structure Session where
  kernel : Kernel
  -- every byte the process has had put on its terminal
  written : List UInt8

/-- The bytes `terminal_write` puts on the screen: a text file ends at its NUL. -/
def shown (textFileFlag : Nat) : List UInt8 → List UInt8
  | [] => []
  | c :: rest => if textFileFlag = 1 ∧ c = 0 then [c] else c :: shown textFileFlag rest

def outputOf (k : Kernel) (p : Slot) (fd : Int) (mem : Memory) (buf : Nat) (nbytes : Int) : List UInt8 :=
  match fdOf fd with
  | none => []
  | some fd =>
      if ((k.pcbs p).fdArr fd).fotp = some .stdout then
        shown ((k.pcbs p).fdArr fd).textFileFlag (mem.window buf nbytes.toNat)
      else []

inductive Serves (env : Env) (p : Slot) : Session → SysCall → Int × Memory → Session → Prop where
  | getargs {s : Session} {mem stored : Memory} {buf : Nat} {nbytes ret : Int}
      (called : BozOS.getargs env s.kernel mem buf nbytes = .ok (ret, stored)) :
      Serves env p s (.getargs mem buf nbytes) (ret, stored) s
  | open {s : Session} {mem : Memory} {filename : Nat} {ret : Int} {after : Kernel}
      (called : sysOpen env s.kernel (fun i => mem (filename + i)) = .ok (ret, after)) :
      Serves env p s (.open mem filename) (ret, mem) { s with kernel := after }
  | close {s : Session} {fd ret : Int} {mem : Memory} {after : Kernel}
      (called : sysClose s.kernel fd = .ok (ret, after)) :
      Serves env p s (.close fd mem) (ret, mem) { s with kernel := after }
  | read {s : Session} {fd ret : Int} {mem stored : Memory} {buf : Nat} {nbytes : Int} {after : Kernel} (cpu : Cpu)
      (called : sysRead env s.kernel fd mem buf nbytes cpu = .ok (ret, stored, after)) :
      Serves env p s (.read fd mem buf nbytes) (ret, stored) { s with kernel := after }
  | write {s : Session} {fd ret : Int} {mem : Memory} {buf : Nat} {nbytes : Int} {after : Kernel}
      (called : sysWrite s.kernel fd mem buf nbytes = .ok (ret, after)) :
      Serves env p s (.write fd mem buf nbytes) (ret, mem)
        ⟨after, s.written ++ if ret = -1 then [] else outputOf s.kernel p fd mem buf nbytes⟩

/-- The events that are not a call of `p`: the interrupts, and the calls of the
other processes. -/
def Foreign (p : Slot) (k : Kernel) : Event → Prop
  | .tick _ | .key _ | .rtc => True
  | _ => callerPcb k ≠ .ok (some p)

/-- The server of `p` when the rest of the system does what is `allowed`. -/
def server (env : Env) (p : Slot) (allowed : Kernel → Event → Prop) : Server Session SysCall (Int × Memory) where
  serves := Serves env p
  others before after := ∃ event, Foreign p before.kernel event ∧ allowed before.kernel event ∧
    Steps env before.kernel event after.kernel ∧ after.written = before.written
  turn s := callerPcb s.kernel = .ok (some p)

variable {env : Env} {p : Slot} {k after : Kernel} {event : Event} {pool : Stacks TermId Slot} {t : TermId}
  {fdArr : Fin 8 → Fd} {mem : Memory} {buf flag : Nat}

section Output

end Output

section Residence

/-- `p` is the last process of a terminal, and this is its descriptor table. -/
structure Resident (p : Slot) (fdArr : Fin 8 → Fd) (k : Kernel) : Prop where
  placed : ∃ pool t, Represents k pool ∧ pool.top t = some p
  table : (k.pcbs p).fdArr = fdArr

theorem Resident.call {self : Option Slot} (resident : Resident p fdArr k) (frame : CallFrame self k after) :
    Resident p (after.pcbs p).fdArr after := by
  obtain ⟨pool, t, represents, topmost⟩ := resident.placed
  exact ⟨⟨pool, t, represents.frame frame, topmost⟩, rfl⟩

theorem Resident.process (resident : Resident p fdArr k) (frame : ProcessFrame k after) : Resident p fdArr after := by
  have nobody : CallFrame none k after := frame.toCallFrame
  have kept := resident.call nobody
  rwa [frame.pcbs, resident.table] at kept

theorem Resident.setFd {fd : Fin 8} {entry : Fd} (resident : Resident p fdArr k) :
    Resident p (Function.update fdArr fd entry) (k.setFd p fd entry) := by
  have frame : CallFrame (some p) k (k.setFd p fd entry) := .setFd .refl
  have moved := resident.call frame
  rwa [setFd_fdArr, resident.table] at moved

theorem resident_tick {cpu : Cpu} (represents : Represents k pool) (loadable : Loadable env)
    (topmost : pool.top t = some p) (step : Steps env k (.tick cpu) after) : Resident p (k.pcbs p).fdArr after := by
  obtain ⟨result, called, rfl⟩ := map_ok.mp step
  rcases taskSwitch_ends represents loadable cpu with ⟨-, ended⟩ | ⟨outgoing, -, resumed | failed | launched⟩
  · cases called.symm.trans ended
    exact ⟨⟨pool, t, represents, topmost⟩, rfl⟩
  · obtain ⟨incoming, switched, -, ended, represents, -, pcbs⟩ := resumed
    cases called.symm.trans ended
    refine ⟨⟨pool, t, represents, topmost⟩, ?_⟩
    change (switched.pcbs p).fdArr = _
    rw [pcbs, saveSwitch_fdArr]
  · obtain ⟨switched, -, ended, -, represents, -, pcbs⟩ := failed
    cases called.symm.trans ended
    refine ⟨⟨pool, t, represents, topmost⟩, ?_⟩
    change (switched.pcbs p).fdArr = _
    rw [pcbs, saveSwitch_fdArr]
  · obtain ⟨q, fresh, entryPt, switched, empty, ended, effect⟩ := launched
    cases called.symm.trans ended
    have apart : t ≠ k.activeTask + 1 := by
      rintro rfl
      rw [empty] at topmost
      cases topmost
    refine ⟨⟨_, t, effect.represents, ?_⟩, ?_⟩
    · exact (congrArg List.getLast? (Stacks.stack_push_other fresh apart)).trans topmost
    · change (switched.pcbs p).fdArr = _
      rw [effect.kept p (Stacks.listed_of_top topmost)]
      exact saveSwitch_fdArr

theorem caller_of_top (represents : Represents k pool) : callerPcb k = .ok (pool.top k.activeTask) :=
  callerPcb_ok.mpr (represents.getPCBTail_eq k.activeTask)

/-- The rest of the system neither moves the process nor touches its descriptors. -/
theorem Resident.foreign (resident : Resident p fdArr k) (loadable : Loadable env) (foreign : Foreign p k event)
    (step : Steps env k event after) : Resident p fdArr after := by
  obtain ⟨pool, t, represents, topmost⟩ := resident.placed
  rw [← resident.table]
  have away (other : callerPcb k ≠ .ok (some p)) : Resident p (k.pcbs p).fdArr after := by
    have waiting : pool.top k.activeTask ≠ some p := fun same => other (same ▸ caller_of_top represents)
    cases manages : event.managesProcesses with
    | false =>
        have frame := next_frame manages (represents.getPCBTail_eq k.activeTask) step
        refine ⟨⟨pool, t, represents.frame frame, topmost⟩, ?_⟩
        rw [frame.others p waiting]
    | true =>
        by_cases ticks : ∃ cpu, event = .tick cpu
        · obtain ⟨cpu, rfl⟩ := ticks
          exact resident_tick represents loadable topmost step
        · obtain ⟨pool', moved⟩ := next_step represents loadable step
          have task := moved.steady fun cpu same => ticks ⟨cpu, same⟩
          have apart : t ≠ after.activeTask := by
            rintro rfl
            rw [task] at topmost
            exact waiting topmost
          refine ⟨⟨pool', t, moved.represents, ?_⟩, ?_⟩
          · rw [Stacks.top, moved.elsewhere t apart]
            exact topmost
          · rw [moved.others p (Stacks.listed_of_top topmost) waiting]
  cases event with
  | tick cpu => exact resident_tick represents loadable topmost step
  | key scanCode =>
      cases step
      have kept : Resident p (k.pcbs p).fdArr k := ⟨resident.placed, rfl⟩
      exact kept.process kbIntHandler_frame
  | rtc =>
      cases step
      have kept : Resident p (k.pcbs p).fdArr k := ⟨resident.placed, rfl⟩
      exact kept.process rtcHandler_frame
  | _ => exact away foreign

end Residence

end BozOS.Programs
