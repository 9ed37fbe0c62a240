import BozOS.Descriptors.Table
import BozOS.Processes.DeviceFrame
import BozOS.Processes.Sparing

namespace BozOS

open Data Lib FileSystem

/-! The descriptor calls of one process over its whole life, between which the
rest of the system may do anything that leaves its descriptors alone. A `read`
can store into the table itself. -/

variable {env : Env} {k after : Kernel} {p : Slot}

inductive FdEvent where
  | open (filename : Memory)
  | close (fd : Int)
  | read (fd : Int) (mem : Memory) (buf : Nat) (nbytes : Int) (cpu : Cpu)
  | write (fd : Int) (mem : Memory) (buf : Nat) (nbytes : Int)
  | others

/-- A call of the process `p`, or what others do in between. -/
inductive FdSteps (env : Env) (p : Slot) (k : Kernel) : FdEvent → Kernel → Prop where
  | open {filename : Memory} {ret : Int} {after : Kernel} (caller : callerPcb k = .ok (some p))
      (called : sysOpen env k filename = .ok (ret, after)) : FdSteps env p k (.open filename) after
  | close {fd ret : Int} {after : Kernel} (caller : callerPcb k = .ok (some p))
      (called : sysClose k fd = .ok (ret, after)) : FdSteps env p k (.close fd) after
  | read {fd ret : Int} {mem stored : Memory} {buf : Nat} {nbytes : Int} {cpu : Cpu} {after : Kernel}
      (caller : callerPcb k = .ok (some p))
      (called : sysRead env k fd mem buf nbytes cpu = .ok (ret, stored, after)) :
      FdSteps env p k (.read fd mem buf nbytes cpu) after
  | write {fd ret : Int} {mem : Memory} {buf : Nat} {nbytes : Int} {after : Kernel}
      (caller : callerPcb k = .ok (some p)) (called : sysWrite k fd mem buf nbytes = .ok (ret, after)) :
      FdSteps env p k (.write fd mem buf nbytes) after
  | others {after : Kernel} (kept : (after.pcbs p).fdArr = (k.pcbs p).fdArr) : FdSteps env p k .others after

/-- The kernel's events while another process has its turn are such a step. -/
theorem others_of_steps {pool : Stacks TermId Slot} {event : Event} (represents : Represents k pool)
    (loadable : Loadable env) (listed : pool.Listed p) (waiting : pool.top k.activeTask ≠ some p)
    (step : Steps env k event after) : FdSteps env p k .others after := by
  obtain ⟨pool', moved⟩ := next_step represents loadable step
  exact .others (by rw [moved.others p listed waiting])

theorem fdSteps_valid {event : FdEvent} (step : FdSteps env p k event after)
    (valid : TableValid (k.pcbs p).fdArr) : TableValid (after.pcbs p).fdArr := by
  cases step with
  | «open» caller called =>
      rcases sysOpen_cases caller _ with ⟨failed, -⟩ | ⟨dentry, fotp, fd, inode, middle, -, -, free, frame, opened⟩
      · cases called.symm.trans failed
        exact valid
      · cases called.symm.trans opened
        rw [setFd_fdArr, frame.pcbs]
        exact valid.update (valid.unused_ge_two (firstUnused_some free).1) (.inr rfl) fun _ => ⟨fotp, rfl⟩
  | close caller called =>
      rcases sysClose_cases valid caller _ with ⟨failed, -⟩ | ⟨fd, -, high, -, closed⟩
      · cases called.symm.trans failed
        exact valid
      · cases called.symm.trans closed
        rw [setFd_fdArr]
        exact valid.update high (.inl rfl) fun used => absurd used Nat.zero_ne_one
  | read caller called =>
      rcases sysRead_moves caller called with same | ⟨fd, position, -, moved⟩
      · simp only at same
        rwa [same]
      · simp only at moved
        rw [moved]
        exact valid.move
  | write caller called =>
      have frame := sysWrite_frame called
      simp only at frame
      rwa [frame.pcbs]
  | others kept => rwa [kept]

/-- The same calls with the PCBs in the memory a `read` stores into. -/
def OneMemory.FdSteps (env : Env) (p : Slot) (k : Kernel) : FdEvent → Kernel → Prop
  | .read fd mem buf nbytes cpu, after =>
      callerPcb k = .ok (some p) ∧ OneMemory.Steps env k (.read fd mem buf nbytes cpu) after
  | event, after => BozOS.FdSteps env p k event after

def FdEvent.Spares (env : Env) (k : Kernel) : FdEvent → Prop
  | .read fd mem buf nbytes cpu => OneMemory.Spares env k (.read fd mem buf nbytes cpu)
  | _ => True

/-- A call that stores nothing into the kernel's page. -/
def OneMemory.SparingFdSteps (env : Env) (p : Slot) (k : Kernel) (event : FdEvent) (after : Kernel) : Prop :=
  FdSteps env p k event after ∧ event.Spares env k

/-- The event with the memory its call finds. -/
def FdEvent.seen (env : Env) (k : Kernel) : FdEvent → FdEvent
  | .read fd mem buf nbytes cpu => .read fd (k.seen env mem) buf nbytes cpu
  | event => event

theorem OneMemory.SparingFdSteps.steps {event : FdEvent} (sparing : SparingFdSteps env p k event after) :
    BozOS.FdSteps env p k (event.seen env k) after := by
  obtain ⟨step, spares⟩ := sparing
  cases event with
  | read fd mem buf nbytes cpu =>
      obtain ⟨caller, step⟩ := step
      obtain ⟨result, called, rfl⟩ := map_ok.mp step
      exact .read caller (sysRead_kept called (spares result called))
  | «open» | close | write | others => exact step

theorem sysRead_spared_moves {fd : Int} {mem : Memory} {buf : Nat} {nbytes : Int} {cpu : Cpu}
    {result : Int × Memory × Kernel} (caller : callerPcb k = .ok (some p))
    (called : OneMemory.sysRead env k fd mem buf nbytes cpu = .ok result)
    (kept : PageKept (k.seen env mem) result.2.1) {other : Fin 8} (different : (other.val : Int) ≠ fd) :
    (result.2.2.pcbs p).fdArr other = (k.pcbs p).fdArr other := by
  rcases sysRead_moves caller (OneMemory.sysRead_kept called kept) with same | ⟨entry, position, equal, moved⟩
  · rw [same]
  · rw [moved, Function.update_of_ne]
    rintro rfl
    exact different equal

/-- An unopened descriptor keeps a read from every operation. -/
theorem OneMemory.sysRead_unopened {fd : Int} (mem : Memory) (buf : Nat) (nbytes : Int) (cpu : Cpu)
    (caller : callerPcb k = .ok (some p)) (unopened : Unopened (k.pcbs p).fdArr fd) :
    sysRead env k fd mem buf nbytes cpu = .ok (-1, k.seen env mem, k) := by
  rcases sysRead_outcome env k fd mem buf nbytes cpu with
    ⟨stop, stopped, -⟩ | ⟨refused, -⟩ | ⟨q, entry, fotp, reads⟩
  · cases caller.symm.trans stopped
  · exact refused
  · cases caller.symm.trans reads.caller
    rcases unopened.fdOf_cases with missing | ⟨other, found, unused⟩
    · cases reads.found.symm.trans missing
    · cases reads.found.symm.trans found
      exact absurd unused reads.used

structure Opens (env : Env) (p : Slot) (k : Kernel) (filename : Memory) (ret : Int) (after : Kernel) : Prop where
  failure : ret = -1 ↔ readDentryByName env.image filename = none ∨
    (∃ dentry, readDentryByName env.image filename = some dentry ∧
      dentry.fileType ≠ 0 ∧ dentry.fileType ≠ 1 ∧ dentry.fileType ≠ 2) ∨
    ∀ fd, ((k.pcbs p).fdArr fd).inUseFlag = 1
  unchanged : ret = -1 → (after.pcbs p).fdArr = (k.pcbs p).fdArr ∧ after.rtcRegA = k.rtcRegA
  success : ret ≠ -1 → ∃ (fd : Fin 8) (dentry : Dentry), ret = fd.val ∧ 2 ≤ fd.val ∧
    ((k.pcbs p).fdArr fd).inUseFlag = 0 ∧ (∀ lower < fd, ((k.pcbs p).fdArr lower).inUseFlag = 1) ∧
    readDentryByName env.image filename = some dentry ∧
    ((after.pcbs p).fdArr fd).inUseFlag = 1 ∧ ((after.pcbs p).fdArr fd).filePosition = 0 ∧
    ((after.pcbs p).fdArr fd).fotp = tableOf dentry.fileType ∧
    ∀ other, other ≠ fd → (after.pcbs p).fdArr other = (k.pcbs p).fdArr other

structure Closes (p : Slot) (k : Kernel) (fd ret : Int) (after : Kernel) : Prop where
  success : ret = 0 ↔ ∃ entry : Fin 8, (entry.val : Int) = fd ∧ 2 ≤ entry.val ∧
    ((k.pcbs p).fdArr entry).inUseFlag = 1
  released : ret = 0 → ∀ entry : Fin 8, (entry.val : Int) = fd → ((after.pcbs p).fdArr entry).inUseFlag = 0
  failure : ret ≠ 0 → ret = -1 ∧ after = k
  others : ∀ other : Fin 8, (other.val : Int) ≠ fd → (after.pcbs p).fdArr other = (k.pcbs p).fdArr other

/-- What holds of the descriptors of `p` in one state, and of every call `p` can
make there. -/
structure DescriptorLaw (env : Env) (p : Slot) (k : Kernel) : Prop where
  stdin : ((k.pcbs p).fdArr 0).inUseFlag = 1 ∧ ((k.pcbs p).fdArr 0).fotp = some .stdin
  stdout : ((k.pcbs p).fdArr 1).inUseFlag = 1 ∧ ((k.pcbs p).fdArr 1).fotp = some .stdout
  opens : callerPcb k = .ok (some p) → ∀ filename,
    ∃ ret after, sysOpen env k filename = .ok (ret, after) ∧ Opens env p k filename ret after
  closes : callerPcb k = .ok (some p) → ∀ fd,
    ∃ ret after, sysClose k fd = .ok (ret, after) ∧ Closes p k fd ret after
  unopened : callerPcb k = .ok (some p) → ∀ fd, Unopened (k.pcbs p).fdArr fd →
    (∀ mem buf nbytes cpu, OneMemory.sysRead env k fd mem buf nbytes cpu = .ok (-1, k.seen env mem, k)) ∧
      ∀ mem buf nbytes, sysWrite k fd mem buf nbytes = .ok (-1, k)
  reads : callerPcb k = .ok (some p) → ∀ fd mem buf nbytes cpu result,
    OneMemory.sysRead env k fd mem buf nbytes cpu = .ok result → PageKept (k.seen env mem) result.2.1 →
    ∀ other : Fin 8, (other.val : Int) ≠ fd → (result.2.2.pcbs p).fdArr other = (k.pcbs p).fdArr other
  writes : callerPcb k = .ok (some p) → ∀ fd mem buf nbytes result, sysWrite k fd mem buf nbytes = .ok result →
    (result.2.pcbs p).fdArr = (k.pcbs p).fdArr

theorem tableOf_none {fileType : Nat} :
    tableOf fileType = none ↔ fileType ≠ 0 ∧ fileType ≠ 1 ∧ fileType ≠ 2 := by
  unfold tableOf
  split <;> simp_all

theorem TableValid.opens (valid : TableValid (k.pcbs p).fdArr) (caller : callerPcb k = .ok (some p))
    (filename : Memory) :
    ∃ ret after, sysOpen env k filename = .ok (ret, after) ∧ Opens env p k filename ret after := by
  rcases sysOpen_cases caller filename with
    ⟨failed, why⟩ | ⟨dentry, fotp, fd, inode, middle, lookup, table, free, frame, opened⟩
  · refine ⟨-1, k, failed, ⟨fun _ => ?_, fun _ => rfl⟩, fun _ => ⟨rfl, rfl⟩, fun success => absurd rfl success⟩
    rcases why with missing | ⟨dentry, lookup, untyped⟩ | full
    · exact .inl missing
    · exact .inr (.inl ⟨dentry, lookup, tableOf_none.mp untyped⟩)
    · exact .inr (.inr full)
  · obtain ⟨unused, least⟩ := firstUnused_some free
    have positive : (fd.val : Int) ≠ -1 := by omega
    refine ⟨fd.val, _, opened, ⟨fun failed => absurd failed positive, fun why => ?_⟩,
      fun failed => absurd failed positive, fun _ => ?_⟩
    · rcases why with missing | ⟨other, found, untyped⟩ | full
      · cases lookup.symm.trans missing
      · cases lookup.symm.trans found
        cases table.symm.trans (tableOf_none.mpr untyped)
      · exact absurd (full fd) unused
    · refine ⟨fd, dentry, rfl, valid.unused_ge_two unused, (valid.flags fd).resolve_right unused, least, lookup,
        ?_, ?_, ?_, fun other different => ?_⟩
      · rw [setFd_fdArr, Function.update_self, openedFd]
      · rw [setFd_fdArr, Function.update_self, openedFd]
      · rw [setFd_fdArr, Function.update_self, openedFd, table]
      · rw [setFd_fdArr, Function.update_of_ne different, frame.pcbs]

theorem TableValid.closes (valid : TableValid (k.pcbs p).fdArr) (caller : callerPcb k = .ok (some p)) (fd : Int) :
    ∃ ret after, sysClose k fd = .ok (ret, after) ∧ Closes p k fd ret after := by
  rcases sysClose_cases valid caller fd with ⟨failed, why⟩ | ⟨entry, same, high, used, closed⟩
  · refine ⟨-1, k, failed, ⟨fun zero => by simp at zero, fun ⟨entry, same, high, used⟩ => ?_⟩,
      fun zero => by simp at zero, fun _ => ⟨rfl, rfl⟩, fun _ _ => rfl⟩
    exact absurd used (why entry same high)
  · refine ⟨0, _, closed, ⟨fun _ => ⟨entry, same, high, used⟩, fun _ => rfl⟩, fun _ other equal => ?_,
      fun nonzero => absurd rfl nonzero, fun other different => ?_⟩
    · obtain rfl : other = entry := Fin.ext (by omega)
      rw [setFd_fdArr, Function.update_self]
    · rw [setFd_fdArr, Function.update_of_ne]
      rintro rfl
      exact different same

theorem TableValid.law (valid : TableValid (k.pcbs p).fdArr) : DescriptorLaw env p k where
  stdin := valid.stdin
  stdout := valid.stdout
  opens caller filename := valid.opens caller filename
  closes caller fd := valid.closes caller fd
  unopened caller fd unopened :=
    ⟨fun mem buf nbytes cpu => OneMemory.sysRead_unopened mem buf nbytes cpu caller unopened,
      fun _ _ _ => sysWrite_unopened caller unopened⟩
  reads caller fd mem buf nbytes cpu result called kept other different :=
    sysRead_spared_moves caller called kept different
  writes caller fd mem buf nbytes result called := by rw [(sysWrite_frame called).pcbs]

theorem execute_fdArr {before : Kernel} {command : Memory} {cpu : Cpu} {entryPt : Nat}
    (slot : freeSlot before = some p) (launched : execute env before command cpu = .ok (.launched entryPt k)) :
    ∃ old parsed, parseCommand command = .ok parsed ∧ (k.pcbs p).fdArr = newFdArr old parsed := by
  rcases execute_cases launched with
    returned | ⟨message, returned⟩ | ⟨q, linked, userPages, free, -, returned | ⟨entryPt, parsed, parses, created⟩⟩
  · cases returned
  · cases returned
  · cases returned
  · cases slot.symm.trans free
    cases created
    exact ⟨(linked.pcbs p).fdArr, parsed, parses, by simp [newPcb]⟩

theorem descriptor_law (env : Env) (before created last : Kernel) (command : Memory) (cpu : Cpu) (entryPt : Nat)
    (p : Slot) (events : List FdEvent) (slot : freeSlot before = some p)
    (launched : execute env before command cpu = .ok (.launched entryPt created))
    (run : Run (OneMemory.SparingFdSteps env p) created events last) :
    (∀ fd : Fin 8, ((created.pcbs p).fdArr fd).inUseFlag = if fd.val < 2 then 1 else 0) ∧
      DescriptorLaw env p last := by
  obtain ⟨old, parsed, -, fresh⟩ := execute_fdArr slot launched
  obtain ⟨_, run⟩ := run.relabel fun sparing => ⟨_, sparing.steps⟩
  refine ⟨fun fd => by rw [fresh, newFdArr_flags], ?_⟩
  refine TableValid.law (Run.invariant (fun state => TableValid (state.pcbs p).fdArr) run
    (fun step valid => fdSteps_valid step valid) ?_)
  simp only [fresh]
  exact newFdArr_valid old parsed

def readingShell : Kernel := stateAfter shellEnv baseShell [.open shellCommand]

theorem baseShell_descriptor_law :
    ∃ last, Run (OneMemory.SparingFdSteps shellEnv 0) baseShell
      [.open shellCommand, .read 2 (fun _ => 0) 0x8048100 4 .reset] last ∧ DescriptorLaw shellEnv 0 last := by
  have opened : OneMemory.SparingFdSteps shellEnv 0 baseShell (.open shellCommand) readingShell :=
    ⟨.open rfl rfl, trivial⟩
  have reads : Reads readingShell 2 0x8048100 4 0 2 .file := ⟨rfl, by decide, rfl, by decide, rfl⟩
  have image : shellEnv.image = shellImage := rfl
  have read := sysRead_shell_sparing (fun _ => 0) .reset image reads rfl rfl (by decide) (by decide)
    (.inr (by decide))
  have run : Run (OneMemory.SparingFdSteps shellEnv 0) baseShell
      [.open shellCommand, .read 2 (fun _ => 0) 0x8048100 4 .reset] _ :=
    .cons opened (.cons ⟨⟨rfl, read.1⟩, read.2⟩ .nil)
  exact ⟨_, run, (descriptor_law shellEnv (multiTermInit .loaded) baseShell _ shellCommand .reset 0x8048018 0
    _ rfl rfl run).2⟩

def openedShell : Kernel := stateAfter tableEnv baseTable [.open shellCommand]

/-- The shell reads a byte into its own descriptor 1, and the next `open` returns
that descriptor. -/
theorem readFlag_breaks_table : ¬∀ (env : Env) (before created last : Kernel) (command : Memory) (cpu : Cpu)
    (entryPt : Nat) (p : Slot) (events : List FdEvent), freeSlot before = some p →
    execute env before command cpu = .ok (.launched entryPt created) →
    Run (OneMemory.FdSteps env p) created events last →
    (∀ fd : Fin 8, ((created.pcbs p).fdArr fd).inUseFlag = if fd.val < 2 then 1 else 0) ∧
      DescriptorLaw env p last := by
  intro law
  have reads : Reads openedShell 2 flagAddr 1 0 2 .file := ⟨rfl, by decide, rfl, by decide, rfl⟩
  have called := sysRead_flag (fun _ => 0) .reset reads rfl rfl rfl (by decide)
  have run : Run (OneMemory.FdSteps tableEnv 0) baseTable
      [.open shellCommand, .read 2 (fun _ => 0) flagAddr 1 .reset] (flagRead openedShell (fun _ => 0) 0 2) :=
    .cons (show OneMemory.FdSteps tableEnv 0 baseTable (.open shellCommand) openedShell from .open rfl rfl)
      (.cons ⟨rfl, OneMemory.steps_read called⟩ .nil)
  have held := (law tableEnv (multiTermInit .loaded) baseTable _ shellCommand .reset 0x8048018 0 _ rfl rfl run).2
  obtain ⟨ret, after, opened, opens⟩ := held.opens rfl shellCommand
  have stdout : (sysOpen tableEnv (flagRead openedShell (fun _ => 0) 0 2) shellCommand).map Prod.fst = .ok 1 := by
    decide
  rw [opened] at stdout
  have one : ret = 1 := Except.ok.inj stdout
  obtain ⟨fd, -, same, high, -⟩ := opens.success (by omega)
  omega

end BozOS
