import BozOS.Processes.Table

namespace BozOS

open Data Lib FileSystem

/-! `execute`, `halt` and `task_switch` on the stacks of processes. -/

/-- The boot image the process table relies on: it has an executable "shell",
and a file whose header passes the checks of `execute` also loads. -/
structure Loadable (env : Env) : Prop where
  shell : ∀ stack, ∃ found, checkExecutable env.image shellCommand stack = some found
  loads : ∀ cmd1 stack dentry entryPt, checkExecutable env.image cmd1 stack = some (dentry, entryPt) →
    ∀ mem, (readData env.image dentry.inode 0 mem 0x8048000 0x400000).ret ≠ -1 ∧
      0x8048000 + (readData env.image dentry.inode 0 mem 0x8048000 0x400000).stored ≤ 0x8400000

theorem checkExecutable_found {image : Image} {cmd1 stack : Memory} {dentry : Dentry} {entryPt : Nat}
    (checked : checkExecutable image cmd1 stack = some (dentry, entryPt)) :
    readDentryByName image cmd1 = some dentry := by
  unfold checkExecutable at checked
  split at checked
  · cases checked
  · rename_i named
    simp only [Option.ite_none_left_eq_some, Option.some.injEq, Prod.mk.injEq] at checked
    rw [named, checked.2.2.2.2.2.2.1]

/-- One executable of 28 bytes, named "shell", behind inode 0. -/
def shellImage : Image := Image.ofRuns [
  (0, [1, 0, 0, 0, 1, 0, 0, 0, 1]),
  (64, literal "shell"), (96, [2]),
  (4096, [28]),
  (8192, [0x7F, 0x45, 0x4C, 0x46]), (8216, [0x18, 0x80, 0x04, 0x08])]

def shellEnv : Env := ⟨shellImage, fun _ => 0, 0⟩

def baseShell : Kernel := stateAfter shellEnv (multiTermInit .loaded) [.execute shellCommand .reset]

theorem shellImage_read (mem : Memory) {buf length : Nat} (target : buf ≠ 0) (asked : 0 < length)
    (word : length < 4294967296) :
    Copied shellImage 0 0 buf mem 0 (min length 28) (min length 28) (readData shellImage 0 0 mem buf length) := by
  have size : shellImage.length 0 = 28 := by decide
  have copied : Copied shellImage 0 0 buf mem 0 _ _ (readData shellImage 0 0 mem buf length) :=
    readData_firstBlock (by decide) target (by decide) (by decide) (by decide) asked word
  rwa [size] at copied

theorem shellImage_ret {mem : Memory} {buf length : Nat} (target : buf ≠ 0) (asked : 0 < length)
    (word : length < 4294967296) : (readData shellImage 0 0 mem buf length).ret = min length 28 := by
  rcases (shellImage_read mem target asked word).outcome with ⟨returned, -⟩ | ⟨-, short, -⟩
  · simpa using returned
  · exact absurd short (lt_irrefl _)

theorem shellImage_load (mem : Memory) :
    (readData shellImage 0 0 mem 0x8048000 0x400000).ret = 28 ∧
      (readData shellImage 0 0 mem 0x8048000 0x400000).stored = 28 :=
  ⟨shellImage_ret (by decide) (by decide) (by decide), (shellImage_read mem (by decide) (by decide) (by decide)).extent⟩

theorem shellEnv_loadable : Loadable shellEnv where
  shell _ := ⟨_, rfl⟩
  loads cmd1 stack dentry entryPt checked mem := by
    obtain ⟨-, i, bound, rfl, -⟩ := readDentryByName_some.mp (checkExecutable_found checked)
    have inodes : ∀ i < 62, (shellImage.dentries i).inode = 0 := by decide
    rw [show shellEnv.image = shellImage from rfl, inodes i bound, (shellImage_load mem).1,
      (shellImage_load mem).2]
    decide

variable {env : Env} {k middle after : Kernel} {pool pool' : Stacks TermId Slot} {t : TermId} {p q : Slot}
  {command : Memory} {cpu : Cpu}

@[simp] theorem mapUserPage_page {page : Nat} : (mapUserPage k page).pageDirectory 32 = page ||| 0x87 := by
  simp [mapUserPage]

/-- The PCBs on the lists keep every field but the link to their child. -/
def KeepsListed (pool : Stacks TermId Slot) (before after : Kernel) : Prop :=
  ∀ q, pool.Listed q → after.pcbs q = { before.pcbs q with childPcb := after.child q }

/-- A launched process: on top of the running task's stack, with all that
belongs to the process already set. -/
structure Launched (pool : Stacks TermId Slot) (p : Slot) (fresh : ¬pool.Listed p)
    (before after : Kernel) : Prop where
  represents : Represents after (pool.push before.activeTask p fresh)
  kept : KeepsListed pool before after
  inner : ∀ q, q ≠ p → pool.top before.activeTask ≠ some q → after.pcbs q = before.pcbs q
  task : after.activeTask = before.activeTask
  created : ∃ parsed cpu, after.pcbs p = newPcb (before.pcbs p) p parsed cpu

/-- What steps 4 to 6 of `execute` do when the program loads, field by field. -/
structure Entered (p : Slot) (parsed : Parsed) (cpu : Cpu) (before after : Kernel) : Prop where
  created : after.pcbs p = newPcb (before.pcbs p) p parsed cpu
  untouched : ∀ q, q ≠ p → after.pcbs q = before.pcbs q
  usage : after.processUsage = before.processUsage
  terminals : after.terminalTable = before.terminalTable
  task : after.activeTask = before.activeTask
  page : after.pageDirectory 32 = userPage p ||| 0x87
  esp0 : after.tssEsp0 = kernelStack p

theorem loadAndLaunch_entered {dentry : Dentry} {entryPt : Nat} {parsed : Parsed}
    (loads : ∀ mem, (readData env.image dentry.inode 0 mem 0x8048000 0x400000).ret ≠ -1 ∧
      0x8048000 + (readData env.image dentry.inode 0 mem 0x8048000 0x400000).stored ≤ 0x8400000) :
    ∃ after, loadAndLaunch env k p dentry entryPt parsed cpu = .ok (.launched entryPt after) ∧
      Entered p parsed cpu k after := by
  obtain ⟨succeeds, fits⟩ := loads (k.userPages p)
  have mapped : (mapUserPage k (userPage p)).userPages p = k.userPages p := rfl
  simp only [loadAndLaunch, mapped, if_neg (Nat.not_lt.mpr fits), if_neg succeeds]
  exact ⟨_, rfl, Function.update_self .., fun q different => Function.update_of_ne different .., rfl, rfl, rfl,
    (mapUserPage_page : (mapUserPage k (userPage p)).pageDirectory 32 = _), rfl⟩

theorem Entered.child {parsed : Parsed} (entered : Entered p parsed cpu k after) (q : Slot) :
    after.child q = k.child q := by
  by_cases same : q = p
  · subst same
    rw [Kernel.child, entered.created]
    rfl
  · rw [Kernel.child, entered.untouched q same, Kernel.child]

theorem Entered.launched {parsed : Parsed} (entered : Entered p parsed cpu middle after)
    (represents : Represents k pool) {fresh : ¬pool.Listed p}
    (linked : Linked pool k.activeTask p fresh k middle) : Launched pool p fresh k after := by
  have task : after.activeTask = k.activeTask := entered.task.trans linked.task
  have created : after.pcbs p = newPcb (k.pcbs p) p parsed cpu := by rw [entered.created, linked.free p fresh]
  have kept : KeepsListed pool k after := by
    intro q listed
    obtain ⟨child, link⟩ := linked.links q
    have different : q ≠ p := fun same => fresh (same ▸ listed)
    have same : after.pcbs q = { k.pcbs q with childPcb := child } :=
      (entered.untouched q different).trans link
    rw [Kernel.child, same]
  refine ⟨⟨fun u => ?_, fun q => ?_, fun q free => ?_, fun q listed => ?_, fun q topmost => ?_⟩,
    kept, fun q different inner => ?_, task, parsed, cpu, created⟩
  · rw [entered.terminals]
    exact (linked.lists u).congr fun node _ => entered.child node
  · rw [entered.usage, linked.usage, Stacks.listed_push]
    by_cases same : q = p
    · subst same
      simp
    · rw [Function.update_of_ne same, represents.usage q]
      simp [same]
  · rw [Stacks.listed_push, not_or] at free
    rw [entered.child q, Kernel.child, linked.free q free.2]
    exact represents.unlinked q free.2
  · rw [Stacks.listed_push] at listed
    rcases listed with rfl | listed
    · rw [created]
      exact ⟨rfl, rfl, rfl⟩
    · rw [kept q listed]
      exact represents.identity q listed
  · rw [Stacks.top, task, Stacks.stack_push_self, List.getLast?_concat] at topmost
    cases topmost
    exact ⟨entered.page, entered.esp0⟩
  · rw [entered.untouched q different, linked.inner q inner]

/-- Every way `execute` can end on a well-formed process table. -/
theorem execute_ends (represents : Represents k pool) (loadable : Loadable env) {parsed : Parsed}
    (parses : parseCommand command = .ok parsed) :
    (∃ ret after, execute env k command cpu = .ok (.returned ret after) ∧ ProcessFrame k after ∧
      (checkExecutable env.image parsed.cmd1 cpu.stack = none ∨ ∀ p, pool.Listed p)) ∨
    (∃ p fresh entryPt after, execute env k command cpu = .ok (.launched entryPt after) ∧
      Launched pool p fresh k after) := by
  rw [execute, parses]
  simp only [bind, Except.bind]
  cases checked : checkExecutable env.image parsed.cmd1 cpu.stack with
  | none => exact .inl ⟨-1, k, rfl, .refl, .inl rfl⟩
  | some found =>
      obtain ⟨dentry, entryPt⟩ := found
      simp only
      cases free : freeSlot k with
      | none =>
          simp only [addPCB, free]
          exact .inl ⟨256, _, rfl, puts_screenFrame.process, .inr (represents.freeSlot_none.mp free)⟩
      | some p =>
          obtain ⟨middle, added, linked⟩ := addPCB_linked represents free k.activeTask
          simp only [added]
          obtain ⟨after, launched, entered⟩ :=
            loadAndLaunch_entered (loadable.loads parsed.cmd1 cpu.stack dentry entryPt checked)
          exact .inr ⟨p, represents.freeSlot_some free, entryPt, after, launched, entered.launched represents linked⟩

theorem parseCommand_shell : ∃ parsed, parseCommand shellCommand = .ok parsed ∧ parsed.cmd1 = shellCommand := by
  have inside : ∀ index < 5, strncpy (fun _ => 0) 0 shellCommand 5 index = shellCommand index := by decide
  have five : (literal "shell").length = 5 := by decide
  refine ⟨_, rfl, ?_⟩
  funext index
  show strncpy (fun _ => 0) 0 shellCommand 5 index = shellCommand index
  by_cases bound : index < 5
  · exact inside index bound
  · have beyond : (literal "shell").length ≤ index := by omega
    rw [strncpy_outside (Or.inr (by omega))]
    simp [shellCommand, List.getElem?_eq_none beyond]

theorem execute_shell (represents : Represents k pool) (loadable : Loadable env) (cpu : Cpu) :
    (∃ ret after, execute env k shellCommand cpu = .ok (.returned ret after) ∧ ProcessFrame k after ∧
      ∀ p, pool.Listed p) ∨
    (∃ p fresh entryPt after, execute env k shellCommand cpu = .ok (.launched entryPt after) ∧
      Launched pool p fresh k after) := by
  obtain ⟨parsed, parses, word⟩ := parseCommand_shell
  rcases execute_ends represents loadable parses with ⟨ret, after, ended, frame, refused | full⟩ | launched
  · obtain ⟨found, checked⟩ := loadable.shell cpu.stack
    rw [word, checked] at refused
    cases refused
  · exact .inl ⟨ret, after, ended, frame, full⟩
  · exact .inr launched

section Exit

variable {self parent : Slot} {status : Nat}

/-- The kernel after `unset_process_usage` of a listed process. -/
def Kernel.release (k : Kernel) (self : Slot) : Kernel :=
  { k with processUsage := Function.update k.processUsage self .notUsed }

/-- A process that has ended: off its stack, its parent unlinked from it and
mapped again. -/
structure Exited (pool : Stacks TermId Slot) (ended : Slot) (before after : Kernel) : Prop where
  represents : Represents after (pool.pop before.activeTask)
  kept : ∀ q, q ≠ ended → after.pcbs q = { before.pcbs q with childPcb := after.child q }
  task : after.activeTask = before.activeTask

theorem unsetProcessUsage_own (own : (k.pcbs self).pid = self.val) :
    unsetProcessUsage k (k.pcbs self).pid = .ok (k.release self) := by
  have bound := self.isLt
  rw [unsetProcessUsage, own, if_neg (by omega), dif_pos bound, Kernel.release]

theorem usage_pop (represents : Represents k pool) {front : List Slot}
    (stacked : pool.stack t = front ++ [self]) (q : Slot) :
    Function.update k.processUsage self .notUsed q = .inUse ↔ (pool.pop t).Listed q := by
  rw [Stacks.listed_pop stacked]
  by_cases same : q = self
  · subst same
    simp
  · rw [Function.update_of_ne same, represents.usage q]
    simp [same]

theorem unlinked_pop (represents : Represents k pool) {front : List Slot}
    (stacked : pool.stack t = front ++ [self]) (free : ¬(pool.pop t).Listed q) : k.child q = none := by
  rw [Stacks.listed_pop stacked, not_and] at free
  by_cases same : q = self
  · subst same
    exact (stacked ▸ represents.lists t).next_last
  · exact represents.unlinked q (free same)

/-- What `halt` does once it has found the parent, field by field. -/
structure Detached (parent ended : Slot) (before after : Kernel) : Prop where
  cut : after.child parent = none
  links : ∀ q, q ≠ parent → after.child q = before.child q
  kept : ∀ q, q ≠ ended → after.pcbs q = { before.pcbs q with childPcb := after.child q }
  usage : after.processUsage = Function.update before.processUsage ended .notUsed
  terminals : after.terminalTable = before.terminalTable
  task : after.activeTask = before.activeTask
  page : after.pageDirectory 32 = (before.pcbs parent).selfPage ||| 0x87
  esp0 : after.tssEsp0 = (before.pcbs parent).selfKStack

theorem returnToParent_detached {head : Option Slot} (apart : parent ≠ self)
    (found : predecessorFrom k.child self 6 head = some (some parent)) :
    ∃ esp ebp after, returnToParent (k.release self) head self status = .ok (.resumed status esp ebp after) ∧
      Detached parent self k after := by
  have found' : predecessorFrom (k.release self).child self 6 head = some (some parent) := found
  simp only [returnToParent, found']
  refine ⟨_, _, _, rfl, ?_⟩
  generalize made : ({ (Kernel.setPcb _ self _) with tssEsp0 := _ } : Kernel) = after
  have parentPcb : after.pcbs parent = { k.pcbs parent with childPcb := none } := by
    subst made
    exact (Function.update_of_ne apart ..).trans (Function.update_self ..)
  have selfChild : after.child self = k.child self := by
    subst made
    simp [Kernel.child, mapUserPage, Kernel.setPcb_other apart.symm, Kernel.release]
  have others : ∀ q, q ≠ self → q ≠ parent → after.pcbs q = k.pcbs q := by
    intro q notSelf notParent
    subst made
    exact (Function.update_of_ne notSelf ..).trans (Function.update_of_ne notParent ..)
  have sameChild : ∀ q, q ≠ parent → after.child q = k.child q := by
    intro q notParent
    by_cases same : q = self
    · rw [same, selfChild]
    · rw [Kernel.child, others q same notParent, Kernel.child]
  refine ⟨by rw [Kernel.child, parentPcb], sameChild, fun q notSelf => ?_, by subst made; rfl, by subst made; rfl,
    by subst made; rfl, ?_, ?_⟩
  · by_cases same : q = parent
    · subst same
      rw [Kernel.child, parentPcb]
    · rw [sameChild q same, others q notSelf same, Kernel.child]
  · subst made
    simp [Kernel.setPcb, mapUserPage, Kernel.release]
  · have restored : after.tssEsp0 = (after.pcbs parent).selfKStack := by subst made; rfl
    rw [restored, parentPcb]

theorem Detached.exited (detached : Detached parent self k after) (represents : Represents k pool)
    {front : List Slot} (stacked : pool.stack k.activeTask = (front ++ [parent]) ++ [self]) :
    Exited pool self k after := by
  have once := pool.nodup k.activeTask
  rw [stacked, List.nodup_append, List.nodup_append] at once
  have apart : parent ≠ self := once.2.2 parent (by simp) self (by simp)
  have parentListed : pool.Listed parent := ⟨k.activeTask, by rw [stacked]; simp⟩
  obtain ⟨-, parentPage, parentStack⟩ := represents.identity parent parentListed
  refine ⟨⟨fun u => ?_, fun q => ?_, fun q free => ?_, fun q listed => ?_, fun q topmost => ?_⟩,
    detached.kept, detached.task⟩
  · rw [detached.terminals]
    by_cases same : u = k.activeTask
    · subst same
      rw [Stacks.stack_pop_self, stacked, List.dropLast_concat]
      have chain := represents.lists k.activeTask
      rw [stacked, List.append_assoc] at chain
      exact chain.cut detached.cut fun node member => detached.links node (once.1.2.2 node member parent (by simp))
    · rw [Stacks.stack_pop_other same]
      refine (represents.lists u).congr fun node member => detached.links node ?_
      rintro rfl
      exact same (pool.disjoint member (by rw [stacked]; simp))
  · rw [detached.usage]
    exact usage_pop represents stacked q
  · rw [detached.links q fun same => free ((Stacks.listed_pop stacked).mpr ⟨same ▸ apart, same ▸ parentListed⟩)]
    exact unlinked_pop represents stacked free
  · obtain ⟨notSelf, listed⟩ := (Stacks.listed_pop stacked).mp listed
    rw [detached.kept q notSelf]
    exact represents.identity q listed
  · rw [detached.task, Stacks.top, Stacks.stack_pop_self, stacked, List.dropLast_concat,
      List.getLast?_concat] at topmost
    cases topmost
    exact ⟨by rw [detached.page, parentPage], by rw [detached.esp0, parentStack]⟩

theorem returnToParent_exited (represents : Represents k pool) {front : List Slot}
    (stacked : pool.stack k.activeTask = front ++ [parent, self]) :
    ∃ esp ebp after,
      returnToParent (k.release self) (k.terminalTable k.activeTask).pcbHead self status =
        .ok (.resumed status esp ebp after) ∧
      Exited pool self k after := by
  have chain := represents.lists k.activeTask
  have bound := stack_length_le pool k.activeTask
  have once := pool.nodup k.activeTask
  rw [stacked] at chain bound once
  have enough : front.length < 6 := by simp at bound; omega
  have apart : parent ≠ self := by simpa using once.sublist (List.sublist_append_right front [parent, self])
  obtain ⟨esp, ebp, after, returned, detached⟩ :=
    returnToParent_detached apart (predecessorFrom_chain chain enough)
  have stacked' : pool.stack k.activeTask = (front ++ [parent]) ++ [self] := by rw [stacked]; simp
  exact ⟨esp, ebp, after, returned, detached.exited represents stacked'⟩

theorem reset_represents (represents : Represents k pool) (stacked : pool.stack k.activeTask = [self]) :
    Represents (resetPcbHead (k.release self) k.activeTask) (pool.pop k.activeTask) := by
  have stacked' : pool.stack k.activeTask = [] ++ [self] := stacked
  have nothing : (pool.pop k.activeTask).top k.activeTask = none := by
    rw [Stacks.top, Stacks.stack_pop_self, stacked]
    rfl
  refine ⟨fun u => ?_, fun q => usage_pop represents stacked' q, fun q free => ?_,
    fun q listed => represents.identity q ((Stacks.listed_pop stacked').mp listed).2,
    fun q topmost => absurd (nothing.symm.trans topmost) (by simp)⟩
  · by_cases same : u = k.activeTask
    · subst same
      rw [Stacks.stack_pop_self, stacked, resetPcbHead, Kernel.setTerm_same]
      exact .nil
    · rw [Stacks.stack_pop_other same, resetPcbHead, Kernel.setTerm_other same]
      exact represents.lists u
  · have ended : k.child q = none := unlinked_pop represents stacked' free
    exact ended

/-- Every way `halt` can end: the parent is resumed, or the base shell is
started again in a free slot. -/
theorem halt_ends (represents : Represents k pool) (loadable : Loadable env)
    (topmost : pool.top k.activeTask = some self) :
    (∃ front parent ret esp ebp after, pool.stack k.activeTask = front ++ [parent, self] ∧
      halt env k status cpu = .ok (.resumed ret esp ebp after) ∧ Exited pool self k after) ∨
    (pool.stack k.activeTask = [self] ∧ ∃ p fresh entryPt after,
      halt env k status cpu = .ok (.restarted entryPt after) ∧
      Launched (pool.pop k.activeTask) p fresh (resetPcbHead (k.release self) k.activeTask) after) := by
  obtain ⟨front, stacked⟩ := List.getLast?_eq_some_iff.mp topmost
  have headed := (represents.lists k.activeTask).head_eq
  rw [stacked] at headed
  have listed := Stacks.listed_of_top topmost
  have once := pool.nodup k.activeTask
  rw [stacked, List.nodup_append] at once
  simp only [halt, represents.getPCBTail_eq, topmost, unsetProcessUsage_own (represents.identity self listed).1, bind,
    Except.bind]
  cases split : front.reverse with
  | nil =>
      rw [List.reverse_eq_nil_iff] at split
      subst split
      have alone : pool.stack k.activeTask = [self] := stacked
      simp only [show (k.terminalTable k.activeTask).pcbHead = some self from headed, if_true]
      have sameTask : (k.release self).activeTask = k.activeTask := rfl
      rw [sameTask]
      rcases execute_shell (reset_represents represents alone) loadable cpu with
        ⟨ret, after, -, -, full⟩ | ⟨p, fresh, entryPt, after, launched, effect⟩
      · exact absurd (full self) fun still => ((Stacks.listed_pop stacked).mp still).1 rfl
      · rw [launched]
        exact .inr ⟨alone, p, fresh, entryPt, after, rfl, effect⟩
  | cons parent rest =>
      have fronted : front = rest.reverse ++ [parent] := by
        rw [← List.reverse_reverse front, split, List.reverse_cons]
      have paired : pool.stack k.activeTask = rest.reverse ++ [parent, self] := by
        rw [stacked, fronted]
        simp
      have notBase : (k.terminalTable k.activeTask).pcbHead ≠ some self := by
        rw [headed, fronted]
        intro same
        have first : (rest.reverse ++ [parent]).head? = some self := by
          rw [← same]
          cases rest.reverse <;> rfl
        exact once.2.2 self (fronted ▸ List.mem_of_mem_head? first) self (by simp) rfl
      rw [if_neg notBase]
      obtain ⟨esp, ebp, after, returned, effect⟩ := returnToParent_exited represents paired
      exact .inl ⟨rest.reverse, parent, _, esp, ebp, after, paired, returned, effect⟩

end Exit

section Switch

variable {outgoing : Slot}

theorem saveSwitch_child : (saveSwitch k outgoing cpu).child q = k.child q := by
  by_cases same : q = outgoing
  · subst same
    simp [Kernel.child, saveSwitch]
  · rw [Kernel.child, saveSwitch, Kernel.setPcb_other same, Kernel.child]

theorem saveSwitch_other (different : q ≠ outgoing) : (saveSwitch k outgoing cpu).pcbs q = k.pcbs q :=
  Kernel.setPcb_other different

theorem Represents.saveSwitch (represents : Represents k pool) :
    Represents (saveSwitch k outgoing cpu) pool where
  lists u := (represents.lists u).congr fun node _ => saveSwitch_child
  usage := represents.usage
  unlinked q free := saveSwitch_child.trans (represents.unlinked q free)
  identity q listed := by
    have before := represents.identity q listed
    by_cases same : q = outgoing
    · subst same
      simpa [BozOS.saveSwitch] using before
    · rwa [saveSwitch_other same]
  running := represents.running

theorem succ_ne (t : TermId) : t + 1 ≠ t := by
  revert t
  decide

theorem setActiveTask_eq : setActiveTask k t.val = { k with activeTask := t } := by
  simp [setActiveTask, t.isLt]

/-- Every way `task_switch` can end on a well-formed process table. Only the
outgoing process's PCB has changed when no new process was started. -/
theorem taskSwitch_ends (represents : Represents k pool) (loadable : Loadable env) (cpu : Cpu) :
    (pool.top k.activeTask = none ∧ taskSwitch env k cpu = .ok (.idle k)) ∨
    ∃ outgoing, pool.top k.activeTask = some outgoing ∧
      ((∃ incoming after, pool.top (k.activeTask + 1) = some incoming ∧ taskSwitch env k cpu =
          .ok (.resumed (k.pcbs incoming).espSwitch (k.pcbs incoming).ebpSwitch after) ∧ Represents after pool ∧
        after.activeTask = k.activeTask + 1 ∧ after.pcbs = (saveSwitch k outgoing cpu).pcbs) ∨
      (∃ after, pool.top (k.activeTask + 1) = none ∧ taskSwitch env k cpu = .ok (.launchFailed after) ∧
        (∀ p, pool.Listed p) ∧ Represents after pool ∧ after.activeTask = k.activeTask + 1 ∧
        after.pcbs = (saveSwitch k outgoing cpu).pcbs) ∨
      (∃ p fresh entryPt after, pool.top (k.activeTask + 1) = none ∧
        taskSwitch env k cpu = .ok (.launched entryPt after) ∧
        Launched pool p fresh (saveSwitch { k with activeTask := k.activeTask + 1 } outgoing cpu) after)) := by
  unfold taskSwitch
  simp only [represents.getPCBTail_eq, bind, Except.bind]
  cases topmost : pool.top k.activeTask with
  | none => exact .inl ⟨rfl, rfl⟩
  | some outgoing =>
      refine .inr ⟨outgoing, rfl, ?_⟩
      simp only [setActiveTask_eq]
      cases incomingTop : pool.top (k.activeTask + 1) with
      | none =>
          have moved : Represents (saveSwitch { k with activeTask := k.activeTask + 1 } outgoing cpu) pool :=
            Represents.saveSwitch ⟨represents.lists, represents.usage, represents.unlinked,
              represents.identity, fun p found => absurd (incomingTop.symm.trans found) (by simp)⟩
          simp only
          rcases execute_shell moved loadable cpu with
            ⟨ret, after, returned, frame, full⟩ | ⟨p, fresh, entryPt, after, launched, effect⟩
          · rw [returned]
            exact .inr (.inl ⟨after, trivial, rfl, full, moved.processFrame frame, frame.task, frame.pcbs⟩)
          · rw [launched]
            exact .inr (.inr ⟨p, fresh, entryPt, after, trivial, rfl, effect⟩)
      | some incoming =>
          have apart : incoming ≠ outgoing := by
            rintro rfl
            have same := pool.disjoint (List.mem_of_getLast? incomingTop) (List.mem_of_getLast? topmost)
            exact absurd same (succ_ne k.activeTask)
          have loaded : (saveSwitch k outgoing cpu).pcbs incoming = k.pcbs incoming := saveSwitch_other apart
          refine .inl ⟨incoming, ?_⟩
          rw [← loaded]
          refine ⟨_, rfl, rfl, ?_, rfl, rfl⟩
          obtain ⟨-, page, kStack⟩ := represents.identity incoming (Stacks.listed_of_top incomingTop)
          refine Represents.saveSwitch ⟨represents.lists, represents.usage, represents.unlinked,
            represents.identity, fun p found => ?_⟩
          obtain rfl : incoming = p := Option.some.inj (incomingTop.symm.trans found)
          exact ⟨by rw [mapUserPage_page, page], kStack⟩

end Switch

end BozOS
