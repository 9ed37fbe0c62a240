import BozOS.Descriptors.Law
import BozOS.Processes.Command

namespace BozOS

open Data Lib FileSystem

/-! The argument of a command, from `execute` to the `getargs` of the program it
starts. It travels in `fd_arr[0].arg`, which lies in the middle of the PCB. -/

variable {env : Env} {k after : Kernel} {p : Slot} {pcb : Pcb} {mem command : Memory} {buf : Nat} {nbytes : Int}
  {word s : List UInt8}

section Layout

theorem fromArg_arg {i : Nat} (inside : i < 128) : pcb.fromArg env i = (pcb.fdArr 0).arg i := by
  have quotient : (17 + i - 4) / 144 = 0 := by omega
  have remainder : (17 + i - 4) % 144 = 13 + i := by omega
  have first : (⟨(17 + i - 4) / 144, by omega⟩ : Fin 8) = 0 := Fin.ext quotient
  rw [Pcb.fromArg, Pcb.byte, if_neg (by omega), if_neg (by omega), dif_pos (by omega), first, remainder, Fd.byte,
    if_neg (by omega), if_neg (by omega), if_neg (by omega), if_neg (by omega), if_pos (by omega),
    Nat.add_sub_cancel_left]

/-- The first byte behind the array is the flag of the same descriptor. -/
theorem fromArg_behind : pcb.fromArg env 128 = UInt8.ofNat (pcb.fdArr 0).textFileFlag := rfl

theorem fromArg_spelt (env : Env) (argument : Spelt (pcb.fdArr 0).arg 0 word) (short : word.length < 128) :
    Spelt (pcb.fromArg env) 0 word := by
  refine .of_bytes (fun i inside => ?_) argument.nonzero ?_
  · rw [Nat.zero_add, fromArg_arg (by omega)]
    simpa only [Nat.zero_add] using argument.at_index inside
  · rw [Nat.zero_add, fromArg_arg short]
    simpa only [Nat.zero_add] using argument.terminated

end Layout

/-- `getargs` for a process whose argument is a string in its array. -/
theorem getargs_eq (caller : callerPcb k = .ok (some p)) (argument : Spelt ((k.pcbs p).fdArr 0).arg 0 word)
    (short : word.length < 128) :
    getargs env k mem buf nbytes = if word = [] then .ok (-1, mem)
      else .ok (0, (mem.fill buf 0 1024).blit buf ((k.pcbs p).fromArg env) (u32 nbytes)) := by
  have spelt := fromArg_spelt env argument short
  have whole : text ((k.pcbs p).fromArg env) addressSpace = word := by
    simpa only [Nat.zero_add] using spelt.text_eq (show word.length ≤ addressSpace by unfold addressSpace; omega)
  have empty : strlen ((k.pcbs p).fromArg env) addressSpace = 0 ↔ word = [] := by rw [← text_nil, whole]
  simp only [getargs, caller, bind, Except.bind, empty]
  split <;> rfl

/-- The process's argument array holds the string, and NULs behind it. -/
structure HoldsArgument (word : List UInt8) (pcb : Pcb) : Prop where
  bytes : ∀ i < 128, (pcb.fdArr 0).arg i = word.getD i 0

theorem HoldsArgument.spelt (holds : HoldsArgument word pcb) (plain : ∀ c ∈ word, c ≠ 0) (short : word.length < 128) :
    Spelt (pcb.fdArr 0).arg 0 word := by
  refine .of_bytes (fun i inside => ?_) plain ?_
  · rw [Nat.zero_add, holds.bytes i (by omega), List.getD_eq_getElem?_getD, List.getElem?_eq_getElem inside,
      Option.getD_some]
  · rw [Nat.zero_add, holds.bytes _ short, List.getD_eq_getElem?_getD, List.getElem?_eq_none (Nat.le_refl _),
      Option.getD_none]

section Labels

/-- No descriptor call touches these two fields. -/
def SameLabels (before after : Fin 8 → Fd) : Prop :=
  ∀ fd, (after fd).arg = (before fd).arg ∧ (after fd).textFileFlag = (before fd).textFileFlag

variable {fdArr : Fin 8 → Fd} {fd : Fin 8} {entry : Fd}

theorem SameLabels.refl : SameLabels fdArr fdArr := fun _ => ⟨rfl, rfl⟩

theorem SameLabels.update (arg : entry.arg = (fdArr fd).arg) (flag : entry.textFileFlag = (fdArr fd).textFileFlag) :
    SameLabels fdArr (Function.update fdArr fd entry) := by
  intro other
  by_cases same : other = fd
  · subst same
    rw [Function.update_self]
    exact ⟨arg, flag⟩
  · rw [Function.update_of_ne same]
    exact ⟨rfl, rfl⟩

theorem fdSteps_labels {event : FdEvent} (step : FdSteps env p k event after)
    (valid : TableValid (k.pcbs p).fdArr) : SameLabels (k.pcbs p).fdArr (after.pcbs p).fdArr := by
  cases step with
  | «open» caller called =>
      rcases sysOpen_cases caller _ with ⟨failed, -⟩ | ⟨dentry, fotp, fd, inode, middle, -, -, -, frame, opened⟩
      · cases called.symm.trans failed
        exact .refl
      · cases called.symm.trans opened
        rw [setFd_fdArr, frame.pcbs]
        exact .update rfl rfl
  | close caller called =>
      rcases sysClose_cases valid caller _ with ⟨failed, -⟩ | ⟨fd, -, -, -, closed⟩
      · cases called.symm.trans failed
        exact .refl
      · cases called.symm.trans closed
        rw [setFd_fdArr]
        exact .update rfl rfl
  | read caller called =>
      rcases sysRead_moves caller called with same | ⟨fd, position, -, moved⟩
      · simp only at same
        rw [same]
        exact .refl
      · simp only at moved
        rw [moved]
        exact .update rfl rfl
  | write caller called =>
      have frame := sysWrite_frame called
      simp only at frame
      rw [frame.pcbs]
      exact .refl
  | others kept =>
      rw [kept]
      exact .refl

/-- What a process was started with stays in its table for its whole life. -/
theorem fdRun_labels {events : List FdEvent} (run : Run (FdSteps env p) k events after)
    (valid : TableValid (k.pcbs p).fdArr) : SameLabels (k.pcbs p).fdArr (after.pcbs p).fdArr := by
  refine (Run.invariant (fun state => TableValid (state.pcbs p).fdArr ∧
    SameLabels (k.pcbs p).fdArr (state.pcbs p).fdArr) run (fun step held => ?_) ⟨valid, .refl⟩).2
  refine ⟨fdSteps_valid step held.1, fun fd => ?_⟩
  have kept := fdSteps_labels step held.1 fd
  exact ⟨kept.1.trans (held.2 fd).1, kept.2.trans (held.2 fd).2⟩

end Labels

section Delivery

theorem secondWord_length_le (s : List UInt8) : (secondWord s).length ≤ s.length :=
  calc (secondWord s).length
      ≤ ((s.dropWhile fun c => !endsWord c).dropWhile (· = 0x20)).length := (List.takeWhile_prefix _).length_le
    _ ≤ (s.dropWhile fun c => !endsWord c).length := (List.dropWhile_suffix _).length_le
    _ ≤ s.length := (List.dropWhile_suffix _).length_le

theorem isTextFile_iff {cmd2 : Memory} (spelt : Spelt cmd2 0 word) (short : word.length < 128) :
    isTextFile cmd2 = true ↔ 4 < word.length ∧ literal ".txt" <:+ word := by
  have whole : text cmd2 128 = word := by
    simpa only [Nat.zero_add] using spelt.text_eq (show word.length ≤ 128 by omega)
  have length : strlen cmd2 128 = word.length := by
    rw [← whole, text, Memory.window_length]
  have suffix : text (fun index => (literal ".txt").getD index 0) 4 = literal ".txt" := by decide
  have four : (literal ".txt").length = 4 := by decide
  simp only [isTextFile, length, Bool.and_eq_true, decide_eq_true_eq, strncmp_eq_zero, suffix,
    List.suffix_iff_eq_drop, four, gt_iff_lt]
  refine and_congr_right fun long => ?_
  have behind := spelt.drop (show word.length - 4 ≤ word.length by omega)
  have tail := behind.text_eq (show (word.drop (word.length - 4)).length ≤ 4 by rw [List.length_drop]; omega)
  rw [Nat.zero_add] at tail
  rw [tail, eq_comm]

/-- The argument array of a new process. -/
theorem newFdArr_arg {old : Fin 8 → Fd} {parsed : Parsed} {i : Nat} (spelt : Spelt parsed.cmd2 0 word)
    (counted : parsed.argNbytes = word.length) (inside : i < 128) :
    (newFdArr old parsed 0).arg i = word.getD i 0 := by
  show strncpy ((clearedFd (old 0)).arg.fill 0 0 128) 0 parsed.cmd2 parsed.argNbytes i = _
  have bytes : ∀ (j : Nat) (bound : j < word.length), parsed.cmd2 j = word[j] := by
    intro j bound
    simpa only [Nat.zero_add] using spelt.at_index bound
  have length : strlen parsed.cmd2 word.length = word.length := by
    refine strlen_eq_limit fun j bound => ?_
    rw [bytes j bound]
    exact spelt.nonzero _ (List.getElem_mem bound)
  rw [counted, List.getD_eq_getElem?_getD]
  by_cases bound : i < word.length
  · have copied : strncpy ((clearedFd (old 0)).arg.fill 0 0 128) 0 parsed.cmd2 word.length (0 + i) = parsed.cmd2 i :=
      strncpy_inside (by omega)
    rw [Nat.zero_add] at copied
    rw [copied, bytes i bound, List.getElem?_eq_getElem bound, Option.getD_some]
  · rw [strncpy_outside (by omega), Memory.fill_at (Nat.zero_le i) (by omega), List.getElem?_eq_none (by omega),
      Option.getD_none]

/-- The name that step 2 of `execute` looks up. -/
def lookupName (command : Memory) : Except Stop Memory := (parseCommand command).map Parsed.cmd1

/-- `execute` looks the word up in the directory: a name that is not there makes
it return -1, and a program it enters is the one with that name. -/
structure LooksUp (env : Env) (k : Kernel) (command : Memory) (cpu : Cpu) (word : List UInt8) : Prop where
  name : ∃ name, lookupName command = .ok name ∧ Spelt name 0 word
  missing : ∀ name, lookupName command = .ok name → readDentryByName env.image name = none →
    execute env k command cpu = .ok (.returned (-1) k)
  found : ∀ name entryPt created, lookupName command = .ok name →
    execute env k command cpu = .ok (.launched entryPt created) →
    ∃ dentry, readDentryByName env.image name = some dentry ∧
      checkExecutable env.image name cpu.stack = some (dentry, entryPt)

/-- What a process can find out about the second word of its command. -/
structure Delivered (env : Env) (p : Slot) (word : List UInt8) (k : Kernel) : Prop where
  getargs : callerPcb k = .ok (some p) → ∀ mem buf nbytes, 128 ≤ nbytes → nbytes ≤ 1024 →
    ∃ ret stored, getargs env k mem buf nbytes = .ok (ret, stored) ∧ (ret = -1 ↔ word = []) ∧
      (word ≠ [] → ret = 0 ∧ Spelt stored buf word)
  textFile : ((k.pcbs p).fdArr 1).textFileFlag = 1 ↔ 4 < word.length ∧ literal ".txt" <:+ word

theorem execute_looksUp {cpu : Cpu} {parsed : Parsed} (parses : parseCommand command = .ok parsed)
    (first : Spelt parsed.cmd1 0 word) : LooksUp env k command cpu word where
  name := ⟨parsed.cmd1, by rw [lookupName, parses]; rfl, first⟩
  missing name named absent := by
    rw [lookupName, parses] at named
    cases named
    simp only [execute, parses, bind, Except.bind, checkExecutable, absent]
    rfl
  found name entryPt created named launched := by
    rw [lookupName, parses] at named
    cases named
    rw [execute, parses] at launched
    simp only [bind, Except.bind] at launched
    cases checked : checkExecutable env.image parsed.cmd1 cpu.stack with
    | none =>
        rw [checked] at launched
        cases launched
    | some found =>
        obtain ⟨dentry, start⟩ := found
        simp only [checked] at launched
        split at launched
        · cases launched
        split at launched
        · cases launched
        · simp only [loadAndLaunch] at launched
          split at launched
          · cases launched
          split at launched
          · cases launched
          · cases launched
            exact ⟨dentry, checkExecutable_found checked, rfl⟩

theorem delivered_of_argument (argument : Spelt ((k.pcbs p).fdArr 0).arg 0 word) (short : word.length < 128)
    (flag : ((k.pcbs p).fdArr 1).textFileFlag = 1 ↔ 4 < word.length ∧ literal ".txt" <:+ word) :
    Delivered env p word k where
  getargs caller mem buf nbytes lower upper := by
    have asked : 128 ≤ u32 nbytes := by rw [u32_of_range (by omega) (by omega)]; omega
    rw [getargs_eq caller argument short]
    by_cases empty : word = []
    · rw [if_pos empty]
      exact ⟨-1, mem, rfl, ⟨fun _ => empty, fun _ => rfl⟩, fun nonempty => absurd empty nonempty⟩
    · rw [if_neg empty]
      refine ⟨0, _, rfl, ⟨fun impossible => by simp at impossible, fun none => absurd none empty⟩, fun _ => ⟨rfl, ?_⟩⟩
      have spelt := fromArg_spelt env argument short
      refine .of_bytes (fun i inside => ?_) spelt.nonzero ?_
      · rw [Memory.blit_inside (by omega)]
        simpa only [Nat.zero_add] using spelt.at_index inside
      · rw [Memory.blit_inside (by omega)]
        simpa only [Nat.zero_add] using spelt.terminated
  textFile := flag

/-- The descriptors of a process that `execute` has started on a command. -/
theorem execute_words {before : Kernel} {cpu : Cpu} {entryPt : Nat} (spelt : Spelt command 0 s) (short : s.length ≤ 127)
    (slot : freeSlot before = some p) (launched : execute env before command cpu = .ok (.launched entryPt k)) :
    ∃ old parsed, (k.pcbs p).fdArr = newFdArr old parsed ∧ Spelt parsed.cmd2 0 (secondWord s) ∧
      HoldsArgument (secondWord s) (k.pcbs p) := by
  obtain ⟨parsed, parses, -, second, counted⟩ := parseCommand_words spelt short
  obtain ⟨old, other, parses', fresh⟩ := execute_fdArr slot launched
  cases parses.symm.trans parses'
  refine ⟨old, parsed, fresh, second, ⟨fun i inside => ?_⟩⟩
  rw [fresh, newFdArr_arg second counted inside]

theorem command_delivered (env : Env) (before : Kernel) (command : Memory) (s : List UInt8) (cpu : Cpu)
    (spelt : Spelt command 0 s) (short : s.length ≤ 127) :
    LooksUp env before command cpu (firstWord s) ∧
      ∀ (p : Slot) (entryPt : Nat) (created later : Kernel) (events : List FdEvent), freeSlot before = some p →
        execute env before command cpu = .ok (.launched entryPt created) →
        Run (FdSteps env p) created events later → Delivered env p (secondWord s) later := by
  obtain ⟨parsed, parses, first, -, -⟩ := parseCommand_words spelt short
  have bound : (secondWord s).length < 128 := Nat.lt_succ_of_le ((secondWord_length_le s).trans short)
  refine ⟨execute_looksUp parses first, fun p entryPt created later events slot launched run => ?_⟩
  obtain ⟨old, parsed, fresh, second, holds⟩ := execute_words spelt short slot launched
  have valid : TableValid (created.pcbs p).fdArr := by
    rw [fresh]
    exact newFdArr_valid old parsed
  have kept := fdRun_labels run valid
  have held : HoldsArgument (secondWord s) (later.pcbs p) := by
    refine ⟨fun i inside => ?_⟩
    rw [(kept 0).1, holds.bytes i inside]
  refine delivered_of_argument (held.spelt second.nonzero bound) bound ?_
  rw [(kept 1).2, fresh, ← isTextFile_iff second bound]
  simp only [newFdArr]
  split <;> simp_all

def textCommand : Memory := fun index => (literal "shell a.txt").getD index 0

theorem textCommand_spelt : Spelt textCommand 0 (literal "shell a.txt") := .of_list (nonzero_of_all (by decide))

def textShell : Kernel := stateAfter shellEnv (multiTermInit .loaded) [.execute textCommand .reset]

/-- The child of "shell a.txt" gets "a.txt" from `getargs`. -/
theorem textShell_delivered : ((textShell.pcbs 0).fdArr 1).textFileFlag = 1 ∧
    ∃ stored, getargs shellEnv textShell (fun _ => 1) 0x8050000 1024 = .ok (0, stored) ∧
      Spelt stored 0x8050000 (literal "a.txt") := by
  obtain ⟨-, delivered⟩ := command_delivered shellEnv (multiTermInit .loaded) textCommand (literal "shell a.txt") .reset
    textCommand_spelt (by decide)
  have second : secondWord (literal "shell a.txt") = literal "a.txt" := by decide
  rw [second] at delivered
  have child := delivered 0 0x8048018 textShell textShell [] rfl rfl .nil
  obtain ⟨ret, stored, called, -, contents⟩ := child.getargs rfl (fun _ => 1) 0x8050000 1024 (by decide) (by decide)
  obtain ⟨rfl, spelt⟩ := contents (by decide)
  exact ⟨child.textFile.mpr (by decide), stored, called, spelt⟩

end Delivery

section Leak

/-- A call of `getargs` tells the same in both kernels, and leaves the argument with
nothing but NULs behind it in the buffer. -/
def SameAnswer (env : Env) (word : List UInt8) (nbytes : Int) (k other : Kernel) : Prop :=
  ∀ mem buf, ∃ ret stored, getargs env k mem buf nbytes = .ok (ret, stored) ∧
    getargs env other mem buf nbytes = .ok (ret, stored) ∧ ∀ i < 1024, stored (buf + i) = word.getD i 0

/-- No two kernels whose running processes have the argument can be told apart. -/
def LeakFree (env : Env) (word : List UInt8) (nbytes : Int) : Prop :=
  ∀ (k other : Kernel) (p q : Slot), callerPcb k = .ok (some p) → callerPcb other = .ok (some q) →
    HoldsArgument word (k.pcbs p) → HoldsArgument word (other.pcbs q) → SameAnswer env word nbytes k other

/-- As long as the copy stays inside the array, only the argument counts. -/
theorem getargs_inside (caller : callerPcb k = .ok (some p)) (holds : HoldsArgument word (k.pcbs p))
    (plain : ∀ c ∈ word, c ≠ 0) (short : word.length < 128) (lower : 0 ≤ nbytes) (upper : nbytes ≤ 128) :
    getargs env k mem buf nbytes = if word = [] then .ok (-1, mem)
      else .ok (0, mem.blit buf (fun i => (word.take nbytes.toNat).getD i 0) 1024) := by
  have asked : u32 nbytes = nbytes.toNat := u32_of_range lower (by omega)
  rw [getargs_eq caller (holds.spelt plain short) short, asked]
  split
  · rfl
  · congr 2
    funext cell
    by_cases outside : cell < buf ∨ buf + 1024 ≤ cell
    · rw [Memory.blit_outside (by omega), Memory.fill_outside outside, Memory.blit_outside outside]
    obtain ⟨i, rfl⟩ : ∃ i, cell = buf + i := ⟨cell - buf, by omega⟩
    rw [Memory.blit_inside (show i < 1024 by omega), List.getD_eq_getElem?_getD, List.getElem?_take]
    by_cases copied : i < nbytes.toNat
    · rw [Memory.blit_inside copied, fromArg_arg (by omega), holds.bytes i (by omega), if_pos copied,
        List.getD_eq_getElem?_getD]
    · rw [Memory.blit_outside (by omega), Memory.fill_at (by omega) (by omega), if_neg copied, Option.getD_none]

/-- A process on terminal 0, with the argument and a value of the flag in all its
descriptors. -/
def flaggedKernel (p : Slot) (word : List UInt8) (flag : Nat) : Kernel :=
  { Kernel.loaded.setTerm 0 { Kernel.loaded.terminalTable 0 with pcbHead := some p } with
    pcbs := fun q =>
      { Kernel.loaded.pcbs q with
        fdArr := fun fd =>
          { (Kernel.loaded.pcbs q).fdArr fd with arg := fun i => word.getD i 0, textFileFlag := flag } } }

theorem flaggedKernel_caller (word : List UInt8) (flag : Nat) :
    callerPcb (flaggedKernel 0 word flag) = .ok (some 0) := callerPcb_ok.mpr rfl

/-- The byte behind the array is the flag, which the argument does not fix. -/
theorem flaggedKernel_behind {flag : Nat} {ret : Int} {stored : Memory} (plain : ∀ c ∈ word, c ≠ 0)
    (short : word.length < 128) (some : word ≠ []) (beyond : 128 < nbytes) (upper : nbytes ≤ 1024)
    (called : getargs env (flaggedKernel 0 word flag) mem buf nbytes = .ok (ret, stored)) :
    stored (buf + 128) = UInt8.ofNat flag := by
  have holds : HoldsArgument word ((flaggedKernel 0 word flag).pcbs 0) := ⟨fun i _ => rfl⟩
  have asked : 128 < u32 nbytes := by
    rw [u32_of_range (by omega) (by omega)]
    omega
  rw [getargs_eq (flaggedKernel_caller word flag) (holds.spelt plain short) short, if_neg some] at called
  cases called
  rw [Memory.blit_inside asked]
  exact fromArg_behind

theorem leakFree_iff (env : Env) (word : List UInt8) (nbytes : Int) (plain : ∀ c ∈ word, c ≠ 0)
    (short : word.length < 128) (lower : 0 ≤ nbytes) (upper : nbytes ≤ 1024) :
    LeakFree env word nbytes ↔ word ≠ [] ∧ word.length ≤ nbytes ∧ nbytes ≤ 128 := by
  have holds (flag : Nat) : HoldsArgument word ((flaggedKernel 0 word flag).pcbs 0) := ⟨fun i _ => rfl⟩
  constructor
  · intro closed
    have answers := closed (flaggedKernel 0 word 0) (flaggedKernel 0 word 1) 0 0 (flaggedKernel_caller word 0)
      (flaggedKernel_caller word 1) (holds 0) (holds 1)
    have some : word ≠ [] := by
      rintro rfl
      -- Without an argument the buffer keeps what it held.
      obtain ⟨ret, stored, first, -, contents⟩ := answers (fun _ => 1) 0
      rw [getargs_eq (flaggedKernel_caller [] 0) ((holds 0).spelt plain short) short, if_pos rfl] at first
      cases first
      exact absurd (contents 0 (by decide)) (by decide)
    obtain ⟨ret, stored, first, second, contents⟩ := answers (fun _ => 0) 0
    have room : nbytes ≤ 128 := by
      by_contra beyond
      have zero := flaggedKernel_behind plain short some (by omega) upper first
      have one := flaggedKernel_behind plain short some (by omega) upper second
      exact absurd (zero.symm.trans one) (by decide)
    refine ⟨some, ?_, room⟩
    by_contra cut
    have inside : nbytes.toNat < word.length := by omega
    have missing : stored (0 + nbytes.toNat) = 0 := by
      rw [getargs_inside (flaggedKernel_caller word 0) (holds 0) plain short lower room, if_neg some] at first
      cases first
      rw [Memory.blit_inside (by omega), List.getD_eq_getElem?_getD, List.getElem?_take, if_neg (by omega),
        Option.getD_none]
    have listed := contents nbytes.toNat (by omega)
    rw [missing, List.getD_eq_getElem?_getD, List.getElem?_eq_getElem inside, Option.getD_some] at listed
    exact plain _ (List.getElem_mem inside) listed.symm
  · rintro ⟨some, whole, room⟩ k other p q caller caller' held held' mem buf
    have taken : word.take nbytes.toNat = word := List.take_of_length_le (by omega)
    refine ⟨0, mem.blit buf (fun i => word.getD i 0) 1024, ?_, ?_, fun i bound => ?_⟩
    · rw [getargs_inside caller held plain short lower room, if_neg some, taken]
    · rw [getargs_inside caller' held' plain short lower room, if_neg some, taken]
    · exact Memory.blit_inside bound

theorem leakFree_array : LeakFree shellEnv (literal "a.txt") 128 :=
  (leakFree_iff shellEnv (literal "a.txt") 128 (nonzero_of_all (by decide)) (by decide) (by decide) (by decide)).mpr
    ⟨by decide, by decide, Int.le_refl 128⟩

/-- "shell a.txt" asks for 1024 bytes, as the user programs do, before and after
it opens a file: the flag of descriptor 2 is in the buffer. -/
theorem getargs_leaks : ¬∀ (env : Env) (boot : Kernel) (events events' : List Event) (k other : Kernel) (p q : Slot)
    (word : List UInt8) (nbytes : Int), Run (Steps env) (multiTermInit boot) events k →
    Run (Steps env) (multiTermInit boot) events' other → callerPcb k = .ok (some p) →
    callerPcb other = .ok (some q) → (∀ c ∈ word, c ≠ 0) → word.length < 128 → 0 ≤ nbytes → nbytes ≤ 1024 →
    HoldsArgument word (k.pcbs p) → HoldsArgument word (other.pcbs q) → SameAnswer env word nbytes k other := by
  intro claim
  have first : Run (Steps shellEnv) (multiTermInit .loaded) [.execute textCommand .reset] textShell :=
    stateAfter_run (by decide)
  have second : Run (Steps shellEnv) textShell [.open shellCommand]
      (stateAfter shellEnv textShell [.open shellCommand]) := stateAfter_run (by decide)
  have holds : HoldsArgument (literal "a.txt") (textShell.pcbs 0) := by
    have slot : freeSlot (multiTermInit .loaded) = some 0 := rfl
    have launched : execute shellEnv (multiTermInit .loaded) textCommand .reset =
        .ok (.launched 0x8048018 textShell) := rfl
    obtain ⟨-, -, -, -, holds⟩ := execute_words textCommand_spelt (by decide) slot launched
    exact holds
  have answer := claim shellEnv .loaded _ _ textShell _ 0 0 (literal "a.txt") 1024 first (first.append second) rfl rfl
    (nonzero_of_all (by decide)) (by decide) (by decide) (by decide) holds ⟨holds.bytes⟩ (fun _ => 0) 0
  obtain ⟨ret, stored, before, later, -⟩ := answer
  have closed : stored 287 = 0 := by
    cases before
    decide
  have opened : stored 287 = 1 := by
    cases later
    decide
  exact absurd (closed.symm.trans opened) (by decide)

end Leak

end BozOS
