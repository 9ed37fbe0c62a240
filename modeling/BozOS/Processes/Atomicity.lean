import BozOS.Processes.Launch

namespace BozOS

open Data Lib FileSystem

/-! The failures of `execute`. Every one before `add_PCB` leaves the processes
alone; a file that cannot be read to its end fails behind it. -/

variable {env : Env} {k after : Kernel} {command : Memory} {parsed : Parsed} {cpu : Cpu} {image : Image}
  {dentry : Dentry} {entryPt inode : Nat} {mem : Memory}

/-- The part of the kernel a failing `execute` should leave as it was. -/
structure Unchanged (before after : Kernel) : Prop where
  usage : after.processUsage = before.processUsage
  heads : ∀ t, (after.terminalTable t).pcbHead = (before.terminalTable t).pcbHead
  pcbs : after.pcbs = before.pcbs
  page : after.pageDirectory 32 = before.pageDirectory 32

theorem ProcessFrame.unchanged (frame : ProcessFrame k after) : Unchanged k after :=
  ⟨frame.usage, frame.heads, frame.pcbs, frame.page⟩

/-- The file has a block that does not exist among its first 953: blocks 0 to 951
fit into the program page from the load address on, and with block 952 a load
leaves it. -/
def BadBlock (image : Image) (inode : Nat) : Prop :=
  image.length inode < 2147483648 ∧
    ∃ index ≤ 952, 4096 * index < image.length inode ∧ image.datablocks < image.block inode index

theorem checkExecutable_readable {cmd1 stack : Memory}
    (checked : checkExecutable image cmd1 stack = some (dentry, entryPt)) :
    (readData image dentry.inode 0 stack localBuf 4).ret ≠ -1 := by
  unfold checkExecutable at checked
  split at checked
  · cases checked
  · simp only [Option.ite_none_left_eq_some, Option.some.injEq, Prod.mk.injEq] at checked
    obtain ⟨readable, -, -, -, -, -, rfl, -⟩ := checked
    exact readable

theorem checkExecutable_file {cmd1 stack : Memory}
    (checked : checkExecutable image cmd1 stack = some (dentry, entryPt)) :
    dentry.inode ≤ image.inodes ∧ 0 < image.length dentry.inode := by
  have readable := checkExecutable_readable checked
  constructor
  · by_contra missing
    exact readable (by rw [readData_refused (Or.inl (Nat.lt_of_not_le missing))])
  · by_contra empty
    exact readable (by rw [readData_refused (Or.inr (Or.inr (Or.inr (by omega))))])

theorem load_copied (inodeExists : inode ≤ image.inodes) (nonempty : 0 < image.length inode)
    (signedLength : image.length inode < 2147483648) :
    ∃ want count, min (image.length inode) 0x400000 ≤ want ∧ want ≤ image.length inode ∧
      Copied image inode 0 0x8048000 mem 0 want count (readData image inode 0 mem 0x8048000 0x400000) := by
  obtain ⟨count, copied⟩ : ∃ count, Copied image inode 0 0x8048000 mem 0
      (min (bytesRequested (image.length inode) 0 0x400000) (4096 * (image.length inode / 4096 + 1) - 0)) count
      (readData image inode 0 mem 0x8048000 0x400000) :=
    readData_copied inodeExists (by decide) signedLength nonempty (by decide) (by decide)
  refine ⟨_, count, ?_, ?_, copied⟩
  · unfold bytesRequested
    split <;> omega
  · unfold bytesRequested
    split <;> omega

/-- A length of 2 GiB or more loads nothing, or faults. -/
theorem load_negative {stack : Memory} (mem : Memory) (inodeExists : inode ≤ image.inodes)
    (high : 2147483648 ≤ image.length inode) (readable : (readData image inode 0 stack localBuf 4).ret ≠ -1) :
    0x8400000 < 0x8048000 + (readData image inode 0 mem 0x8048000 0x400000).stored ∨
      (readData image inode 0 mem 0x8048000 0x400000).ret ≠ -1 := by
  have word := length_lt image inode
  by_cases negative : image.length inode ≤ 4294963200
  · right
    rw [readData_negative inodeExists (by decide) high (by omega) (by decide) (Or.inl negative)]
    simp
  · left
    have valid : image.block inode 0 ≤ image.datablocks := by
      by_contra invalid
      rw [readData_oneBlock inodeExists (by decide) (by omega) (by decide) (by decide) (by decide),
        copyBlocks, if_pos (Nat.lt_of_not_le invalid)] at readable
      exact readable rfl
    have count : copyLen ((image.length inode : Int) - 4294967296 - (0 : Nat)) 0 =
        (image.length inode : Int) - 4294967296 := by
      unfold copyLen
      simp only
      split <;> split <;> omega
    have wraps : u32 ((image.length inode : Int) - 4294967296) = image.length inode := by
      unfold u32
      omega
    rw [readData_oneBlock inodeExists (by decide) (by omega) (by decide) (by decide) (by decide),
      if_pos (by decide), copyBlocks_one (by decide) valid, count, wraps]
    simp only
    omega

/-- The load of a checked executable fails inside its page exactly when it
meets a missing block there. -/
theorem load_fails_iff {cmd1 stack : Memory} (mem : Memory)
    (checked : checkExecutable image cmd1 stack = some (dentry, entryPt)) :
    (0x8048000 + (readData image dentry.inode 0 mem 0x8048000 0x400000).stored ≤ 0x8400000 ∧
      (readData image dentry.inode 0 mem 0x8048000 0x400000).ret = -1) ↔ BadBlock image dentry.inode := by
  obtain ⟨inodeExists, nonempty⟩ := checkExecutable_file checked
  by_cases signedLength : image.length dentry.inode < 2147483648
  · obtain ⟨want, count, enough, whole, copied⟩ := load_copied inodeExists nonempty signedLength
    rw [copied.extent]
    constructor
    · rintro ⟨inside, failed⟩
      rcases copied.outcome with ⟨returned, -⟩ | ⟨-, short, invalid⟩
      · omega
      · refine ⟨signedLength, (0 + count) / 4096, by omega, by omega, invalid⟩
    · rintro ⟨-, index, near, used, invalid⟩
      have reached : count ≤ 4096 * index := by
        by_contra beyond
        have valid := copied.blocks (4096 * index) (by omega)
        rw [show (0 + 4096 * index) / 4096 = index by omega] at valid
        omega
      rcases copied.outcome with ⟨-, all⟩ | ⟨failed, -, -⟩
      · omega
      · exact ⟨by omega, failed⟩
  · constructor
    · rintro ⟨inside, failed⟩
      rcases load_negative mem inodeExists (by omega) (checkExecutable_readable checked) with faults | succeeds
      · omega
      · exact absurd failed succeeds
    · rintro ⟨small, -⟩
      exact absurd small signedLength

/-- The call gets a slot and links it, and then meets a missing block. -/
def FailsLate (env : Env) (k : Kernel) (parsed : Parsed) (cpu : Cpu) : Prop :=
  ∃ dentry entryPt, checkExecutable env.image parsed.cmd1 cpu.stack = some (dentry, entryPt) ∧
    (∃ p, k.processUsage p = .notUsed) ∧ (∃ tail, getPCBTail k k.activeTask = .ok tail) ∧
    BadBlock env.image dentry.inode

theorem addPCB_takes (t : TermId) {p : Slot} (found : freeSlot k = some p) :
    (∃ tail after, getPCBTail k t = .ok tail ∧ addPCB k t = .ok (some p, after) ∧
      after.processUsage p = .inUse) ∨
    (∃ stop, getPCBTail k t = .error stop ∧ addPCB k t = .error stop) := by
  simp only [addPCB, found, getPCBTail]
  cases headed : (k.terminalTable t).pcbHead with
  | none => exact .inl ⟨none, _, rfl, rfl, by simp [Kernel.setTerm]⟩
  | some head =>
      have same : walkToTail { k with processUsage := Function.update k.processUsage p .inUse } head =
          walkToTail k head := rfl
      simp only [same]
      cases walkToTail k head with
      | error stop => exact .inr ⟨stop, rfl, rfl⟩
      | ok tail => exact .inl ⟨some tail, _, rfl, rfl, by simp [Kernel.setPcb]⟩

theorem loadAndLaunch_returned {p : Slot} {cmd1 stack : Memory}
    (checked : checkExecutable env.image cmd1 stack = some (dentry, entryPt)) :
    (BadBlock env.image dentry.inode ∧ ∃ ret after,
      loadAndLaunch env k p dentry entryPt parsed cpu = .ok (.returned ret after) ∧
      after.processUsage = k.processUsage) ∨
    (¬BadBlock env.image dentry.inode ∧
      ∀ ret after, loadAndLaunch env k p dentry entryPt parsed cpu ≠ .ok (.returned ret after)) := by
  have failing := load_fails_iff ((mapUserPage k (userPage p)).userPages p) checked
  simp only [loadAndLaunch]
  by_cases faults : 0x8048000 + (readData env.image dentry.inode 0
      ((mapUserPage k (userPage p)).userPages p) 0x8048000 0x400000).stored > 0x8400000
  · rw [if_pos faults]
    exact .inr ⟨fun bad => absurd (failing.mpr bad).1 (by omega), by simp⟩
  rw [if_neg faults]
  by_cases failed : (readData env.image dentry.inode 0
      ((mapUserPage k (userPage p)).userPages p) 0x8048000 0x400000).ret = -1
  · rw [if_pos failed]
    exact .inl ⟨failing.mp ⟨by omega, failed⟩, -1, _, rfl, rfl⟩
  · rw [if_neg failed]
    exact .inr ⟨fun bad => failed (failing.mpr bad).2, by simp⟩

theorem execute_atomic_iff (env : Env) (k : Kernel) (command : Memory) (cpu : Cpu) (parsed : Parsed)
    (parses : parseCommand command = .ok parsed) :
    (∀ ret after, execute env k command cpu = .ok (.returned ret after) → Unchanged k after) ↔
      ¬FailsLate env k parsed cpu := by
  rw [execute, parses]
  simp only [bind, Except.bind]
  cases checked : checkExecutable env.image parsed.cmd1 cpu.stack with
  | none =>
      refine ⟨fun _ => ?_, fun _ ret after returned => ?_⟩
      · rintro ⟨dentry, entryPt, found, -⟩
        cases checked.symm.trans found
      · cases returned
        exact ProcessFrame.refl.unchanged
  | some found =>
      obtain ⟨dentry, entryPt⟩ := found
      simp only
      cases free : freeSlot k with
      | none =>
          simp only [addPCB, free]
          refine ⟨fun _ => ?_, fun _ ret after returned => ?_⟩
          · rintro ⟨_, _, _, ⟨p, unused⟩, -⟩
            obtain ⟨q, found⟩ := freeSlot_exists unused
            cases free.symm.trans found
          · injection returned with same
            injection same with _ same
            subst same
            exact puts_screenFrame.process.unchanged
      | some p =>
          have unused := freeSlot_unused free
          rcases addPCB_takes k.activeTask free with
            ⟨tail, linked, ended, added, taken⟩ | ⟨stop, stuck, added⟩
          · rw [added]
            simp only
            rcases loadAndLaunch_returned checked with ⟨bad, ret, after, returned, usage⟩ | ⟨good, never⟩
            · -- The slot stays marked although the call reports a failure.
              refine ⟨fun atomic => ?_, fun fine => ?_⟩
              · have kept := (atomic ret after returned).usage
                rw [usage] at kept
                rw [congrFun kept p, unused] at taken
                cases taken
              · exact absurd ⟨dentry, entryPt, checked, ⟨p, unused⟩, ⟨tail, ended⟩, bad⟩ fine
            · refine ⟨fun _ => ?_, fun _ ret after returned => absurd returned (never ret after)⟩
              rintro ⟨_, _, found, -, -, bad⟩
              cases checked.symm.trans found
              exact good bad
          · rw [added]
            refine ⟨fun _ => ?_, fun _ ret after returned => ?_⟩
            · rintro ⟨_, _, _, -, ⟨tail, ended⟩, -⟩
              cases stuck.symm.trans ended
            · cases returned

theorem shell_atomic_iff : ∃ parsed, parseCommand shellCommand = .ok parsed ∧
    ((∀ ret after, execute shellEnv (multiTermInit .loaded) shellCommand .reset = .ok (.returned ret after) →
      Unchanged (multiTermInit .loaded) after) ↔ ¬FailsLate shellEnv (multiTermInit .loaded) parsed .reset) := by
  obtain ⟨parsed, parses, -⟩ := parseCommand_shell
  exact ⟨parsed, parses, execute_atomic_iff shellEnv _ shellCommand .reset parsed parses⟩

/-- The shell, and an executable "bad" of two blocks whose second one does not
exist. -/
def badImage : Image := Image.ofRuns [
  (0, [2, 0, 0, 0, 2, 0, 0, 0, 2]),
  (64, literal "shell"), (96, [2]), (128, literal "bad"), (160, [2, 0, 0, 0, 1]),
  (4096, [28]), (8192, [0, 0x20, 0, 0, 1, 0, 0, 0, 9]),
  (12288, [0x7F, 0x45, 0x4C, 0x46]), (12312, [0x18, 0x80, 0x04, 0x08]),
  (16384, [0x7F, 0x45, 0x4C, 0x46]), (16408, [0x18, 0x80, 0x04, 0x08])]

def badEnv : Env := ⟨badImage, fun _ => 0, 0⟩

def badCommand : Memory := fun index => (literal "bad").getD index 0

/-- The shell's `execute("bad")` returns -1 and leaves slot 1 in use. -/
theorem execute_bad_not_atomic :
    ¬∀ (env : Env) (boot k : Kernel) (events : List Event) (command : Memory) (cpu : Cpu) (parsed : Parsed),
      Run (Steps env) (multiTermInit boot) events k → parseCommand command = .ok parsed →
      ∀ ret after, execute env k command cpu = .ok (.returned ret after) → Unchanged k after := by
  intro atomic
  have run : Run (Steps badEnv) (multiTermInit .loaded) [.execute shellCommand .reset]
      (stateAfter badEnv (multiTermInit .loaded) [.execute shellCommand .reset]) := stateAfter_run (by decide)
  have unchanged := atomic badEnv .loaded _ _ badCommand .reset _ run rfl (-1)
    (stateAfter badEnv (stateAfter badEnv (multiTermInit .loaded) [.execute shellCommand .reset])
      [.execute badCommand .reset]) rfl
  exact absurd (congrFun unchanged.usage 1) (by decide)

end BozOS
