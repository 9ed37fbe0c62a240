import BozOS.Processes.Integrity
import Mathlib.Tactic.FinCases

namespace BozOS

open Data Lib FileSystem

/-! A process's descriptor table under the calls it makes. -/

variable {env : Env} {k middle after : Kernel} {p : Slot} {fdArr : Fin 8 → Fd} {fd other : Fin 8}
  {filename mem : Memory} {buf : Nat} {nbytes arg : Int} {cpu : Cpu}

structure TableValid (fdArr : Fin 8 → Fd) : Prop where
  stdin : (fdArr 0).inUseFlag = 1 ∧ (fdArr 0).fotp = some .stdin
  stdout : (fdArr 1).inUseFlag = 1 ∧ (fdArr 1).fotp = some .stdout
  flags : ∀ fd, (fdArr fd).inUseFlag = 0 ∨ (fdArr fd).inUseFlag = 1
  tables : ∀ fd, (fdArr fd).inUseFlag = 1 → ∃ fotp, (fdArr fd).fotp = some fotp

def tableOf : Nat → Option Fotp
  | 0 => some .rtc
  | 1 => some .dir
  | 2 => some .file
  | _ => none

theorem firstUnused_some (found : firstUnused fdArr = some fd) :
    (fdArr fd).inUseFlag ≠ 1 ∧ ∀ lower < fd, (fdArr lower).inUseFlag = 1 := by
  rw [firstUnused, List.find?_eq_some_iff_append] at found
  obtain ⟨unused, before, behind, split, used⟩ := found
  refine ⟨by simpa using unused, fun lower below => ?_⟩
  have sorted := List.pairwise_lt_finRange 8
  have member := List.mem_finRange lower
  rw [split] at sorted member
  rcases List.mem_append.mp member with early | late
  · simpa using used lower early
  · rcases List.mem_cons.mp late with rfl | later
    · exact absurd below (lt_irrefl _)
    · have above := (List.pairwise_cons.mp (List.pairwise_append.mp sorted).2.1).1 lower later
      exact absurd below (lt_asymm above)

theorem firstUnused_none (full : firstUnused fdArr = none) (fd : Fin 8) : (fdArr fd).inUseFlag = 1 := by
  rw [firstUnused, List.find?_eq_none] at full
  simpa using full fd (List.mem_finRange fd)

theorem TableValid.unused_ge_two (valid : TableValid fdArr) (unused : (fdArr fd).inUseFlag ≠ 1) : 2 ≤ fd.val := by
  by_contra low
  have : fd = 0 ∨ fd = 1 := by
    rcases fd with ⟨value, bound⟩
    simp only [Fin.ext_iff, Fin.val_zero, Fin.val_one] at *
    omega
  rcases this with rfl | rfl
  · exact unused valid.stdin.1
  · exact unused valid.stdout.1

theorem TableValid.update {entry : Fd} (valid : TableValid fdArr) (high : 2 ≤ fd.val)
    (flag : entry.inUseFlag = 0 ∨ entry.inUseFlag = 1)
    (table : entry.inUseFlag = 1 → ∃ fotp, entry.fotp = some fotp) :
    TableValid (Function.update fdArr fd entry) := by
  have notIn : (0 : Fin 8) ≠ fd := fun same => by rw [← same] at high; simp at high
  have notOut : (1 : Fin 8) ≠ fd := fun same => by rw [← same] at high; simp at high
  refine ⟨?_, ?_, fun other => ?_, fun other used => ?_⟩
  · rw [Function.update_of_ne notIn]
    exact valid.stdin
  · rw [Function.update_of_ne notOut]
    exact valid.stdout
  · by_cases same : other = fd
    · subst same
      rwa [Function.update_self]
    · rw [Function.update_of_ne same]
      exact valid.flags other
  · by_cases same : other = fd
    · subst same
      rw [Function.update_self] at used ⊢
      exact table used
    · rw [Function.update_of_ne same] at used ⊢
      exact valid.tables other used

theorem TableValid.move {position : Nat} (valid : TableValid fdArr) :
    TableValid (Function.update fdArr fd { fdArr fd with filePosition := position }) := by
  have same : ∀ other, (Function.update fdArr fd { fdArr fd with filePosition := position } other).inUseFlag =
      (fdArr other).inUseFlag ∧
      (Function.update fdArr fd { fdArr fd with filePosition := position } other).fotp = (fdArr other).fotp := by
    intro other
    by_cases equal : other = fd
    · subst equal
      simp
    · simp [Function.update_of_ne equal]
  refine ⟨?_, ?_, fun other => ?_, fun other used => ?_⟩
  · rw [(same 0).1, (same 0).2]
    exact valid.stdin
  · rw [(same 1).1, (same 1).2]
    exact valid.stdout
  · rw [(same other).1]
    exact valid.flags other
  · rw [(same other).2]
    exact valid.tables other ((same other).1 ▸ used)

theorem newFdArr_valid (old : Fin 8 → Fd) (parsed : Parsed) : TableValid (newFdArr old parsed) := by
  refine ⟨⟨rfl, rfl⟩, ⟨rfl, rfl⟩, fun fd => ?_, fun fd used => ?_⟩
  · fin_cases fd
    · exact .inr rfl
    · exact .inr rfl
    all_goals exact .inl rfl
  · fin_cases fd
    · exact ⟨.stdin, rfl⟩
    · exact ⟨.stdout, rfl⟩
    all_goals exact absurd used Nat.zero_ne_one

theorem newFdArr_flags (old : Fin 8 → Fd) (parsed : Parsed) (fd : Fin 8) :
    (newFdArr old parsed fd).inUseFlag = if fd.val < 2 then 1 else 0 := by
  fin_cases fd <;> rfl

@[simp] theorem setFd_fdArr {entry : Fd} :
    ((k.setFd p fd entry).pcbs p).fdArr = Function.update (k.pcbs p).fdArr fd entry := by
  rw [Kernel.setFd, Kernel.setPcb_same]

section Open

theorem sysOpen_cases (caller : callerPcb k = .ok (some p)) (filename : Memory) :
    (sysOpen env k filename = .ok (-1, k) ∧
      (readDentryByName env.image filename = none ∨
        (∃ dentry, readDentryByName env.image filename = some dentry ∧ tableOf dentry.fileType = none) ∨
        ∀ fd, ((k.pcbs p).fdArr fd).inUseFlag = 1)) ∨
    ∃ dentry fotp fd inode middle, readDentryByName env.image filename = some dentry ∧
      tableOf dentry.fileType = some fotp ∧ firstUnused (k.pcbs p).fdArr = some fd ∧ ProcessFrame k middle ∧
      sysOpen env k filename =
        .ok (fd.val, middle.setFd p fd (openedFd ((k.pcbs p).fdArr fd) fotp inode)) := by
  simp only [sysOpen, caller, bind, Except.bind]
  cases lookup : readDentryByName env.image filename with
  | none => exact .inl ⟨rfl, .inl rfl⟩
  | some dentry =>
      simp only
      cases free : firstUnused (k.pcbs p).fdArr with
      | none => exact .inl ⟨rfl, .inr (.inr (firstUnused_none free))⟩
      | some fd =>
          simp only
          have opens : fopen env.image filename = 0 := by rw [fopen, lookup]
          by_cases dir : dentry.fileType = 1
          · rw [if_pos dir]
            exact .inr ⟨dentry, .dir, fd, 0, k, rfl, by rw [dir]; rfl, rfl, .refl, rfl⟩
          rw [if_neg dir]
          by_cases file : dentry.fileType = 2
          · rw [if_pos file, if_neg (by simp [opens])]
            exact .inr ⟨dentry, .file, fd, dentry.inode, k, rfl, by rw [file]; rfl, rfl, .refl, rfl⟩
          rw [if_neg file]
          by_cases rtc : dentry.fileType = 0
          · rw [if_pos rtc, if_neg (by simp [rtcOpen])]
            exact .inr ⟨dentry, .rtc, fd, 0, _, rfl, by rw [rtc]; rfl, rfl, rtcSetRate_output.process, rfl⟩
          rw [if_neg rtc]
          refine .inl ⟨rfl, .inr (.inl ⟨dentry, rfl, ?_⟩)⟩
          unfold tableOf
          split <;> first | contradiction | rfl

variable {filename : Memory} {dentry : Dentry} {fd : Fin 8}

theorem sysOpen_file (caller : callerPcb k = .ok (some p)) (lookup : readDentryByName env.image filename = some dentry)
    (file : dentry.fileType = 2) (free : firstUnused (k.pcbs p).fdArr = some fd) :
    sysOpen env k filename = .ok (fd.val, k.setFd p fd (openedFd ((k.pcbs p).fdArr fd) .file dentry.inode)) := by
  have found : fopen env.image filename = 0 := by rw [fopen, lookup]
  simp only [sysOpen, caller, lookup, file, found, free, bind, Except.bind]
  rw [if_neg (by decide), if_pos trivial, if_neg (by decide)]
  rfl

/-- The kernel behind a descriptor that `open` returned for a regular file. -/
theorem sysOpen_file_opened {opened : Kernel} (caller : callerPcb k = .ok (some p))
    (lookup : readDentryByName env.image filename = some dentry) (file : dentry.fileType = 2)
    (called : sysOpen env k filename = .ok ((fd.val : Int), opened)) :
    opened = k.setFd p fd (openedFd ((k.pcbs p).fdArr fd) .file dentry.inode) := by
  cases free : firstUnused (k.pcbs p).fdArr with
  | none =>
      simp only [sysOpen, caller, lookup, free, bind, Except.bind] at called
      cases called
  | some entry =>
      rw [sysOpen_file caller lookup file free] at called
      injection called with returned
      injection returned with same stored
      obtain rfl : entry = fd := Fin.ext (Int.ofNat.inj same)
      exact stored.symm

end Open

section Close

theorem fdOf_eq {arg : Int} (inRange : 0 ≤ arg ∧ arg ≤ 7) :
    ∃ fd : Fin 8, (fd.val : Int) = arg ∧ fdOf arg = some fd := by
  refine ⟨⟨arg.toNat, by omega⟩, by simp only; omega, ?_⟩
  rw [fdOf, dif_pos inRange]

theorem fdOf_val (fd : Fin 8) : fdOf (fd.val : Int) = some fd := by
  rw [fdOf, dif_pos (by omega)]
  simp

theorem fdOf_some {arg : Int} {fd : Fin 8} (found : fdOf arg = some fd) : (fd.val : Int) = arg := by
  unfold fdOf at found
  split at found
  · cases found
    simp only
    omega
  · cases found

theorem fdOf_none {arg : Int} (outside : ¬(0 ≤ arg ∧ arg ≤ 7)) : fdOf arg = none := by
  rw [fdOf, dif_neg outside]

theorem sysClose_cases (valid : TableValid (k.pcbs p).fdArr) (caller : callerPcb k = .ok (some p)) (arg : Int) :
    (sysClose k arg = .ok (-1, k) ∧
      ∀ fd : Fin 8, (fd.val : Int) = arg → 2 ≤ fd.val → ((k.pcbs p).fdArr fd).inUseFlag ≠ 1) ∨
    ∃ fd : Fin 8, (fd.val : Int) = arg ∧ 2 ≤ fd.val ∧ ((k.pcbs p).fdArr fd).inUseFlag = 1 ∧
      sysClose k arg = .ok (0, k.setFd p fd { (k.pcbs p).fdArr fd with inUseFlag := 0 }) := by
  simp only [sysClose, caller, bind, Except.bind]
  by_cases standard : arg = 0 ∨ arg = 1
  · rw [if_pos standard]
    exact .inl ⟨rfl, fun fd same high => by omega⟩
  rw [if_neg standard]
  by_cases inRange : 0 ≤ arg ∧ arg ≤ 7
  · obtain ⟨fd, same, found⟩ := fdOf_eq inRange
    simp only [found]
    by_cases used : ((k.pcbs p).fdArr fd).inUseFlag = 1
    · obtain ⟨fotp, table⟩ := valid.tables fd used
      rw [if_neg (by simp [used])]
      refine .inr ⟨fd, same, by omega, used, ?_⟩
      simp only [table]
      rfl
    · rw [if_pos used]
      refine .inl ⟨rfl, fun other equal _ => ?_⟩
      rwa [show other = fd from Fin.ext (by omega)]
  · rw [fdOf_none inRange]
    exact .inl ⟨rfl, fun fd same _ => by omega⟩

end Close

section ReadWrite

/-- A descriptor argument no call accepts. -/
def Unopened (fdArr : Fin 8 → Fd) (arg : Int) : Prop := ∀ fd : Fin 8, (fd.val : Int) = arg → (fdArr fd).inUseFlag = 0

theorem Unopened.fdOf_cases {fdArr : Fin 8 → Fd} (unopened : Unopened fdArr arg) :
    fdOf arg = none ∨ ∃ fd, fdOf arg = some fd ∧ (fdArr fd).inUseFlag = 0 := by
  by_cases inRange : 0 ≤ arg ∧ arg ≤ 7
  · obtain ⟨fd, same, found⟩ := fdOf_eq inRange
    exact .inr ⟨fd, found, unopened fd same⟩
  · exact .inl (fdOf_none inRange)

theorem sysRead_unopened (caller : callerPcb k = .ok (some p)) (unopened : Unopened (k.pcbs p).fdArr arg) :
    sysRead env k arg mem buf nbytes cpu = .ok (-1, mem, k) := by
  simp only [sysRead, caller, bind, Except.bind]
  by_cases refused : buf = 0 ∨ nbytes < 0
  · rw [if_pos refused]
    rfl
  rw [if_neg refused]
  rcases unopened.fdOf_cases with missing | ⟨fd, found, unused⟩
  · rw [missing]
    rfl
  · simp only [found, unused, if_true]
    rfl

theorem fread_eq {fd : Fin 8} {count : Nat} (caller : callerPcb k = .ok (some p)) (word : count < 4294967296) :
    fread env k fd mem buf count =
      let entry := (k.pcbs p).fdArr fd
      if env.image.length entry.inodeNumber ≤ entry.filePosition then .ok (0, mem, k)
      else
        let result := readData env.image entry.inodeNumber entry.filePosition mem buf count
        if result.ret = -1 then .ok (-1, result.mem, k)
        else .ok (result.ret, result.mem, k.setFd p fd
          { entry with filePosition := u32 (entry.filePosition + result.ret) }) := by
  have same : u32 (count : Int) = count := by rw [u32_of_range (by omega) (by omega), Int.toNat_natCast]
  simp only [fread, callerPcb_ok.mp caller, bind, Except.bind, same, ge_iff_le]
  rfl

theorem sysWrite_unopened (caller : callerPcb k = .ok (some p)) (unopened : Unopened (k.pcbs p).fdArr arg) :
    sysWrite k arg mem buf nbytes = .ok (-1, k) := by
  simp only [sysWrite, caller, bind, Except.bind]
  by_cases refused : buf = 0 ∨ nbytes < 0
  · rw [if_pos refused]
    rfl
  rw [if_neg refused]
  rcases unopened.fdOf_cases with missing | ⟨fd, found, unused⟩
  · rw [missing]
    rfl
  · simp only [found, unused, if_true]
    rfl

theorem sysRead_moves {result : Int × Memory × Kernel} (caller : callerPcb k = .ok (some p))
    (called : sysRead env k arg mem buf nbytes cpu = .ok result) :
    (result.2.2.pcbs p).fdArr = (k.pcbs p).fdArr ∨
      ∃ (fd : Fin 8) (position : Nat), (fd.val : Int) = arg ∧ (result.2.2.pcbs p).fdArr =
        Function.update (k.pcbs p).fdArr fd { (k.pcbs p).fdArr fd with filePosition := position } := by
  rcases sysRead_cases called with rfl | ⟨q, fd, fotp, reads, read⟩
  · exact .inl rfl
  cases fotp with
  | stdin => exact .inl (by rw [(terminalRead_frame read).pcbs])
  | stdout => cases read; exact .inl rfl
  | dir =>
      cases read
      obtain ⟨cursor, moved⟩ := dread_kernel env k mem buf cpu
      exact .inl (by rw [moved])
  | rtc =>
      obtain ⟨value, ticked, rfl⟩ := map_ok.mp read
      exact .inl (by rw [(rtcRead_frame ticked).pcbs])
  | file =>
      obtain ⟨tail, tailed, read⟩ := bind_ok.mp read
      cases tailed.symm.trans (callerPcb_ok.mp caller)
      simp only at read
      split at read
      · cases read; exact .inl rfl
      split at read
      · cases read; exact .inl rfl
      · cases read; exact .inr ⟨fd, _, fdOf_some reads.found, setFd_fdArr⟩

end ReadWrite

end BozOS
