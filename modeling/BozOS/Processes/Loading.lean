import BozOS.Processes.Atomicity
import BozOS.FileSystem.Access

namespace BozOS

open Data Lib FileSystem

/-! The load step of `execute`. It asks `read_data` for a whole page of 4 MiB,
but the program starts 0x48000 bytes into its page, so that 952 blocks of 4096
bytes fit behind that place. -/

variable {env : Env} {k : Kernel} {command : Memory} {cpu : Cpu} {parsed : Parsed} {image : Image}
  {dentry : Dentry} {entryPt inode : Nat} {p : Slot}

/-- The command passes every check of `execute` up to the load step. -/
structure Accepted (env : Env) (k : Kernel) (command : Memory) (cpu : Cpu) (dentry : Dentry) (entryPt : Nat)
    (p : Slot) : Prop where
  executable : ∃ parsed, parseCommand command = .ok parsed ∧
    checkExecutable env.image parsed.cmd1 cpu.stack = some (dentry, entryPt)
  free : freeSlot k = some p

/-- The call of `read_data` in step 4, on what the page held before. -/
def loadProgram (image : Image) (inode : Nat) (page : Memory) : ReadResult :=
  readData image inode 0 page 0x8048000 0x400000

/-- The load step stores a byte at the address: there is a content of the page
that does not survive it. -/
def StoredAt (image : Image) (inode address : Nat) : Prop :=
  ∃ page, (loadProgram image inode page).mem address ≠ page address

/-- `[USER_PROG_LOC, USER_MEM_V + 4 MiB)`. -/
def InProgramPage (address : Nat) : Prop := 0x8048000 ≤ address ∧ address < 0x8400000

/-- The file ends in the blocks that fit, or a missing block among these or
right behind them ends the copy. -/
def FitsPage (image : Image) (inode : Nat) : Prop :=
  image.length inode ≤ 952 * 4096 ∨ ∃ index ≤ 952, image.datablocks < image.block inode index

theorem loadProgram_copied (page : Memory) (inodeExists : inode ≤ image.inodes) (nonempty : 0 < image.length inode)
    (fits : image.length inode ≤ 1023 * 4096) :
    ∃ want count, min (image.length inode) 0x400000 ≤ want ∧ want ≤ image.length inode ∧
      Copied image inode 0 0x8048000 page 0 want count (loadProgram image inode page) :=
  load_copied inodeExists nonempty (by omega)

theorem loadProgram_fits_iff (page : Memory) (inodeExists : inode ≤ image.inodes) (nonempty : 0 < image.length inode)
    (fits : image.length inode ≤ 1023 * 4096) :
    0x8048000 + (loadProgram image inode page).stored ≤ 0x8400000 ↔ FitsPage image inode := by
  obtain ⟨want, count, enough, whole, copied⟩ := loadProgram_copied page inodeExists nonempty fits
  rw [copied.extent]
  constructor
  · intro inside
    rcases copied.outcome with ⟨-, all⟩ | ⟨-, -, invalid⟩
    · exact .inl (by omega)
    · exact .inr ⟨(0 + count) / 4096, by omega, invalid⟩
  · rintro (short | ⟨index, near, invalid⟩)
    · rcases copied.outcome with ⟨-, all⟩ | ⟨-, less, -⟩
      · omega
      · omega
    · have ended : count ≤ 4096 * index := by
        by_contra beyond
        have valid := copied.blocks (4096 * index) (by omega)
        rw [show (0 + 4096 * index) / 4096 = index by omega] at valid
        omega
      omega

/-- The bytes stored are those from the load address up to `stored`. -/
theorem loadProgram_memory (page : Memory) (inodeExists : inode ≤ image.inodes) (nonempty : 0 < image.length inode)
    (fits : image.length inode ≤ 1023 * 4096) :
    (loadProgram image inode page).mem =
      page.blit 0x8048000 (image.content inode) (loadProgram image inode page).stored := by
  obtain ⟨want, count, -, -, copied⟩ := loadProgram_copied page inodeExists nonempty fits
  rw [copied.memory, copied.extent]
  simp only [Nat.add_zero, Nat.zero_add]

theorem loadProgram_inPage (inodeExists : inode ≤ image.inodes) (nonempty : 0 < image.length inode)
    (fits : image.length inode ≤ 1023 * 4096) :
    (∀ address, StoredAt image inode address → InProgramPage address) ↔ FitsPage image inode := by
  constructor
  · intro inside
    -- A page whose first byte past the end differs from the file's shows the store.
    let page : Memory := fun _ => image.content inode (952 * 4096) + 1
    refine (loadProgram_fits_iff page inodeExists nonempty fits).mp ?_
    by_contra beyond
    have stored : StoredAt image inode (0x8048000 + 952 * 4096) := by
      refine ⟨page, ?_⟩
      rw [loadProgram_memory page inodeExists nonempty fits, Memory.blit_inside (by omega)]
      simp [page]
    have upper := (inside _ stored).2
    omega
  · rintro fitting address ⟨page, changed⟩
    have extent := (loadProgram_fits_iff page inodeExists nonempty fits).mpr fitting
    rw [loadProgram_memory page inodeExists nonempty fits] at changed
    by_contra outside
    refine changed (Memory.blit_outside ?_)
    unfold InProgramPage at outside
    omega

theorem load_inPage_iff (env : Env) (k : Kernel) (command : Memory) (cpu : Cpu) (dentry : Dentry) (entryPt : Nat)
    (p : Slot) (accepted : Accepted env k command cpu dentry entryPt p)
    (fits : env.image.length dentry.inode ≤ 1023 * 4096) :
    (∀ address, StoredAt env.image dentry.inode address → InProgramPage address) ↔
      FitsPage env.image dentry.inode := by
  obtain ⟨parsed, -, checked⟩ := accepted.executable
  obtain ⟨inodeExists, nonempty⟩ := checkExecutable_file checked
  exact loadProgram_inPage inodeExists nonempty fits

/-- The model's own account of a load that leaves the page: `execute` faults. -/
theorem execute_faults_iff {tail : Option Slot} (accepted : Accepted env k command cpu dentry entryPt p)
    (ended : getPCBTail k k.activeTask = .ok tail) (fits : env.image.length dentry.inode ≤ 1023 * 4096) :
    execute env k command cpu = .error .pageFault ↔ ¬FitsPage env.image dentry.inode := by
  obtain ⟨parsed, parses, checked⟩ := accepted.executable
  obtain ⟨inodeExists, nonempty⟩ := checkExecutable_file checked
  rcases addPCB_takes k.activeTask accepted.free with ⟨-, linked, -, added, -⟩ | ⟨stop, stuck, -⟩
  · have fitting := loadProgram_fits_iff (linked.userPages p) inodeExists nonempty fits
    have result : execute env k command cpu = loadAndLaunch env linked p dentry entryPt parsed cpu := by
      simp [execute, parses, bind, Except.bind, checked, added]
    rw [result, loadAndLaunch, ← fitting]
    change (if 0x8048000 + (loadProgram env.image dentry.inode (linked.userPages p)).stored > 0x8400000 then _
      else _) = _ ↔ _
    split
    · rename_i beyond
      exact ⟨fun _ => by omega, fun _ => rfl⟩
    · rename_i inside
      refine ⟨fun stops => ?_, fun outside => by omega⟩
      split at stops <;> cases stops
  · cases ended.symm.trans stuck

/-- One executable "big" of the largest length an inode can hold, every entry of
its block list naming data block 0. -/
def bigRuns : List (Nat × List UInt8) := [
  (0, [1, 0, 0, 0, 1, 0, 0, 0, 1]), (64, literal "big"), (96, [2]),
  (4096, [0, 0xF0, 0x3F, 0]), (8192, [0x7F, 0x45, 0x4C, 0x46]), (8216, [0x18, 0x80, 0x04, 0x08])]

def bigImage : Image := Image.ofRuns bigRuns

def bigEnv : Env := ⟨bigImage, fun _ => 0, 0⟩

def bigCommand : Memory := fun index => (literal "big").getD index 0

theorem ofRuns_blank {runs : List (Nat × List UInt8)} {address : Nat}
    (apart : ∀ run ∈ runs, run.1 + run.2.length ≤ address ∨ address < run.1) :
    (Image.ofRuns runs).bytes address = 0 := by
  have nothing : (runs.findSome? fun run =>
      if run.1 ≤ address then run.2[address - run.1]? else none) = none := by
    rw [List.findSome?_eq_none_iff]
    intro run member
    have outside := apart run member
    split
    · exact List.getElem?_eq_none (by omega)
    · rfl
  simp only [Image.ofRuns, nothing, Option.getD_none]

theorem bigImage_blank {address : Nat} (lower : 4100 ≤ address) (upper : address < 8192) :
    bigImage.bytes address = 0 := by
  refine ofRuns_blank fun run member => ?_
  have apart : ∀ run ∈ bigRuns, run.1 + run.2.length ≤ 4100 ∨ 8192 ≤ run.1 := by decide
  have outside := apart run member
  omega

theorem bigImage_block {index : Nat} (listed : index ≤ 952) : bigImage.block 0 index = 0 := by
  simp only [Image.block, le32]
  rw [bigImage_blank (by omega) (by omega), bigImage_blank (by omega) (by omega),
    bigImage_blank (by omega) (by omega), bigImage_blank (by omega) (by omega)]
  rfl

theorem bigImage_overflows : ¬FitsPage bigImage 0 := by
  rintro (short | ⟨index, listed, missing⟩)
  · exact absurd short (by decide)
  · rw [bigImage_block listed] at missing
    omega

theorem shell_inPage :
    Accepted shellEnv (multiTermInit .loaded) shellCommand .reset (shellImage.dentries 0) 0x8048018 0 ∧
    ((∀ address, StoredAt shellImage (shellImage.dentries 0).inode address → InProgramPage address) ↔
      FitsPage shellImage (shellImage.dentries 0).inode) := by
  have accepted : Accepted shellEnv (multiTermInit .loaded) shellCommand .reset (shellImage.dentries 0) 0x8048018 0 :=
    ⟨⟨_, rfl, rfl⟩, rfl⟩
  exact ⟨accepted, load_inPage_iff shellEnv _ shellCommand .reset _ _ 0 accepted (by decide)⟩

/-- The load of "big" asks for stores up to 290816 bytes behind its page: the copy
runs off the page, and the first store behind it faults. -/
theorem big_leaves_page : ¬∀ (env : Env) (k : Kernel) (command : Memory) (cpu : Cpu) (dentry : Dentry) (entryPt : Nat)
    (p : Slot), Accepted env k command cpu dentry entryPt p → env.image.length dentry.inode ≤ 1023 * 4096 →
    ∀ address, StoredAt env.image dentry.inode address → InProgramPage address := by
  intro claim
  have inside := claim bigEnv (multiTermInit .loaded) bigCommand .reset (bigImage.dentries 0) 0x8048018 0
    ⟨⟨_, rfl, rfl⟩, rfl⟩ (by decide)
  have inodeZero : (bigImage.dentries 0).inode = 0 := by decide
  rw [inodeZero] at inside
  exact bigImage_overflows ((loadProgram_inPage (by decide) (by decide) (by decide)).mp inside)

end BozOS
