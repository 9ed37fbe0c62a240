import BozOS.Descriptors.Law
import BozOS.FileSystem.Access

namespace BozOS

open Data Lib FileSystem

/-! The file behind a descriptor. `open` stores the inode number of the entry it
found in eight bits, and `fread` goes by that number. -/

variable {env : Env} {start k opened after : Kernel} {p : Slot} {fd : Fin 8} {filename : Memory} {dentry : Dentry}
  {inode number : Nat} {event : FdEvent} {events : List FdEvent}

/-- What a read through the descriptor should do in one state: nothing at the end
of the file, and else what `read_data` does on the inode itself, after which the
position has moved on by the count. The bytes do not go into the kernel's page, where
the position is. -/
structure ReadsFile (env : Env) (k : Kernel) (p : Slot) (fd : Fin 8) (inode : Nat) : Prop where
  ended (mem : Memory) (buf : Nat) (nbytes : Int) :
    env.image.length inode ≤ ((k.pcbs p).fdArr fd).filePosition →
      OneMemory.fread env k fd mem buf nbytes = .ok (0, mem, k)
  delivered (mem : Memory) (buf : Nat) (nbytes : Int) :
    let entry := (k.pcbs p).fdArr fd
    let result := readData env.image inode entry.filePosition mem buf (u32 nbytes)
    entry.filePosition < env.image.length inode → PageKept mem result.mem →
      OneMemory.fread env k fd mem buf nbytes =
        if result.ret = -1 then .ok (-1, result.mem, k)
        else .ok (result.ret, result.mem, k.setFd p fd
          { entry with filePosition := u32 (entry.filePosition + result.ret) })

/-- A step that does not close `fd` and stores nothing into the kernel's page. -/
def StepsOpen (env : Env) (p : Slot) (fd : Fin 8) (k : Kernel) (event : FdEvent) (after : Kernel) : Prop :=
  OneMemory.SparingFdSteps env p k event after ∧ event ≠ .close fd.val

/-- Every read through a descriptor reads the opened file, whatever image, file
and history there are behind the inode number. -/
def OpenedReads (inode : Nat) : Prop :=
  ∀ (env : Env) (start opened k : Kernel) (p : Slot) (fd : Fin 8) (filename : Memory) (dentry : Dentry)
    (events : List FdEvent), env.image.Wraps → readDentryByName env.image filename = some dentry → dentry.fileType = 2 →
    dentry.inode = inode → inode < env.image.inodes → callerPcb start = .ok (some p) →
    sysOpen env start filename = .ok (fd.val, opened) → Run (StepsOpen env p fd) opened events k →
    callerPcb k = .ok (some p) → ReadsFile env k p fd inode

/-- Descriptor `fd` is in use, and `fread` finds `number` in it. -/
structure Holding (k : Kernel) (p : Slot) (fd : Fin 8) (number : Nat) : Prop where
  used : ((k.pcbs p).fdArr fd).inUseFlag = 1
  number : ((k.pcbs p).fdArr fd).inodeNumber = number

theorem Holding.congr {other : Kernel} (holding : Holding k p fd number)
    (same : (other.pcbs p).fdArr = (k.pcbs p).fdArr) : Holding other p fd number :=
  ⟨by rw [same]; exact holding.used, by rw [same]; exact holding.number⟩

theorem Holding.setOther {other : Fin 8} {entry : Fd} (holding : Holding k p fd number)
    (different : fd ≠ other) (changed : (after.pcbs p).fdArr = Function.update (k.pcbs p).fdArr other entry) :
    Holding after p fd number :=
  ⟨by rw [changed, Function.update_of_ne different]; exact holding.used,
    by rw [changed, Function.update_of_ne different]; exact holding.number⟩

theorem openedFd_holding : Holding (k.setFd p fd (openedFd ((k.pcbs p).fdArr fd) .file inode)) p fd (inode % 256) :=
  ⟨by rw [setFd_fdArr, Function.update_self, openedFd], by rw [setFd_fdArr, Function.update_self, openedFd]⟩

theorem sysOpen_holding (lookup : readDentryByName env.image filename = some dentry) (file : dentry.fileType = 2)
    (caller : callerPcb start = .ok (some p)) (opens : sysOpen env start filename = .ok (fd.val, opened)) :
    Holding opened p fd (dentry.inode % 256) := by
  rw [sysOpen_file_opened caller lookup file opens]
  exact openedFd_holding

theorem sysClose_fdArr {arg ret : Int} (caller : callerPcb k = .ok (some p))
    (called : sysClose k arg = .ok (ret, after)) :
    (after.pcbs p).fdArr = (k.pcbs p).fdArr ∨
      ∃ (entry : Fin 8) (closed : Fd), (entry.val : Int) = arg ∧
        (after.pcbs p).fdArr = Function.update (k.pcbs p).fdArr entry closed := by
  simp only [sysClose, caller, bind, Except.bind] at called
  split at called
  · cases called
    exact .inl rfl
  split at called
  · cases called
    exact .inl rfl
  rename_i entry found
  split at called
  · cases called
    exact .inl rfl
  split at called
  · cases called
  split at called
  · cases called
    exact .inl rfl
  · cases called
    exact .inr ⟨entry, _, fdOf_some found, setFd_fdArr⟩

/-- No call but a `close` of `fd` itself changes the inode number in it. -/
theorem Holding.call (holding : Holding k p fd number) (step : FdSteps env p k event after)
    (keeps : event ≠ .close fd.val) : Holding after p fd number := by
  cases step with
  | «open» caller called =>
      rcases sysOpen_cases caller _ with ⟨failed, -⟩ | ⟨dentry, fotp, entry, inode, middle, -, -, free, frame, opened⟩
      · cases called.symm.trans failed
        exact holding
      · cases called.symm.trans opened
        have different : fd ≠ entry := by
          rintro rfl
          exact (firstUnused_some free).1 holding.used
        refine (holding.congr (show (middle.pcbs p).fdArr = _ by rw [frame.pcbs])).setOther different setFd_fdArr
  | close caller called =>
      rcases sysClose_fdArr caller called with same | ⟨entry, closed, equal, changed⟩
      · exact holding.congr same
      · refine holding.setOther ?_ changed
        rintro rfl
        exact keeps (by rw [equal])
  | read caller called =>
      rcases sysRead_moves caller called with same | ⟨entry, position, -, moved⟩
      · exact holding.congr same
      · by_cases same : fd = entry
        · subst same
          exact ⟨by rw [moved, Function.update_self]; exact holding.used,
            by rw [moved, Function.update_self]; exact holding.number⟩
        · exact holding.setOther same moved
  | write caller called =>
      have frame := sysWrite_frame called
      exact holding.congr (by rw [frame.pcbs])
  | others kept => exact holding.congr kept

theorem Holding.step (holding : Holding k p fd number) (step : StepsOpen env p fd k event after) :
    Holding after p fd number := by
  refine holding.call step.1.steps fun closes => step.2 ?_
  cases event with
  | close => exact closes
  | «open» | read | write | others => cases closes

theorem Holding.reads (holding : Holding k p fd inode) (caller : callerPcb k = .ok (some p)) :
    ReadsFile env k p fd inode where
  ended mem buf nbytes atEnd := by
    simp only [OneMemory.fread, callerPcb_ok.mp caller, bind, Except.bind, holding.number, ge_iff_le, if_pos atEnd]
    rfl
  delivered mem buf nbytes inside kept := by
    simp only [OneMemory.fread, callerPcb_ok.mp caller, bind, Except.bind, holding.number, ge_iff_le,
      if_neg (Nat.not_le.mpr inside), Kernel.stored_kept kept]
    rfl

/-- A read of a number with the same record is a read of the file. -/
theorem ReadsFile.congr {other : Nat} (reads : ReadsFile env k p fd other)
    (length : env.image.length other = env.image.length inode)
    (blocks : ∀ index, env.image.block other index = env.image.block inode index)
    (inodeExists : inode ≤ env.image.inodes) (otherExists : other ≤ env.image.inodes) :
    ReadsFile env k p fd inode where
  ended mem buf nbytes atEnd := reads.ended mem buf nbytes (by rwa [length])
  delivered mem buf nbytes := by
    have same (position : Nat) : readData env.image other position mem buf (u32 nbytes) =
        readData env.image inode position mem buf (u32 nbytes) := readData_congr length blocks inodeExists otherExists
    simpa only [length, same] using reads.delivered mem buf nbytes

/-- One descriptor does not read two files with different results. -/
theorem ReadsFile.same_ret {other : Nat} {mem : Memory} {buf : Nat} {nbytes : Int} (reads : ReadsFile env k p fd inode)
    (others : ReadsFile env k p fd other) (start : ((k.pcbs p).fdArr fd).filePosition = 0)
    (nonempty : 0 < env.image.length inode) (also : 0 < env.image.length other)
    (kept : PageKept mem (readData env.image inode 0 mem buf (u32 nbytes)).mem)
    (spared : PageKept mem (readData env.image other 0 mem buf (u32 nbytes)).mem) :
    (readData env.image inode 0 mem buf (u32 nbytes)).ret = (readData env.image other 0 mem buf (u32 nbytes)).ret := by
  have first := reads.delivered mem buf nbytes
  have second := others.delivered mem buf nbytes
  simp only [start] at first second
  have same := (first nonempty kept).symm.trans (second also spared)
  split at same <;> split at same <;> have equal := (Prod.mk.inj (Except.ok.inj same)).1
  · rename_i failed fails
    rw [failed, fails]
  · rename_i failed _
    rw [failed, equal]
  · rename_i _ fails
    rw [fails, equal]
  · exact equal

theorem openedReads_small (small : inode % 1048576 < 256) : OpenedReads inode := by
  intro env start opened k p fd filename dentry events wraps lookup file same inside caller opens run later
  have first : Holding opened p fd (dentry.inode % 256) := sysOpen_holding lookup file caller opens
  have kept : inode % 256 = inode % 1048576 := by omega
  rw [same, kept] at first
  have held := run.invariant (fun state => Holding state p fd (inode % 1048576))
    (fun step holding => holding.step step) first
  exact (held.reads later).congr (wraps.length_eq inode) (wraps.block_eq inode) (by omega) (by omega)

/-- A copy to a buffer below the kernel's page leaves that page alone. -/
theorem FileSystem.Copied.pageKept {image : Image} {mem : Memory} {position buf want count : Nat} {result : ReadResult}
    (copied : Copied image inode position buf mem 0 want count result) (below : buf + want ≤ 0x400000) :
    PageKept mem result.mem := by
  have upper : count ≤ want := by
    rcases copied.outcome with ⟨-, whole⟩ | ⟨-, short, -⟩
    · exact Nat.le_of_eq whole
    · exact Nat.le_of_lt short
  rw [copied.memory]
  exact .blit (.inl (by omega))

section Wide

theorem wordByte_toNat (word index : Nat) : (wordByte word index).toNat = word / 256 ^ index % 256 := by
  rw [wordByte, UInt8.toNat_ofNat']

theorem le32_wordByte {bytes : Memory} {address word : Nat} (small : word < 4294967296)
    (stored : ∀ index < 4, bytes (address + index) = wordByte word index) : le32 bytes address = word := by
  have first := stored 0 (by decide)
  rw [Nat.add_zero] at first
  rw [le32, first, stored 1 (by decide), stored 2 (by decide), stored 3 (by decide)]
  simp only [wordByte_toNat]
  omega

/-- One file "f" of one byte, behind the last inode of an image that has no
other file. -/
def wideImage (inode : Nat) : Image := Image.wrapped {
  bytes address :=
    if 4 ≤ address ∧ address < 8 then wordByte (inode + 1) (address - 4)
    else if 100 ≤ address ∧ address < 104 then wordByte inode (address - 100)
    else if address = 0 ∨ address = 8 ∨ address = 4096 * ((inode + 1) % 1048576) then 1
    else if address = 64 then 0x66
    else if address = 96 then 2
    else 0 }

def wideName : Memory := fun index => if index = 0 then 0x66 else 0

theorem wideImage_inodes (room : inode < 4294967295) : (wideImage inode).inodes = inode + 1 := by
  refine le32_wordByte (by omega) fun index bound => ?_
  simp only [wideImage, Image.wrapped]
  rw [Nat.mod_eq_of_lt (by omega), if_pos (by omega), Nat.add_sub_cancel_left]

theorem wideImage_entry_inode (room : inode < 4294967295) : ((wideImage inode).dentries 0).inode = inode := by
  refine le32_wordByte (by omega) fun index bound => ?_
  simp only [wideImage, Image.dentries, Image.wrapped]
  rw [Nat.mod_eq_of_lt (by omega), if_neg (by omega), if_pos (by omega)]
  congr 1
  omega

theorem wideImage_zero {address : Nat} (small : address < 4294967296)
    (plain : address ≠ 0 ∧ (address < 4 ∨ 8 < address) ∧ address ≠ 64 ∧ address ≠ 96)
    (outside : address < 100 ∨ 104 ≤ address) (elsewhere : address ≠ 4096 * ((inode + 1) % 1048576)) :
    (wideImage inode).bytes address = 0 := by
  simp only [wideImage, Image.wrapped]
  rw [Nat.mod_eq_of_lt small, if_neg (by omega), if_neg (by omega), if_neg (by omega), if_neg (by omega),
    if_neg (by omega)]

theorem wideImage_word {address : Nat} (small : address < 4294967292)
    (plain : address = 0 ∨ 8 ≤ address ∧ (64 < address ∨ address < 61))
    (high : address = 96 ∨ 104 ≤ address ∨ address < 93) (aligned : address % 4 = 0) :
    le32 (wideImage inode).bytes address = ((wideImage inode).bytes address).toNat := by
  have zeros : ∀ index, 1 ≤ index → index ≤ 3 → (wideImage inode).bytes (address + index) = 0 :=
    fun index lower upper => wideImage_zero (by omega) (by omega) (by omega) (by omega)
  rw [le32, zeros 1 (by omega) (by omega), zeros 2 (by omega) (by omega), zeros 3 (by omega) (by omega)]
  rfl

/-- The record of the last of 2^20 inodes lies over the boot block. -/
theorem wideImage_length : (wideImage inode).length inode = 1 := by
  have place : 4096 * (inode + 1) = 4096 * ((inode + 1) % 1048576) + 4294967296 * ((inode + 1) / 1048576) := by omega
  have byte : (wideImage inode).bytes (4096 * ((inode + 1) % 1048576)) = 1 := by
    simp only [wideImage, Image.wrapped]
    rw [Nat.mod_eq_of_lt (by omega), if_neg (by omega), if_neg (by omega), if_pos (by simp)]
  have wraps : (wideImage inode).Wraps := Image.wrapped_wraps _
  rw [Image.length, place, wraps.le32_eq, wideImage_word (by omega) (by omega) (by omega) (by omega),
    byte]
  rfl

theorem wideImage_length_other {other : Nat} (low : other < 256) (wide : 256 ≤ inode % 1048576) :
    (wideImage inode).length other = 0 := by
  rw [Image.length, wideImage_word (by omega) (by omega) (by omega) (by omega),
    wideImage_zero (by omega) (by omega) (by omega) (by omega)]
  rfl

theorem wideImage_fileType : ((wideImage inode).dentries 0).fileType = 2 := by
  have word : ((wideImage inode).dentries 0).fileType = le32 (wideImage inode).bytes 96 := rfl
  have elsewhere : ¬96 = 4096 * ((inode + 1) % 1048576) := by omega
  rw [word, wideImage_word (by omega) (by omega) (by omega) (by omega)]
  simp [wideImage, Image.wrapped, elsewhere]

theorem wideImage_lookup :
    readDentryByName (wideImage inode) wideName = some ((wideImage inode).dentries 0) := by
  have letter : ∀ i < 1, wideName i ≠ 0 := by decide
  have nonempty : strlen wideName addressSpace = 1 := strlen_eq (by decide) letter (by decide)
  have short : strlen wideName 32 = 1 := by decide
  refine readDentryByName_some.mpr ⟨?_, 0, by omega, rfl, ?_, fun j before => absurd before (by omega)⟩
  · rw [ne_eq, text_nil, nonempty]
    omega
  · refine text_eq_iff.mpr fun j bound within => ?_
    rw [short] at within
    have place : ((wideImage inode).dentries 0).fileName j = (wideImage inode).bytes (64 + j) := rfl
    have elsewhere : ¬64 = 4096 * ((inode + 1) % 1048576) := by omega
    rw [place]
    obtain rfl | rfl : j = 0 ∨ j = 1 := by omega
    · simp [wideImage, Image.wrapped, wideName, elsewhere]
    · rw [wideImage_zero (by omega) (by omega) (by omega) (by omega)]
      rfl

def wideEnv (inode : Nat) : Env := ⟨wideImage inode, fun _ => 0, 0⟩

/-- A shell with the file open on a descriptor. -/
def wideOpened (p : Slot) (fd : Fin 8) (inode : Nat) : Kernel :=
  baseShell.setFd p fd (openedFd ((baseShell.pcbs p).fdArr fd) .file inode)

theorem wideOpened_opens (room : inode < 4294967295) :
    sysOpen (wideEnv inode) baseShell wideName = .ok ((2 : Fin 8).val, wideOpened 0 2 inode) := by
  have caller : callerPcb baseShell = .ok (some 0) := rfl
  have opens : sysOpen (wideEnv inode) baseShell wideName = .ok ((2 : Fin 8).val, _) :=
    sysOpen_file caller wideImage_lookup wideImage_fileType rfl
  rw [opens, wideImage_entry_inode room, wideOpened]

theorem wideOpened_position : (((wideOpened 0 2 inode).pcbs 0).fdArr 2).filePosition = 0 := by
  rw [wideOpened, setFd_fdArr, Function.update_self, openedFd]

/-- The inode number that is left of a larger one belongs to an empty file. -/
theorem wideOpened_reads_nothing (wide : 256 ≤ inode % 1048576) :
    OneMemory.fread (wideEnv inode) (wideOpened 0 2 inode) 2 (fun _ => 0) 4 1 =
      .ok (0, fun _ => 0, wideOpened 0 2 inode) := by
  have held : Holding (wideOpened 0 2 inode) 0 2 (inode % 256) := openedFd_holding
  have short : (wideEnv inode).image.length (inode % 256) = 0 := wideImage_length_other (by omega) wide
  exact (held.reads rfl).ended (fun _ => 0) 4 1 (by rw [short]; exact Nat.zero_le _)

/-- A read of "f" is for its one byte. -/
theorem wideImage_copied (room : inode < 4294967295) : ∃ count, Copied (wideImage inode) inode 0 4 (fun _ => 0) 0 1
    count (readData (wideImage inode) inode 0 (fun _ => 0) 4 1) := by
  have length : (wideImage inode).length inode = 1 := wideImage_length
  have inodeExists : inode ≤ (wideImage inode).inodes := by
    rw [wideImage_inodes room]
    omega
  have spec : ∃ count, Copied (wideImage inode) inode 0 4 (fun _ => 0) 0 (min 1 ((wideImage inode).length inode - 0))
      count (readData (wideImage inode) inode 0 (fun _ => 0) 4 1) :=
    readData_requested inodeExists (by decide) (by omega) (by omega) (by decide) (by decide) (.inl rfl)
  rwa [length] at spec

theorem wide_not_openedReads (wide : 256 ≤ inode % 1048576) (room : inode < 4294967295) : ¬OpenedReads inode := by
  intro claim
  have inside : inode < (wideEnv inode).image.inodes := by
    rw [wideEnv, wideImage_inodes room]
    omega
  have reads := claim (wideEnv inode) baseShell (wideOpened 0 2 inode) (wideOpened 0 2 inode) 0 2 wideName _ []
    (Image.wrapped_wraps _) wideImage_lookup wideImage_fileType (wideImage_entry_inode room) inside rfl
    (wideOpened_opens room) .nil rfl
  have length : (wideEnv inode).image.length inode = 1 := wideImage_length
  obtain ⟨count, copied⟩ := wideImage_copied room
  have delivered := reads.delivered (fun _ => 0) 4 1
  simp only [length, wideOpened_position] at delivered
  have read := delivered (by decide) (copied.pageKept (by decide))
  rw [wideOpened_reads_nothing wide] at read
  split at read
  · cases read
  · have returned : 0 = (readData (wideImage inode) inode 0 (fun _ => 0) 4 1).ret :=
      (Prod.mk.inj (Except.ok.inj read)).1
    rcases copied.outcome with ⟨all, whole⟩ | ⟨failed, -⟩ <;> omega

/-- Of an inode number only its last 20 bits matter to a 32-bit machine, and of those
the descriptor keeps 8. -/
theorem openedReads_iff (inode : Nat) (room : inode < 4294967295) : OpenedReads inode ↔ inode % 1048576 < 256 :=
  ⟨fun reads => Nat.lt_of_not_le fun wide => wide_not_openedReads wide room reads, openedReads_small⟩

/-- The last inode number that fits into eight bits. -/
theorem openedReads_last : OpenedReads 255 := (openedReads_iff 255 (by decide)).mpr (by decide)

/-- The shell behind inode 0, and the file "f" of one byte behind inode 256. -/
def mixedImage : Image := Image.wrapped <| Image.ofRuns [
  (0, [2, 0, 0, 0, 1, 1, 0, 0, 1]),
  (64, literal "shell"), (96, [2]), (128, literal "f"), (160, [2, 0, 0, 0, 0, 1]),
  (4096, [28]), (1052672, [1]),
  (1056768, [0x7F, 0x45, 0x4C, 0x46]), (1056792, [0x18, 0x80, 0x04, 0x08])]

def mixedEnv : Env := ⟨mixedImage, fun _ => 0, 0⟩

def mixedShell : Kernel := stateAfter mixedEnv (multiTermInit .loaded) [.execute shellCommand .reset]

def mixedOpened (p : Slot) (fd : Fin 8) : Kernel :=
  mixedShell.setFd p fd (openedFd ((mixedShell.pcbs p).fdArr fd) .file 256)

/-- The first shell opens "f" and reads four bytes of its own program. -/
theorem mixedShell_misreads : ¬∀ (env : Env) (start opened : Kernel) (events : List Event) (p : Slot) (fd : Fin 8)
    (filename : Memory) (dentry : Dentry), env.image.Wraps → Run (Steps env) (multiTermInit .loaded) events start →
    readDentryByName env.image filename = some dentry → dentry.fileType = 2 →
    dentry.inode < env.image.inodes → callerPcb start = .ok (some p) →
    sysOpen env start filename = .ok (fd.val, opened) → ReadsFile env opened p fd dentry.inode := by
  intro claim
  have run : Run (Steps mixedEnv) (multiTermInit .loaded) [.execute shellCommand .reset] mixedShell :=
    stateAfter_run (by decide)
  have caller : callerPcb mixedShell = .ok (some 0) := rfl
  have opens : sysOpen mixedEnv mixedShell wideName = .ok ((2 : Fin 8).val, mixedOpened 0 2) := rfl
  have wanted : ReadsFile mixedEnv (mixedOpened 0 2) 0 2 256 :=
    claim mixedEnv mixedShell (mixedOpened 0 2) _ 0 2 wideName (mixedImage.dentries 1) (Image.wrapped_wraps _) run rfl
      (by decide) (by decide) caller opens
  have held : Holding (mixedOpened 0 2) 0 2 0 := openedFd_holding
  have file : Copied mixedImage 256 0 4 (fun _ => 0) 0 _ _ (readData mixedImage 256 0 (fun _ => 0) 4 (u32 4)) :=
    readData_firstBlock (by decide) (by decide) (by decide) (by decide) (by decide) (by decide) (by decide)
  have program : Copied mixedImage 0 0 4 (fun _ => 0) 0 _ _ (readData mixedImage 0 0 (fun _ => 0) 4 (u32 4)) :=
    readData_firstBlock (by decide) (by decide) (by decide) (by decide) (by decide) (by decide) (by decide)
  have same : (readData mixedImage 256 0 (fun _ => 0) 4 (u32 4)).ret =
      (readData mixedImage 0 0 (fun _ => 0) 4 (u32 4)).ret :=
    wanted.same_ret (held.reads rfl) rfl (by decide) (by decide) (file.pageKept (by decide))
      (program.pageKept (by decide))
  revert same
  decide

end Wide

end BozOS
