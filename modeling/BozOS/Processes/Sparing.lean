import BozOS.Kernel.OneMemory
import BozOS.Processes.Integrity

namespace BozOS

open Data Lib FileSystem

/-! A caller that keeps its buffers out of the kernel's page meets the kernel of the
modules before, whose variables are apart from the memory of its callers. -/

variable {env : Env} {k after : Kernel} {mem : Memory} {buf : Nat} {nbytes : Int} {cpu : Cpu} {event : Event}
  {events : List Event}

namespace OneMemory

theorem fread_kept {fd : Fin 8} {result : Int × Memory × Kernel}
    (called : fread env k fd mem buf nbytes = .ok result) (kept : PageKept mem result.2.1) :
    BozOS.fread env k fd mem buf nbytes = .ok result := by
  obtain ⟨self, tail, called⟩ := bind_ok.mp called
  rw [BozOS.fread, tail]
  cases self with
  | none => cases called
  | some p =>
      simp only [bind, Except.bind] at called ⊢
      split at called
      · rwa [if_pos ‹_›]
      · rename_i started
        rw [if_neg started]
        obtain ⟨k', stored, called⟩ := bind_ok.mp called
        have moved : PageKept mem (readData env.image ((k.pcbs p).fdArr fd).inodeNumber
            ((k.pcbs p).fdArr fd).filePosition mem buf (u32 nbytes)).mem := by
          split at called <;> cases called <;> exact kept
        cases stored.symm.trans (Kernel.stored_kept moved)
        exact called

theorem readOp_kept {fotp : Fotp} {fd : Fin 8} {result : Int × Memory × Kernel}
    (called : readOp env k fotp fd mem buf nbytes cpu = .ok result) (kept : PageKept mem result.2.1) :
    BozOS.readOp env k fotp fd mem buf nbytes cpu = .ok result := by
  cases fotp with
  | file => exact fread_kept called kept
  | stdin | stdout | dir | rtc =>
      obtain ⟨returned, read, called⟩ := bind_ok.mp called
      obtain ⟨k', stored, ended⟩ := bind_ok.mp called
      cases ended
      cases stored.symm.trans (Kernel.stored_kept kept)
      exact read

theorem sysRead_reads {fd : Int} {p : Slot} {entry : Fin 8} {fotp : Fotp}
    (reads : Reads k fd buf nbytes p entry fotp) :
    sysRead env k fd mem buf nbytes cpu = readOp env k fotp entry (k.seen env mem) buf nbytes cpu := by
  simp only [sysRead, reads.caller, bind, Except.bind, if_neg reads.accepted, reads.found, if_neg reads.used,
    reads.table]

/-- The two calls refuse the same requests. -/
theorem sysRead_outcome (env : Env) (k : Kernel) (fd : Int) (mem : Memory) (buf : Nat) (nbytes : Int) (cpu : Cpu) :
    (∃ stop, callerPcb k = .error stop ∧ sysRead env k fd mem buf nbytes cpu = .error stop) ∨
      (sysRead env k fd mem buf nbytes cpu = .ok (-1, k.seen env mem, k) ∧
        BozOS.sysRead env k fd (k.seen env mem) buf nbytes cpu = .ok (-1, k.seen env mem, k)) ∨
      ∃ p entry fotp, Reads k fd buf nbytes p entry fotp := by
  cases caller : callerPcb k with
  | error stop => exact .inl ⟨stop, rfl, by rw [sysRead, caller]; rfl⟩
  | ok self =>
      refine .inr ?_
      simp only [sysRead, BozOS.sysRead, caller, bind, Except.bind]
      cases self with
      | none => exact .inl ⟨rfl, rfl⟩
      | some p =>
          by_cases rejected : buf = 0 ∨ nbytes < 0
          · exact .inl ⟨if_pos rejected, if_pos rejected⟩
          simp only [if_neg rejected]
          cases found : fdOf fd with
          | none => exact .inl ⟨rfl, rfl⟩
          | some entry =>
              by_cases unused : ((k.pcbs p).fdArr entry).inUseFlag = 0
              · exact .inl ⟨if_pos unused, if_pos unused⟩
              simp only [if_neg unused]
              cases table : ((k.pcbs p).fdArr entry).fotp with
              | none => exact .inl ⟨rfl, rfl⟩
              | some fotp => exact .inr ⟨p, entry, fotp, caller, rejected, found, unused, table⟩

theorem sysRead_kept {fd : Int} {result : Int × Memory × Kernel}
    (called : sysRead env k fd mem buf nbytes cpu = .ok result) (kept : PageKept (k.seen env mem) result.2.1) :
    BozOS.sysRead env k fd (k.seen env mem) buf nbytes cpu = .ok result := by
  rcases sysRead_outcome env k fd mem buf nbytes cpu with
    ⟨stop, -, stopped⟩ | ⟨refused, same⟩ | ⟨p, entry, fotp, reads⟩
  · cases stopped.symm.trans called
  · exact Except.ok.inj (refused.symm.trans called) ▸ same
  · rw [sysRead_reads reads] at called
    exact reads.sysRead_eq.trans (readOp_kept called kept)

theorem getargs_kept {result : Int × Memory × Kernel} (called : getargs env k mem buf nbytes = .ok result)
    (kept : PageKept (k.seen env mem) result.2.1) :
    result.2.2 = k ∧ ∃ returned, BozOS.getargs env k (k.seen env mem) buf nbytes = .ok returned := by
  obtain ⟨self, caller, called⟩ := bind_ok.mp called
  simp only [BozOS.getargs, caller, bind, Except.bind]
  cases self with
  | none =>
      cases called
      exact ⟨rfl, _, rfl⟩
  | some p =>
      simp only at called ⊢
      split at called
      · cases called
        exact ⟨rfl, _, if_pos ‹_›⟩
      · rename_i argument
        obtain ⟨k', stored, ended⟩ := bind_ok.mp called
        cases ended
        cases stored.symm.trans (Kernel.stored_kept kept)
        exact ⟨rfl, _, if_neg argument⟩

end OneMemory

/-- The calls that store through a pointer they do not test. -/
def Event.stores : Event → Bool
  | .read .. | .getargs .. => true
  | _ => false

theorem OneMemory.sparing_of_stores (plain : event.stores = false) (step : BozOS.Steps env k event after) :
    SparingSteps env k event after := by
  cases event with
  | read | getargs => cases plain
  | execute | halt | write | «open» | close | vidmap | setHandler | sigreturn | tick | key | rtc =>
      exact ⟨step, trivial⟩

theorem OneMemory.steps_halt (halts : event.isHalt = true) :
    Steps env k event after ↔ BozOS.Steps env k event after := by
  cases event with
  | halt => exact Iff.rfl
  | read | getargs | execute | write | «open» | close | vidmap | setHandler | sigreturn | tick | key | rtc =>
      cases halts

/-- The event with the memory its call finds. -/
def Event.seen (env : Env) (k : Kernel) : Event → Event
  | .read fd mem buf nbytes cpu => .read fd (k.seen env mem) buf nbytes cpu
  | .getargs mem buf nbytes => .getargs (k.seen env mem) buf nbytes
  | event => event

@[simp] theorem Event.seen_isHalt : (event.seen env k).isHalt = event.isHalt := by cases event <;> rfl

/-- With a caller that spares the kernel's page, the step is one of the kernel
whose variables are apart. -/
theorem OneMemory.SparingSteps.steps (sparing : SparingSteps env k event after) :
    BozOS.Steps env k (event.seen env k) after := by
  obtain ⟨step, spares⟩ := sparing
  cases event with
  | read fd mem buf nbytes cpu =>
      obtain ⟨result, called, rfl⟩ := map_ok.mp step
      exact map_ok.mpr ⟨result, sysRead_kept called (spares result called), rfl⟩
  | getargs mem buf nbytes =>
      obtain ⟨result, called, rfl⟩ := map_ok.mp step
      obtain ⟨same, returned, ended⟩ := getargs_kept called (spares result called)
      exact map_ok.mpr ⟨returned, ended, same.symm⟩
  | execute | halt | write | «open» | close | vidmap | setHandler | sigreturn | tick | key | rtc => exact step

theorem OneMemory.sparing_run (run : Run (SparingSteps env) k events after) :
    ∃ seen, Run (BozOS.Steps env) k seen after :=
  run.relabel fun sparing => ⟨_, sparing.steps⟩

section ShellFile

variable {fd : Int} {p : Slot} {entry : Fin 8}

/-- The memory behind a copy from the start of the shell's file. -/
def shellStored (env : Env) (k : Kernel) (mem : Memory) (buf count : Nat) : Memory :=
  (k.seen env mem).blit buf (shellImage.content 0) count

theorem OneMemory.steps_read {ret : Int} {stored : Memory}
    (called : OneMemory.sysRead env k fd mem buf nbytes cpu = .ok (ret, stored, after)) :
    OneMemory.Steps env k (.read fd mem buf nbytes cpu) after :=
  map_ok.mpr ⟨_, called, rfl⟩

theorem sysRead_shell (cpu : Cpu) {stored : Kernel} (image : env.image = shellImage)
    (reads : Reads k fd buf nbytes p entry .file)
    (inode : ((k.pcbs p).fdArr entry).inodeNumber = 0) (position : ((k.pcbs p).fdArr entry).filePosition = 0)
    (asked : 0 < nbytes) (short : nbytes ≤ 28)
    (ends : k.stored env (k.seen env mem) (shellStored env k mem buf nbytes.toNat) = .ok stored) :
    OneMemory.sysRead env k fd mem buf nbytes cpu = .ok (nbytes, shellStored env k mem buf nbytes.toNat,
      stored.setFd p entry { (stored.pcbs p).fdArr entry with
        filePosition := u32 (((stored.pcbs p).fdArr entry).filePosition + nbytes) }) := by
  have target : buf ≠ 0 := fun null => reads.accepted (.inl null)
  have word : u32 nbytes = nbytes.toNat := u32_of_range (by omega) (by omega)
  have unread : ¬((k.pcbs p).fdArr entry).filePosition ≥ env.image.length ((k.pcbs p).fdArr entry).inodeNumber := by
    rw [inode, position, image]
    decide
  have copied : Copied shellImage 0 0 buf (k.seen env mem) 0 (min nbytes.toNat 28) (min nbytes.toNat 28)
      (readData shellImage 0 0 (k.seen env mem) buf nbytes.toNat) :=
    shellImage_read _ target (by omega) (by omega)
  have whole : min nbytes.toNat 28 = nbytes.toNat := by omega
  have memory : (readData shellImage 0 0 (k.seen env mem) buf nbytes.toNat).mem =
      shellStored env k mem buf nbytes.toNat := by
    simpa [whole, shellStored] using copied.memory
  have ret : (readData shellImage 0 0 (k.seen env mem) buf nbytes.toNat).ret = nbytes := by
    rw [shellImage_ret target (by omega) (by omega), whole]
    omega
  rw [OneMemory.sysRead_reads reads, OneMemory.readOp, OneMemory.fread, callerPcb_ok.mp reads.caller]
  simp only [bind, Except.bind, if_neg unread]
  rw [inode, position, image, word, memory, ends]
  simp only [ret, if_neg (show ¬nbytes = -1 by omega)]
  rfl

/-- A read from the start of the shell's file into other memory. -/
theorem sysRead_shell_sparing (mem : Memory) (cpu : Cpu) (image : env.image = shellImage)
    (reads : Reads k fd buf nbytes p entry .file)
    (inode : ((k.pcbs p).fdArr entry).inodeNumber = 0) (position : ((k.pcbs p).fdArr entry).filePosition = 0)
    (asked : 0 < nbytes) (short : nbytes ≤ 28) (outside : buf + nbytes ≤ 0x400000 ∨ 0x800000 ≤ buf) :
    OneMemory.SparingSteps env k (.read fd mem buf nbytes cpu)
      (k.setFd p entry { (k.pcbs p).fdArr entry with filePosition := u32 nbytes }) := by
  have kept : PageKept (k.seen env mem) (shellStored env k mem buf nbytes.toNat) := .blit (by omega)
  have called := sysRead_shell cpu image reads inode position asked short (Kernel.stored_kept kept)
  rw [position, show ((0 : Nat) : Int) + nbytes = nbytes by omega] at called
  refine ⟨OneMemory.steps_read called, fun result read => ?_⟩
  cases called.symm.trans read
  exact kept

end ShellFile

section Overwriting

/-- The shell's image under a kernel whose tables are not at `NULL`. -/
def tableEnv : Env where
  image := shellImage
  fotpAddr
    | .stdin => 0x410000
    | .stdout => 0x410010
    | .file => 0x410020
    | .dir => 0x410030
    | .rtc => 0x410040
  vidmapPtableAddr := 0x411000

theorem tableEnv_loadable : Loadable tableEnv := ⟨shellEnv_loadable.shell, shellEnv_loadable.loads⟩

def baseTable : Kernel := stateAfter tableEnv (multiTermInit .loaded) [.execute shellCommand .reset]

/-- `fd_arr[1].in_use_flag` of process 0. -/
def flagAddr : Nat := 0x7FE0A0

def flagOverwritten (k : Kernel) (mem : Memory) : Kernel :=
  k.setPcb 0 (.ofBytes tableEnv (pcbBytes (shellStored tableEnv k mem flagAddr 1) 0))

/-- The shell's first byte makes the flag 0x7F. -/
theorem flag_stored (flag : ((k.pcbs 0).fdArr 1).inUseFlag = 1)
    (known : PointersKnown tableEnv (pcbBytes (shellStored tableEnv k mem flagAddr 1) 0)) :
    k.stored tableEnv (k.seen tableEnv mem) (shellStored tableEnv k mem flagAddr 1) =
      .ok (flagOverwritten k mem) := by
  have before : pcbBytes (k.seen tableEnv mem) 0 160 = 1 := by
    have byte : (k.pcbs 0).byte tableEnv 160 = UInt8.ofNat ((k.pcbs 0).fdArr 1).inUseFlag := rfl
    rw [pcbBytes, Kernel.seen_pcb (by decide), byte, flag]
    rfl
  have stored : pcbBytes (shellStored tableEnv k mem flagAddr 1) 0 160 = 0x7F := by
    rw [pcbBytes, shellStored, Memory.blit_at (by decide) (by decide)]
    decide
  refine Kernel.stored_pcb 160 1 (by decide) (fun address outside => ?_)
    ⟨160, by decide, by rw [before, stored]; decide⟩ known
  exact Memory.blit_outside outside

/-- The kernel behind `read(fd, flagAddr, 1)` on the shell's file. -/
def flagRead (k : Kernel) (mem : Memory) (p : Slot) (entry : Fin 8) : Kernel :=
  (flagOverwritten k mem).setFd p entry { ((flagOverwritten k mem).pcbs p).fdArr entry with
    filePosition := u32 ((((flagOverwritten k mem).pcbs p).fdArr entry).filePosition + 1) }

theorem sysRead_flag (mem : Memory) (cpu : Cpu) {fd : Int} {p : Slot} {entry : Fin 8}
    (reads : Reads k fd flagAddr 1 p entry .file)
    (inode : ((k.pcbs p).fdArr entry).inodeNumber = 0) (position : ((k.pcbs p).fdArr entry).filePosition = 0)
    (flag : ((k.pcbs 0).fdArr 1).inUseFlag = 1)
    (known : PointersKnown tableEnv (pcbBytes (shellStored tableEnv k mem flagAddr 1) 0)) :
    OneMemory.sysRead tableEnv k fd mem flagAddr 1 cpu =
      .ok (1, shellStored tableEnv k mem flagAddr 1, flagRead k mem p entry) :=
  sysRead_shell cpu rfl reads inode position (by decide) (by decide) (flag_stored flag known)

end Overwriting

end BozOS
