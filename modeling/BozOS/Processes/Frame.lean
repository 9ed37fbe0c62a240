import BozOS.Kernel.Effects
import BozOS.Kernel.System

namespace BozOS

open Data Lib

/-! What the calls and interrupts leave alone. `ProcessFrame` is the part of the
kernel that makes up the processes: the lists, the table, the PCBs, the running
task and its mapping. Screen, keyboard and device code keeps all of it; the
descriptor calls change the descriptors of their caller, which `CallFrame`
allows. -/

structure ProcessFrame (before after : Kernel) : Prop where
  heads : ∀ t, (after.terminalTable t).pcbHead = (before.terminalTable t).pcbHead
  usage : after.processUsage = before.processUsage
  pcbs : after.pcbs = before.pcbs
  task : after.activeTask = before.activeTask
  page : after.pageDirectory 32 = before.pageDirectory 32
  stack : after.tssEsp0 = before.tssEsp0
  listing : after.dreadLoc = before.dreadLoc

/-- A change of descriptors of the process `caller`, if there is one. -/
structure CallFrame (caller : Option Slot) (before after : Kernel) : Prop where
  heads : ∀ t, (after.terminalTable t).pcbHead = (before.terminalTable t).pcbHead
  usage : after.processUsage = before.processUsage
  others : ∀ p, caller ≠ some p → after.pcbs p = before.pcbs p
  descriptors : ∀ p, ∃ fdArr, after.pcbs p = { before.pcbs p with fdArr := fdArr }
  task : after.activeTask = before.activeTask
  page : after.pageDirectory 32 = before.pageDirectory 32
  stack : after.tssEsp0 = before.tssEsp0

variable {k middle after : Kernel} {self : Option Slot}

theorem ProcessFrame.refl : ProcessFrame k k := ⟨fun _ => rfl, rfl, rfl, rfl, rfl, rfl, rfl⟩

theorem ProcessFrame.trans (first : ProcessFrame k middle) (second : ProcessFrame middle after) :
    ProcessFrame k after where
  heads t := (second.heads t).trans (first.heads t)
  usage := second.usage.trans first.usage
  pcbs := second.pcbs.trans first.pcbs
  task := second.task.trans first.task
  page := second.page.trans first.page
  stack := second.stack.trans first.stack
  listing := second.listing.trans first.listing

theorem ProcessFrame.toCallFrame (frame : ProcessFrame k after) : CallFrame self k after where
  heads := frame.heads
  usage := frame.usage
  others p _ := by rw [frame.pcbs]
  descriptors p := ⟨(k.pcbs p).fdArr, by rw [frame.pcbs]⟩
  task := frame.task
  page := frame.page
  stack := frame.stack

theorem ProcessFrame.setTerm {t : TermId} {term : Term} (frame : ProcessFrame k after)
    (kept : term.pcbHead = (k.terminalTable t).pcbHead) : ProcessFrame k (after.setTerm t term) where
  heads u := by
    by_cases same : u = t
    · subst same
      rw [Kernel.setTerm_same, kept]
    · rw [Kernel.setTerm_other same, frame.heads]
  usage := frame.usage
  pcbs := frame.pcbs
  task := frame.task
  page := frame.page
  stack := frame.stack
  listing := frame.listing

theorem CallFrame.setFd {p : Slot} {fd : Fin 8} {entry : Fd} (frame : ProcessFrame k after) :
    CallFrame (some p) k (after.setFd p fd entry) where
  heads := frame.heads
  usage := frame.usage
  others q different := by
    rw [Kernel.setFd, Kernel.setPcb_other (fun same => different (congrArg some same.symm)), frame.pcbs]
  descriptors q := by
    by_cases same : q = p
    · subst same
      exact ⟨_, by rw [Kernel.setFd, Kernel.setPcb_same, frame.pcbs]⟩
    · exact ⟨(k.pcbs q).fdArr, by rw [Kernel.setFd, Kernel.setPcb_other same, frame.pcbs]⟩
  task := frame.task
  page := frame.page
  stack := frame.stack

section Keyboard

theorem ScreenFrame.process (frame : ScreenFrame k after) : ProcessFrame k after := by
  obtain ⟨_, _, _, _, rfl⟩ := frame
  exact ⟨fun _ => rfl, rfl, rfl, rfl, rfl, rfl, rfl⟩

theorem switchTerminal_frame (k : Kernel) (newTerminal : Nat) : ProcessFrame k (switchTerminal k newTerminal) := by
  unfold switchTerminal
  split
  · split
    · exact .refl
    · have saved : ProcessFrame k (k.setTerm k.activeTerminal
          { k.terminalTable k.activeTerminal with
            kbBuf := (k.terminalTable k.activeTerminal).kbBuf.blit 0 k.kbBuf 128 }) :=
        ProcessFrame.refl.setTerm rfl
      exact ⟨saved.heads, rfl, rfl, rfl, rfl, rfl, rfl⟩
  · exact .refl

theorem kbBuf_frame {buffer : Memory} : ProcessFrame k { k with kbBuf := buffer } :=
  ⟨fun _ => rfl, rfl, rfl, rfl, rfl, rfl, rfl⟩

theorem scanned_frame {scanCode : UInt8} {result : Nat × Kernel} (scanned : Scanned k scanCode result) :
    ProcessFrame k result.2 := by
  cases scanned with
  | modifier keyStatus => exact ⟨fun _ => rfl, rfl, rfl, rfl, rfl, rfl, rfl⟩
  | clear pressed => exact clearScreen_screenFrame.process.trans kbBuf_frame
  | switch t => exact switchTerminal_frame k t
  | enter pressed => exact ⟨fun _ => rfl, rfl, rfl, rfl, rfl, rfl, rfl⟩
  | character other => exact .refl

theorem copyKbBuf_frame : ProcessFrame k (copyKbBuf k) := ⟨fun _ => rfl, rfl, rfl, rfl, rfl, rfl, rfl⟩

theorem handleKey_frame {c : UInt8} : ProcessFrame k (handleKey k c) := by
  unfold handleKey
  split
  · exact kbBuf_frame.trans delCharFromBuf_screenFrame.process
  split
  · exact (kbBuf_frame.trans addCharToBuf_screenFrame.process).trans copyKbBuf_frame
  split
  · exact kbBuf_frame.trans addCharToBuf_screenFrame.process
  · exact .refl

theorem kbIntHandler_frame {scanCode : UInt8} : ProcessFrame k (kbIntHandler k scanCode) := by
  rw [kbIntHandler]
  exact (scanned_frame (getScanCode_scanned k scanCode)).trans handleKey_frame

end Keyboard

section Calls

variable {env : Env} {fd : Int} {mem : Memory} {buf : Nat} {nbytes : Int} {cpu : Cpu}

theorem callerPcb_ok : callerPcb k = .ok self ↔ getPCBTail k k.activeTask = .ok self := by
  have below : ∀ p : Slot, ¬pcbAddr p ≥ 0x800000 := by decide
  unfold callerPcb
  rw [bind_ok]
  constructor
  · rintro ⟨tail, found, returned⟩
    cases tail with
    | none => cases returned; exact found
    | some p =>
        simp only [if_neg (below p)] at returned
        cases returned
        exact found
  · intro found
    refine ⟨self, found, ?_⟩
    cases self with
    | none => rfl
    | some p => simp only [if_neg (below p)]; rfl

/-- A `read` that gets as far as a handler. -/
structure Reads (k : Kernel) (fd : Int) (buf : Nat) (nbytes : Int) (p : Slot) (entry : Fin 8) (fotp : Fotp) :
    Prop where
  caller : callerPcb k = .ok (some p)
  accepted : ¬(buf = 0 ∨ nbytes < 0)
  found : fdOf fd = some entry
  used : ((k.pcbs p).fdArr entry).inUseFlag ≠ 0
  table : ((k.pcbs p).fdArr entry).fotp = some fotp

theorem Reads.sysRead_eq {p : Slot} {entry : Fin 8} {fotp : Fotp} (reads : Reads k fd buf nbytes p entry fotp) :
    sysRead env k fd mem buf nbytes cpu = readOp env k fotp entry mem buf nbytes cpu := by
  simp only [sysRead, reads.caller, bind, Except.bind, if_neg reads.accepted, reads.found, if_neg reads.used,
    reads.table]

/-- A read does not get past the walk to its process, is refused, or comes to an
operation. -/
theorem sysRead_outcome (env : Env) (k : Kernel) (fd : Int) (mem : Memory) (buf : Nat) (nbytes : Int) (cpu : Cpu) :
    (∃ stop, callerPcb k = .error stop ∧ sysRead env k fd mem buf nbytes cpu = .error stop) ∨
      sysRead env k fd mem buf nbytes cpu = .ok (-1, mem, k) ∨
      ∃ p entry fotp, Reads k fd buf nbytes p entry fotp := by
  cases caller : callerPcb k with
  | error stop => exact .inl ⟨stop, rfl, by rw [sysRead, caller]; rfl⟩
  | ok self =>
      refine .inr ?_
      simp only [sysRead, caller, bind, Except.bind]
      cases self with
      | none => exact .inl rfl
      | some p =>
          simp only
          split
          · exact .inl rfl
          rename_i accepted
          split
          · exact .inl rfl
          rename_i entry found
          split
          · exact .inl rfl
          rename_i used
          split
          · exact .inl rfl
          · rename_i fotp table
            exact .inr ⟨p, entry, fotp, caller, accepted, found, used, table⟩

theorem sysRead_cases {result : Int × Memory × Kernel} (called : sysRead env k fd mem buf nbytes cpu = .ok result) :
    result = (-1, mem, k) ∨ ∃ p entry fotp, Reads k fd buf nbytes p entry fotp ∧
      readOp env k fotp entry mem buf nbytes cpu = .ok result := by
  rcases sysRead_outcome env k fd mem buf nbytes cpu with ⟨stop, -, stopped⟩ | refused | ⟨p, entry, fotp, reads⟩
  · cases called.symm.trans stopped
  · exact .inl (Except.ok.inj (called.symm.trans refused))
  · exact .inr ⟨p, entry, fotp, reads, reads.sysRead_eq.symm.trans called⟩

theorem CallFrame.sameCaller (frame : CallFrame self k after) : callerPcb after = callerPcb k := by
  have children : after.child = k.child := by
    funext p
    obtain ⟨fdArr, same⟩ := frame.descriptors p
    rw [Kernel.child, same, Kernel.child]
  unfold callerPcb getPCBTail walkToTail
  rw [frame.task, frame.heads, children]

theorem terminalRead_frame {result : Int × Memory × Kernel} (called : terminalRead k mem buf nbytes = .ok result) :
    ProcessFrame k result.2.2 := by
  unfold terminalRead at called
  split at called
  · cases called; exact .refl
  split at called
  · cases called
  · obtain ⟨source, _, returned⟩ := bind_ok.mp called
    cases returned
    exact ⟨fun _ => rfl, rfl, rfl, rfl, rfl, rfl, rfl⟩

theorem terminalWriteFrom_screenFrame {flag fuel i : Nat} :
    ScreenFrame k (terminalWriteFrom flag mem buf fuel i k).2 := by
  induction fuel generalizing i k with
  | zero => exact .refl
  | succ fuel ih =>
      unfold terminalWriteFrom
      split
      · exact putc_screenFrame
      · exact putc_screenFrame.trans ih

/-- What a `write` can change: the screens, or the rate of the clock. -/
def OutputFrame (before after : Kernel) : Prop := ∃ regA, ScreenFrame { before with rtcRegA := regA } after

theorem ScreenFrame.output (frame : ScreenFrame k after) : OutputFrame k after := ⟨k.rtcRegA, frame⟩

theorem OutputFrame.process (frame : OutputFrame k after) : ProcessFrame k after := by
  obtain ⟨regA, frame⟩ := frame
  have set : ProcessFrame k { k with rtcRegA := regA } := ⟨fun _ => rfl, rfl, rfl, rfl, rfl, rfl, rfl⟩
  exact set.trans frame.process

theorem rtcSetRate_output {rate : Nat} : OutputFrame k (rtcSetRate k rate).2 := by
  unfold rtcSetRate
  split
  · exact ScreenFrame.refl.output
  · exact ⟨_, .refl⟩

/-- What a descriptor call can do: set the rate of the clock, and change one
descriptor of its caller. -/
inductive DescriptorFrame (k : Kernel) : Kernel → Prop where
  | kept {after : Kernel} (frame : OutputFrame k after) : DescriptorFrame k after
  | set {middle : Kernel} {p : Slot} {entry : Fin 8} {descriptor : Fd} (frame : OutputFrame k middle)
      (caller : callerPcb k = .ok (some p)) : DescriptorFrame k (middle.setFd p entry descriptor)

theorem DescriptorFrame.refl : DescriptorFrame k k := .kept ScreenFrame.refl.output

/-- A call acts for `self`, unless it never gets to know its caller. -/
def ActsFor (k : Kernel) (self : Option Slot) : Prop := ∀ caller, callerPcb k = .ok caller → caller = self

theorem DescriptorFrame.call (frame : DescriptorFrame k after) (acts : ActsFor k self) : CallFrame self k after := by
  cases frame with
  | kept frame => exact frame.process.toCallFrame
  | set frame caller =>
      cases acts _ caller
      exact CallFrame.setFd frame.process

theorem DescriptorFrame.listing (frame : DescriptorFrame k after) : after.dreadLoc = k.dreadLoc := by
  cases frame with
  | kept frame => exact frame.process.listing
  | set frame caller => exact frame.process.listing

theorem fread_descriptorFrame {entry : Fin 8} {result : Int × Memory × Kernel}
    (called : fread env k entry mem buf nbytes = .ok result) : DescriptorFrame k result.2.2 := by
  obtain ⟨found, tail, called⟩ := bind_ok.mp called
  cases found with
  | none => cases called
  | some p =>
      simp only at called
      split at called
      · cases called; exact .refl
      split at called
      · cases called; exact .refl
      · cases called; exact .set ScreenFrame.refl.output (callerPcb_ok.mpr tail)

theorem dread_kernel (env : Env) (k : Kernel) (mem : Memory) (buf : Nat) (cpu : Cpu) :
    ∃ cursor, (dread env k mem buf cpu).2.2 = { k with dreadLoc := cursor } := by
  unfold dread
  split <;> exact ⟨_, rfl⟩

theorem dread_frame : CallFrame self k (dread env k mem buf cpu).2.2 := by
  obtain ⟨cursor, moved⟩ := dread_kernel env k mem buf cpu
  rw [moved]
  exact ⟨fun _ => rfl, rfl, fun _ _ => rfl, fun p => ⟨(k.pcbs p).fdArr, rfl⟩, rfl, rfl, rfl⟩

theorem rtcRead_frame {result : Int × Kernel} (called : rtcRead k = .ok result) :
    ProcessFrame k result.2 := by
  unfold rtcRead at called
  split at called
  · cases called
  · cases called; exact ⟨fun _ => rfl, rfl, rfl, rfl, rfl, rfl, rfl⟩

theorem readOp_frame {fotp : Fotp} {entry : Fin 8} {result : Int × Memory × Kernel} (acts : ActsFor k self)
    (called : readOp env k fotp entry mem buf nbytes cpu = .ok result) : CallFrame self k result.2.2 := by
  cases fotp with
  | stdin => exact (terminalRead_frame called).toCallFrame
  | stdout => cases called; exact ProcessFrame.refl.toCallFrame
  | file => exact (fread_descriptorFrame called).call acts
  | dir => cases called; exact dread_frame
  | rtc =>
      obtain ⟨value, read, rfl⟩ := map_ok.mp called
      exact (rtcRead_frame read).toCallFrame

theorem writeOp_output {fotp : Fotp} {entry : Fin 8} {result : Int × Kernel}
    (called : writeOp k fotp entry mem buf nbytes = .ok result) : OutputFrame k result.2 := by
  cases fotp with
  | stdin => cases called; exact ScreenFrame.refl.output
  | stdout =>
      simp only [writeOp, terminalWrite] at called
      split at called
      · cases called; exact ScreenFrame.refl.output
      · obtain ⟨tail, _, called⟩ := bind_ok.mp called
        cases tail with
        | none => cases called
        | some p => cases called; exact terminalWriteFrom_screenFrame.output
  | file => cases called; exact ScreenFrame.refl.output
  | dir => cases called; exact ScreenFrame.refl.output
  | rtc =>
      simp only [writeOp, rtcWrite] at called
      split at called
      · cases called; exact ScreenFrame.refl.output
      · cases called; exact rtcSetRate_output

theorem sysRead_frame {result : Int × Memory × Kernel} (acts : ActsFor k self)
    (called : sysRead env k fd mem buf nbytes cpu = .ok result) : CallFrame self k result.2.2 := by
  rcases sysRead_cases called with rfl | ⟨p, entry, fotp, -, read⟩
  · exact ProcessFrame.refl.toCallFrame
  · exact readOp_frame acts read

theorem sysWrite_output {result : Int × Kernel} (called : sysWrite k fd mem buf nbytes = .ok result) :
    OutputFrame k result.2 := by
  obtain ⟨caller, -, called⟩ := bind_ok.mp called
  cases caller with
  | none => cases called; exact ScreenFrame.refl.output
  | some p =>
      simp only at called
      split at called
      · cases called; exact ScreenFrame.refl.output
      split at called
      · cases called; exact ScreenFrame.refl.output
      split at called
      · cases called; exact ScreenFrame.refl.output
      split at called
      · cases called
      · exact writeOp_output called

theorem sysWrite_frame {result : Int × Kernel} (called : sysWrite k fd mem buf nbytes = .ok result) :
    ProcessFrame k result.2 := (sysWrite_output called).process

theorem sysOpen_descriptorFrame {filename : Memory} {result : Int × Kernel}
    (called : sysOpen env k filename = .ok result) : DescriptorFrame k result.2 := by
  obtain ⟨found, caller, called⟩ := bind_ok.mp called
  cases found with
  | none => cases called; exact .refl
  | some p =>
      simp only at called
      split at called
      · cases called; exact .refl
      split at called
      · cases called; exact .refl
      split at called
      · cases called; exact .set ScreenFrame.refl.output caller
      split at called
      · split at called
        · cases called; exact .refl
        · cases called; exact .set ScreenFrame.refl.output caller
      split at called
      · split at called
        · cases called; exact .kept rtcSetRate_output
        · cases called; exact .set rtcSetRate_output caller
      · cases called; exact .refl

theorem sysClose_descriptorFrame {result : Int × Kernel} (called : sysClose k fd = .ok result) :
    DescriptorFrame k result.2 := by
  obtain ⟨found, caller, called⟩ := bind_ok.mp called
  cases found with
  | none => cases called; exact .refl
  | some p =>
      simp only at called
      split at called
      · cases called; exact .refl
      split at called
      · cases called; exact .refl
      split at called
      · cases called; exact .refl
      split at called
      · cases called
      split at called
      · cases called; exact .refl
      · cases called; exact .set ScreenFrame.refl.output caller

theorem vidmap_frame {screenStart : Nat} : ProcessFrame k (vidmap env k mem screenStart).2.2 := by
  unfold vidmap
  split
  · exact .refl
  split
  · exact .refl
  · have kept : Function.update k.pageDirectory 34 (env.vidmapPtableAddr ||| 0x7) 32 = k.pageDirectory 32 :=
      Function.update_of_ne (by decide) ..
    exact ⟨fun _ => rfl, rfl, rfl, rfl, kept, rfl, rfl⟩

theorem rtcHandler_frame : ProcessFrame k (rtcHandler k) := ⟨fun _ => rfl, rfl, rfl, rfl, rfl, rfl, rfl⟩

theorem setHandler_screenFrame : ScreenFrame k (setHandler k).2 := by
  simp only [setHandler]
  exact puts_screenFrame

theorem sigreturn_screenFrame : ScreenFrame k (sigreturn k).2 := by
  simp only [sigreturn]
  exact puts_screenFrame

end Calls

/-- The events that start, end or switch processes; all others keep the process
table. -/
def Event.managesProcesses : Event → Bool
  | .execute .. | .halt .. | .tick .. => true
  | _ => false

/-- What every other call and interrupt does to the processes: at most it
changes descriptors of the process it acts for. -/
theorem ActsFor.frame {env : Env} {event : Event} (acts : ActsFor k self) (plain : event.managesProcesses = false)
    (step : Steps env k event after) : CallFrame self k after := by
  unfold Steps at step
  cases event with
  | execute command cpu => cases plain
  | halt status cpu => cases plain
  | tick cpu => cases plain
  | read fd mem buf nbytes cpu =>
      obtain ⟨value, called, rfl⟩ := map_ok.mp step
      exact sysRead_frame acts called
  | write fd mem buf nbytes =>
      obtain ⟨value, called, rfl⟩ := map_ok.mp step
      exact (sysWrite_frame called).toCallFrame
  | «open» filename =>
      obtain ⟨value, called, rfl⟩ := map_ok.mp step
      exact (sysOpen_descriptorFrame called).call acts
  | close fd =>
      obtain ⟨value, called, rfl⟩ := map_ok.mp step
      exact (sysClose_descriptorFrame called).call acts
  | getargs mem buf nbytes =>
      obtain ⟨value, -, rfl⟩ := map_ok.mp step
      exact ProcessFrame.refl.toCallFrame
  | vidmap mem screenStart => exact Except.ok.inj step ▸ vidmap_frame.toCallFrame
  | setHandler => exact Except.ok.inj step ▸ setHandler_screenFrame.process.toCallFrame
  | sigreturn => exact Except.ok.inj step ▸ sigreturn_screenFrame.process.toCallFrame
  | key scanCode => exact Except.ok.inj step ▸ kbIntHandler_frame.toCallFrame
  | rtc => exact Except.ok.inj step ▸ rtcHandler_frame.toCallFrame

theorem next_frame {env : Env} {event : Event} (plain : event.managesProcesses = false)
    (tail : getPCBTail k k.activeTask = .ok self) (step : Steps env k event after) :
    CallFrame self k after := by
  refine ActsFor.frame (fun caller found => ?_) plain step
  cases tail.symm.trans (callerPcb_ok.mp found)
  rfl

/-- The same without a look at the list: a call that reads the list of the
running task only returns when that list ends. -/
theorem next_callFrame {env : Env} {event : Event} (plain : event.managesProcesses = false)
    (step : Steps env k event after) : ∃ self, CallFrame self k after := by
  cases tail : getPCBTail k k.activeTask with
  | ok self => exact ⟨self, next_frame plain tail step⟩
  | error stop =>
      refine ⟨none, ActsFor.frame (fun caller found => ?_) plain step⟩
      cases tail.symm.trans (callerPcb_ok.mp found)

end BozOS
