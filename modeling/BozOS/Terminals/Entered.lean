import BozOS.Descriptors.Completion
import BozOS.Terminals.Input

namespace BozOS

open Data Lib FileSystem

/-! The lines typed during a run of the whole kernel. The calls of the processes and
the other interrupts come between the keys; of them only a `read` of the keyboard
touches what was typed. -/

/-- A `read` that gets as far as `terminal_read`. -/
def readsKeyboard (k : Kernel) (fd : Int) (buf : Nat) (nbytes : Int) : Bool :=
  match callerPcb k, fdOf fd with
  | .ok (some p), some entry => decide (¬(buf = 0 ∨ nbytes < 0) ∧ ((k.pcbs p).fdArr entry).inUseFlag ≠ 0 ∧
      ((k.pcbs p).fdArr entry).fotp = some .stdin)
  | _, _ => false

/-- What an event adds to the history. A line that has been read is the latest no
more. -/
def InputHistory.observe (h : InputHistory) (k : Kernel) : Event → InputHistory
  | .key scanCode => h.press k.activeTerminal (keystroke k scanCode)
  | .read fd _ buf nbytes _ => if readsKeyboard k fd buf nbytes then { h with latest := none } else h
  | _ => h

/-- A step of the kernel, with the history beside it. -/
def observedNext (env : Env) (s : Kernel × InputHistory) (event : Event) : Except Stop (Kernel × InputHistory) :=
  (next env s.1 event).map fun k => (k, s.2.observe s.1 event)

def Observed (env : Env) (s : Kernel × InputHistory) (event : Event) (next : Kernel × InputHistory) : Prop :=
  observedNext env s event = .ok next

variable {env : Env} {k after : Kernel} {h : InputHistory} {event : Event} {events : List Event} {fd : Int}
  {mem : Memory} {buf : Nat} {nbytes : Int} {cpu : Cpu} {t : TermId} {p : Slot} {line : Line}

theorem Reads.readsKeyboard {entry : Fin 8} (reads : Reads k fd buf nbytes p entry .stdin) :
    readsKeyboard k fd buf nbytes = true := by
  simp only [BozOS.readsKeyboard, reads.caller, reads.found, decide_eq_true_eq]
  exact ⟨reads.accepted, reads.used, reads.table⟩

section Invariant

/-- What neither the screens nor the processes are concerned with. -/
structure TypingFrame (before after : Kernel) : Prop where
  shown : after.activeTerminal = before.activeTerminal
  input : InputFrame before after

theorem ManageFrame.typing (frame : ManageFrame k after) : TypingFrame k after := ⟨frame.device.shown, frame.input⟩

theorem OutputFrame.typing (frame : OutputFrame k after) : TypingFrame k after := by
  obtain ⟨regA, screen⟩ := frame
  exact ⟨screen.manage.device.shown, OutputFrame.input ⟨regA, screen⟩⟩

theorem DescriptorFrame.typing (frame : DescriptorFrame k after) : TypingFrame k after := by
  cases frame with
  | kept output => exact output.typing
  | set output caller => exact ⟨output.typing.shown, DescriptorFrame.input (.set output caller)⟩

theorem InputInv.kept (inv : InputInv k h) (frame : TypingFrame k after) : InputInv after h :=
  inv.congr frame.shown frame.input.kbBuf frame.input.saved frame.input.intBuf

/-- A `read` of anything else. -/
theorem sysRead_typing {result : Int × Memory × Kernel} (called : sysRead env k fd mem buf nbytes cpu = .ok result)
    (elsewhere : readsKeyboard k fd buf nbytes = false) : TypingFrame k result.2.2 := by
  rcases sysRead_cases called with rfl | ⟨p, entry, fotp, reads, read⟩
  · exact ⟨rfl, .refl⟩
  cases fotp with
  | stdin =>
      rw [reads.readsKeyboard] at elsewhere
      cases elsewhere
  | stdout =>
      cases read
      exact ⟨rfl, .refl⟩
  | file => exact (fread_descriptorFrame read).typing
  | dir =>
      cases read
      obtain ⟨cursor, moved⟩ := dread_kernel env k mem buf cpu
      rw [moved]
      exact ⟨rfl, rfl, rfl, fun _ => rfl⟩
  | rtc =>
      obtain ⟨value, ticked, rfl⟩ := map_ok.mp read
      unfold rtcRead at ticked
      split at ticked
      · cases ticked
      · cases ticked
        exact ⟨rfl, rfl, rfl, fun _ => rfl⟩

/-- Whichever line a reader takes, the lines being typed stay. -/
theorem sysRead_typed {result : Int × Memory × Kernel} (called : sysRead env k fd mem buf nbytes cpu = .ok result)
    (t : TermId) : lineBuffer result.2.2 t = lineBuffer k t := by
  cases keyboard : readsKeyboard k fd buf nbytes with
  | false =>
      have frame := sysRead_typing called keyboard
      rw [lineBuffer, frame.shown, frame.input.kbBuf, frame.input.saved, lineBuffer]
  | true =>
      rcases sysRead_cases called with rfl | ⟨p, entry, fotp, reads, read⟩
      · rfl
      simp only [readsKeyboard, reads.caller, reads.found, reads.table, decide_eq_true_eq] at keyboard
      obtain rfl : fotp = .stdin := Option.some.inj keyboard.2.2
      rw [readOp, terminalRead, if_neg reads.accepted] at read
      split at read
      · cases read
      · obtain ⟨source, -, moved⟩ := bind_ok.mp read
        cases moved
        rfl

/-- Every event of a run that has no entry of its own in the history. -/
theorem next_typing (step : Steps env k event after) (key : ∀ scanCode, event ≠ .key scanCode)
    (elsewhere : ∀ fd mem buf nbytes cpu, event ≠ .read fd mem buf nbytes cpu) : TypingFrame k after := by
  cases event with
  | execute command cpu =>
      obtain ⟨result, called, rfl⟩ := map_ok.mp step
      exact (execute_manageFrame called).typing
  | halt status cpu =>
      obtain ⟨result, called, rfl⟩ := map_ok.mp step
      exact (halt_manageFrame called).typing
  | tick cpu =>
      obtain ⟨result, called, rfl⟩ := map_ok.mp step
      exact (taskSwitch_manageFrame called).typing
  | read fd mem buf nbytes cpu => exact absurd rfl (elsewhere fd mem buf nbytes cpu)
  | write fd mem buf nbytes =>
      obtain ⟨result, called, rfl⟩ := map_ok.mp step
      exact (sysWrite_output called).typing
  | «open» filename =>
      obtain ⟨result, called, rfl⟩ := map_ok.mp step
      exact (sysOpen_descriptorFrame called).typing
  | close fd =>
      obtain ⟨result, called, rfl⟩ := map_ok.mp step
      exact (sysClose_descriptorFrame called).typing
  | getargs mem buf nbytes =>
      obtain ⟨result, -, rfl⟩ := map_ok.mp step
      exact ⟨rfl, .refl⟩
  | vidmap mem screenStart =>
      have shown : (vidmap env k mem screenStart).2.2.activeTerminal = k.activeTerminal := by
        unfold vidmap
        split
        · rfl
        · split <;> rfl
      exact Except.ok.inj step ▸ ⟨shown, vidmap_inputFrame⟩
  | setHandler => exact Except.ok.inj step ▸ setHandler_screenFrame.manage.typing
  | sigreturn => exact Except.ok.inj step ▸ sigreturn_screenFrame.manage.typing
  | key scanCode => exact absurd rfl (key scanCode)
  | rtc => exact Except.ok.inj step ▸ ⟨rfl, rfl, rfl, fun _ => rfl⟩

/-- The buffers hold the lines of the history, which records no reads. -/
structure Tracked (k : Kernel) (h : InputHistory) : Prop where
  input : InputInv k h
  unread : h.returns = []

theorem Tracked.observe (tracked : Tracked k h) (step : Steps env k event after) :
    Tracked after (h.observe k event) := by
  obtain ⟨input, unread⟩ := tracked
  have plain (frame : TypingFrame k after) (same : h.observe k event = h) : Tracked after (h.observe k event) := by
    rw [same]
    exact ⟨input.kept frame, unread⟩
  cases event with
  | key scanCode =>
      obtain rfl := Except.ok.inj step
      refine ⟨input.press scanCode, ?_⟩
      rw [InputHistory.observe, ← unread]
      cases keystroke k scanCode <;> rfl
  | read fd mem buf nbytes cpu =>
      obtain ⟨result, called, rfl⟩ := map_ok.mp step
      cases keyboard : readsKeyboard k fd buf nbytes with
      | false => exact plain (sysRead_typing called keyboard) (by rw [InputHistory.observe, keyboard]; rfl)
      | true =>
          rw [InputHistory.observe, keyboard, if_pos rfl]
          refine ⟨⟨fun t => ?_, nofun, input.counted, input.intact⟩, unread⟩
          rw [sysRead_typed called]
          exact input.typed t
  | _ => exact plain (next_typing step nofun nofun) rfl

/-- The kernel of an observed run is one the kernel reaches. -/
theorem Observed.steps {first last : Kernel × InputHistory} (run : Run (Observed env) first events last) :
    Run (Steps env) first.1 events last.1 := by
  induction run with
  | nil => exact .nil
  | cons step _ ih =>
      obtain ⟨moved, stepped, rfl⟩ := map_ok.mp step
      exact .cons stepped ih

end Invariant

end BozOS
