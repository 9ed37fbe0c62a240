import BozOS.Processes.DeviceFrame
import BozOS.Processes.Frame
import BozOS.Terminals.Line

namespace BozOS

open Data Lib FileSystem

/-! A line from the first key to the reader. The buffers are never cleared
behind the text in them, and the loops that look for its end rely on their last
cell, which stays zero in every state the kernel can reach. -/

variable {env : Env} {k middle after : Kernel} {event : Event} {events : List Event} {buffer : Memory}

structure BuffersEnded (k : Kernel) : Prop where
  kbBuf : k.kbBuf 127 = 0
  intBuf : k.intBuf 127 = 0
  saved : ∀ t, (k.terminalTable t).kbBuf 127 = 0

theorem InputFrame.ended (frame : InputFrame k after) (ended : BuffersEnded k) : BuffersEnded after :=
  ⟨by rw [frame.kbBuf]; exact ended.kbBuf, by rw [frame.intBuf]; exact ended.intBuf,
    fun t => by rw [frame.saved t]; exact ended.saved t⟩

theorem BuffersEnded.edit (ended : BuffersEnded k) (last : buffer 127 = 0) :
    BuffersEnded { k with kbBuf := buffer } :=
  ⟨last, ended.intBuf, ended.saved⟩

theorem OutputFrame.input (frame : OutputFrame k after) : InputFrame k after := by
  obtain ⟨regA, frame⟩ := frame
  have set : InputFrame k { k with rtcRegA := regA } := ⟨rfl, rfl, fun _ => rfl⟩
  exact set.trans frame.manage.input

theorem DescriptorFrame.input (frame : DescriptorFrame k after) : InputFrame k after := by
  cases frame with
  | kept frame => exact frame.input
  | set frame caller => exact ⟨frame.input.kbBuf, frame.input.intBuf, frame.input.saved⟩

theorem vidmap_inputFrame {mem : Memory} {screenStart : Nat} : InputFrame k (vidmap env k mem screenStart).2.2 := by
  unfold vidmap
  split
  · exact .refl
  split
  · exact .refl
  · exact ⟨rfl, rfl, fun _ => rfl⟩

section Ended

theorem copyKbBufFrom_last {fuel i : Nat} {intBuf kbBuf : Memory} (first : intBuf 127 = 0) (second : kbBuf 127 = 0) :
    (copyKbBufFrom fuel i intBuf kbBuf).1 127 = 0 ∧ (copyKbBufFrom fuel i intBuf kbBuf).2 127 = 0 := by
  induction fuel generalizing i intBuf kbBuf with
  | zero => exact ⟨first, second⟩
  | succ fuel ih =>
      have copied : intBuf.store i (kbBuf i) 127 = 0 := Memory.store_eq first fun here => here ▸ second
      have flushed : kbBuf.store i 0 127 = 0 := Memory.store_eq second fun _ => rfl
      rw [copyKbBufFrom]
      split
      · exact ⟨copied, flushed⟩
      · exact ih copied flushed

theorem copyLine_last {buf fuel i : Nat} {dest source : Memory} (last : source 127 = 0) :
    (copyLine buf fuel i dest source).2.2 127 = 0 := by
  induction fuel generalizing i dest source with
  | zero => exact last
  | succ fuel ih =>
      rw [copyLine]
      split
      · exact last
      · exact ih (Memory.store_eq last fun _ => rfl)

theorem shiftResidue_last {fuel i c : Nat} {source shifted : Memory} (order : c < i) (last : source 127 = 0)
    (ends : shiftResidue fuel i c source = .ok shifted) : shifted 127 = 0 := by
  induction fuel generalizing i c source with
  | zero => cases ends
  | succ fuel ih =>
      rw [shiftResidue] at ends
      split at ends
      · cases ends
      split at ends
      · cases ends
        exact last
      · exact ih (by omega) (Memory.store_eq (Memory.store_eq last (by omega)) fun _ => rfl) ends

theorem terminalRead_ended {mem : Memory} {buf : Nat} {nbytes : Int} {result : Int × Memory × Kernel}
    (ended : BuffersEnded k) (called : terminalRead k mem buf nbytes = .ok result) : BuffersEnded result.2.2 := by
  unfold terminalRead at called
  split at called
  · cases called; exact ended
  split at called
  · cases called
  · obtain ⟨source, shifted, called⟩ := bind_ok.mp called
    cases called
    exact ⟨ended.kbBuf, shiftResidue_last (by omega) (copyLine_last ended.intBuf) shifted, ended.saved⟩

theorem switchTo_ended (ended : BuffersEnded k) (new : TermId) : BuffersEnded (switchTo k new) := by
  have lines : ∀ t, lineBuffer k t 127 = 0 := by
    intro t
    unfold lineBuffer
    split
    · exact ended.kbBuf
    · exact ended.saved t
  refine ⟨?_, ended.intBuf, fun t => ?_⟩
  · rw [switchTo_kbBuf (by decide)]
    exact lines new
  · rw [switchTo_saved (by decide)]
    exact lines t

theorem switchTerminal_ended (ended : BuffersEnded k) (newTerminal : Nat) :
    BuffersEnded (switchTerminal k newTerminal) := by
  unfold switchTerminal
  split
  · split
    · exact ended
    · exact switchTo_ended ended _
  · exact ended

theorem scanned_ended {scanCode : UInt8} {result : Nat × Kernel} (scanned : Scanned k scanCode result)
    (ended : BuffersEnded k) : BuffersEnded result.2 := by
  cases scanned with
  | modifier keyStatus => exact ⟨ended.kbBuf, ended.intBuf, ended.saved⟩
  | clear pressed =>
      have cleared := clearScreen_screenFrame.manage.input.ended ended
      exact cleared.edit (Memory.store_eq cleared.kbBuf fun _ => rfl)
  | switch t => exact switchTerminal_ended ended t
  | enter pressed => exact ⟨ended.kbBuf, ended.intBuf, ended.saved⟩
  | character other => exact ended

theorem handleKey_ended {c : UInt8} (ended : BuffersEnded k) : BuffersEnded (handleKey k c) := by
  have typed : ∀ c, BuffersEnded (addCharToBuf k c) := fun c =>
    addCharToBuf_screenFrame.manage.input.ended (ended.edit (lineAfter_last ended.kbBuf))
  unfold handleKey
  split
  · exact delCharFromBuf_screenFrame.manage.input.ended (ended.edit (lineErased_last ended.kbBuf))
  split
  · have copied : (copyKbBufFrom 128 0 (addCharToBuf k c).intBuf (addCharToBuf k c).kbBuf).1 127 = 0 ∧
        (copyKbBufFrom 128 0 (addCharToBuf k c).intBuf (addCharToBuf k c).kbBuf).2 127 = 0 :=
      copyKbBufFrom_last (typed c).intBuf (typed c).kbBuf
    exact ⟨copied.2, copied.1, (typed c).saved⟩
  split
  · exact typed c
  · exact ended

theorem sysRead_ended {fd : Int} {mem : Memory} {buf : Nat} {nbytes : Int} {cpu : Cpu}
    {result : Int × Memory × Kernel} (ended : BuffersEnded k)
    (called : sysRead env k fd mem buf nbytes cpu = .ok result) : BuffersEnded result.2.2 := by
  rcases sysRead_cases called with rfl | ⟨p, entry, fotp, -, read⟩
  · exact ended
  cases fotp with
  | stdin => exact terminalRead_ended ended read
  | stdout => cases read; exact ended
  | file => exact (fread_descriptorFrame read).input.ended ended
  | dir =>
      cases read
      obtain ⟨cursor, moved⟩ := dread_kernel env k mem buf cpu
      rw [moved]
      exact ⟨ended.kbBuf, ended.intBuf, ended.saved⟩
  | rtc =>
      obtain ⟨value, ticked, rfl⟩ := map_ok.mp read
      unfold rtcRead at ticked
      split at ticked
      · cases ticked
      · cases ticked
        exact ⟨ended.kbBuf, ended.intBuf, ended.saved⟩

/-- No event writes a character into the last cell of a line buffer. -/
theorem next_ended (ended : BuffersEnded k) (step : Steps env k event after) : BuffersEnded after := by
  unfold Steps at step
  cases event with
  | execute command cpu =>
      obtain ⟨result, called, rfl⟩ := map_ok.mp step
      exact (execute_manageFrame called).input.ended ended
  | halt status cpu =>
      obtain ⟨result, called, rfl⟩ := map_ok.mp step
      exact (halt_manageFrame called).input.ended ended
  | tick cpu =>
      obtain ⟨result, called, rfl⟩ := map_ok.mp step
      exact (taskSwitch_manageFrame called).input.ended ended
  | read fd mem buf nbytes cpu =>
      obtain ⟨result, called, rfl⟩ := map_ok.mp step
      exact sysRead_ended ended called
  | write fd mem buf nbytes =>
      obtain ⟨result, called, rfl⟩ := map_ok.mp step
      exact (sysWrite_output called).input.ended ended
  | «open» filename =>
      obtain ⟨result, called, rfl⟩ := map_ok.mp step
      exact (sysOpen_descriptorFrame called).input.ended ended
  | close fd =>
      obtain ⟨result, called, rfl⟩ := map_ok.mp step
      exact (sysClose_descriptorFrame called).input.ended ended
  | getargs mem buf nbytes =>
      obtain ⟨result, -, rfl⟩ := map_ok.mp step
      exact ended
  | vidmap mem screenStart => exact Except.ok.inj step ▸ vidmap_inputFrame.ended ended
  | setHandler => exact Except.ok.inj step ▸ setHandler_screenFrame.manage.input.ended ended
  | sigreturn => exact Except.ok.inj step ▸ sigreturn_screenFrame.manage.input.ended ended
  | key scanCode =>
      obtain rfl := Except.ok.inj step
      exact handleKey_ended (scanned_ended (getScanCode_scanned k scanCode) ended)
  | rtc =>
      obtain rfl := Except.ok.inj step
      exact ⟨ended.kbBuf, ended.intBuf, ended.saved⟩

theorem run_ended {boot : Kernel} (zeroed : BuffersEnded boot)
    (run : Run (Steps env) (multiTermInit boot) events k) : BuffersEnded k :=
  run.invariant BuffersEnded (fun step ended => next_ended ended step)
    ⟨zeroed.kbBuf, zeroed.intBuf, zeroed.saved⟩

end Ended

section RoundTrip

/-- A key that edits the line. -/
inductive Edit where
  | char (c : UInt8) (printable : c ≠ 0 ∧ c ≠ 0x0A ∧ c ≠ 0x08)
  | backspace

/-- The reference editor. -/
def Edit.line (line : List UInt8) : Edit → List UInt8
  | .char c _ => if line.length < 127 then line ++ [c] else line
  | .backspace => line.dropLast

def Edit.kernel (k : Kernel) : Edit → Kernel
  | .char c _ => addCharToBuf k c
  | .backspace => delCharFromBuf k

/-- The kernel while a line is typed: it differs from the start by the line
buffer and the screen. -/
structure Typing (start : Kernel) (line : Line) (k : Kernel) : Prop where
  frame : ∃ buffer, ScreenFrame { start with kbBuf := buffer } k
  holds : Holds k.kbBuf line

theorem ScreenFrame.kbBuf_eq (frame : ScreenFrame k after) : after.kbBuf = k.kbBuf := by
  obtain ⟨_, _, _, _, rfl⟩ := frame
  rfl

theorem ScreenFrame.retype {start : Kernel} {typed : Memory} (first : ScreenFrame { start with kbBuf := typed } middle)
    (second : ScreenFrame { middle with kbBuf := buffer } after) : ScreenFrame { start with kbBuf := buffer } after := by
  obtain ⟨_, _, _, _, rfl⟩ := first
  obtain ⟨memory, cursor, x, y, rfl⟩ := second
  exact ⟨memory, cursor, x, y, rfl⟩

variable {start : Kernel} {line : Line}

theorem Typing.edit (typing : Typing start line k) (edit : Edit) :
    ∃ next : Line, next.chars = edit.line line.chars ∧ Typing start next (edit.kernel k) := by
  obtain ⟨⟨typed, frame⟩, holds⟩ := typing
  cases edit with
  | char c printable =>
      have plain : c ≠ 0 ∧ c ≠ 0x0A := ⟨printable.1, printable.2.1⟩
      refine ⟨line.type c plain, ?_, ⟨_, frame.retype addCharToBuf_screenFrame⟩, ?_⟩
      · rw [Line.type, Edit.line]
        split <;> rfl
      · rw [Edit.kernel, addCharToBuf_screenFrame.kbBuf_eq]
        exact holds.type plain
  | backspace =>
      refine ⟨line.erase, rfl, ⟨_, frame.retype delCharFromBuf_screenFrame⟩, ?_⟩
      rw [Edit.kernel, delCharFromBuf_screenFrame.kbBuf_eq]
      exact holds.erase

theorem Typing.edits (typing : Typing start line k) (edits : List Edit) :
    ∃ next : Line, next.chars = edits.foldl Edit.line line.chars ∧ Typing start next (edits.foldl Edit.kernel k) := by
  induction edits generalizing line k with
  | nil => exact ⟨line, rfl, typing⟩
  | cons edit rest ih =>
      obtain ⟨next, same, edited⟩ := typing.edit edit
      obtain ⟨last, final, typed⟩ := ih edited
      exact ⟨last, by rw [final, same, List.foldl_cons], typed⟩

/-- The Enter key releases the reader of the displayed terminal and completes
the line. -/
theorem kbIntHandler_enter (k : Kernel) : kbIntHandler k 0x1C =
    copyKbBuf (addCharToBuf { k with
      terminalReadRelease := Function.update k.terminalReadRelease k.activeTerminal .enterReleased } 0x0A) := by
  have scanned : getScanCode k 0x1C = (28, { k with
      terminalReadRelease := Function.update k.terminalReadRelease k.activeTerminal .enterReleased }) := by
    have pressed : ¬(0x1C : UInt8) &&& 0x80 ≠ 0 := by decide
    rw [getScanCode, if_neg pressed]
    simp [keyPressed]
  have newline : keyOf 28 = 0x0A := by decide
  rw [kbIntHandler, scanned, newline, handleKey, if_neg (by decide), if_pos rfl]

/-- The kernel after the Enter key. -/
structure LineEntered (line : Line) (before after : Kernel) : Prop where
  completed : Completed after.intBuf line
  cleared : Holds after.kbBuf .empty
  ended : after.intBuf 127 = 0
  released : after.terminalReadRelease before.activeTerminal = .enterReleased

theorem Holds.entered (holds : Holds k.kbBuf line) (ended : k.intBuf 127 = 0) :
    LineEntered line k (kbIntHandler k 0x1C) := by
  have frame := addCharToBuf_screenFrame (c := 0x0A) (k := { k with
    terminalReadRelease := Function.update k.terminalReadRelease k.activeTerminal .enterReleased })
  rw [kbIntHandler_enter]
  generalize addCharToBuf _ 0x0A = typed at frame ⊢
  obtain ⟨_, _, _, _, rfl⟩ := frame
  obtain ⟨completed, cleared⟩ := holds.enter k.intBuf
  exact ⟨completed, cleared, (copyKbBufFrom_last ended (lineAfter_last holds.full)).1, Function.update_self ..⟩

/-- A completed line of at most 126 characters reaches a reader that has room
for it. -/
theorem terminalRead_completes {mem : Memory} {buf : Nat} {nbytes : Int} (target : buf ≠ 0) (room : 128 ≤ nbytes)
    (released : k.terminalReadRelease k.activeTask = .enterReleased) (completed : Completed k.intBuf line)
    (short : line.chars.length ≤ 126) (ended : k.intBuf 127 = 0) :
    ∃ stored source, terminalRead k mem buf nbytes = .ok (line.chars.length, stored, { k with
        intBuf := source
        terminalReadRelease := Function.update k.terminalReadRelease k.activeTask .enterWaiting }) ∧
      stored.window buf (line.chars.length + 1) = line.chars ++ [0x0A] := by
  have capacity : readCapacity nbytes = 128 := if_neg (by omega)
  have loop := copyLine_copied buf 128 0 mem k.intBuf
  have newline := completed.newline (by omega)
  have before : (copyLine buf 128 0 mem k.intBuf).1 ≤ line.chars.length := by
    by_contra behind
    exact loop.inner line.chars.length (Nat.zero_le _) (by omega) newline
  have stops : (copyLine buf 128 0 mem k.intBuf).1 = line.chars.length := by
    rw [loop.stops completed (by omega)]
    omega
  obtain ⟨source, shifted⟩ : ∃ source, shiftResidue 129 (line.chars.length + 1) 0
      (copyLine buf 128 0 mem k.intBuf).2.2 = .ok source :=
    shiftResidue_ends (by omega) (show line.chars.length + 1 ≤ 127 by omega) (by omega) (by omega) (copyLine_last ended)
  have called : terminalRead k mem buf nbytes = .ok (line.chars.length,
      (copyLine buf 128 0 mem k.intBuf).2.1.store (buf + 128 - 1) 0x0A, { k with
        intBuf := source
        terminalReadRelease := Function.update k.terminalReadRelease k.activeTask .enterWaiting }) := by
    rw [terminalRead, if_neg (by omega), if_neg (by simp [released])]
    simp only [if_neg (show ¬nbytes < 128 by omega), stops, shifted, bind, Except.bind]
    rfl
  refine ⟨_, source, called, ?_⟩
  have read := terminalRead_line (by omega) completed called
  have room : min (line.chars.length + 1) 128 = line.chars.length + 1 := by omega
  have inner : line.chars.length ≤ 128 - 1 := by omega
  rw [lineRead, capacity, Line.cut, Int.toNat_natCast, room, List.take_of_length_le inner] at read
  rw [read, List.take_of_length_le]
  simp only [List.length_append, List.length_singleton]
  omega

theorem line_roundTrip (env : Env) (boot k : Kernel) (events : List Event) (edits : List Edit) (mem : Memory)
    (buf : Nat) (nbytes : Int) (zeroed : BuffersEnded boot) (run : Run (Steps env) (multiTermInit boot) events k)
    (empty : strlen k.kbBuf 128 = 0) (target : buf ≠ 0) (room : 128 ≤ nbytes)
    (short : (edits.foldl Edit.line []).length ≤ 126) :
    ∃ stored after,
      terminalRead { kbIntHandler (edits.foldl Edit.kernel k) 0x1C with activeTask := k.activeTerminal } mem buf nbytes =
        .ok ((edits.foldl Edit.line []).length, stored, after) ∧
      stored.window buf ((edits.foldl Edit.line []).length + 1) = edits.foldl Edit.line [] ++ [0x0A] ∧
      strlen after.kbBuf 128 = 0 ∧ after.terminalReadRelease k.activeTerminal = .enterWaiting := by
  have ended := run_ended zeroed run
  have first : k.kbBuf 0 = 0 := by
    have terminated : k.kbBuf (strlen k.kbBuf 128) = 0 := strlen_terminated (by omega)
    rwa [empty] at terminated
  have blank : Holds k.kbBuf .empty := ⟨fun i inside => absurd inside (Nat.not_lt_zero i), first, ended.kbBuf⟩
  have start : Typing k .empty k := ⟨⟨k.kbBuf, .refl⟩, blank⟩
  obtain ⟨line, same, ⟨typed, frame⟩, holds⟩ := start.edits edits
  rw [← show line.chars = edits.foldl Edit.line [] from same] at short ⊢
  generalize edits.foldl Edit.kernel k = edited at frame holds ⊢
  have shown : edited.activeTerminal = k.activeTerminal := frame.manage.device.shown
  have untouched : edited.intBuf 127 = 0 := frame.manage.input.intBuf ▸ ended.intBuf
  obtain ⟨completed, cleared, last, released⟩ := holds.entered untouched
  generalize kbIntHandler edited 0x1C = entered at completed cleared last released ⊢
  obtain ⟨stored, source, called, delivered⟩ :=
    terminalRead_completes (k := { entered with activeTask := k.activeTerminal }) target room
      (shown ▸ released) completed short last
  exact ⟨stored, _, called, delivered, cleared.strlen_eq, Function.update_self ..⟩

/-- "la", a backspace and "s", typed after the boot. -/
def typedKeys : List Edit :=
  [.char 0x6C (by decide), .char 0x61 (by decide), .backspace, .char 0x73 (by decide)]

theorem typedKeys_roundTrip : ∃ stored after,
    terminalRead { kbIntHandler (typedKeys.foldl Edit.kernel (multiTermInit .loaded)) 0x1C with activeTask := 0 }
      (fun _ => 0) 1000 128 = .ok (2, stored, after) ∧ stored.window 1000 3 = [0x6C, 0x73, 0x0A] := by
  obtain ⟨stored, after, called, delivered, -⟩ := line_roundTrip ⟨⟨fun _ => 0⟩, fun _ => 0, 0⟩ .loaded
    (multiTermInit .loaded) [] typedKeys (fun _ => 0) 1000 128 ⟨rfl, rfl, fun _ => rfl⟩ .nil (by decide) (by decide)
    (by decide) (by decide)
  exact ⟨stored, after, called, delivered⟩

end RoundTrip

end BozOS
