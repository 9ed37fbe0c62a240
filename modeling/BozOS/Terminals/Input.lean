import BozOS.Terminals.Line
import BozOS.Data.Runs

namespace BozOS

open Data Lib

/-! Keyboard input from the keys to the readers. Every terminal has its own line
buffer and its own release flag, but there is one intermediate buffer for the
completed lines of all of them. -/

inductive Keystroke where
  | none
  | clear
  | erase
  | enter
  | char (c : UInt8) (plain : c ≠ 0 ∧ c ≠ 0x0A)

def keystrokeOf (c : UInt8) : Keystroke :=
  if c = 0x08 then .erase
  else if newline : c = 0x0A then .enter
  else if blank : c = 0 then .none
  else .char c ⟨blank, newline⟩

/-- Control-L clears the line with the screen. -/
def keystroke (k : Kernel) (scanCode : UInt8) : Keystroke :=
  if scanCode = 0x26 ∧ k.keyStatus &&& 0x100 ≠ 0 then .clear
  else keystrokeOf (keyOf (getScanCode k scanCode).1)

/-- A read that completed: who read, how much room there was, the line in the
caller's buffer, and how many lines had been completed before. -/
structure Returned where
  terminal : TermId
  capacity : Nat
  bytes : List UInt8
  completed : Nat

/-- What was typed and read: the unfinished line of each terminal, the completed
lines in order, the reads with the latest first, and the terminal of the last
Enter if no read completed since. -/
structure InputHistory where
  typed : TermId → Line
  lines : List (TermId × Line)
  returns : List Returned
  latest : Option TermId

def InputHistory.empty : InputHistory := ⟨fun _ => .empty, [], [], none⟩

def InputHistory.press (h : InputHistory) (t : TermId) : Keystroke → InputHistory
  | .none => h
  | .clear => { h with typed := Function.update h.typed t .empty }
  | .erase => { h with typed := Function.update h.typed t (h.typed t).erase }
  | .char c plain => { h with typed := Function.update h.typed t ((h.typed t).type c plain) }
  | .enter => { h with
      typed := Function.update h.typed t .empty
      lines := h.lines ++ [(t, h.typed t)]
      latest := some t }

def InputHistory.read (h : InputHistory) (t : TermId) (capacity : Nat) (bytes : List UInt8) : InputHistory :=
  { h with returns := ⟨t, capacity, bytes, h.lines.length⟩ :: h.returns, latest := none }

inductive InputEvent where
  | key (scanCode : UInt8)
  | read (t : TermId) (mem : Memory) (buf : Nat) (nbytes : Int)

def inputNext (s : Kernel × InputHistory) : InputEvent → Except Stop (Kernel × InputHistory)
  | .key scanCode => .ok (kbIntHandler s.1 scanCode, s.2.press s.1.activeTerminal (keystroke s.1 scanCode))
  | .read t mem buf nbytes => do
      let result ← terminalRead { s.1 with activeTask := t } mem buf nbytes
      return (result.2.2, if buf = 0 ∨ nbytes < 0 then s.2
        else s.2.read t (readCapacity nbytes) (lineRead buf nbytes result))

def InputSteps (s : Kernel × InputHistory) (event : InputEvent) (next : Kernel × InputHistory) : Prop :=
  inputNext s event = .ok next

def Returned.Of (ret : Returned) (lines : List (TermId × Line)) (source : Nat) : Prop :=
  source < ret.completed ∧ ∃ line, lines[source]? = some (ret.terminal, line) ∧ ret.bytes = line.cut ret.capacity

/-- Every read returned a line of its own terminal, and no two the same one. -/
def InputHistory.Intact (h : InputHistory) : Prop :=
  ∃ sources : List Nat, sources.Nodup ∧ List.Forall₂ (fun ret source => ret.Of h.lines source) h.returns sources

/-- No line has been begun and no reader released. -/
structure KeyboardIdle (k : Kernel) : Prop where
  lines : ∀ t, Holds (lineBuffer k t) .empty
  waiting : ∀ t, k.terminalReadRelease t = .enterWaiting

/-- A read happens only while the last Enter of all was pressed in the reader's
own terminal and its line was not read yet. -/
def OrderlySteps (s : Kernel × InputHistory) (event : InputEvent) (next : Kernel × InputHistory) : Prop :=
  InputSteps s event next ∧
    match event with
    | .key _ => True
    | .read t _ buf nbytes => buf = 0 ∨ nbytes < 0 ∨ s.2.latest = some t

variable {k after : Kernel} {h : InputHistory} {t : TermId}

structure InputInv (k : Kernel) (h : InputHistory) : Prop where
  typed : ∀ t, Holds (lineBuffer k t) (h.typed t)
  latest : ∀ t, h.latest = some t → ∃ front line, h.lines = front ++ [(t, line)] ∧ Completed k.intBuf line ∧
    ∀ ret ∈ h.returns, ret.completed ≤ front.length
  counted : ∀ ret ∈ h.returns, ret.completed ≤ h.lines.length
  intact : h.Intact

theorem InputInv.congr (inv : InputInv k h) (shown : after.activeTerminal = k.activeTerminal)
    (kbBuf : after.kbBuf = k.kbBuf) (saved : ∀ t, (after.terminalTable t).kbBuf = (k.terminalTable t).kbBuf)
    (intBuf : after.intBuf = k.intBuf) : InputInv after h where
  typed t := by
    have same : lineBuffer after t = lineBuffer k t := by rw [lineBuffer, shown, kbBuf, saved, lineBuffer]
    rw [same]
    exact inv.typed t
  latest t last := by
    rw [intBuf]
    exact inv.latest t last
  counted := inv.counted
  intact := inv.intact

theorem InputInv.screen (inv : InputInv k h) (frame : ScreenFrame k after) : InputInv after h := by
  obtain ⟨_, _, _, _, rfl⟩ := frame
  exact inv.congr rfl rfl (fun _ => rfl) rfl

theorem InputInv.edit {buffer : Memory} {line : Line} (inv : InputInv k h) (holds : Holds buffer line) :
    InputInv { k with kbBuf := buffer } { h with typed := Function.update h.typed k.activeTerminal line } where
  typed t := by
    unfold lineBuffer
    by_cases shown : t = k.activeTerminal
    · subst shown
      simp only [if_true, Function.update_self]
      exact holds
    · simp only [if_neg shown, Function.update_of_ne shown]
      have kept := inv.typed t
      rwa [lineBuffer, if_neg shown] at kept
  latest := inv.latest
  counted := inv.counted
  intact := inv.intact

theorem InputInv.shown (inv : InputInv k h) : Holds k.kbBuf (h.typed k.activeTerminal) := by
  have holds := inv.typed k.activeTerminal
  rwa [lineBuffer, if_pos rfl] at holds

/-- A switch keeps the line of every terminal. -/
theorem switchTo_lineBuffer {new : TermId} (t : TermId) :
    ∀ i < 128, lineBuffer (switchTo k new) t i = lineBuffer k t i := by
  intro i inside
  have shown : (switchTo k new).activeTerminal = new := rfl
  rw [lineBuffer, shown]
  by_cases brought : t = new
  · rw [if_pos brought, brought]
    exact switchTo_kbBuf inside
  · rw [if_neg brought]
    exact switchTo_saved inside

theorem InputInv.switch (inv : InputInv k h) (newTerminal : Nat) : InputInv (switchTerminal k newTerminal) h := by
  unfold switchTerminal
  split
  · split
    · exact inv
    · exact ⟨fun t => (inv.typed t).congr (switchTo_lineBuffer t), inv.latest, inv.counted, inv.intact⟩
  · exact inv

theorem Returned.Of.append {ret : Returned} {lines more : List (TermId × Line)} {source : Nat}
    (returned : ret.Of lines source) : ret.Of (lines ++ more) source := by
  obtain ⟨earlier, line, listed, bytes⟩ := returned
  refine ⟨earlier, line, ?_, bytes⟩
  rw [List.getElem?_append_left (List.getElem?_eq_some_iff.mp listed).1, listed]

theorem InputInv.enter (inv : InputInv k h) (frame : ScreenFrame { k with kbBuf := lineAfter k.kbBuf 0x0A } after) :
    InputInv (copyKbBuf after) (h.press k.activeTerminal .enter) := by
  obtain ⟨_, _, _, _, rfl⟩ := frame
  obtain ⟨completed, cleared⟩ := inv.shown.enter k.intBuf
  refine ⟨(inv.edit cleared).typed, fun t last => ?_, fun ret listed => ?_, ?_⟩
  · cases last
    exact ⟨h.lines, h.typed k.activeTerminal, rfl, completed, inv.counted⟩
  · have earlier := inv.counted ret listed
    simp only [InputHistory.press, List.length_append]
    omega
  · obtain ⟨sources, distinct, returned⟩ := inv.intact
    exact ⟨sources, distinct, returned.imp fun _ _ of => of.append⟩

theorem InputInv.handleKey (inv : InputInv k h) (c : UInt8) :
    InputInv (handleKey k c) (h.press k.activeTerminal (keystrokeOf c)) := by
  unfold BozOS.handleKey keystrokeOf
  by_cases backspace : c = 0x08
  · rw [if_pos backspace, if_pos backspace]
    exact (inv.edit inv.shown.erase).screen delCharFromBuf_screenFrame
  rw [if_neg backspace, if_neg backspace]
  by_cases newline : c = 0x0A
  · rw [if_pos newline, dif_pos newline, newline]
    exact inv.enter addCharToBuf_screenFrame
  rw [if_neg newline, dif_neg newline]
  by_cases blank : c = 0
  · rw [if_neg (not_not_intro blank), dif_pos blank]
    exact inv
  · rw [if_pos blank, dif_neg blank]
    exact (inv.edit (inv.shown.type ⟨blank, newline⟩)).screen addCharToBuf_screenFrame

theorem getScanCode_clear {scanCode : UInt8} (clears : scanCode = 0x26 ∧ k.keyStatus &&& 0x100 ≠ 0) :
    getScanCode k scanCode = (0, { clearScreen k with kbBuf := (clearScreen k).kbBuf.store 0 0 }) := by
  obtain ⟨rfl, held⟩ := clears
  have down : (0x26 : UInt8) &&& 0x80 = 0 := by decide
  simp [getScanCode, keyPressed, held, down]

theorem InputInv.press (inv : InputInv k h) (scanCode : UInt8) :
    InputInv (kbIntHandler k scanCode) (h.press k.activeTerminal (keystroke k scanCode)) := by
  rw [kbIntHandler, keystroke]
  by_cases clears : scanCode = 0x26 ∧ k.keyStatus &&& 0x100 ≠ 0
  · rw [if_pos clears, getScanCode_clear clears]
    obtain ⟨_, _, _, _, cleared⟩ := clearScreen_screenFrame (k := k)
    exact (inv.edit (.clear inv.shown.full)).screen ⟨_, _, _, _, by rw [cleared]; rfl⟩
  · rw [if_neg clears]
    have scanned := getScanCode_scanned k scanCode
    generalize getScanCode k scanCode = result at scanned
    cases scanned with
    | modifier keyStatus => exact inv.congr rfl rfl (fun _ => rfl) rfl
    | clear pressed => exact absurd pressed clears
    | switch t => exact inv.switch t
    | enter pressed =>
        exact InputInv.handleKey (inv.congr rfl rfl (fun _ => rfl) rfl :
          InputInv { k with
            terminalReadRelease := Function.update k.terminalReadRelease k.activeTerminal .enterReleased } h) 0x0A
    | character other => exact inv.handleKey _

theorem sources_lt {lines : List (TermId × Line)} {returns : List Returned} {sources : List Nat} {bound : Nat}
    (returned : List.Forall₂ (fun ret source => ret.Of lines source) returns sources)
    (earlier : ∀ ret ∈ returns, ret.completed ≤ bound) : ∀ source ∈ sources, source < bound := by
  induction returned with
  | nil => simp
  | cons of _ ih =>
      intro source listed
      rcases List.mem_cons.mp listed with rfl | later
      · exact Nat.lt_of_lt_of_le of.1 (earlier _ (List.mem_cons_self ..))
      · exact ih (fun ret old => earlier ret (List.mem_cons_of_mem _ old)) source later

theorem InputInv.read {mem : Memory} {buf : Nat} {nbytes : Int} {result : Int × Memory × Kernel}
    (inv : InputInv k h) (accepted : ¬(buf = 0 ∨ nbytes < 0)) (last : h.latest = some t)
    (called : terminalRead { k with activeTask := t } mem buf nbytes = .ok result) :
    InputInv result.2.2 (h.read t (readCapacity nbytes) (lineRead buf nbytes result)) := by
  obtain ⟨front, line, lines, completed, earlier⟩ := inv.latest t last
  have completed' : Completed ({ k with activeTask := t } : Kernel).intBuf line := completed
  have bytes := terminalRead_line accepted completed' called
  have buffers : ∀ u, lineBuffer result.2.2 u = lineBuffer k u := by
    unfold terminalRead at called
    rw [if_neg accepted] at called
    split at called
    · cases called
    · obtain ⟨source, -, called⟩ := bind_ok.mp called
      cases called
      exact fun u => rfl
  refine ⟨fun u => by rw [buffers]; exact inv.typed u, fun u later => (by cases later), fun ret listed => ?_, ?_⟩
  · rcases List.mem_cons.mp listed with rfl | old
    · exact Nat.le_refl _
    · exact inv.counted ret old
  · obtain ⟨sources, distinct, returned⟩ := inv.intact
    have fresh : front.length ∉ sources := fun again =>
      Nat.lt_irrefl _ (sources_lt returned earlier front.length again)
    refine ⟨front.length :: sources, List.nodup_cons.mpr ⟨fresh, distinct⟩, .cons ⟨?_, line, ?_, bytes⟩ returned⟩
    · simp only [lines, List.length_append, List.length_singleton]
      omega
    · simp only [InputHistory.read, lines]
      exact List.getElem?_concat_length

theorem InputInv.step {s next : Kernel × InputHistory} {event : InputEvent} (inv : InputInv s.1 s.2)
    (step : OrderlySteps s event next) : InputInv next.1 next.2 := by
  obtain ⟨stepped, orderly⟩ := step
  cases event with
  | key scanCode =>
      cases stepped
      exact inv.press scanCode
  | read t mem buf nbytes =>
      obtain ⟨result, called, moved⟩ := bind_ok.mp stepped
      cases moved
      by_cases refused : buf = 0 ∨ nbytes < 0
      · rw [terminalRead, if_pos refused] at called
        cases called
        simp only [if_pos refused]
        exact inv.congr rfl rfl (fun _ => rfl) rfl
      · simp only [if_neg refused]
        have last : s.2.latest = some t := by
          rcases orderly with null | negative | last
          · exact absurd (.inl null) refused
          · exact absurd (.inr negative) refused
          · exact last
        exact inv.read refused last called

theorem orderly_input_intact (start : Kernel) (events : List InputEvent) (last : Kernel × InputHistory)
    (idle : KeyboardIdle start) (run : Run OrderlySteps (start, .empty) events last) : last.2.Intact := by
  have inv : InputInv last.1 last.2 := Run.invariant (fun s => InputInv s.1 s.2) run
    (fun step inv => inv.step step)
    ⟨idle.lines, fun t last => (by cases last), fun ret listed => (by cases listed), [], .nil, .nil⟩
  exact inv.intact

def booted : Kernel × InputHistory := (multiTermInit .loaded, .empty)

theorem booted_idle : KeyboardIdle booted.1 where
  lines t := by
    have blank : ∀ i, lineBuffer booted.1 t i = 0 := by
      intro i
      unfold lineBuffer
      split <;> rfl
    exact ⟨fun i inside => absurd inside (Nat.not_lt_zero i), blank _, blank _⟩
  waiting _ := rfl

def inputAfter : Kernel × InputHistory → List InputEvent → Kernel × InputHistory := endState inputNext

def readLine (t : TermId) : InputEvent := .read t (fun _ => 0) 0x8000000 8

theorem booted_input_intact :
    ∃ last, Run OrderlySteps booted [.key 0x1E, .key 0x1C, readLine 0] last ∧
      last.2.returns.map Returned.bytes = [[0x61, 0x0A]] ∧ last.2.Intact := by
  have typed : OrderlySteps booted (.key 0x1E) (inputAfter booted [.key 0x1E]) := ⟨rfl, trivial⟩
  have entered : OrderlySteps (inputAfter booted [.key 0x1E]) (.key 0x1C)
      (inputAfter booted [.key 0x1E, .key 0x1C]) := ⟨rfl, trivial⟩
  have read : OrderlySteps (inputAfter booted [.key 0x1E, .key 0x1C]) (readLine 0)
      (inputAfter booted [.key 0x1E, .key 0x1C, readLine 0]) := ⟨rfl, .inr (.inr rfl)⟩
  have run := Run.cons typed (.cons entered (.cons read .nil))
  exact ⟨_, run, by decide, orderly_input_intact booted.1 _ _ booted_idle run⟩

theorem InputHistory.Intact.own_lines (intact : h.Intact) :
    ∀ ret ∈ h.returns, ∃ entry ∈ h.lines, entry.1 = ret.terminal ∧ ret.bytes = entry.2.cut ret.capacity := by
  obtain ⟨sources, -, returned⟩ := intact
  generalize h.returns = returns at returned
  induction returned with
  | nil => simp
  | cons of _ ih =>
      intro ret listed
      rcases List.mem_cons.mp listed with rfl | later
      · obtain ⟨-, line, found, bytes⟩ := of
        exact ⟨_, List.mem_of_getElem? found, rfl, bytes⟩
      · exact ih ret later

/-- A line completed in each of the first two terminals, and a read in the
first one. -/
def crossedLines : List InputEvent :=
  [.key 0x1E, .key 0x1C, .key 0x38, .key 0x3C, .key 0xB8, .key 0x30, .key 0x1C, readLine 0]

/-- The reader of the first terminal gets the line of the second. -/
theorem crossed_input_not_intact :
    ¬∀ (start : Kernel) (events : List InputEvent) (last : Kernel × InputHistory), KeyboardIdle start →
      Run InputSteps (start, .empty) events last → last.2.Intact := by
  intro claim
  have run : Run InputSteps booted crossedLines (inputAfter booted crossedLines) := endState_run (by decide)
  have crossed : ¬∀ ret ∈ (inputAfter booted crossedLines).2.returns,
      ∃ entry ∈ (inputAfter booted crossedLines).2.lines,
        entry.1 = ret.terminal ∧ ret.bytes = entry.2.cut ret.capacity := by decide +kernel
  exact crossed (claim booted.1 crossedLines _ booted_idle run).own_lines

end BozOS
