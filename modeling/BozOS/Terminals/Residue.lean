import BozOS.Terminals.Editing

namespace BozOS

open Data Lib

/-! The bounds of `terminal_read` in the intermediate buffer. Its copy loop stops
at a newline or at the end of the reader's room; the loop behind it, which moves
the rest of the buffer to the front, begins one cell further and needs a NUL. -/

variable {env : Env} {k : Kernel} {mem source other shifted : Memory} {buf fuel i c cell : Nat} {nbytes : Int}

/-- Two contents of the memory from `int_buf` on that do not differ inside the
array. -/
def SameArray (first second : Memory) : Prop := ∀ cell < 128, second cell = first cell

theorem SameArray.store (same : SameArray source other) (cell : Nat) (byte : UInt8) :
    SameArray (source.store cell byte) (other.store cell byte) := by
  intro index inside
  by_cases here : index = cell
  · rw [here, Memory.store_same, Memory.store_same]
  · rw [Memory.store_other here, Memory.store_other here]
    exact same index inside

section Loops

theorem copyLine_outside (dest : Memory) (outside : i + fuel ≤ cell) :
    (copyLine buf fuel i dest source).2.2 cell = source cell := by
  induction fuel generalizing i dest source with
  | zero => rfl
  | succ fuel ih =>
      rw [copyLine]
      split
      · rfl
      · rw [ih _ (by omega), Memory.store_other (by omega)]

theorem copyLine_sameArray (dest : Memory) (same : SameArray source other) (inside : i + fuel ≤ 128) :
    (copyLine buf fuel i dest other).1 = (copyLine buf fuel i dest source).1 ∧
      (copyLine buf fuel i dest other).2.1 = (copyLine buf fuel i dest source).2.1 ∧
      SameArray (copyLine buf fuel i dest source).2.2 (copyLine buf fuel i dest other).2.2 := by
  induction fuel generalizing i dest source other with
  | zero => exact ⟨rfl, rfl, same⟩
  | succ fuel ih =>
      rw [copyLine, copyLine, same i (by omega)]
      split
      · exact ⟨rfl, rfl, same⟩
      · exact ih _ (same.store i 0) (by omega)

theorem shiftResidue_outside (order : c < i) (ends : shiftResidue fuel i c source = .ok shifted)
    (outside : 128 ≤ cell) : shifted cell = source cell := by
  induction fuel generalizing i c source with
  | zero => cases ends
  | succ fuel ih =>
      rw [shiftResidue] at ends
      split at ends
      · cases ends
      · rename_i inside
        split at ends
        · cases ends
          rfl
        · rw [ih (by omega) ends, Memory.store_other (by omega), Memory.store_other (by omega)]

theorem shiftResidue_sameArray (same : SameArray source other) (ends : shiftResidue fuel i c source = .ok shifted) :
    ∃ moved, shiftResidue fuel i c other = .ok moved ∧ SameArray shifted moved := by
  induction fuel generalizing i c source other with
  | zero => cases ends
  | succ fuel ih =>
      rw [shiftResidue] at ends ⊢
      split at ends
      · cases ends
      · rename_i inside
        rw [if_neg inside, same i (by omega)]
        split at ends
        · rename_i ended
          cases ends
          rw [if_pos ended]
          exact ⟨other, rfl, same⟩
        · rename_i moves
          rw [if_neg moves]
          exact ih ((same.store c _).store i 0) ends

end Loops

section Inside

/-- A call that completes uses `int_buf` only at indices 0 to 127: it returns, it
changes nothing behind the array, and its answer does not depend on what is
there. -/
structure StaysInside (k : Kernel) (mem : Memory) (buf : Nat) (nbytes : Int) : Prop where
  stops : ∃ result, terminalRead k mem buf nbytes = .ok result
  writes : ∀ result, terminalRead k mem buf nbytes = .ok result → ∀ cell, 128 ≤ cell →
    result.2.2.intBuf cell = k.intBuf cell
  reads : ∀ result other, terminalRead k mem buf nbytes = .ok result → SameArray k.intBuf other →
    ∃ moved, SameArray result.2.2.intBuf moved ∧ terminalRead { k with intBuf := other } mem buf nbytes =
      .ok (result.1, result.2.1, { result.2.2 with intBuf := moved })

/-- The index at which the copy loop stops. -/
def lineEnd (k : Kernel) (mem : Memory) (buf : Nat) (nbytes : Int) : Nat :=
  (copyLine buf (readCapacity nbytes) 0 mem k.intBuf).1

theorem readCapacity_fits (nbytes : Int) : readCapacity nbytes ≤ 128 := by
  unfold readCapacity
  split <;> omega

theorem lineEnd_iff (k : Kernel) (mem : Memory) (buf : Nat) (asked : 0 ≤ nbytes) :
    lineEnd k mem buf nbytes ≤ 126 ↔ nbytes ≤ 126 ∨ ∃ j ≤ 126, k.intBuf j = 0x0A := by
  obtain ⟨-, upper, inner, stopped, -⟩ := copyLine_copied buf (readCapacity nbytes) 0 mem k.intBuf
  rw [← lineEnd] at upper inner stopped
  have capacity : readCapacity nbytes = if nbytes < 128 then nbytes.toNat else 128 := rfl
  constructor
  · intro early
    by_cases small : nbytes ≤ 126
    · exact .inl small
    · refine .inr ⟨lineEnd k mem buf nbytes, early, stopped ?_⟩
      split at capacity <;> omega
  · rintro (small | ⟨j, early, newline⟩)
    · rw [if_pos (by omega)] at capacity
      omega
    · by_contra late
      exact inner j (Nat.zero_le j) (by omega) newline

/-- What a completed call returns, from the buffer that the second loop leaves. -/
def readReturned (k : Kernel) (mem : Memory) (buf : Nat) (nbytes : Int) (source : Memory) : Int × Memory × Kernel :=
  (lineEnd k mem buf nbytes,
    (copyLine buf (readCapacity nbytes) 0 mem k.intBuf).2.1.store (buf + readCapacity nbytes - 1) 0x0A,
    { k with
      intBuf := source
      terminalReadRelease := Function.update k.terminalReadRelease k.activeTask .enterWaiting })

theorem terminalRead_eq (mem : Memory) (target : buf ≠ 0) (asked : 0 ≤ nbytes)
    (released : k.terminalReadRelease k.activeTask = .enterReleased) :
    terminalRead k mem buf nbytes = (shiftResidue 129 (lineEnd k mem buf nbytes + 1) 0
      (copyLine buf (readCapacity nbytes) 0 mem k.intBuf).2.2).map (readReturned k mem buf nbytes) := by
  rw [terminalRead, if_neg (by omega), if_neg (by simp [released])]
  rfl

theorem staysInside_iff (target : buf ≠ 0) (asked : 0 ≤ nbytes) (ended : k.intBuf 127 = 0)
    (released : k.terminalReadRelease k.activeTask = .enterReleased) :
    StaysInside k mem buf nbytes ↔ nbytes ≤ 126 ∨ ∃ j ≤ 126, k.intBuf j = 0x0A := by
  rw [← lineEnd_iff k mem buf asked]
  have capacity := readCapacity_fits nbytes
  have called := terminalRead_eq mem target asked released
  constructor
  · rintro ⟨⟨result, returns⟩, -, -⟩
    rw [called] at returns
    obtain ⟨source, shifted, -⟩ := map_ok.mp returns
    exact Nat.le_of_lt_succ (Nat.lt_of_succ_lt_succ (shiftResidue_inside shifted))
  · intro early
    obtain ⟨source, shifted⟩ : ∃ source, shiftResidue 129 (lineEnd k mem buf nbytes + 1) 0
        (copyLine buf (readCapacity nbytes) 0 mem k.intBuf).2.2 = .ok source :=
      shiftResidue_ends (by omega) (show lineEnd k mem buf nbytes + 1 ≤ 127 by omega) (by omega) (by omega)
        (copyLine_last ended)
    rw [shifted] at called
    refine ⟨⟨_, called⟩, fun result returns cell outside => ?_, fun result other returns same => ?_⟩
    · cases returns.symm.trans called
      exact (shiftResidue_outside (Nat.succ_pos _) shifted outside).trans (copyLine_outside mem (by omega))
    · cases returns.symm.trans called
      obtain ⟨index, stored, array⟩ :
          (copyLine buf (readCapacity nbytes) 0 mem other).1 = lineEnd k mem buf nbytes ∧ _ :=
        copyLine_sameArray mem same (show 0 + readCapacity nbytes ≤ 128 by omega)
      obtain ⟨moved, ends, agrees⟩ := shiftResidue_sameArray array shifted
      refine ⟨moved, agrees, ?_⟩
      have again := terminalRead_eq (k := { k with intBuf := other }) mem target asked released
      rw [show lineEnd { k with intBuf := other } mem buf nbytes = lineEnd k mem buf nbytes from index, ends] at again
      rw [again, Except.map, readReturned, readReturned, ← stored, ← index]
      rfl

end Inside

theorem residue_inside_iff (env : Env) (boot k : Kernel) (events : List Event) (mem : Memory) (buf : Nat)
    (nbytes : Int) (zeroed : BuffersEnded boot) (run : Run (Steps env) (multiTermInit boot) events k) (target : buf ≠ 0)
    (asked : 0 ≤ nbytes) (released : k.terminalReadRelease k.activeTask = .enterReleased) :
    StaysInside k mem buf nbytes ↔ nbytes ≤ 126 ∨ ∃ j ≤ 126, k.intBuf j = 0x0A :=
  staysInside_iff target asked (run_ended zeroed run).intBuf released

def blankEnv : Env := ⟨⟨fun _ => 0⟩, fun _ => 0, 0⟩

/-- Enter on an empty line, read with more room than there is in the buffer. -/
theorem blankLine_inside : StaysInside (kbIntHandler (multiTermInit .loaded) 0x1C) (fun _ => 0) 1000 1024 := by
  have run : Run (Steps blankEnv) (multiTermInit .loaded) [.key 0x1C] (kbIntHandler (multiTermInit .loaded) 0x1C) :=
    .cons rfl .nil
  refine (residue_inside_iff blankEnv .loaded _ _ (fun _ => 0) 1000 1024 ⟨rfl, rfl, fun _ => rfl⟩ run (by decide)
    (by decide) rfl).mpr (.inr ⟨0, by decide, ?_⟩)
  decide

/-! A full line and Enter: the line goes into `int_buf` without its newline. -/

theorem keys_run (codes : List UInt8) (k : Kernel) :
    Run (Steps env) k (codes.map .key) (codes.foldl kbIntHandler k) := by
  induction codes generalizing k with
  | nil => exact .nil
  | cons code rest ih => exact .cons rfl (ih (kbIntHandler k code))

theorem letterA_plain : (0x61 : UInt8) ≠ 0 ∧ (0x61 : UInt8) ≠ 0x0A ∧ (0x61 : UInt8) ≠ 0x08 := by decide

def letterA : Edit := .char 0x61 letterA_plain

theorem getScanCode_letterA (plain : k.keyStatus = 0) : getScanCode k 0x1E = (30, k) := by
  have pressed : ¬(0x1E : UInt8) &&& 0x80 ≠ 0 := by decide
  rw [getScanCode, if_neg pressed]
  simp [keyPressed, keyPosition, plain]

theorem kbIntHandler_letterA (plain : k.keyStatus = 0) : kbIntHandler k 0x1E = letterA.kernel k := by
  have letter : keyOf 30 = 0x61 := by decide
  rw [kbIntHandler, getScanCode_letterA plain, letter, handleKey, if_neg (by decide), if_neg (by decide),
    if_pos (by decide)]
  rfl

theorem letterA_keyStatus : (letterA.kernel k).keyStatus = k.keyStatus := by
  obtain ⟨_, _, _, _, typed⟩ := addCharToBuf_screenFrame (k := k) (c := 0x61)
  rw [letterA, Edit.kernel, typed]

theorem letters_typed (count : Nat) (plain : k.keyStatus = 0) :
    (List.replicate count 0x1E).foldl kbIntHandler k = (List.replicate count letterA).foldl Edit.kernel k := by
  induction count generalizing k with
  | zero => rfl
  | succ count ih =>
      rw [List.replicate_succ, List.replicate_succ, List.foldl_cons, List.foldl_cons, kbIntHandler_letterA plain]
      exact ih (letterA_keyStatus.trans plain)

theorem letters_length (count : Nat) (line : List UInt8) (fits : line.length + count ≤ 127) :
    ((List.replicate count letterA).foldl Edit.line line).length = line.length + count := by
  induction count generalizing line with
  | zero => rfl
  | succ count ih =>
      have longer : (letterA.line line).length = line.length + 1 := by
        rw [letterA, Edit.line, if_pos (by omega), List.length_append, List.length_singleton]
      rw [List.replicate_succ, List.foldl_cons, ih _ (by omega), longer]
      omega

def fullLineKeys : List UInt8 := List.replicate 127 0x1E ++ [0x1C]

/-- No newline in the first 127 cells, and the reader released. -/
theorem fullLine_entered (plain : k.keyStatus = 0) (blank : Holds k.kbBuf .empty) (ended : k.intBuf 127 = 0) :
    (∀ j ≤ 126, (fullLineKeys.foldl kbIntHandler k).intBuf j ≠ 0x0A) ∧
      (fullLineKeys.foldl kbIntHandler k).terminalReadRelease k.activeTerminal = .enterReleased ∧
      (fullLineKeys.foldl kbIntHandler k).activeTask = k.activeTask := by
  have start : Typing k .empty k := ⟨⟨k.kbBuf, .refl⟩, blank⟩
  obtain ⟨line, same, ⟨typed, frame⟩, holds⟩ := start.edits (List.replicate 127 letterA)
  have full : line.chars.length = 127 := by
    rw [same]
    exact letters_length 127 [] (by decide)
  rw [fullLineKeys, List.foldl_append, letters_typed 127 plain, List.foldl_cons, List.foldl_nil]
  generalize (List.replicate 127 letterA).foldl Edit.kernel k = edited at frame holds ⊢
  have shown : edited.activeTerminal = k.activeTerminal := frame.manage.device.shown
  have task : edited.activeTask = k.activeTask := frame.process.task
  obtain ⟨completed, -, -, released⟩ := holds.entered (frame.manage.input.intBuf ▸ ended)
  refine ⟨fun j early => (completed.spells.plain (by omega)).2, shown ▸ released, ?_⟩
  rw [kbIntHandler_frame.task, task]

/-- The reader asks for 128 bytes of a line of 127 characters. -/
theorem fullLine_leaves : ¬∀ (env : Env) (boot k : Kernel) (events : List Event) (mem : Memory) (buf : Nat)
    (nbytes : Int), BuffersEnded boot → Run (Steps env) (multiTermInit boot) events k → buf ≠ 0 → 0 ≤ nbytes →
    k.terminalReadRelease k.activeTask = .enterReleased → StaysInside k mem buf nbytes := by
  intro claim
  have zeroed : BuffersEnded .loaded := ⟨rfl, rfl, fun _ => rfl⟩
  have blank : Holds (multiTermInit .loaded).kbBuf .empty :=
    ⟨fun i inside => absurd inside (Nat.not_lt_zero i), rfl, rfl⟩
  have run : Run (Steps blankEnv) (multiTermInit .loaded) (fullLineKeys.map .key)
      (fullLineKeys.foldl kbIntHandler (multiTermInit .loaded)) := keys_run _ _
  obtain ⟨none, released, task⟩ := fullLine_entered (k := multiTermInit .loaded) rfl blank rfl
  generalize fullLineKeys.foldl kbIntHandler (multiTermInit .loaded) = entered at run none released task
  have shown : (multiTermInit .loaded).activeTask = (multiTermInit .loaded).activeTerminal := rfl
  have own : entered.terminalReadRelease entered.activeTask = .enterReleased := by
    rw [task, shown]
    exact released
  have inside := claim blankEnv .loaded entered _ (fun _ => 0) 1000 128 zeroed run (by decide) (by decide) own
  rcases (staysInside_iff (by decide) (by decide) (run_ended zeroed run).intBuf own).mp inside with
    small | ⟨j, early, newline⟩
  · exact absurd small (by decide)
  · exact none j early newline

end BozOS
