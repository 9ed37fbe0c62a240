import BozOS.Kernel.Effects
import BozOS.Kernel.System

namespace BozOS

open Data Lib

/-! Lines of input, and the buffers that hold them: `kb_buf` while a line is
typed, `int_buf` from Enter until it is read, and the reader's own. -/

structure Line where
  chars : List UInt8
  fits : chars.length ≤ 127
  plain : ∀ c ∈ chars, c ≠ 0 ∧ c ≠ 0x0A

namespace Line

def empty : Line := ⟨[], by decide, by simp⟩

/-- Characters beyond the 127th are dropped. -/
def type (line : Line) (c : UInt8) (plain : c ≠ 0 ∧ c ≠ 0x0A) : Line :=
  if room : line.chars.length < 127 then
    ⟨line.chars ++ [c], by simp only [List.length_append, List.length_singleton]; omega, by
      intro d listed
      rcases List.mem_append.mp listed with earlier | new
      · exact line.plain d earlier
      · rwa [List.mem_singleton.mp new]⟩
  else line

def erase (line : Line) : Line :=
  ⟨line.chars.dropLast, by
    have fits := line.fits
    simp only [List.length_dropLast]
    omega, fun c listed => line.plain c (List.dropLast_subset _ listed)⟩

/-- The line with its newline in a reader's buffer, where the last slot always
gets a newline. -/
def cut (line : Line) (capacity : Nat) : List UInt8 :=
  (line.chars.take (capacity - 1) ++ [0x0A]).take capacity

end Line

variable {buffer other : Memory} {line : Line}

def Spells (buffer : Memory) (line : Line) : Prop :=
  ∀ (i : Nat) (inside : i < line.chars.length), buffer i = line.chars[i]

/-- The line that is being typed in a buffer. -/
structure Holds (buffer : Memory) (line : Line) : Prop where
  spells : Spells buffer line
  terminated : buffer line.chars.length = 0
  full : buffer 127 = 0

/-- A buffer that got a line by Enter. A full line comes without its newline. -/
structure Completed (buffer : Memory) (line : Line) : Prop where
  spells : Spells buffer line
  newline : line.chars.length < 127 → buffer line.chars.length = 0x0A

theorem Spells.plain {i : Nat} (spells : Spells buffer line) (inside : i < line.chars.length) :
    buffer i ≠ 0 ∧ buffer i ≠ 0x0A := by
  rw [spells i inside]
  exact line.plain _ (List.getElem_mem inside)

theorem Holds.congr (holds : Holds buffer line) (same : ∀ i < 128, other i = buffer i) : Holds other line := by
  have fits := line.fits
  refine ⟨fun i inside => ?_, ?_, ?_⟩
  · rw [same i (by omega)]
    exact holds.spells i inside
  · rw [same _ (by omega)]
    exact holds.terminated
  · rw [same _ (by omega)]
    exact holds.full

theorem Holds.strlen_eq (holds : Holds buffer line) : strlen buffer 128 = line.chars.length :=
  Lib.strlen_eq (Nat.lt_succ_of_le line.fits) (fun _ inside => (holds.spells.plain inside).1) holds.terminated

/-! The last cell of a line buffer never gets a character. -/

theorem lineAfter_last {c : UInt8} (last : buffer 127 = 0) : lineAfter buffer c 127 = 0 := by
  unfold lineAfter
  split
  · exact Memory.store_eq (Memory.store_eq last fun _ => rfl) (by omega)
  · exact last

theorem lineErased_last (last : buffer 127 = 0) : lineErased buffer 127 = 0 := by
  unfold lineErased
  split
  · exact Memory.store_eq last fun _ => rfl
  · exact last

theorem Holds.clear (full : buffer 127 = 0) : Holds (buffer.store 0 0) .empty := by
  refine ⟨fun i inside => absurd inside (Nat.not_lt_zero i), Memory.store_same, ?_⟩
  rwa [Memory.store_other (by decide)]

theorem Holds.type {c : UInt8} (holds : Holds buffer line) (plain : c ≠ 0 ∧ c ≠ 0x0A) :
    Holds (lineAfter buffer c) (line.type c plain) := by
  have full : lineAfter buffer c 127 = 0 := lineAfter_last holds.full
  unfold lineAfter at full ⊢
  unfold Line.type
  rw [holds.strlen_eq] at full ⊢
  by_cases room : line.chars.length < 127
  · rw [if_pos room] at full ⊢
    rw [dif_pos room]
    refine ⟨fun i inside => ?_, ?_, full⟩
    · simp only [List.length_append, List.length_singleton] at inside
      by_cases last : i = line.chars.length
      · subst last
        rw [Memory.store_same]
        simp
      · rw [Memory.store_other last, Memory.store_other (by omega), holds.spells i (by omega)]
        simp only
        rw [List.getElem_append_left (by omega)]
    · simp only [List.length_append, List.length_singleton]
      rw [Memory.store_other (by omega), Memory.store_same]
  · rwa [if_neg room, dif_neg room]

theorem Holds.erase (holds : Holds buffer line) : Holds (lineErased buffer) line.erase := by
  have fits := line.fits
  unfold lineErased
  rw [holds.strlen_eq]
  by_cases nonempty : line.chars.length > 0
  · rw [if_pos nonempty]
    refine ⟨fun i inside => ?_, ?_, ?_⟩
    · simp only [Line.erase, List.length_dropLast] at inside
      rw [Memory.store_other (by omega), holds.spells i (by omega)]
      simp only [Line.erase, List.getElem_dropLast]
    · simp only [Line.erase, List.length_dropLast]
      exact Memory.store_same
    · rw [Memory.store_other (by omega)]
      exact holds.full
  · have empty : line.chars = [] := List.length_eq_zero_iff.mp (by omega)
    rw [if_neg nonempty]
    refine ⟨fun i inside => ?_, ?_, holds.full⟩
    · simp only [Line.erase, empty, List.dropLast_nil, List.length_nil] at inside
      omega
    · simpa only [Line.erase, empty, List.dropLast_nil] using holds.terminated

/-! Enter copies the typed line, with its newline, out of `kb_buf`. -/

/-- The loop of `copy_kb_buf` from `i` on, where `last` is the cell it stops
behind. -/
theorem copyKbBufFrom_eq {fuel i last : Nat} {intBuf kbBuf : Memory} (start : i ≤ last) (room : last < i + fuel)
    (inner : ∀ j, i ≤ j → j < last → kbBuf j ≠ 0x0A) (stop : kbBuf last = 0x0A ∨ last + 1 = i + fuel) :
    copyKbBufFrom fuel i intBuf kbBuf =
      (intBuf.blit i (fun j => kbBuf (i + j)) (last + 1 - i), kbBuf.fill i 0 (last + 1 - i)) := by
  induction fuel generalizing i intBuf kbBuf with
  | zero => omega
  | succ fuel ih =>
      rw [copyKbBufFrom]
      have single : (intBuf.store i (kbBuf i), kbBuf.store i 0) =
          (intBuf.blit i (fun j => kbBuf (i + j)) 1, kbBuf.fill i 0 1) := by
        rw [← Memory.store_eq_blit, ← Memory.store_eq_fill, Nat.add_zero]
      by_cases newline : kbBuf i = 0x0A
      · have only : i = last := by
          by_contra before
          exact inner i (Nat.le_refl i) (by omega) newline
        rw [if_pos newline, ← only, Nat.add_sub_cancel_left]
        exact single
      · rw [if_neg newline]
        by_cases done : i = last
        · have exhausted : fuel = 0 := by
            rcases stop with ended | ended
            · exact absurd (done ▸ ended) newline
            · omega
          rw [exhausted, copyKbBufFrom, ← done, Nat.add_sub_cancel_left]
          exact single
        · have later : ∀ j, (kbBuf.store i 0) (i + (j + 1)) = kbBuf (i + (j + 1)) := fun j =>
            Memory.store_other (by omega)
          have count : last + 1 - i = last + 1 - (i + 1) + 1 := by omega
          rw [ih (by omega) (by omega), count, ← Memory.store_blit, ← Memory.store_fill]
          · simp only [Nat.add_assoc, Nat.add_comm 1, Nat.add_zero, later]
          · intro j lower upper
            rw [Memory.store_other (by omega)]
            exact inner j (by omega) upper
          · rw [Memory.store_other (Ne.symm done)]
            exact stop.imp_right fun ended => by omega

theorem Holds.enter (holds : Holds buffer line) (intBuf : Memory) :
    Completed (copyKbBufFrom 128 0 intBuf (lineAfter buffer 0x0A)).1 line ∧
      Holds (copyKbBufFrom 128 0 intBuf (lineAfter buffer 0x0A)).2 .empty := by
  have fits := line.fits
  have newline : line.chars.length < 127 → lineAfter buffer 0x0A line.chars.length = 0x0A := by
    intro room
    rw [lineAfter, holds.strlen_eq, if_pos room, Memory.store_same]
  have typed : ∀ i, i < line.chars.length → lineAfter buffer 0x0A i = buffer i := by
    intro i inside
    rw [lineAfter, holds.strlen_eq]
    split
    · rw [Memory.store_other (by omega), Memory.store_other (by omega)]
    · rfl
  have full : lineAfter buffer 0x0A 127 = 0 := lineAfter_last holds.full
  have stop : lineAfter buffer 0x0A line.chars.length = 0x0A ∨ line.chars.length + 1 = 0 + 128 := by
    by_cases room : line.chars.length < 127
    · exact .inl (newline room)
    · exact .inr (by omega)
  rw [copyKbBufFrom_eq (Nat.zero_le line.chars.length) (by omega)
    (fun i _ inside => by rw [typed i inside]; exact (holds.spells.plain inside).2) stop]
  simp only [Nat.sub_zero, Nat.zero_add]
  refine ⟨⟨fun i inside => ?_, fun room => ?_⟩, fun i inside => absurd inside (Nat.not_lt_zero i), ?_, ?_⟩
  · rw [Memory.blit_at (Nat.zero_le i) (by omega), Nat.sub_zero, typed i inside]
    exact holds.spells i inside
  · rw [Memory.blit_at (Nat.zero_le _) (by omega), Nat.sub_zero]
    exact newline room
  · exact Memory.fill_at (Nat.le_refl 0) (show 0 < 0 + (line.chars.length + 1) by omega)
  · by_cases reached : line.chars.length = 127
    · exact Memory.fill_at (Nat.zero_le _) (by omega)
    · rw [Memory.fill_outside (by omega)]
      exact full

/-- The line buffer of a terminal: `kb_buf` while it is displayed, else where
`switch_terminal` has saved it. -/
def lineBuffer (k : Kernel) (t : TermId) : Memory :=
  if t = k.activeTerminal then k.kbBuf else (k.terminalTable t).kbBuf

/-- `switch_terminal` saves the line of the old terminal. -/
theorem switchTo_saved {k : Kernel} {new t : TermId} {i : Nat} (inside : i < 128) :
    ((switchTo k new).terminalTable t).kbBuf i = lineBuffer k t i := by
  have table : (switchTo k new).terminalTable = Function.update k.terminalTable k.activeTerminal
      { k.terminalTable k.activeTerminal with
        kbBuf := (k.terminalTable k.activeTerminal).kbBuf.blit 0 k.kbBuf 128 } := rfl
  rw [table, lineBuffer]
  by_cases put : t = k.activeTerminal
  · rw [if_pos put, put, Function.update_self]
    exact Memory.blit_at (Nat.zero_le i) (by omega)
  · rw [if_neg put, Function.update_of_ne put]

/-- It brings back that of the new one. -/
theorem switchTo_kbBuf {k : Kernel} {new : TermId} {i : Nat} (inside : i < 128) :
    (switchTo k new).kbBuf i = lineBuffer k new i := by
  have loaded : (switchTo k new).kbBuf =
      (k.kbBuf.fill 0 0 128).blit 0 ((switchTo k new).terminalTable new).kbBuf 128 := rfl
  rw [loaded, Memory.blit_at (Nat.zero_le i) (by omega)]
  exact switchTo_saved inside

/-! `terminal_read` copies a line to its caller. -/

/-- What the copy loop of `terminal_read` does from `i` on: it stores up to the
first newline or the end of the caller's buffer. -/
structure LineCopied (buf fuel i : Nat) (dest source : Memory) (result : Nat × Memory × Memory) : Prop where
  lower : i ≤ result.1
  upper : result.1 ≤ i + fuel
  inner : ∀ j, i ≤ j → j < result.1 → source j ≠ 0x0A
  ended : result.1 < i + fuel → source result.1 = 0x0A
  stored : result.2.1 = dest.blit (buf + i) (fun j => source (i + j)) (min (result.1 + 1) (i + fuel) - i)

theorem copyLine_copied (buf fuel i : Nat) (dest source : Memory) :
    LineCopied buf fuel i dest source (copyLine buf fuel i dest source) := by
  induction fuel generalizing i dest source with
  | zero =>
      refine ⟨Nat.le_refl i, Nat.le_refl i, fun j lower upper => absurd upper (Nat.not_lt.mpr lower),
        fun before => absurd before (Nat.lt_irrefl i), ?_⟩
      rw [copyLine]
      simp only
      rw [show min (i + 1) (i + 0) - i = 0 by omega, Memory.blit_zero]
  | succ fuel ih =>
      rw [copyLine]
      by_cases newline : source i = 0x0A
      · rw [if_pos newline]
        refine ⟨Nat.le_refl i, by simp only; omega, fun j lower upper => absurd upper (Nat.not_lt.mpr lower),
          fun _ => newline, ?_⟩
        simp only
        rw [show min (i + 1) (i + (fuel + 1)) - i = 1 by omega, ← Memory.store_eq_blit, Nat.add_zero]
      · rw [if_neg newline]
        obtain ⟨lower, upper, inner, ended, stored⟩ := ih (i + 1) (dest.store (buf + i) (source i)) (source.store i 0)
        generalize copyLine buf fuel (i + 1) _ _ = result at *
        have later : ∀ j, i + 1 ≤ j → source j = (source.store i 0) j := fun j behind =>
          (Memory.store_other (by omega)).symm
        have shifted : ∀ j, (source.store i 0) (i + (j + 1)) = source (i + (j + 1)) := fun j =>
          Memory.store_other (by omega)
        refine ⟨by omega, by omega, fun j from_ before => ?_, fun before => ?_, ?_⟩
        · by_cases first : j = i
          · rwa [first]
          · rw [later j (by omega)]
            exact inner j (by omega) before
        · rw [later result.1 lower]
          exact ended (by omega)
        · have count : min (result.1 + 1) (i + (fuel + 1)) - i =
              min (result.1 + 1) (i + 1 + fuel) - (i + 1) + 1 := by omega
          rw [stored, count, ← Memory.store_blit]
          simp only [Nat.add_assoc, Nat.add_comm 1, Nat.add_zero, shifted]

theorem shiftResidue_inside {fuel i c : Nat} {source shifted : Memory}
    (completed : shiftResidue fuel i c source = .ok shifted) : i < 128 := by
  cases fuel with
  | zero => cases completed
  | succ fuel =>
      rw [shiftResidue] at completed
      split at completed
      · cases completed
      · omega

theorem shiftResidue_ends {fuel i c stop : Nat} {source : Memory} (order : c < i) (start : i ≤ stop)
    (room : stop < i + fuel) (inside : stop < 128) (terminated : source stop = 0) :
    ∃ shifted, shiftResidue fuel i c source = .ok shifted := by
  induction fuel generalizing i c source with
  | zero => omega
  | succ fuel ih =>
      rw [shiftResidue, if_neg (by omega)]
      split
      · exact ⟨source, rfl⟩
      · rename_i moved
        have different : stop ≠ i := fun same => moved (same ▸ terminated)
        refine ih (by omega) (by omega) (by omega) ?_
        rw [Memory.store_other different, Memory.store_other (by omega)]
        exact terminated

/-- `bytes_to_copy`: the size of the reader's buffer, up to that of `int_buf`. -/
def readCapacity (nbytes : Int) : Nat := if nbytes < 128 then nbytes.toNat else 128

def lineRead (buf : Nat) (nbytes : Int) (result : Int × Memory × Kernel) : List UInt8 :=
  result.2.1.window buf (min (result.1.toNat + 1) (readCapacity nbytes))

section Read

variable {k : Kernel} {mem : Memory} {buf : Nat} {nbytes : Int} {result : Int × Memory × Kernel}

theorem terminalRead_ok (accepted : ¬(buf = 0 ∨ nbytes < 0)) (called : terminalRead k mem buf nbytes = .ok result) :
    ∃ copied, LineCopied buf (readCapacity nbytes) 0 mem k.intBuf copied ∧ copied.1 < 127 ∧
      result.1 = copied.1 ∧ result.2.1 = copied.2.1.store (buf + readCapacity nbytes - 1) 0x0A := by
  unfold terminalRead at called
  rw [if_neg accepted] at called
  split at called
  · cases called
  · obtain ⟨source, shifted, called⟩ := bind_ok.mp called
    cases called
    have inside := shiftResidue_inside shifted
    exact ⟨copyLine buf (readCapacity nbytes) 0 mem k.intBuf, copyLine_copied .., Nat.lt_of_succ_lt_succ inside,
      rfl, rfl⟩

theorem LineCopied.stops {capacity : Nat} {source : Memory} {copied : Nat × Memory × Memory}
    (loop : LineCopied buf capacity 0 mem source copied) (completed : Completed source line)
    (inside : copied.1 < 127) : copied.1 = min line.chars.length capacity := by
  have upper := loop.upper
  have fits := line.fits
  by_cases before : copied.1 < line.chars.length
  · have plain := (completed.spells.plain before).2
    have atEnd : ¬copied.1 < 0 + capacity := fun short => plain (loop.ended short)
    omega
  · by_cases behind : line.chars.length < copied.1
    · exact absurd (completed.newline (by omega)) (loop.inner _ (Nat.zero_le _) behind)
    · omega

theorem terminalRead_line (accepted : ¬(buf = 0 ∨ nbytes < 0)) (completed : Completed k.intBuf line)
    (called : terminalRead k mem buf nbytes = .ok result) :
    lineRead buf nbytes result = line.cut (readCapacity nbytes) := by
  obtain ⟨copied, loop, inside, returned, stored⟩ := terminalRead_ok accepted called
  have stops := loop.stops completed inside
  have contents : copied.2.1 = mem.blit buf k.intBuf (min (copied.1 + 1) (readCapacity nbytes)) := by
    rw [loop.stored]
    simp only [Nat.zero_add, Nat.add_zero, Nat.sub_zero]
  rw [lineRead, returned, stored, contents, Int.toNat_natCast, Line.cut]
  generalize readCapacity nbytes = capacity at *
  apply List.ext_getElem
  · simp only [Memory.window_length, List.length_take, List.length_append, List.length_singleton]
    omega
  · intro j inWindow inCut
    simp only [Memory.window_length] at inWindow
    simp only [Memory.window, List.getElem_map, List.getElem_range, List.getElem_take, List.getElem_append,
      List.length_take, List.getElem_singleton]
    by_cases last : j = capacity - 1
    · rw [dif_neg (by omega), show buf + j = buf + capacity - 1 by omega, Memory.store_same]
    · rw [Memory.store_other (by omega), Memory.blit_inside inWindow]
      split
      · exact completed.spells j (by omega)
      · rw [show j = line.chars.length by omega, completed.newline (by omega)]

end Read

end BozOS
