import BozOS.Kernel.System
import Mathlib.Data.Nat.Find

namespace BozOS

open Data Lib

/-! The command line of `execute`. A command is a string of any length; its
words end at a space, a newline or the NUL. -/

/-- The longest beginning without a byte that ends a word. -/
def firstWord (command : List UInt8) : List UInt8 := command.takeWhile fun c => !endsWord c

/-- The word behind the spaces that follow the first one. -/
def secondWord (command : List UInt8) : List UInt8 :=
  firstWord ((command.dropWhile fun c => !endsWord c).dropWhile (· = 0x20))

variable {command : Memory} {fuel i : Nat} {s : List UInt8}

/-! The three scanning loops on a string. -/

theorem wordEnd_eq (spelt : Spelt command i s) : wordEnd command fuel i = i + min (firstWord s).length fuel := by
  induction fuel generalizing i s with
  | zero => rw [wordEnd, Nat.min_zero, Nat.add_zero]
  | succ fuel ih =>
      rw [wordEnd]
      cases spelt with
      | nil terminated =>
          rw [terminated, if_pos (by decide)]
          rfl
      | cons nonzero tail =>
          rw [firstWord, List.takeWhile_cons]
          cases ended : endsWord (command i) with
          | true => simp
          | false =>
              have later := ih tail
              rw [firstWord] at later
              simp only [Bool.not_false, if_true, Bool.false_eq_true, if_false, List.length_cons, later]
              omega

theorem skipSpaces_eq (spelt : Spelt command i s) (narrow : i + s.length < 256) (room : s.length < fuel) :
    skipSpaces command fuel i = .ok (i + (s.takeWhile (· = 0x20)).length) := by
  induction fuel generalizing i s with
  | zero => omega
  | succ fuel ih =>
      rw [skipSpaces]
      cases spelt with
      | nil terminated =>
          rw [terminated, if_neg (by decide)]
          rfl
      | cons nonzero tail =>
          rw [List.length_cons] at narrow room
          rw [List.takeWhile_cons]
          by_cases space : command i = 0x20
          · rw [if_pos space, if_pos (by simp [space]), Nat.mod_eq_of_lt (by omega), ih tail (by omega) (by omega),
              List.length_cons, Nat.add_assoc, Nat.add_comm 1]
          · rw [if_neg space, if_neg (by simp [space])]
            rfl

/-- The loop over the spaces, as long as its index does not go round. -/
theorem skipSpaces_stops {stop : Nat} (start : i ≤ stop) (room : stop < i + fuel) (narrow : stop < 256)
    (spaces : ∀ j, i ≤ j → j < stop → command j = 0x20) (other : command stop ≠ 0x20) :
    skipSpaces command fuel i = .ok stop := by
  induction fuel generalizing i with
  | zero => omega
  | succ fuel ih =>
      rw [skipSpaces]
      by_cases reached : i = stop
      · rw [reached, if_neg other]
      · rw [if_pos (spaces i (Nat.le_refl i) (by omega)), Nat.mod_eq_of_lt (by omega)]
        exact ih (by omega) (by omega) fun j lower upper => spaces j (by omega) upper

/-- Spaces up to the last index of 8 bits make it start over. -/
theorem skipSpaces_wraps (fuel : Nat) (narrow : i < 256) (spaces : ∀ j, i ≤ j → j < 256 → command j = 0x20) :
    skipSpaces command (fuel + (256 - i)) i = skipSpaces command fuel 0 := by
  obtain ⟨left, rest⟩ : ∃ left, 256 - i = left + 1 := ⟨255 - i, by omega⟩
  rw [rest]
  induction left generalizing i with
  | zero =>
      obtain rfl : i = 255 := by omega
      rw [Nat.zero_add, skipSpaces, if_pos (spaces 255 (Nat.le_refl _) (by omega))]
  | succ left ih =>
      rw [← Nat.add_assoc, skipSpaces, if_pos (spaces i (Nat.le_refl i) narrow), Nat.mod_eq_of_lt (by omega)]
      exact ih (by omega) (fun j lower upper => spaces j (by omega) upper) (by omega)

theorem skipSpaces_around (narrow : i < 256) (spaces : ∀ j, i ≤ j → j < 256 → command j = 0x20) :
    skipSpaces command 256 i = skipSpaces command i 0 := by
  have wrapped := skipSpaces_wraps i narrow spaces
  rwa [show i + (256 - i) = 256 by omega] at wrapped

/-- Step 1 of `execute`, from the index at which the spaces end. -/
def parsedFrom (command : Memory) (start : Nat) : Parsed :=
  let j := wordEnd command (128 - start) start
  let argNbytes := if j < 128 then j - start else 0
  { cmd1 := strncpy (fun _ => 0) 0 command (wordEnd command 128 0)
    cmd2 := strncpy (fun _ => 0) 0 (fun index => command (start + index)) argNbytes
    argNbytes }

theorem parseCommand_eq :
    parseCommand command = (skipSpaces command 256 (wordEnd command 128 0)).map (parsedFrom command) := by
  rw [parseCommand]
  cases skipSpaces command 256 (wordEnd command 128 0) with
  | error stop => rfl
  | ok start => rfl

section Forward

/-- Step 1 ends, and an argument it selects starts behind the first word. -/
structure ParsesForward (command : Memory) (s : List UInt8) : Prop where
  ends : ∃ parsed, parseCommand command = .ok parsed
  forward : ∀ start parsed, skipSpaces command 256 (wordEnd command 128 0) = .ok start →
    parseCommand command = .ok parsed → parsed.argNbytes ≠ 0 → (firstWord s).length ≤ start

/-- Spaces from the end of the first word to the last index of 8 bits. -/
def SpacesWrap (command : Memory) (s : List UInt8) : Prop :=
  (firstWord s).length < 128 ∧ ∀ j, (firstWord s).length ≤ j → j < 256 → command j = 0x20

theorem skipSpaces_ends (start : i ≤ 255) (other : ∃ j, i ≤ j ∧ j < 256 ∧ command j ≠ 0x20) :
    ∃ stop, i ≤ stop ∧ skipSpaces command 256 i = .ok stop := by
  classical
  obtain ⟨lower, upper, stops⟩ := Nat.find_spec other
  refine ⟨Nat.find other, lower, skipSpaces_stops lower (by omega) upper (fun j from_ before => ?_) stops⟩
  by_contra earlier
  exact Nat.find_min other before ⟨from_, by omega, earlier⟩

theorem firstWord_plain {j : Nat} (spelt : Spelt command 0 s) (inside : j < (firstWord s).length) :
    endsWord (command j) = false := by
  have shorter : (firstWord s).length ≤ s.length := (List.takeWhile_prefix _).length_le
  have same : command j = (firstWord s)[j] := by
    have read := spelt.at_index (show j < s.length by omega)
    rw [Nat.zero_add] at read
    rw [read]
    exact (List.IsPrefix.getElem (List.takeWhile_prefix _) inside).symm
  have kept := List.all_takeWhile (l := s) (p := fun c => !endsWord c)
  rw [List.all_eq_true] at kept
  simpa [same] using kept _ (List.getElem_mem inside)

/-- Behind a first word the wrapped index stops at its first character. -/
theorem skipSpaces_restarts (spelt : Spelt command 0 s) (nonempty : 0 < (firstWord s).length) :
    skipSpaces command (fuel + 1) 0 = .ok 0 := by
  have plain := firstWord_plain spelt nonempty
  rw [skipSpaces, if_neg]
  intro space
  rw [space] at plain
  exact absurd plain (by decide)

theorem SpacesWrap.misparses (wraps : SpacesWrap command s) (spelt : Spelt command 0 s) :
    ¬ParsesForward command s := by
  rintro ⟨⟨parsed, parses⟩, forward⟩
  obtain ⟨short, spaces⟩ := wraps
  have nbytes : wordEnd command 128 0 = (firstWord s).length := by
    rw [wordEnd_eq spelt]
    omega
  have around : skipSpaces command 256 (firstWord s).length = skipSpaces command (firstWord s).length 0 :=
    skipSpaces_around (by omega) spaces
  rw [parseCommand_eq, nbytes, around] at parses
  by_cases empty : (firstWord s).length = 0
  · rw [empty, skipSpaces] at parses
    cases parses
  · obtain ⟨fuel, enough⟩ : ∃ fuel, (firstWord s).length = fuel + 1 := ⟨(firstWord s).length - 1, by omega⟩
    have stops : skipSpaces command (firstWord s).length 0 = .ok 0 := by
      rw [enough]
      exact skipSpaces_restarts spelt (by omega)
    have selected : (parsedFrom command 0).argNbytes = (firstWord s).length := by
      simp only [parsedFrom, Nat.sub_zero, nbytes, if_pos short]
    have after := forward 0 (parsedFrom command 0) (by rw [nbytes, around, stops])
      (by rw [parseCommand_eq, nbytes, around, stops]; rfl) (by omega)
    omega

theorem parse_forward_iff (command : Memory) (s : List UInt8) (spelt : Spelt command 0 s) :
    ParsesForward command s ↔ ¬SpacesWrap command s := by
  refine ⟨fun forward wraps => wraps.misparses spelt forward, fun straight => ?_⟩
  have nbytes : wordEnd command 128 0 = min (firstWord s).length 128 := by
    rw [wordEnd_eq spelt, Nat.zero_add]
  have settled : ∀ start, skipSpaces command 256 (wordEnd command 128 0) = .ok start →
      ((parsedFrom command start).argNbytes ≠ 0 → (firstWord s).length ≤ start) → ParsesForward command s := by
    intro start stops forward
    refine ⟨⟨parsedFrom command start, by rw [parseCommand_eq, stops]; rfl⟩, fun other parsed found parses => ?_⟩
    cases stops.symm.trans found
    rw [parseCommand_eq, stops] at parses
    cases parses
    exact forward
  by_cases other : ∃ j, min (firstWord s).length 128 ≤ j ∧ j < 256 ∧ command j ≠ 0x20
  · obtain ⟨start, lower, stops⟩ := skipSpaces_ends (by omega) other
    refine settled start (by rw [nbytes]; exact stops) fun selected => ?_
    by_contra before
    have beyond : 128 ≤ start := by omega
    refine selected ?_
    simp only [parsedFrom, show 128 - start = 0 by omega, wordEnd]
    rw [if_neg (by omega)]
  · -- Only a first word that fills the buffer is left: its whole is copied, and nothing else.
    have spaces : ∀ j, min (firstWord s).length 128 ≤ j → j < 256 → command j = 0x20 := by
      intro j lower upper
      by_contra found
      exact other ⟨j, lower, upper, found⟩
    have long : 128 ≤ (firstWord s).length := by
      by_contra short
      exact straight ⟨by omega, fun j lower upper => spaces j (by omega) upper⟩
    rw [Nat.min_eq_right long] at spaces nbytes
    have around : skipSpaces command 256 128 = .ok 0 := by
      rw [skipSpaces_around (by omega) spaces]
      exact skipSpaces_restarts spelt (by omega)
    refine settled 0 (by rw [nbytes, around]) fun selected => absurd ?_ selected
    simp only [parsedFrom, Nat.sub_zero, nbytes, Nat.lt_irrefl, if_false]

/-- Nothing but spaces, one more than the index can count. -/
def blankCommand : Memory := fun i => if i < 256 then 0x20 else 0

/-- `execute` never leaves its loop over the spaces. -/
theorem blankCommand_misparsed :
    ¬∀ (command : Memory) (s : List UInt8), Spelt command 0 s → ParsesForward command s := by
  intro claim
  have spelt : Spelt blankCommand 0 (List.replicate 256 0x20) := by
    refine .of_bytes (fun i inside => ?_) (fun c listed => ?_) ?_
    · rw [List.length_replicate] at inside
      rw [List.getElem_replicate, Nat.zero_add, blankCommand, if_pos inside]
    · rw [List.eq_of_mem_replicate listed]
      decide
    · rw [List.length_replicate]
      rfl
  have wraps : SpacesWrap blankCommand (List.replicate 256 0x20) := by
    refine ⟨by decide, fun j _ inside => ?_⟩
    rw [blankCommand, if_pos inside]
  exact wraps.misparses spelt (claim _ _ spelt)

theorem shellCommand_spelt : Spelt shellCommand 0 (literal "shell") := .of_list (nonzero_of_all (by decide))

theorem shellCommand_forward : ParsesForward shellCommand (literal "shell") := by
  refine (parse_forward_iff shellCommand (literal "shell") shellCommand_spelt).mpr fun wraps => ?_
  exact absurd (wraps.2 5 (by decide) (by decide)) (by decide)

end Forward

section Words

theorem firstWord_take (s : List UInt8) : s.take (firstWord s).length = firstWord s :=
  (List.prefix_iff_eq_take.mp (List.takeWhile_prefix _)).symm

/-- The two words of a command that fits into the keyboard's buffer. -/
theorem parseCommand_words (spelt : Spelt command 0 s) (short : s.length ≤ 127) :
    ∃ parsed, parseCommand command = .ok parsed ∧ Spelt parsed.cmd1 0 (firstWord s) ∧
      Spelt parsed.cmd2 0 (secondWord s) ∧ parsed.argNbytes = (secondWord s).length := by
  have behind := spelt.dropWhile fun c => !endsWord c
  have first : (firstWord s).length + (s.dropWhile fun c => !endsWord c).length = s.length := by
    rw [firstWord, ← List.length_append, List.takeWhile_append_dropWhile]
  have nbytes : wordEnd command 128 0 = (firstWord s).length := by
    rw [wordEnd_eq spelt]
    omega
  rw [Nat.zero_add, ← firstWord] at behind
  generalize rest : (s.dropWhile fun c => !endsWord c) = tail at behind first
  have argument := behind.dropWhile (· = 0x20)
  have spaces : (tail.takeWhile (· = 0x20)).length + (tail.dropWhile (· = 0x20)).length = tail.length := by
    rw [← List.length_append, List.takeWhile_append_dropWhile]
  have stops : skipSpaces command 256 (firstWord s).length =
      .ok ((firstWord s).length + (tail.takeWhile (· = 0x20)).length) :=
    skipSpaces_eq behind (by omega) (by omega)
  have second : secondWord s = firstWord (tail.dropWhile (· = 0x20)) := by rw [secondWord, rest]
  have inside : (secondWord s).length ≤ (tail.dropWhile (· = 0x20)).length := by
    rw [second]
    exact (List.takeWhile_prefix _).length_le
  generalize place : (firstWord s).length + (tail.takeWhile (· = 0x20)).length = start at stops argument
  have last : wordEnd command (128 - start) start = start + (secondWord s).length := by
    rw [wordEnd_eq argument, ← second, Nat.min_eq_left (by omega)]
  have counted : (parsedFrom command start).argNbytes = (secondWord s).length := by
    simp only [parsedFrom, last]
    rw [if_pos (by omega)]
    omega
  refine ⟨parsedFrom command start, by rw [parseCommand_eq, nbytes, stops]; rfl, ?_, ?_, counted⟩
  · have copied := spelt.strncpy_front (fun _ => 0) (show (firstWord s).length ≤ s.length by omega) rfl
    rw [firstWord_take] at copied
    simpa only [parsedFrom, nbytes, Nat.zero_add] using copied
  · have copied := argument.strncpy_front (fun _ => 0) inside rfl
    rw [second, firstWord_take, ← second] at copied
    rw [← counted] at copied
    exact copied

end Words

end BozOS
