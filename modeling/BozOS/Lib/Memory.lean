import BozOS.Data.Memory
import Mathlib.Logic.Function.Iterate

namespace BozOS.Lib

open BozOS.Data

/-! `memcpy` of `lib.c`, register by register: single bytes until `edi` is
4-aligned, then `rep movsl`, then the 0-3 bytes that are left. The source and
the destination are ranges of one memory and may overlap. -/

/-- One `movsl`: four bytes are read before any of them is written. -/
def movsl (memory : Memory) (edi esi : Nat) : Memory :=
  memory.blit edi (fun index => memory (esi + index)) 4

def repMovsl : Nat → Memory → Nat → Nat → Memory
  | 0, memory, _, _ => memory
  | ecx + 1, memory, edi, esi => repMovsl ecx (movsl memory edi esi) (edi + 4) (esi + 4)

def memcpyBottom : Nat → Memory → Nat → Nat → Memory
  | 0, memory, _, _ => memory
  | edx + 1, memory, edi, esi =>
      memcpyBottom edx (memory.store edi (memory esi)) (edi + 1) (esi + 1)

def memcpyTop : Nat → Memory → Nat → Nat → Memory
  | 0, memory, _, _ => memory
  | ecx + 1, memory, edi, esi =>
      if edi % 4 = 0 then
        memcpyBottom ((ecx + 1) % 4) (repMovsl ((ecx + 1) / 4) memory edi esi)
          (edi + 4 * ((ecx + 1) / 4)) (esi + 4 * ((ecx + 1) / 4))
      else memcpyTop ecx (memory.store edi (memory esi)) (edi + 1) (esi + 1)

def memcpy (memory : Memory) (dest src n : Nat) : Memory := memcpyTop n memory dest src

/-- What copying `n` bytes is for: the old bytes of the source range appear in
the destination range and nothing else changes. -/
def copied (memory : Memory) (dest src n : Nat) : Memory :=
  memory.blit dest (fun index => memory (src + index)) n

variable {memory : Memory} {dest src : Nat}

/-- A forward copy may be split anywhere: the first chunk never overwrites a
source byte the second one still needs. -/
theorem copied_copied {first second : Nat} (forward : dest ≤ src ∨ src + (first + second) ≤ dest) :
    copied (copied memory dest src first) (dest + first) (src + first) second =
      copied memory dest src (first + second) := by
  have source : ∀ index, index < second →
      copied memory dest src first (src + first + index) = memory (src + (first + index)) := by
    intro index bound
    rw [copied, Memory.blit_outside (by omega), Nat.add_assoc]
  calc copied (copied memory dest src first) (dest + first) (src + first) second
      = (copied memory dest src first).blit (dest + first)
          (fun index => memory (src + (first + index))) second := by
        funext cell
        unfold copied Memory.blit
        split
        · rename_i inside
          exact source (cell - (dest + first)) (by omega)
        · rfl
    _ = copied memory dest src (first + second) :=
        Memory.blit_blit first second

theorem store_eq_copied : memory.store dest (memory src) = copied memory dest src 1 :=
  Memory.store_eq_blit fun index => memory (src + index)

theorem repMovsl_eq_copied {count : Nat} (forward : dest ≤ src ∨ src + 4 * count ≤ dest) :
    repMovsl count memory dest src = copied memory dest src (4 * count) := by
  induction count generalizing memory dest src with
  | zero => exact Memory.blit_zero.symm
  | succ count ih =>
      rw [repMovsl, ih (by omega), show movsl memory dest src = copied memory dest src 4 from rfl,
        copied_copied (by omega)]
      congr 1
      omega

theorem memcpyBottom_eq_copied {count : Nat} (forward : dest ≤ src ∨ src + count ≤ dest) :
    memcpyBottom count memory dest src = copied memory dest src count := by
  induction count generalizing memory dest src with
  | zero => exact Memory.blit_zero.symm
  | succ count ih =>
      rw [memcpyBottom, ih (by omega), store_eq_copied, copied_copied (by omega)]
      congr 1
      omega

/-- Copying towards lower addresses, or between disjoint ranges, `memcpy` moves
every byte to its place however the ranges overlap. -/
theorem memcpy_eq_copied {n : Nat} (forward : dest ≤ src ∨ src + n ≤ dest) :
    memcpy memory dest src n = copied memory dest src n := by
  unfold memcpy
  induction n generalizing memory dest src with
  | zero => exact Memory.blit_zero.symm
  | succ n ih =>
      unfold memcpyTop
      split
      · rw [repMovsl_eq_copied (by omega), memcpyBottom_eq_copied (by omega), copied_copied (by omega)]
        congr 1
        omega
      · rw [ih (by omega), store_eq_copied, copied_copied (by omega)]
        congr 1
        omega

/-! The same loops as a machine: one step from one label of the assembly to the
next, with registers of 32 bits. `memcpy` is what it computes. -/

inductive MemcpyLabel where
  | top | movsl | bottom | done
deriving DecidableEq, Repr

structure MemcpyState where
  label : MemcpyLabel
  memory : Memory
  edi : Nat
  esi : Nat
  ecx : Nat
  edx : Nat

namespace MemcpyState

/-- The three instructions that move one byte. -/
def moveByte (s : MemcpyState) : MemcpyState :=
  { s with
    memory := s.memory.store s.edi (s.memory s.esi)
    edi := (s.edi + 1) % 4294967296
    esi := (s.esi + 1) % 4294967296 }

/-- `rep movsl` tests `ecx` before every move. -/
def step (s : MemcpyState) : MemcpyState :=
  match s.label with
  | .top =>
      if s.ecx = 0 then { s with label := .done }
      else if s.edi % 4 = 0 then { s with label := .movsl, ecx := s.ecx / 4, edx := s.ecx % 4 }
      else { s.moveByte with ecx := s.ecx - 1 }
  | .movsl =>
      if s.ecx = 0 then { s with label := .bottom }
      else { s with
        memory := Lib.movsl s.memory s.edi s.esi
        edi := (s.edi + 4) % 4294967296
        esi := (s.esi + 4) % 4294967296
        ecx := s.ecx - 1 }
  | .bottom =>
      if s.edx = 0 then { s with label := .done }
      else { s.moveByte with edx := s.edx - 1 }
  | .done => s

/-- The machine comes to its end with the given memory. -/
def Ends (s : MemcpyState) (memory : Memory) : Prop :=
  ∃ steps, (step^[steps] s).label = .done ∧ (step^[steps] s).memory = memory

theorem Ends.of_step {s : MemcpyState} (ends : s.step.Ends memory) : s.Ends memory := by
  obtain ⟨steps, done, final⟩ := ends
  exact ⟨steps + 1, done, final⟩

variable {edi esi ecx count : Nat}

theorem bottom_ends (ediFits : edi + count ≤ 4294967296) (esiFits : esi + count ≤ 4294967296) :
    Ends ⟨.bottom, memory, edi, esi, ecx, count⟩ (memcpyBottom count memory edi esi) := by
  induction count generalizing memory edi esi with
  | zero => exact ⟨1, rfl, rfl⟩
  | succ count ih =>
      refine .of_step ?_
      rw [memcpyBottom, step]
      simp only [Nat.add_one_ne_zero, if_false, moveByte, Nat.add_sub_cancel]
      -- Behind the last byte a register may have gone round; nothing is read there.
      by_cases last : count = 0
      · subst last
        exact ⟨1, rfl, rfl⟩
      · rw [Nat.mod_eq_of_lt (show edi + 1 < 4294967296 by omega),
          Nat.mod_eq_of_lt (show esi + 1 < 4294967296 by omega)]
        exact ih (by omega) (by omega)

theorem movsl_ends {rest : Nat} (ediFits : edi + (4 * count + rest) ≤ 4294967296)
    (esiFits : esi + (4 * count + rest) ≤ 4294967296) :
    Ends ⟨.movsl, memory, edi, esi, count, rest⟩
      (memcpyBottom rest (repMovsl count memory edi esi) (edi + 4 * count) (esi + 4 * count)) := by
  induction count generalizing memory edi esi with
  | zero =>
      have reached : Ends ⟨.bottom, memory, edi, esi, 0, rest⟩ (memcpyBottom rest memory edi esi) :=
        bottom_ends (by omega) (by omega)
      exact .of_step reached
  | succ count ih =>
      refine .of_step ?_
      rw [repMovsl, step]
      simp only [Nat.add_one_ne_zero, if_false, Nat.add_sub_cancel]
      by_cases last : count = 0 ∧ rest = 0
      · obtain ⟨rfl, rfl⟩ := last
        exact ⟨2, rfl, rfl⟩
      · rw [Nat.mod_eq_of_lt (show edi + 4 < 4294967296 by omega),
          Nat.mod_eq_of_lt (show esi + 4 < 4294967296 by omega),
          show edi + 4 * (count + 1) = edi + 4 + 4 * count by omega,
          show esi + 4 * (count + 1) = esi + 4 + 4 * count by omega]
        exact ih (by omega) (by omega)

theorem top_ends {edx : Nat} (ediFits : edi + count ≤ 4294967296) (esiFits : esi + count ≤ 4294967296) :
    Ends ⟨.top, memory, edi, esi, count, edx⟩ (memcpy memory edi esi count) := by
  unfold memcpy
  induction count generalizing memory edi esi with
  | zero => exact ⟨1, rfl, rfl⟩
  | succ count ih =>
      refine .of_step ?_
      rw [memcpyTop, step]
      simp only [Nat.add_one_ne_zero, if_false, moveByte, Nat.add_sub_cancel]
      split
      · exact movsl_ends (by omega) (by omega)
      · by_cases last : count = 0
        · subst last
          exact ⟨1, rfl, rfl⟩
        · rw [Nat.mod_eq_of_lt (show edi + 1 < 4294967296 by omega),
            Nat.mod_eq_of_lt (show esi + 1 < 4294967296 by omega)]
          exact ih (by omega) (by omega)

end MemcpyState

/-- However the registers are aligned and the ranges overlap, the machine comes
to its end, and the destination then holds what the source held. -/
theorem memcpy_copies (memory : Memory) (dest src n edx : Nat) (destFits : dest + n ≤ 4294967296)
    (srcFits : src + n ≤ 4294967296) (forward : dest ≤ src ∨ src + n ≤ dest) :
    ∃ steps, ∃ last, last = MemcpyState.step^[steps] ⟨.top, memory, dest, src, n, edx⟩ ∧ last.label = .done ∧
      (∀ k < n, last.memory (dest + k) = memory (src + k)) ∧
      (∀ cell, cell < dest ∨ dest + n ≤ cell → last.memory cell = memory cell) ∧
      last.memory = memcpy memory dest src n := by
  have ends : MemcpyState.Ends ⟨.top, memory, dest, src, n, edx⟩ (memcpy memory dest src n) :=
    MemcpyState.top_ends destFits srcFits
  obtain ⟨steps, done, final⟩ := ends
  have whole := final.trans (memcpy_eq_copied forward)
  refine ⟨steps, _, rfl, done, fun k inside => ?_, fun cell outside => ?_, final⟩
  · rw [whole, copied, Memory.blit_inside inside]
  · rw [whole, copied, Memory.blit_outside outside]

/-- The copy of `video_scroll`: rows 1 to 24 over rows 0 to 23. -/
theorem scroll_copies : ∃ steps, ∃ last : MemcpyState, last =
      MemcpyState.step^[steps] ⟨.top, fun cell => UInt8.ofNat cell, 0xB8000, 0xB80A0, 3840, 0⟩ ∧
    last.memory (0xB8000 + 0) = 0xA0 ∧ last.memory 0xB8F00 = 0 := by
  obtain ⟨steps, last, reached, -, moved, kept, -⟩ := memcpy_copies (fun cell => UInt8.ofNat cell) 0xB8000 0xB80A0 3840 0
    (by decide) (by decide) (.inl (by decide))
  refine ⟨steps, last, reached, (moved 0 (by decide)).trans (by decide), (kept 0xB8F00 (.inr (by decide))).trans ?_⟩
  decide

end BozOS.Lib
