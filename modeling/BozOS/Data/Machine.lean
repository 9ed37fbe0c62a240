import Mathlib.Logic.Function.Basic
import Mathlib.Tactic.Common
import Mathlib.Algebra.Ring.Nat

namespace BozOS.Data

/-! A 32-bit machine with eight registers and a stack that grows downwards. Code
that only pushes and pops is followed on the list of words from the top of the
stack up, which every rule below changes at its front. -/

inductive Reg where
  | eax | ecx | edx | ebx | esp | ebp | esi | edi
deriving DecidableEq, Repr

structure Machine where
  reg : Reg → BitVec 32
  eip : BitVec 32
  cs : BitVec 32
  ss : BitVec 32
  eflags : BitVec 32
  -- the word at every address
  word : BitVec 32 → BitVec 32

namespace Machine

def set (m : Machine) (r : Reg) (value : BitVec 32) : Machine := { m with reg := Function.update m.reg r value }

def push (m : Machine) (value : BitVec 32) : Machine :=
  { m with
    reg := Function.update m.reg .esp (m.reg .esp - 4)
    word := Function.update m.word (m.reg .esp - 4) value }

/-- `popl %esp` ends with the value of the stack, not with the moved register. -/
def pop (m : Machine) (r : Reg) : Machine := (m.set .esp (m.reg .esp + 4)).set r (m.word (m.reg .esp))

def pushAll (m : Machine) (values : List (BitVec 32)) : Machine := values.foldl push m

def skip (m : Machine) : Machine := m.set .esp (m.reg .esp + 4)

/-- The word at an offset from the stack pointer, in words. -/
def stackWord (m : Machine) (index : Nat) : BitVec 32 := m.word (m.reg .esp + BitVec.ofNat 32 (4 * index))

/-- `words` are on the stack, the top first. -/
def Stack (m : Machine) (words : List (BitVec 32)) : Prop :=
  ∀ index word, words[index]? = some word → m.stackWord index = word

variable {m after : Machine} {r other : Reg} {value : BitVec 32} {words rest : List (BitVec 32)}

@[simp] theorem set_same : (m.set r value).reg r = value := Function.update_self ..

theorem set_other (different : other ≠ r) : (m.set r value).reg other = m.reg other :=
  Function.update_of_ne different ..

@[simp] theorem push_esp : (m.push value).reg .esp = m.reg .esp - 4 := by simp [push]

@[simp] theorem push_top : (m.push value).word (m.reg .esp - 4) = value := by simp [push]

theorem pop_esp (different : r ≠ .esp) : (m.pop r).reg .esp = m.reg .esp + 4 := by
  rw [pop, set_other different.symm, set_same]

/-- Only the word below the top changes. -/
theorem push_word {address : BitVec 32} (different : address ≠ m.reg .esp - 4) :
    (m.push value).word address = m.word address := Function.update_of_ne different ..

theorem Stack.nil : m.Stack [] := fun index word found => by simp at found

theorem Stack.push (stack : m.Stack words) (fits : words.length < 2 ^ 30 - 1) (value : BitVec 32) :
    (m.push value).Stack (value :: words) := by
  intro index word found
  rw [stackWord, push_esp]
  cases index with
  | zero =>
      obtain rfl : value = word := by simpa using found
      rw [Nat.mul_zero, BitVec.add_zero, push_top]
  | succ index =>
      have found : words[index]? = some word := by simpa using found
      have bound : index < words.length := (List.getElem?_eq_some_iff.mp found).1
      have moved : m.reg .esp - 4 + BitVec.ofNat 32 (4 * (index + 1)) = m.reg .esp + BitVec.ofNat 32 (4 * index) := by
        bv_omega
      have apart : m.reg .esp + BitVec.ofNat 32 (4 * index) ≠ m.reg .esp - 4 := by bv_omega
      rw [moved, push_word apart]
      exact stack index word found

theorem Stack.top (stack : m.Stack (value :: words)) : m.word (m.reg .esp) = value := by
  have first := stack 0 value rfl
  rwa [stackWord, Nat.mul_zero, BitVec.add_zero] at first

theorem Stack.pop (stack : m.Stack (value :: words)) (different : r ≠ .esp) : (m.pop r).Stack words := by
  intro index word found
  have moved : m.reg .esp + 4 + BitVec.ofNat 32 (4 * index) = m.reg .esp + BitVec.ofNat 32 (4 * (index + 1)) := by
    bv_omega
  rw [stackWord, pop_esp different, moved]
  exact stack (index + 1) word found

/-- Code that leaves the stack pointer and the memory alone keeps the stack. -/
theorem Stack.congr (stack : m.Stack words) (pointer : after.reg .esp = m.reg .esp) (memory : after.word = m.word) :
    after.Stack words := by
  intro index word found
  rw [stackWord, pointer, memory]
  exact stack index word found

theorem Stack.skip (stack : m.Stack (value :: words)) : m.skip.Stack words := by
  intro index word found
  have moved : m.reg .esp + 4 + BitVec.ofNat 32 (4 * index) = m.reg .esp + BitVec.ofNat 32 (4 * (index + 1)) := by
    bv_omega
  rw [stackWord, Machine.skip, set_same, moved]
  exact stack (index + 1) word found

section PushAll

variable {values : List (BitVec 32)}

theorem Stack.pushAll (stack : m.Stack words) (fits : values.length + words.length < 2 ^ 30) :
    (m.pushAll values).Stack (values.reverse ++ words) := by
  induction values generalizing m words with
  | nil => exact stack
  | cons value values ih =>
      rw [List.length_cons] at fits
      rw [List.reverse_cons, List.append_assoc]
      exact ih (stack.push (by omega) value) (by rw [List.singleton_append, List.length_cons]; omega)

end PushAll

end Machine

/-- The instructions of straight-line code. Displacements are in bytes. -/
inductive Instr where
  | push (r : Reg)
  | pop (r : Reg)
  | mov (value : BitVec 32) (r : Reg)
  | load (disp : BitVec 32) (r : Reg)
  | dec (r : Reg)
  | pushal
  | popal
deriving DecidableEq, Repr

namespace Machine

variable {m after : Machine} {r other : Reg} {value : BitVec 32} {words rest : List (BitVec 32)}

/-- `pushal` pushes the stack pointer it started with, and `popal` skips it. -/
def pushed : List Reg := [.eax, .ecx, .edx, .ebx, .esp, .ebp, .esi, .edi]

def exec (m : Machine) : Instr → Machine
  | .push r => m.push (m.reg r)
  | .pop r => m.pop r
  | .mov value r => m.set r value
  | .load disp r => m.set r (m.word (m.reg .esp + disp))
  | .dec r => m.set r (m.reg r - 1)
  | .pushal => m.pushAll (pushed.map m.reg)
  | .popal => (((((((m.pop .edi).pop .esi).pop .ebp).skip).pop .ebx).pop .edx).pop .ecx).pop .eax

def run (m : Machine) (code : List Instr) : Machine := code.foldl exec m

/-- A function call of C: `call` pushes the return address, and `ret` pops it. -/
def ret (m : Machine) : Machine := { m.set .esp (m.reg .esp + 4) with eip := m.word (m.reg .esp) }

/-- What a compiled C function with `count` argument words keeps: the registers
its caller owns, and `depth` words of the caller's frame above the arguments. The
arguments themselves are its own to change. -/
structure Cdecl (count depth : Nat) (before after : Machine) : Prop where
  pointer : after.reg .esp = before.reg .esp + 4
  saved : ∀ r ∈ [Reg.ebx, .esi, .edi, .ebp], after.reg r = before.reg r
  frame : ∀ index, index < depth → after.stackWord (count + index) = before.stackWord (count + index + 1)

/-- The caller's frame is still there when the function has returned, and where the
arguments were it finds what the function made of them. -/
theorem Cdecl.stack {count depth : Nat} {before after : Machine} {back : BitVec 32} {args kept : List (BitVec 32)}
    (kind : Cdecl count depth before after) (stack : before.Stack (back :: args ++ kept))
    (counted : args.length = count)
    (fits : kept.length ≤ depth) : after.Stack ((List.range count).map after.stackWord ++ kept) := by
  intro index word found
  rcases Nat.lt_or_ge index count with low | high
  · rw [List.getElem?_append_left (by simpa using low)] at found
    simpa [low] using found
  · rw [List.getElem?_append_right (by simpa using high), List.length_map, List.length_range] at found
    have bound := (List.getElem?_eq_some_iff.mp found).1
    have moved := kind.frame (index - count) (by omega)
    rw [show count + (index - count) = index by omega] at moved
    rw [moved]
    refine stack (index + 1) word ?_
    rw [List.cons_append, List.getElem?_cons_succ, List.getElem?_append_right (by omega), counted]
    exact found

end Machine

end BozOS.Data
