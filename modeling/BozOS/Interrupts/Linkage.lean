import BozOS.Interrupts.Gates
import BozOS.Kernel.Process

namespace BozOS.Interrupts

open Data

/-! The assembly of `IDT_asm.S` around the kernel's C functions, and the stubs of
the user programs. A C function is what it makes of the machine from its entry to
its return; `none` stands for one that does not return. -/

abbrev Function := Machine → Option Machine

/-- `handle_syscall_asm` up to the call. -/
def syscallEntry : List Instr :=
  [.push .esp, .push .ebp, .push .esi, .push .edi, .push .edx, .push .ecx, .push .ebx, .dec .eax]

variable {m returned : Machine} {tss : Tss} {jumpTable : Nat → Function}
  {back eip cs eflags esp ss : BitVec 32}

/-- The frame the processor pushes when a program enters the kernel. -/
def frame (eip cs eflags esp ss : BitVec 32) : List (BitVec 32) := [eip, cs, eflags, esp, ss]

/-- The machine in the jump to a kernel function. -/
def called (m : Machine) (back : BitVec 32) : Machine := (m.run syscallEntry).push back

section SystemCall

variable {addr : Handler → BitVec 32} {idt : Idt}

/-- A function that returns a value at once. -/
def answer (value : BitVec 32) : Function := fun m => some (m.set .eax value).ret

/-- A program that has set up `write`, with its stack in the user page. -/
def program : Machine where
  reg r := match r with
    | .eax => 4
    | .esp => 0x83FFF00
    | _ => 1
  eip := 0x8048100
  cs := 0x23
  ss := 0x2B
  eflags := 0x202
  word _ := 0

def taskTss : Tss where
  esp0 := 0x7FFFFC
  ss0 := 0x18

/-- Where the stubs are in the kernel's page. -/
def stubAddr : Handler → BitVec 32
  | .exception number => 0x402000 + BitVec.ofNat 32 (16 * number.val)
  | .defaultAsm => 0x402200
  | .default => 0x402240
  | .syscall => 0x402280
  | .keyboard => 0x4022C0
  | .rtc => 0x402300
  | .pit => 0x402340

/-- A table without a gate that is present. -/
def loadedIdt : Idt := fun _ => { trapGate 0 with present := false }

end SystemCall

section Interrupt

variable {words : List (BitVec 32)} {values : Reg → BitVec 32}

end Interrupt

section Gates

/-- All a program reaches of the kernel's 256 gates is the system call; each gate the
processor itself takes leads to its handler and leaves interrupts enabled. -/
theorem gates_open (addr : Handler → BitVec 32) (idt : Idt) (tss : Tss) (m : Machine) (vector : Nat)
    (bound : vector < 256) :
    (∀ handler, handlerOf vector = some handler → (bootIDT addr idt vector).present = true ∧
      (bootIDT addr idt vector).isTrap ∧ (enter tss (bootIDT addr idt vector) m).eip = addr handler ∧
      ring (enter tss (bootIDT addr idt vector) m) = 0) ∧
    (handlerOf vector = none → (bootIDT addr idt vector).present = false) ∧
    (ring m = 3 → ((softwareInt (bootIDT addr idt) tss vector m).isSome ↔ vector = 0x80)) := by
  have gate := bootIDT_entry addr idt bound
  refine ⟨fun handler found => ?_, fun missing => ?_, fun user => ?_⟩
  · rw [found] at gate
    have target : (enter tss (bootIDT addr idt vector) m).eip = addr handler := by
      change (bootIDT addr idt vector).target = _
      rw [gate]
      exact trapGate_target _
    have selector : (enter tss (bootIDT addr idt vector) m).cs = 0x10 := by
      change (bootIDT addr idt vector).segSelector.setWidth 32 = _
      rw [gate]
      rfl
    refine ⟨by rw [gate]; rfl, by rw [gate]; exact ⟨rfl, rfl, rfl, rfl, rfl⟩, target, ?_⟩
    rw [ring, selector]
    rfl
  · rw [missing] at gate
    rw [gate]
  · have open3 : ((ring m).toNat ≤ (bootIDT addr idt vector).dpl ∧ (bootIDT addr idt vector).present) ↔
        vector = 0x80 := by
      rw [gate, user]
      by_cases call : vector = 0x80
      · subst call
        exact ⟨fun _ => rfl, fun _ => ⟨Nat.le_refl 3, rfl⟩⟩
      · refine ⟨fun passed => absurd passed.1 ?_, fun same => absurd same call⟩
        cases handlerOf vector with
        | none => exact (by decide : ¬3 ≤ 0)
        | some handler =>
            rw [if_neg call]
            exact (by decide : ¬3 ≤ 0)
    rw [softwareInt]
    split
    next passed => exact ⟨fun _ => open3.mp passed, fun _ => rfl⟩
    next refused => exact ⟨fun found => (by cases found), fun same => absurd (open3.mpr same) refused⟩

theorem gates_open_timer : (bootIDT stubAddr loadedIdt 0x20).present = true ∧
    ¬(softwareInt (bootIDT stubAddr loadedIdt) taskTss 0x20 program).isSome := by
  have timer := gates_open stubAddr loadedIdt taskTss program 0x20 (by decide)
  exact ⟨(timer.1 .pit rfl).1, fun passed => absurd ((timer.2.2 rfl).mp passed) (by decide)⟩

end Gates

end BozOS.Interrupts
