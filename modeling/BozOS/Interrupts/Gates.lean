import BozOS.Data.Machine
import Mathlib.Data.List.Range

namespace BozOS.Interrupts

open Data

/-! The interrupt descriptor table of `IDT.c`, and what the processor does with one
of its gates. -/

/-- The assembly routines and functions the table leads to. -/
inductive Handler where
  | exception (number : Fin 20)
  | defaultAsm
  | default
  | syscall
  | keyboard
  | rtc
  | pit
deriving DecidableEq, Repr

/-- `idt_desc_t`. The processor reads the bits `size` to `reserved3` as the type of
the gate, and `reserved0` as zero. -/
structure IdtDesc where
  offset1500 : BitVec 16
  segSelector : BitVec 16
  reserved4 : BitVec 8
  reserved3 : Bool
  reserved2 : Bool
  reserved1 : Bool
  size : Bool
  reserved0 : Bool
  dpl : Fin 4
  present : Bool
  offset3116 : BitVec 16
deriving DecidableEq, Repr

abbrev Idt := Nat → IdtDesc

variable (addr : Handler → BitVec 32)

/-- `SET_IDT_ENTRY`. -/
def setIdtEntry (entry : IdtDesc) (handler : BitVec 32) : IdtDesc :=
  { entry with
    offset3116 := ((handler &&& 0xFFFF0000) >>> 16).setWidth 16
    offset1500 := (handler &&& 0xFFFF).setWidth 16 }

def setIDTWrapper (idt : Idt) (idtNum : Nat) (handler : Handler) : Idt :=
  Function.update idt idtNum { setIdtEntry (idt idtNum) (addr handler) with
    reserved4 := 0
    reserved3 := true
    reserved2 := true
    reserved1 := true
    reserved0 := false
    present := true
    size := true
    dpl := 0
    segSelector := 0x10 }

/-- One round of the first loop of `init_IDT`. -/
def initException (idt : Idt) (i : Nat) : Idt :=
  if inside : i < 20 then setIDTWrapper addr idt i (.exception ⟨i, inside⟩) else setIDTWrapper addr idt i .defaultAsm

/-- One round of the second loop. -/
def initUser (idt : Idt) (i : Nat) : Idt :=
  let idt := setIDTWrapper addr idt i .default
  let idt := Function.update idt i { idt i with present := false }
  if i = 0x80 then
    let idt := setIDTWrapper addr idt i .syscall
    let idt := Function.update idt i { idt i with dpl := 3 }
    Function.update idt i { idt i with segSelector := 0x10 }
  else idt

def initIDT (idt : Idt) : Idt :=
  (List.range' 32 224).foldl (initUser addr) ((List.range 32).foldl (initException addr) idt)

/-- The table when interrupts are enabled: `kb_init`, `rtc_init` and `pit_init` have
added their handlers. -/
def bootIDT (idt : Idt) : Idt :=
  let idt := setIDTWrapper addr (initIDT addr idt) 0x21 .keyboard
  let idt := setIDTWrapper addr idt (32 + 8) .rtc
  setIDTWrapper addr idt (32 + 0) .pit

/-- The handler of every gate that is present. -/
def handlerOf (vector : Nat) : Option Handler :=
  if inside : vector < 20 then some (.exception ⟨vector, inside⟩)
  else if vector < 32 then some .defaultAsm
  else if vector = 0x20 then some .pit
  else if vector = 0x21 then some .keyboard
  else if vector = 0x28 then some .rtc
  else if vector = 0x80 then some .syscall
  else none

section Processor

/-- The address a gate leads to. -/
def IdtDesc.target (gate : IdtDesc) : BitVec 32 := gate.offset3116 ++ gate.offset1500

/-- A gate of 32 bits that leaves the interrupt flag alone. -/
def IdtDesc.isTrap (gate : IdtDesc) : Prop :=
  gate.size = true ∧ gate.reserved1 = true ∧ gate.reserved2 = true ∧ gate.reserved3 = true ∧ gate.reserved0 = false

/-- The stack a change to ring 0 switches to. -/
structure Tss where
  esp0 : BitVec 32
  ss0 : BitVec 32

def ring (m : Machine) : BitVec 32 := m.cs &&& 3

/-- An interrupt through a trap gate. Coming from ring 3 it changes the stack. -/
def enter (tss : Tss) (gate : IdtDesc) (m : Machine) : Machine :=
  let switched :=
    if ring m = 3 then (({ m with ss := tss.ss0 }.set .esp tss.esp0).push m.ss).push (m.reg .esp) else m
  { ((switched.push m.eflags).push m.cs).push m.eip with eip := gate.target, cs := gate.segSelector.setWidth 32 }

/-- `int` in a program: `none` when the gate is missing or closed to its ring. -/
def softwareInt (idt : Idt) (tss : Tss) (vector : Nat) (m : Machine) : Option Machine :=
  if (ring m).toNat ≤ (idt vector).dpl ∧ (idt vector).present then some (enter tss (idt vector) m) else none

end Processor

section Loops

variable {addr}

/-- Rounds that each write the entry of their own number write no other. -/
theorem foldl_other {α : Type} {round : (Nat → α) → Nat → Nat → α} {indices : List Nat} {table : Nat → α} {i : Nat}
    (own : ∀ table j, i ≠ j → round table j i = table i) (absent : i ∉ indices) :
    indices.foldl round table i = table i := by
  induction indices generalizing table with
  | nil => rfl
  | cons j rest ih =>
      obtain ⟨different, later⟩ := not_or.mp (mt List.mem_cons.mpr absent)
      rw [List.foldl_cons, ih later, own table j different]

/-- What the round of an entry writes does not depend on the rounds before. -/
theorem foldl_own {α : Type} {round : (Nat → α) → Nat → Nat → α} {indices : List Nat} {table : Nat → α} {i : Nat}
    {value : α} (own : ∀ table j, i ≠ j → round table j i = table i) (written : ∀ table, round table i i = value)
    (nodup : indices.Nodup) (member : i ∈ indices) : indices.foldl round table i = value := by
  induction indices generalizing table with
  | nil => cases member
  | cons j rest ih =>
      obtain ⟨fresh, later⟩ := List.nodup_cons.mp nodup
      rw [List.foldl_cons]
      rcases List.mem_cons.mp member with rfl | inside
      · rw [foldl_other own fresh, written]
      · exact ih later inside

end Loops

section Table

variable {addr} {idt : Idt} {vector : Nat}

/-- What `set_IDT_wrapper` makes of any entry. -/
def trapGate (handler : BitVec 32) : IdtDesc where
  offset1500 := (handler &&& 0xFFFF).setWidth 16
  segSelector := 0x10
  reserved4 := 0
  reserved3 := true
  reserved2 := true
  reserved1 := true
  size := true
  reserved0 := false
  dpl := 0
  present := true
  offset3116 := ((handler &&& 0xFFFF0000) >>> 16).setWidth 16

/-- The two halves of a handler's address are joined again. -/
theorem trapGate_target (handler : BitVec 32) : (trapGate handler).target = handler := by
  apply BitVec.eq_of_toNat_eq
  have low : (handler &&& 0xFFFF).toNat = handler.toNat % 2 ^ 16 := by
    rw [BitVec.toNat_and]
    exact Nat.and_two_pow_sub_one_eq_mod _ 16
  have high : ((handler &&& 0xFFFF0000) >>> 16).toNat = handler.toNat / 2 ^ 16 := by
    rw [BitVec.toNat_ushiftRight, BitVec.toNat_and, Nat.shiftRight_and_distrib, Nat.shiftRight_eq_div_pow]
    have bound := handler.isLt
    exact (Nat.and_two_pow_sub_one_eq_mod _ 16).trans (Nat.mod_eq_of_lt (by omega))
  have bound := handler.isLt
  change (((handler &&& 0xFFFF0000) >>> 16).setWidth 16 ++ (handler &&& 0xFFFF).setWidth 16).toNat = _
  rw [BitVec.toNat_append, BitVec.toNat_setWidth, BitVec.toNat_setWidth, low, high, Nat.mod_mod,
    ← Nat.shiftLeft_add_eq_or_of_lt (Nat.mod_lt _ (by decide)), Nat.shiftLeft_eq]
  omega

theorem setIDTWrapper_same {handler : Handler} :
    setIDTWrapper addr idt vector handler vector = trapGate (addr handler) := by
  rw [setIDTWrapper, Function.update_self]
  rfl

theorem setIDTWrapper_other {handler : Handler} {i : Nat} (different : i ≠ vector) :
    setIDTWrapper addr idt vector handler i = idt i := Function.update_of_ne different ..

theorem initException_other (idt : Idt) (j : Nat) (different : vector ≠ j) :
    initException addr idt j vector = idt vector := by
  unfold initException
  split <;> exact setIDTWrapper_other different

theorem initUser_other (idt : Idt) (j : Nat) (different : vector ≠ j) : initUser addr idt j vector = idt vector := by
  unfold initUser
  simp only
  split
  all_goals
    simp only [Function.update_of_ne different, setIDTWrapper_other different]

/-- The gates that are left when interrupts are enabled. -/
theorem bootIDT_entry (addr : Handler → BitVec 32) (idt : Idt) (bound : vector < 256) :
    bootIDT addr idt vector = match handlerOf vector with
      | some handler => { trapGate (addr handler) with dpl := if vector = 0x80 then 3 else 0 }
      | none => { trapGate (addr .default) with present := false } := by
  unfold bootIDT
  by_cases pit : vector = 0x20
  · subst pit
    exact setIDTWrapper_same
  simp only [setIDTWrapper_other (show vector ≠ 32 + 0 from pit)]
  by_cases rtc : vector = 0x28
  · subst rtc
    exact setIDTWrapper_same
  rw [setIDTWrapper_other (show vector ≠ 32 + 8 from rtc)]
  by_cases keyboard : vector = 0x21
  · subst keyboard
    exact setIDTWrapper_same
  rw [setIDTWrapper_other keyboard, initIDT]
  by_cases reserved : vector < 32
  · rw [foldl_other initUser_other (by simp [List.mem_range'_1]; omega)]
    refine foldl_own initException_other (fun table => ?_) List.nodup_range (List.mem_range.mpr reserved)
    have apart : vector ≠ 0x80 := by omega
    unfold initException handlerOf
    rw [if_neg apart, if_pos reserved]
    split
    · rw [setIDTWrapper_same]
      rfl
    · rw [setIDTWrapper_same]
      rfl
  · refine foldl_own initUser_other (fun table => ?_) List.nodup_range' (by simp [List.mem_range'_1]; omega)
    unfold initUser handlerOf
    rw [dif_neg (by omega), if_neg reserved, if_neg pit, if_neg keyboard, if_neg rtc]
    by_cases call : vector = 0x80
    · simp only [if_pos call, Function.update_self, setIDTWrapper_same]
      rfl
    · simp only [if_neg call, Function.update_self, setIDTWrapper_same]

end Table

end BozOS.Interrupts
