import BozOS.Data.Runs
import BozOS.Interrupts.Gates
import Mathlib.Data.Fin.Tuple.Basic
import Mathlib.Data.Set.Insert

namespace BozOS.Interrupts

open Data

/-! The interrupt controller: two 8259 chips, one behind line 2 of the other, and the
functions of `i8259.c` that program them. Together they are one controller of sixteen
lines, whatever order the devices, the processor and the kernel come in. -/

/-- What a chip takes the next word at its data port for. -/
inductive Awaits where
  | icw2 | icw3 | icw4 | mask
deriving DecidableEq, Repr

structure Chip where
  base : BitVec 8
  -- the lines that lead to a slave, or a slave's own number
  cascade : BitVec 8
  imr : BitVec 8
  irr : Fin 8 → Bool
  isr : Fin 8 → Bool
  awaits : Awaits

namespace Chip

/-- A word for the command port: bit 4 starts the initialisation, 0x60 to 0x67 end the
service of one line. The driver sends no other. -/
def command (chip : Chip) (word : BitVec 8) : Chip :=
  if word.getLsbD 4 then { chip with imr := 0, irr := fun _ => false, isr := fun _ => false, awaits := .icw2 }
  else if word &&& 0xF8 = 0x60 then
    { chip with isr := fun i => if i.val = (word &&& 7).toNat then false else chip.isr i }
  else chip

def data (chip : Chip) (word : BitVec 8) : Chip :=
  match chip.awaits with
  | .icw2 => { chip with base := word &&& 0xF8, awaits := .icw3 }
  | .icw3 => { chip with cascade := word, awaits := .icw4 }
  | .icw4 => { chip with awaits := .mask }
  | .mask => { chip with imr := word }

/-- The request that goes to the processor: line 0 has the highest priority, and a line
in service holds back itself and those below. -/
def pending (chip : Chip) (requests : Fin 8 → Bool) : Option (Fin 8) :=
  Fin.find? fun i => requests i && !chip.imr.getLsbD i && decide (∀ j ≤ i, chip.isr j = false)

def serve (chip : Chip) (i : Fin 8) : Chip :=
  { chip with irr := Function.update chip.irr i false, isr := Function.update chip.isr i true }

end Chip

structure Controller where
  master : Chip
  slave : Chip

namespace Controller

def outb (c : Controller) (word : BitVec 8) (port : Nat) : Controller :=
  if port = 0x20 then { c with master := c.master.command word }
  else if port = 0x21 then { c with master := c.master.data word }
  else if port = 0xA0 then { c with slave := c.slave.command word }
  else if port = 0xA1 then { c with slave := c.slave.data word }
  else c

/-- A device raises its line. -/
def raise (c : Controller) (line : Fin 16) : Controller :=
  Fin.addCases (m := 8) (n := 8)
    (fun i => { c with master := { c.master with irr := Function.update c.master.irr i true } })
    (fun i => { c with slave := { c.slave with irr := Function.update c.slave.irr i true } }) line

/-- Line 2 of the master is the slave's own request. -/
def masterRequests (c : Controller) (i : Fin 8) : Bool :=
  if i.val = 2 then (c.slave.pending c.slave.irr).isSome else c.master.irr i

theorem masterRequests_cascade (c : Controller) : c.masterRequests 2 = (c.slave.pending c.slave.irr).isSome :=
  if_pos rfl

theorem masterRequests_own {i : Fin 8} (c : Controller) (own : i ≠ 2) : c.masterRequests i = c.master.irr i :=
  if_neg fun same => own (Fin.ext same)

/-- The processor takes an interrupt: the vector it is given. For a line that leads to a
slave the slave with that number answers. -/
def acknowledge (c : Controller) : Option (Nat × Controller) :=
  match c.master.pending c.masterRequests with
  | none => none
  | some i =>
      if c.master.cascade.getLsbD i then
        match c.slave.pending c.slave.irr with
        | some j =>
            if c.slave.cascade.toNat = i then
              some (c.slave.base.toNat + j, ⟨c.master.serve i, c.slave.serve j⟩)
            else none
        | none => none
      else some (c.master.base.toNat + i, { c with master := c.master.serve i })

end Controller

/-- The chips and the variables of `i8259.c`. -/
structure Pic where
  controller : Controller
  masterMask : BitVec 8
  slaveMask : BitVec 8
  slaveNumber : BitVec 8

section Driver

def Pic.outb (pic : Pic) (word : BitVec 8) (port : Nat) : Pic :=
  { pic with controller := pic.controller.outb word port }

def i8259Init (pic : Pic) : Pic :=
  let pic := pic.outb 0xFF (0x20 + 1)
  let pic := pic.outb 0xFF (0xA0 + 1)
  let pic := pic.outb 0x11 0x20
  let pic := pic.outb (0x20 + 0) (0x20 + 1)
  let pic := pic.outb 0x04 (0x20 + 1)
  let pic := pic.outb 0x01 (0x20 + 1)
  let pic := pic.outb 0x11 0xA0
  let pic := pic.outb 0x28 (0xA0 + 1)
  let pic := pic.outb 0x02 (0xA0 + 1)
  let pic := pic.outb 0x01 (0xA0 + 1)
  let pic := pic.outb pic.masterMask (0x20 + 1)
  let pic := pic.outb pic.slaveMask (0xA0 + 1)
  let pic := { pic with slaveNumber := 0x02 }
  let pic := { pic with masterMask := pic.masterMask &&& ~~~(1#8 <<< pic.slaveNumber.toNat) }
  pic.outb pic.masterMask (0x20 + 1)

/-- The number is unsigned, so the test against `MIN_IRQ` never holds. -/
def enableIrq (pic : Pic) (irqNum : BitVec 32) : Pic :=
  if irqNum > 15 then pic
  else if irqNum < 8 then
    let pic := { pic with masterMask := pic.masterMask &&& ~~~(1#8 <<< irqNum.toNat) }
    pic.outb pic.masterMask (0x20 + 1)
  else
    let pic := { pic with slaveMask := pic.slaveMask &&& ~~~(1#8 <<< (irqNum - 8).toNat) }
    pic.outb pic.slaveMask (0xA0 + 1)

def disableIrq (pic : Pic) (irqNum : BitVec 32) : Pic :=
  if irqNum > 15 then pic
  else if irqNum < 8 then
    let pic := { pic with masterMask := pic.masterMask ||| 1#8 <<< irqNum.toNat }
    pic.outb pic.masterMask (0x20 + 1)
  else
    let pic := { pic with slaveMask := pic.slaveMask ||| 1#8 <<< (irqNum - 8).toNat }
    pic.outb pic.slaveMask (0xA0 + 1)

def sendEoi (pic : Pic) (irqNum : BitVec 32) : Pic :=
  if irqNum > 15 then pic
  else if irqNum < 8 then pic.outb (0x60 ||| irqNum.setWidth 8) 0x20
  else
    let pic := pic.outb (0x60 ||| pic.slaveNumber) 0x20
    pic.outb (0x60 ||| (irqNum - 8).setWidth 8) 0xA0

/-- The variables as the loader leaves them. -/
def Pic.loaded (controller : Controller) : Pic := ⟨controller, 0xFF, 0xFF, 0⟩

end Driver

section Abstract

/-- The controller as the kernel means it: sixteen lines. -/
structure Lines where
  enabled : Set (Fin 16)
  pending : Set (Fin 16)
  serving : Set (Fin 16)

namespace Lines

/-- The lines behind the master's line 2 come after line 1 and before line 3. -/
def rank (n : Fin 16) : Nat := if 2 < n.val ∧ n.val < 8 then n.val + 16 else n.val

/-- The input of the master a line arrives at. -/
def input (n : Fin 16) : Nat := if n.val < 8 then n.val else 2

def HeldBack (lines : Lines) (n : Fin 16) : Prop :=
  ∃ m ∈ lines.serving, m.val < 8 ∧ m.val ≤ input n ∨ 8 ≤ m.val ∧ 8 ≤ n.val ∧ m ≤ n

/-- A request that could be delivered. -/
structure Ready (lines : Lines) (n : Fin 16) : Prop where
  device : n ≠ 2
  pending : n ∈ lines.pending
  enabled : n ∈ lines.enabled
  cascade : 8 ≤ n.val → 2 ∈ lines.enabled
  free : ¬lines.HeldBack n

def lineOf (irqNum : BitVec 32) : Option (Fin 16) :=
  if inside : irqNum.toNat < 16 then some ⟨irqNum.toNat, inside⟩ else none

def enable (lines : Lines) (irqNum : BitVec 32) : Lines :=
  { lines with enabled := {n | n ∈ lines.enabled ∨ lineOf irqNum = some n} }

def disable (lines : Lines) (irqNum : BitVec 32) : Lines :=
  { lines with enabled := {n | n ∈ lines.enabled ∧ lineOf irqNum ≠ some n} }

/-- A line behind the slave also occupies the line the slave is on. -/
def eoi (lines : Lines) (irqNum : BitVec 32) : Lines :=
  { lines with serving := {n | n ∈ lines.serving ∧ ∀ m, lineOf irqNum = some m → n ≠ m ∧ ¬(n = 2 ∧ 8 ≤ m.val)} }

def deliver (lines : Lines) (n : Fin 16) : Lines :=
  { lines with
    pending := {m | m ∈ lines.pending ∧ m ≠ n}
    serving := {m | m ∈ lines.serving ∨ m = n ∨ m = 2 ∧ 8 ≤ n.val} }

/-- After the initialisation only the slave itself is let through. -/
def initial : Lines := ⟨{2}, ∅, ∅⟩

end Lines

/-- What happens at the controller. Interrupts reach the processor one at a time. -/
inductive PicEvent where
  | raise (line : Fin 16)
  | enable (irqNum : BitVec 32)
  | disable (irqNum : BitVec 32)
  | eoi (irqNum : BitVec 32)
  | deliver (vector : Nat)

/-- No device is on line 2. -/
inductive Pic.Step (pic : Pic) : PicEvent → Pic → Prop where
  | raise {line : Fin 16} (device : line ≠ 2) :
      Pic.Step pic (.raise line) { pic with controller := pic.controller.raise line }
  | enable {irqNum : BitVec 32} : Pic.Step pic (.enable irqNum) (enableIrq pic irqNum)
  | disable {irqNum : BitVec 32} : Pic.Step pic (.disable irqNum) (disableIrq pic irqNum)
  | eoi {irqNum : BitVec 32} : Pic.Step pic (.eoi irqNum) (sendEoi pic irqNum)
  | deliver {vector : Nat} {after : Controller} (taken : pic.controller.acknowledge = some (vector, after)) :
      Pic.Step pic (.deliver vector) { pic with controller := after }

inductive Lines.Step (lines : Lines) : PicEvent → Lines → Prop where
  | raise {line : Fin 16} (device : line ≠ 2) :
      Lines.Step lines (.raise line) { lines with pending := insert line lines.pending }
  | enable {irqNum : BitVec 32} : Lines.Step lines (.enable irqNum) (lines.enable irqNum)
  | disable {irqNum : BitVec 32} : Lines.Step lines (.disable irqNum) (lines.disable irqNum)
  | eoi {irqNum : BitVec 32} : Lines.Step lines (.eoi irqNum) (lines.eoi irqNum)
  | deliver {n : Fin 16} (ready : lines.Ready n) (first : ∀ m, lines.Ready m → Lines.rank n ≤ Lines.rank m) :
      Lines.Step lines (.deliver (32 + n)) (lines.deliver n)

end Abstract

section Chips

variable {chip : Chip} {requests : Fin 8 → Bool} {i j : Fin 8}

/-- A request the chip could pass on. -/
def Chip.Free (chip : Chip) (requests : Fin 8 → Bool) (i : Fin 8) : Prop :=
  requests i = true ∧ chip.imr.getLsbD i = false ∧ ∀ j ≤ i, chip.isr j = false

theorem Chip.pending_some (found : chip.pending requests = some i) :
    chip.Free requests i ∧ ∀ j, chip.Free requests j → i ≤ j := by
  constructor
  · have holds := Fin.eq_true_of_find?_eq_some found
    simpa [Chip.Free, and_assoc] using holds
  · intro j free
    by_contra before
    have fails := Fin.eq_false_of_find?_eq_some_of_lt found j (not_le.mp before)
    have holds : (requests j && !chip.imr.getLsbD j && decide (∀ k ≤ j, chip.isr k = false)) = true := by
      simpa [Chip.Free, and_assoc] using free
    rw [holds] at fails
    cases fails

theorem Chip.pending_none (missing : chip.pending requests = none) (i : Fin 8) : ¬chip.Free requests i := by
  intro free
  have fails := Fin.eq_false_of_find?_eq_none missing i
  have holds : (requests i && !chip.imr.getLsbD i && decide (∀ k ≤ i, chip.isr k = false)) = true := by
    simpa [Chip.Free, and_assoc] using free
  rw [holds] at fails
  cases fails

end Chips

section Words

variable {mask : BitVec 8} {i j : Fin 8}

theorem mask_clear : (mask &&& ~~~(1#8 <<< i.val)).getLsbD j = (mask.getLsbD j && decide (j ≠ i)) := by
  simp only [BitVec.getLsbD_and, BitVec.getLsbD_not, BitVec.getLsbD_shiftLeft, BitVec.getLsbD_one]
  grind

theorem mask_set : (mask ||| 1#8 <<< i.val).getLsbD j = (mask.getLsbD j || decide (j = i)) := by
  simp only [BitVec.getLsbD_or, BitVec.getLsbD_shiftLeft, BitVec.getLsbD_one]
  grind

/-- The word that ends the service of one line, as the chip reads it. -/
theorem eoiWord_reads : ∀ i : Fin 8, (0x60 ||| BitVec.ofNat 8 i).getLsbD 4 = false ∧
    (0x60 ||| BitVec.ofNat 8 i) &&& 0xF8 = 0x60 ∧ ((0x60 ||| BitVec.ofNat 8 i) &&& 7).toNat = i := by
  decide

end Words

section Programmed

/-- One chip holds its half of the lines. -/
structure Chip.Shows (chip : Chip) (line : Fin 8 → Fin 16) (mask : BitVec 8) (lines : Lines) : Prop where
  awaits : chip.awaits = .mask
  imr : chip.imr = mask
  enabled : ∀ i : Fin 8, mask.getLsbD i = false ↔ line i ∈ lines.enabled
  pending : ∀ i, chip.irr i = true ↔ line i ∈ lines.pending
  serving : ∀ i, chip.isr i = true ↔ line i ∈ lines.serving

def masterLine (i : Fin 8) : Fin 16 := Fin.castAdd 8 i

def slaveLine (i : Fin 8) : Fin 16 := Fin.natAdd 8 i

/-- The chips and the variables agree on the lines. -/
structure Programmed (pic : Pic) (lines : Lines) : Prop where
  master : pic.controller.master.Shows masterLine pic.masterMask lines
  slave : pic.controller.slave.Shows slaveLine pic.slaveMask lines
  bases : pic.controller.master.base = 0x20 ∧ pic.controller.slave.base = 0x28
  cascades : pic.controller.master.cascade = 0x04 ∧ pic.controller.slave.cascade = 0x02
  number : pic.slaveNumber = 0x02
  wired : 2 ∉ lines.pending

variable {chip : Chip} {line : Fin 8 → Fin 16} {mask mask' : BitVec 8} {lines lines' : Lines} {pic : Pic}
  {irqNum : BitVec 32} {i j : Fin 8}

@[simp] theorem masterLine_val : (masterLine i).val = i.val := rfl

@[simp] theorem slaveLine_val : (slaveLine i).val = 8 + i.val := rfl

theorem masterLine_inj : masterLine i = masterLine j ↔ i = j := by simp [Fin.ext_iff]

theorem slaveLine_inj : slaveLine i = slaveLine j ↔ i = j := by simp [Fin.ext_iff]

theorem masterLine_ne_slaveLine : masterLine i ≠ slaveLine j := by
  intro same
  have := congrArg Fin.val same
  simp only [masterLine_val, slaveLine_val] at this
  omega

theorem line_cases (n : Fin 16) : (∃ i, n = masterLine i) ∨ ∃ i, n = slaveLine i := by
  refine Fin.addCases (m := 8) (n := 8) (fun i => ?_) (fun i => ?_) n
  · exact .inl ⟨i, rfl⟩
  · exact .inr ⟨i, rfl⟩

/-- A number names no line, a line of the master or a line of the slave. -/
theorem irqNum_cases (irqNum : BitVec 32) :
    (irqNum > 15 ∧ Lines.lineOf irqNum = none) ∨
    (∃ i : Fin 8, ¬irqNum > 15 ∧ irqNum < 8 ∧ irqNum.toNat = i ∧ irqNum.setWidth 8 = BitVec.ofNat 8 i ∧
      Lines.lineOf irqNum = some (masterLine i)) ∨
    ∃ i : Fin 8, ¬irqNum > 15 ∧ ¬irqNum < 8 ∧ (irqNum - 8).toNat = i ∧
      (irqNum - 8).setWidth 8 = BitVec.ofNat 8 i ∧ Lines.lineOf irqNum = some (slaveLine i) := by
  by_cases inside : irqNum.toNat < 16
  · have named : irqNum = BitVec.ofNat 32 (⟨irqNum.toNat, inside⟩ : Fin 16).val :=
      BitVec.eq_of_toNat_eq (by rw [BitVec.toNat_ofNat, Nat.mod_eq_of_lt irqNum.isLt])
    rw [named]
    generalize (⟨irqNum.toNat, inside⟩ : Fin 16) = n
    rcases line_cases n with ⟨i, rfl⟩ | ⟨i, rfl⟩
    · refine .inr (.inl ⟨i, ?_⟩)
      revert i
      decide
    · refine .inr (.inr ⟨i, ?_⟩)
      revert i
      decide
  · refine .inl ⟨?_, dif_neg inside⟩
    rw [gt_iff_lt, BitVec.lt_def]
    exact Nat.lt_of_lt_of_le (by decide) (not_lt.mp inside)

theorem Chip.Shows.congr (shows_ : chip.Shows line mask lines)
    (enabled : ∀ i, line i ∈ lines'.enabled ↔ line i ∈ lines.enabled)
    (pending : ∀ i, line i ∈ lines'.pending ↔ line i ∈ lines.pending)
    (serving : ∀ i, line i ∈ lines'.serving ↔ line i ∈ lines.serving) : chip.Shows line mask lines' where
  awaits := shows_.awaits
  imr := shows_.imr
  enabled i := (shows_.enabled i).trans (enabled i).symm
  pending i := (shows_.pending i).trans (pending i).symm
  serving i := (shows_.serving i).trans (serving i).symm

/-- A word at the data port is the new mask. -/
theorem Chip.Shows.masked (shows_ : chip.Shows line mask lines)
    (enabled : ∀ i : Fin 8, mask'.getLsbD i = false ↔ line i ∈ lines'.enabled)
    (pending : lines'.pending = lines.pending) (serving : lines'.serving = lines.serving) :
    (chip.data mask').Shows line mask' lines' := by
  have written : chip.data mask' = { chip with imr := mask' } := by rw [Chip.data, shows_.awaits]
  rw [written]
  refine ⟨shows_.awaits, rfl, enabled, fun i => ?_, fun i => ?_⟩
  · rw [pending]
    exact shows_.pending i
  · rw [serving]
    exact shows_.serving i

theorem Chip.Shows.data_base (shows_ : chip.Shows line mask lines) :
    (chip.data mask').base = chip.base ∧ (chip.data mask').cascade = chip.cascade := by
  have written : chip.data mask' = { chip with imr := mask' } := by rw [Chip.data, shows_.awaits]
  rw [written]
  exact ⟨rfl, rfl⟩

/-- A new mask for the master leaves the slave's lines as they were. -/
theorem Programmed.maskMaster (programmed : Programmed pic lines)
    (enabled : ∀ i : Fin 8, mask'.getLsbD i = false ↔ masterLine i ∈ lines'.enabled)
    (other : ∀ i, slaveLine i ∈ lines'.enabled ↔ slaveLine i ∈ lines.enabled)
    (pending : lines'.pending = lines.pending) (serving : lines'.serving = lines.serving) :
    Programmed ({ pic with masterMask := mask' }.outb mask' (0x20 + 1)) lines' where
  master := programmed.master.masked enabled pending serving
  slave := programmed.slave.congr other (fun _ => by rw [pending]) fun _ => by rw [serving]
  bases := ⟨programmed.master.data_base.1.trans programmed.bases.1, programmed.bases.2⟩
  cascades := ⟨programmed.master.data_base.2.trans programmed.cascades.1, programmed.cascades.2⟩
  number := programmed.number
  wired := by rw [pending]; exact programmed.wired

theorem Programmed.maskSlave (programmed : Programmed pic lines)
    (enabled : ∀ i : Fin 8, mask'.getLsbD i = false ↔ slaveLine i ∈ lines'.enabled)
    (other : ∀ i, masterLine i ∈ lines'.enabled ↔ masterLine i ∈ lines.enabled)
    (pending : lines'.pending = lines.pending) (serving : lines'.serving = lines.serving) :
    Programmed ({ pic with slaveMask := mask' }.outb mask' (0xA0 + 1)) lines' where
  master := programmed.master.congr other (fun _ => by rw [pending]) fun _ => by rw [serving]
  slave := programmed.slave.masked enabled pending serving
  bases := ⟨programmed.bases.1, programmed.slave.data_base.1.trans programmed.bases.2⟩
  cascades := ⟨programmed.cascades.1, programmed.slave.data_base.2.trans programmed.cascades.2⟩
  number := programmed.number
  wired := by rw [pending]; exact programmed.wired

theorem Programmed.enable (programmed : Programmed pic lines) :
    Programmed (enableIrq pic irqNum) (lines.enable irqNum) := by
  rcases irqNum_cases irqNum with ⟨high, none⟩ | ⟨i, low, first, index, -, named⟩ | ⟨i, low, second, index, -, named⟩
  · have same : lines.enable irqNum = lines := by simp [Lines.enable, none]
    rw [enableIrq, if_pos high, same]
    exact programmed
  · rw [enableIrq, if_neg low, if_pos first, index]
    refine programmed.maskMaster (fun j => ?_) (fun j => ?_) rfl rfl
    · have before := programmed.master.enabled j
      by_cases same : j = i
      · rw [mask_clear]
        simp [Lines.enable, named, same]
      · have apart : masterLine i ≠ masterLine j := fun equal => same (masterLine_inj.mp equal).symm
        rw [mask_clear]
        simpa [Lines.enable, named, same, apart] using before
    · simp [Lines.enable, named, masterLine_ne_slaveLine]
  · rw [enableIrq, if_neg low, if_neg second, index]
    refine programmed.maskSlave (fun j => ?_) (fun j => ?_) rfl rfl
    · have before := programmed.slave.enabled j
      by_cases same : j = i
      · rw [mask_clear]
        simp [Lines.enable, named, same]
      · have apart : slaveLine i ≠ slaveLine j := fun equal => same (slaveLine_inj.mp equal).symm
        rw [mask_clear]
        simpa [Lines.enable, named, same, apart] using before
    · simp [Lines.enable, named, masterLine_ne_slaveLine.symm]

theorem Programmed.disable (programmed : Programmed pic lines) :
    Programmed (disableIrq pic irqNum) (lines.disable irqNum) := by
  rcases irqNum_cases irqNum with ⟨high, none⟩ | ⟨i, low, first, index, -, named⟩ | ⟨i, low, second, index, -, named⟩
  · have same : lines.disable irqNum = lines := by simp [Lines.disable, none]
    rw [disableIrq, if_pos high, same]
    exact programmed
  · rw [disableIrq, if_neg low, if_pos first, index]
    refine programmed.maskMaster (fun j => ?_) (fun j => ?_) rfl rfl
    · have before := programmed.master.enabled j
      by_cases same : j = i
      · rw [mask_set]
        simp [Lines.disable, named, same]
      · have apart : masterLine i ≠ masterLine j := fun equal => same (masterLine_inj.mp equal).symm
        rw [mask_set]
        simpa [Lines.disable, named, same, apart] using before
    · simp [Lines.disable, named, masterLine_ne_slaveLine]
  · rw [disableIrq, if_neg low, if_neg second, index]
    refine programmed.maskSlave (fun j => ?_) (fun j => ?_) rfl rfl
    · have before := programmed.slave.enabled j
      by_cases same : j = i
      · rw [mask_set]
        simp [Lines.disable, named, same]
      · have apart : slaveLine i ≠ slaveLine j := fun equal => same (slaveLine_inj.mp equal).symm
        rw [mask_set]
        simpa [Lines.disable, named, same, apart] using before
    · simp [Lines.disable, named, masterLine_ne_slaveLine.symm]

end Programmed

section Programmed

variable {chip : Chip} {line : Fin 8 → Fin 16} {mask : BitVec 8} {lines lines' : Lines} {pic : Pic}
  {irqNum : BitVec 32} {i j : Fin 8}

/-- A word that ends the service of line `i`. -/
theorem Chip.command_eoi (chip : Chip) (i : Fin 8) :
    chip.command (0x60 ||| BitVec.ofNat 8 i) = { chip with isr := Function.update chip.isr i false } := by
  obtain ⟨plain, ends, level⟩ := eoiWord_reads i
  rw [Chip.command, plain, if_neg (by decide), if_pos ends, level]
  congr 1
  funext j
  rw [Function.update_apply]
  simp [Fin.ext_iff]

theorem Chip.command_base (chip : Chip) (word : BitVec 8) :
    (chip.command word).base = chip.base ∧ (chip.command word).cascade = chip.cascade := by
  unfold Chip.command
  split
  · exact ⟨rfl, rfl⟩
  · split <;> exact ⟨rfl, rfl⟩

theorem Chip.Shows.ended (shows_ : chip.Shows line mask lines) (enabled : lines'.enabled = lines.enabled)
    (pending : lines'.pending = lines.pending)
    (serving : ∀ j, line j ∈ lines'.serving ↔ j ≠ i ∧ line j ∈ lines.serving) :
    (chip.command (0x60 ||| BitVec.ofNat 8 i)).Shows line mask lines' := by
  rw [Chip.command_eoi]
  refine ⟨shows_.awaits, shows_.imr, fun j => ?_, fun j => ?_, fun j => ?_⟩
  · rw [enabled]
    exact shows_.enabled j
  · rw [pending]
    exact shows_.pending j
  · rw [serving, ← shows_.serving j]
    by_cases same : j = i <;> simp [same]

theorem Programmed.eoi (programmed : Programmed pic lines) : Programmed (sendEoi pic irqNum) (lines.eoi irqNum) := by
  rcases irqNum_cases irqNum with ⟨high, none⟩ | ⟨i, low, first, -, word, named⟩ | ⟨i, low, second, -, word, named⟩
  · have same : lines.eoi irqNum = lines := by simp [Lines.eoi, none]
    rw [sendEoi, if_pos high, same]
    exact programmed
  · rw [sendEoi, if_neg low, if_pos first, word]
    refine ⟨programmed.master.ended rfl rfl fun j => ?_,
      programmed.slave.congr (fun _ => .rfl) (fun _ => .rfl) fun j => ?_, ?_, ?_, programmed.number, programmed.wired⟩
    · have late : ¬8 ≤ i.val := by omega
      simp [Lines.eoi, named, masterLine_inj, late, and_comm]
    · simp [Lines.eoi, named, masterLine_ne_slaveLine.symm]
    · exact ⟨(Chip.command_base _ _).1.trans programmed.bases.1, programmed.bases.2⟩
    · exact ⟨(Chip.command_base _ _).2.trans programmed.cascades.1, programmed.cascades.2⟩
  · rw [sendEoi, if_neg low, if_neg second, word, programmed.number]
    refine ⟨programmed.master.ended (i := 2) rfl rfl fun j => ?_, programmed.slave.ended rfl rfl fun j => ?_, ?_, ?_,
      programmed.number, programmed.wired⟩
    · have cascaded : masterLine j = 2 ↔ j = 2 := masterLine_inj (j := 2)
      simp [Lines.eoi, named, masterLine_ne_slaveLine, cascaded, and_comm]
    · have apart : slaveLine j ≠ 2 := (masterLine_ne_slaveLine (i := 2)).symm
      simp [Lines.eoi, named, slaveLine_inj, apart, and_comm]
    · exact ⟨(Chip.command_base _ _).1.trans programmed.bases.1, (Chip.command_base _ _).1.trans programmed.bases.2⟩
    · exact ⟨(Chip.command_base _ _).2.trans programmed.cascades.1,
        (Chip.command_base _ _).2.trans programmed.cascades.2⟩

end Programmed

section Delivery

variable {chip : Chip} {line : Fin 8 → Fin 16} {mask : BitVec 8} {lines lines' : Lines} {pic after : Pic}
  {i j : Fin 8} {n : Fin 16} {event : PicEvent}

theorem i8259Init_eq (c : Controller) : i8259Init (.loaded c) =
    ⟨⟨((((((c.master.data 0xFF).command 0x11).data 0x20).data 0x04).data 0x01).data 0xFF).data 0xFB,
      (((((c.slave.data 0xFF).command 0x11).data 0x28).data 0x02).data 0x01).data 0xFF⟩, 0xFB, 0xFF, 0x02⟩ := by
  simp [i8259Init, Pic.outb, Controller.outb, Pic.loaded]

theorem Programmed.init (controller : Controller) : Programmed (i8259Init (.loaded controller)) .initial := by
  have unmasked (i : Fin 8) : (0xFB : BitVec 8).getLsbD i = false ↔ masterLine i ∈ Lines.initial.enabled := by
    have only : (0xFB : BitVec 8).getLsbD i = false ↔ i = 2 := by revert i; decide
    rw [only, ← masterLine_inj]
    rfl
  have masked (i : Fin 8) : (0xFF : BitVec 8).getLsbD i = false ↔ slaveLine i ∈ Lines.initial.enabled := by
    have never : (0xFF : BitVec 8).getLsbD i = true := by revert i; decide
    have apart : slaveLine i ∉ Lines.initial.enabled := (masterLine_ne_slaveLine (i := 2)).symm
    simp only [never, apart, Bool.true_eq_false]
  rw [i8259Init_eq]
  refine ⟨⟨rfl, rfl, unmasked, fun _ => ?_, fun _ => ?_⟩, ⟨rfl, rfl, masked, fun _ => ?_, fun _ => ?_⟩,
    ⟨rfl, rfl⟩, ⟨rfl, rfl⟩, rfl, Set.notMem_empty _⟩
  all_goals exact iff_of_false Bool.false_ne_true (Set.notMem_empty _)

theorem Programmed.raise (programmed : Programmed pic lines) (device : n ≠ 2) :
    Programmed { pic with controller := pic.controller.raise n } { lines with pending := insert n lines.pending } := by
  have wired : 2 ∉ insert n lines.pending := by
    simpa [device.symm] using programmed.wired
  rcases line_cases n with ⟨i, rfl⟩ | ⟨i, rfl⟩
  · have raised : pic.controller.raise (masterLine i) = { pic.controller with
        master := { pic.controller.master with irr := Function.update pic.controller.master.irr i true } } :=
      Fin.addCases_left i
    rw [raised]
    refine ⟨⟨programmed.master.awaits, programmed.master.imr, programmed.master.enabled, fun j => ?_,
      programmed.master.serving⟩, programmed.slave.congr (fun _ => .rfl) (fun j => ?_) fun _ => .rfl,
      programmed.bases, programmed.cascades, programmed.number, wired⟩
    · have before := programmed.master.pending j
      by_cases same : j = i
      · simp [same]
      · simp [same, masterLine_inj, before]
    · simp [masterLine_ne_slaveLine.symm]
  · have raised : pic.controller.raise (slaveLine i) = { pic.controller with
        slave := { pic.controller.slave with irr := Function.update pic.controller.slave.irr i true } } :=
      Fin.addCases_right i
    rw [raised]
    refine ⟨programmed.master.congr (fun _ => .rfl) (fun j => ?_) fun _ => .rfl,
      ⟨programmed.slave.awaits, programmed.slave.imr, programmed.slave.enabled, fun j => ?_,
      programmed.slave.serving⟩, programmed.bases, programmed.cascades, programmed.number, wired⟩
    · simp [masterLine_ne_slaveLine]
    · have before := programmed.slave.pending j
      by_cases same : j = i
      · simp [same]
      · simp [same, slaveLine_inj, before]

/-- Nothing in service on the master holds its line `i` back. -/
theorem Chip.Shows.free_iff (shows_ : chip.Shows line mask lines) (requests : Fin 8 → Bool) (i : Fin 8) :
    chip.Free requests i ↔ requests i = true ∧ line i ∈ lines.enabled ∧ ∀ j ≤ i, line j ∉ lines.serving := by
  have quiet : (∀ j ≤ i, chip.isr j = false) ↔ ∀ j ≤ i, line j ∉ lines.serving :=
    forall₂_congr fun j _ => by rw [← shows_.serving j, Bool.not_eq_true]
  rw [Chip.Free, shows_.imr, shows_.enabled, quiet]

theorem Programmed.ready_master (programmed : Programmed pic lines) (own : i ≠ 2) :
    lines.Ready (masterLine i) ↔ pic.controller.master.Free pic.controller.masterRequests i := by
  rw [programmed.master.free_iff, Controller.masterRequests_own _ own, programmed.master.pending]
  have small : (masterLine i).val < 8 := i.isLt
  constructor
  · intro ready
    refine ⟨ready.pending, ready.enabled, fun j before serving => ready.free ⟨_, serving, .inl ⟨j.isLt, ?_⟩⟩⟩
    rw [Lines.input, if_pos small]
    exact before
  · rintro ⟨pending, enabled, quiet⟩
    refine ⟨fun same => own (masterLine_inj.mp same), pending, enabled, fun large => absurd small (by omega), ?_⟩
    rintro ⟨m, serving, ⟨first, below⟩ | ⟨-, large, -⟩⟩
    · rw [Lines.input, if_pos small] at below
      exact quiet ⟨m.val, first⟩ below serving
    · omega

theorem Programmed.ready_slave (programmed : Programmed pic lines) :
    lines.Ready (slaveLine j) ↔ pic.controller.slave.Free pic.controller.slave.irr j ∧
      2 ∈ lines.enabled ∧ ∀ k : Fin 8, k ≤ 2 → masterLine k ∉ lines.serving := by
  rw [programmed.slave.free_iff, programmed.slave.pending]
  have large : 8 ≤ (slaveLine j).val := Nat.le_add_right 8 j
  have input : Lines.input (slaveLine j) = 2 := if_neg (by omega)
  constructor
  · intro ready
    refine ⟨⟨ready.pending, ready.enabled, fun k before serving => ready.free ⟨_, serving, .inr ?_⟩⟩,
      ready.cascade large, fun k before serving => ready.free ⟨_, serving, .inl ⟨k.isLt, ?_⟩⟩⟩
    · exact ⟨Nat.le_add_right 8 k, large, Nat.add_le_add_left before 8⟩
    · rw [input]
      exact before
  · rintro ⟨⟨pending, enabled, slaveQuiet⟩, cascade, masterQuiet⟩
    refine ⟨(masterLine_ne_slaveLine (i := 2)).symm, pending, enabled, fun _ => cascade, ?_⟩
    rintro ⟨m, serving, ⟨first, below⟩ | ⟨second, -, below⟩⟩
    · rw [input] at below
      exact masterQuiet ⟨m.val, first⟩ below serving
    · rcases line_cases m with ⟨k, rfl⟩ | ⟨k, rfl⟩
      · exact absurd k.isLt (not_lt.mpr second)
      · exact slaveQuiet k (Nat.le_of_add_le_add_left below) serving

/-- The slave's request, as the master sees it. -/
theorem Programmed.ready_cascade (programmed : Programmed pic lines) (ready : lines.Ready (slaveLine j)) :
    pic.controller.master.Free pic.controller.masterRequests 2 := by
  obtain ⟨free, enabled, quiet⟩ := programmed.ready_slave.mp ready
  refine (programmed.master.free_iff _ 2).mpr ⟨?_, enabled, quiet⟩
  rw [Controller.masterRequests_cascade]
  cases found : pic.controller.slave.pending pic.controller.slave.irr with
  | none => exact absurd free (Chip.pending_none found j)
  | some k => rfl

end Delivery

section Acknowledge

variable {chip : Chip} {line : Fin 8 → Fin 16} {mask : BitVec 8} {lines lines' : Lines} {pic after : Pic}
  {i j : Fin 8} {n m : Fin 16} {event : PicEvent} {events : List PicEvent} {vector : Nat} {next : Controller}

/-- The priorities in the order of the inputs. -/
theorem rank_master (before : i ≤ j) : Lines.rank (masterLine i) ≤ Lines.rank (masterLine j) := by
  revert i j
  decide

theorem rank_slave (before : i ≤ j) : Lines.rank (slaveLine i) ≤ Lines.rank (slaveLine j) := by
  revert i j
  decide

/-- The slave's lines come where the master has its line 2. -/
theorem rank_between (own : i ≠ 2) : (Lines.rank (masterLine i) ≤ Lines.rank (slaveLine j) ↔ i < 2) ∧
    (Lines.rank (slaveLine j) ≤ Lines.rank (masterLine i) ↔ 2 < i) := by
  revert i j
  decide

theorem cascade_direct (own : i ≠ 2) : (0x04 : BitVec 8).getLsbD i = false := by
  revert i
  decide

theorem rank_inj (same : Lines.rank n = Lines.rank m) : n = m := by
  revert n m
  decide

theorem Chip.Shows.serve (shows_ : chip.Shows line mask lines) (i : Fin 8) (enabled : lines'.enabled = lines.enabled)
    (pending : ∀ j, line j ∈ lines'.pending ↔ j ≠ i ∧ line j ∈ lines.pending)
    (serving : ∀ j, line j ∈ lines'.serving ↔ j = i ∨ line j ∈ lines.serving) :
    (chip.serve i).Shows line mask lines' := by
  refine ⟨shows_.awaits, shows_.imr, fun j => ?_, fun j => ?_, fun j => ?_⟩
  · rw [enabled]
    exact shows_.enabled j
  · rw [pending, ← shows_.pending j, Chip.serve]
    by_cases same : j = i <;> simp [same]
  · rw [serving, ← shows_.serving j, Chip.serve]
    by_cases same : j = i <;> simp [same]

theorem Programmed.deliver_master (programmed : Programmed pic lines) :
    Programmed { pic with controller := { pic.controller with master := pic.controller.master.serve i } }
      (lines.deliver (masterLine i)) where
  master := programmed.master.serve i rfl
    (fun j => by simp [Lines.deliver, masterLine_inj, and_comm])
    (fun j => by
      have late : ¬8 ≤ i.val := by omega
      simp [Lines.deliver, masterLine_inj, late, or_comm])
  slave := programmed.slave.congr (fun _ => .rfl)
    (fun j => by simp [Lines.deliver, masterLine_ne_slaveLine.symm])
    (fun j => by simp [Lines.deliver, masterLine_ne_slaveLine.symm])
  bases := programmed.bases
  cascades := programmed.cascades
  number := programmed.number
  wired := fun member => programmed.wired member.1

theorem Programmed.deliver_slave (programmed : Programmed pic lines) :
    Programmed { pic with controller := ⟨pic.controller.master.serve 2, pic.controller.slave.serve j⟩ }
      (lines.deliver (slaveLine j)) where
  master := by
    refine programmed.master.serve 2 rfl (fun k => ?_) fun k => ?_
    · have absent : masterLine 2 ∉ lines.pending := programmed.wired
      by_cases same : k = 2
      · simp [Lines.deliver, same, absent]
      · simp [Lines.deliver, masterLine_ne_slaveLine, same]
    · have cascaded : masterLine k = 2 ↔ k = 2 := masterLine_inj (j := 2)
      simp [Lines.deliver, masterLine_ne_slaveLine, cascaded, or_comm]
  slave := by
    refine programmed.slave.serve j rfl (fun k => ?_) fun k => ?_
    · simp [Lines.deliver, slaveLine_inj, and_comm]
    · have apart : slaveLine k ≠ 2 := (masterLine_ne_slaveLine (i := 2)).symm
      simp [Lines.deliver, slaveLine_inj, apart, or_comm]
  bases := programmed.bases
  cascades := programmed.cascades
  number := programmed.number
  wired := fun member => programmed.wired member.1

/-- What the processor is given is the first of the requests that could be delivered. -/
theorem Programmed.acknowledge_some (programmed : Programmed pic lines)
    (taken : pic.controller.acknowledge = some (vector, next)) :
    ∃ n, vector = 32 + n.val ∧ lines.Ready n ∧ (∀ m, lines.Ready m → Lines.rank n ≤ Lines.rank m) ∧
      Programmed { pic with controller := next } (lines.deliver n) := by
  rw [Controller.acknowledge] at taken
  cases found : pic.controller.master.pending pic.controller.masterRequests with
  | none =>
      rw [found] at taken
      cases taken
  | some i =>
      obtain ⟨free, first⟩ := Chip.pending_some found
      simp only [found] at taken
      by_cases cascaded : i = 2
      · subst cascaded
        rw [programmed.cascades.1, if_pos (by decide)] at taken
        obtain ⟨requests, enabled, quiet⟩ := (programmed.master.free_iff _ 2).mp free
        cases answers : pic.controller.slave.pending pic.controller.slave.irr with
        | none =>
            rw [answers] at taken
            cases taken
        | some j =>
            obtain ⟨slaveFree, slaveFirst⟩ := Chip.pending_some answers
            simp only [answers, programmed.cascades.2, programmed.bases.2] at taken
            cases taken
            refine ⟨slaveLine j, ?_, programmed.ready_slave.mpr ⟨slaveFree, enabled, quiet⟩, fun m ready => ?_,
              programmed.deliver_slave⟩
            · change 40 + j.val = 32 + (8 + j.val)
              omega
            · rcases line_cases m with ⟨k, rfl⟩ | ⟨k, rfl⟩
              · have own : k ≠ 2 := fun same => ready.device (masterLine_inj.mpr same)
                have after := first k ((programmed.ready_master own).mp ready)
                exact (rank_between own).2.mpr (lt_of_le_of_ne after own.symm)
              · exact rank_slave (slaveFirst k (programmed.ready_slave.mp ready).1)
      · rw [programmed.cascades.1, cascade_direct cascaded, if_neg (by decide), programmed.bases.1] at taken
        cases taken
        refine ⟨masterLine i, rfl, (programmed.ready_master cascaded).mpr free, fun m ready => ?_,
          programmed.deliver_master⟩
        rcases line_cases m with ⟨k, rfl⟩ | ⟨k, rfl⟩
        · have own : k ≠ 2 := fun same => ready.device (masterLine_inj.mpr same)
          exact rank_master (first k ((programmed.ready_master own).mp ready))
        · have before := first 2 (programmed.ready_cascade ready)
          exact (rank_between cascaded).1.mpr (lt_of_le_of_ne before cascaded)

theorem Programmed.acknowledge_none (programmed : Programmed pic lines)
    (nothing : pic.controller.acknowledge = none) (n : Fin 16) : ¬lines.Ready n := by
  intro ready
  have free : ∃ i, pic.controller.master.Free pic.controller.masterRequests i := by
    rcases line_cases n with ⟨i, rfl⟩ | ⟨j, rfl⟩
    · have own : i ≠ 2 := fun same => ready.device (masterLine_inj.mpr same)
      exact ⟨i, (programmed.ready_master own).mp ready⟩
    · exact ⟨2, programmed.ready_cascade ready⟩
  obtain ⟨i, free⟩ := free
  rw [Controller.acknowledge] at nothing
  cases found : pic.controller.master.pending pic.controller.masterRequests with
  | none => exact Chip.pending_none found i free
  | some k =>
      simp only [found] at nothing
      by_cases cascaded : k = 2
      · subst cascaded
        rw [programmed.cascades.1, if_pos (by decide)] at nothing
        obtain ⟨requests, -, -⟩ := (Chip.pending_some found).1
        rw [Controller.masterRequests_cascade] at requests
        obtain ⟨j, answers⟩ := Option.isSome_iff_exists.mp requests
        simp only [answers, programmed.cascades.2] at nothing
        cases nothing
      · rw [programmed.cascades.1, cascade_direct cascaded, if_neg (by decide)] at nothing
        cases nothing

theorem Programmed.step (programmed : Programmed pic lines) (step : Pic.Step pic event after) :
    ∃ lines', Lines.Step lines event lines' ∧ Programmed after lines' := by
  cases step with
  | raise device => exact ⟨_, .raise device, programmed.raise device⟩
  | enable => exact ⟨_, .enable, programmed.enable⟩
  | disable => exact ⟨_, .disable, programmed.disable⟩
  | eoi => exact ⟨_, .eoi, programmed.eoi⟩
  | deliver taken =>
      obtain ⟨n, rfl, ready, first, delivered⟩ := programmed.acknowledge_some taken
      exact ⟨_, .deliver ready first, delivered⟩

theorem Programmed.follow (programmed : Programmed pic lines) (step : Lines.Step lines event lines') :
    ∃ after, Pic.Step pic event after ∧ Programmed after lines' := by
  cases step with
  | raise device => exact ⟨_, .raise device, programmed.raise device⟩
  | enable => exact ⟨_, .enable, programmed.enable⟩
  | disable => exact ⟨_, .disable, programmed.disable⟩
  | eoi => exact ⟨_, .eoi, programmed.eoi⟩
  | @deliver n ready first =>
      cases taken : pic.controller.acknowledge with
      | none => exact absurd ready (programmed.acknowledge_none taken n)
      | some given =>
          obtain ⟨vector, next⟩ := given
          obtain ⟨m, rfl, other, least, delivered⟩ := programmed.acknowledge_some taken
          obtain rfl : m = n := rank_inj (le_antisymm (least n ready) (first m other))
          exact ⟨_, .deliver taken, delivered⟩

/-- For the kernel, the devices and the processor the two chips are the sixteen lines:
what can happen to the one can happen to the other, and they agree all the way. -/
theorem controller_refines (controller : Controller) (events : List PicEvent) :
    (∀ pic, Run Pic.Step (i8259Init (.loaded controller)) events pic →
      ∃ lines, Run Lines.Step .initial events lines ∧ Programmed pic lines) ∧
    ∀ lines, Run Lines.Step .initial events lines →
      ∃ pic, Run Pic.Step (i8259Init (.loaded controller)) events pic ∧ Programmed pic lines := by
  have start := Programmed.init controller
  constructor
  · intro pic run
    exact run.simulate Programmed (fun step programmed => programmed.step step) start
  · intro lines run
    exact run.simulate (fun lines pic => Programmed pic lines) (fun step programmed => programmed.follow step) start

end Acknowledge

end BozOS.Interrupts
