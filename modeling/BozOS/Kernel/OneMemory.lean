import BozOS.Kernel.System
import BozOS.Lib.Memory

namespace BozOS

open Data Lib

/-! `read` and `getargs` store through the pointer they are given. Only `vidmap` tests
whether such a pointer leads into the kernel's own page, where the PCBs are, so these two
calls come again here, with the PCBs as a part of the caller's memory. -/

/-- The 4 MiB from `KERNEL_TOP` to `KERNEL_BASE`. -/
def InKernelPage (address : Nat) : Prop := 0x400000 ≤ address ∧ address < 0x800000

/-- Everything in the kernel's page is as it was. -/
def PageKept (before after : Memory) : Prop := ∀ address, InKernelPage address → after address = before address

/-- The process in whose kernel area an address lies, and the offset from its PCB. -/
def pcbAt (address : Nat) : Option (Slot × Nat) :=
  if inside : 0x7F4000 ≤ address ∧ address < 0x800000 then
    some (⟨(0x7FFFFF - address) / 0x2000, by omega⟩, address % 0x2000)
  else none

/-- The caller's memory as the kernel finds it. -/
def Kernel.seen (env : Env) (k : Kernel) (mem : Memory) : Memory := fun address =>
  match pcbAt address with
  | some (p, offset) => (k.pcbs p).byte env offset
  | none => mem address

section Decode

/-- The table at an address. -/
def fotpOf (env : Env) (word : Nat) : Option Fotp :=
  [.stdin, .stdout, .file, .dir, .rtc].find? fun fotp => env.fotpAddr fotp = word

/-- The process whose PCB is at an address. -/
def slotOf (word : Nat) : Option Slot := (List.finRange 6).find? fun p => pcbAddr p = word

def Fd.ofBytes (env : Env) (bytes : Memory) : Fd where
  fotp := if le32 bytes 0 = 0 then none else fotpOf env (le32 bytes 0)
  inodeNumber := (bytes 4).toNat
  filePosition := le32 bytes 8
  inUseFlag := (bytes 12).toNat
  arg := fun i => bytes (13 + i)
  textFileFlag := (bytes 141).toNat

/-- What the bytes of a PCB say, in the layout of `Pcb.byte`. -/
def Pcb.ofBytes (env : Env) (bytes : Memory) : Pcb where
  status := (bytes 0).toNat
  pid := (bytes 1).toNat
  fdArr := fun fd => .ofBytes env fun offset => bytes (4 + 144 * fd.val + offset)
  selfEsp := le32 bytes 1156
  selfEbp := le32 bytes 1160
  selfKStack := le32 bytes 1164
  selfPage := le32 bytes 1168
  espSwitch := le32 bytes 1172
  ebpSwitch := le32 bytes 1176
  childPcb := if le32 bytes 1180 = 0 then none else slotOf (le32 bytes 1180)
  slack := bytes

/-- Every pointer in the bytes of a PCB is `NULL` or one the kernel has set. -/
def PointersKnown (env : Env) (bytes : Memory) : Prop :=
  (le32 bytes 1180 = 0 ∨ (slotOf (le32 bytes 1180)).isSome = true) ∧
    ∀ fd : Fin 8, le32 bytes (4 + 144 * fd.val) = 0 ∨ (fotpOf env (le32 bytes (4 + 144 * fd.val))).isSome = true

instance (env : Env) (bytes : Memory) : Decidable (PointersKnown env bytes) :=
  inferInstanceAs (Decidable (_ ∧ _))

theorem wordByte_le32 (bytes : Memory) (address : Nat) {i : Nat} (inside : i < 4) :
    wordByte (le32 bytes address) i = bytes (address + i) := by
  have first := (bytes address).toNat_lt
  have second := (bytes (address + 1)).toNat_lt
  have third := (bytes (address + 2)).toNat_lt
  have fourth := (bytes (address + 3)).toNat_lt
  apply UInt8.toNat_inj.mp
  rw [wordByte, UInt8.toNat_ofNat', le32]
  obtain rfl | rfl | rfl | rfl : i = 0 ∨ i = 1 ∨ i = 2 ∨ i = 3 := by omega
  all_goals
    simp only [Nat.reducePow, Nat.add_zero]
    omega

theorem fotpOf_addr {env : Env} {word : Nat} {fotp : Fotp} (found : fotpOf env word = some fotp) :
    env.fotpAddr fotp = word := by
  simpa using List.find?_some found

theorem slotOf_addr {word : Nat} {p : Slot} (found : slotOf word = some p) : pcbAddr p = word := by
  simpa using List.find?_some found

/-- A word that is `NULL` or points at a known object is the address of what it points at. -/
theorem pointer_word {α : Type} {find : Nat → Option α} {address : α → Nat} {word : Nat}
    (finds : ∀ {object}, find word = some object → address object = word)
    (known : word = 0 ∨ (find word).isSome = true) :
    ((if word = 0 then none else find word).map address).getD 0 = word := by
  split
  · rename_i null
    rw [null]
    rfl
  · rename_i pointer
    obtain ⟨object, found⟩ := Option.isSome_iff_exists.mp (known.resolve_left pointer)
    rw [found, Option.map_some, Option.getD_some, finds found]

theorem Fd.byte_ofBytes {env : Env} {bytes : Memory} {offset : Nat}
    (known : le32 bytes 0 = 0 ∨ (fotpOf env (le32 bytes 0)).isSome = true) :
    (Fd.ofBytes env bytes).byte env bytes offset = bytes offset := by
  have table : ((Fd.ofBytes env bytes).fotp.map env.fotpAddr).getD 0 = le32 bytes 0 := pointer_word fotpOf_addr known
  rw [Fd.byte, table]
  split
  · rw [wordByte_le32 bytes 0 ‹_›, Nat.zero_add]
  split
  · rename_i at4
    simp [Fd.ofBytes, at4]
  split
  · rename_i word
    simp only [Fd.ofBytes]
    rw [wordByte_le32 bytes 8 (by omega)]
    congr 1
    omega
  split
  · rename_i at12
    simp [Fd.ofBytes, at12]
  split
  · simp only [Fd.ofBytes]
    congr 1
    omega
  split
  · rename_i at141
    simp [Fd.ofBytes, at141]
  · rfl

/-- The bytes of the PCB that some bytes say are these bytes. -/
theorem Pcb.byte_ofBytes {env : Env} {bytes : Memory} (known : PointersKnown env bytes) (offset : Nat) :
    (Pcb.ofBytes env bytes).byte env offset = bytes offset := by
  have child : ((Pcb.ofBytes env bytes).childPcb.map pcbAddr).getD 0 = le32 bytes 1180 :=
    pointer_word slotOf_addr known.1
  rw [Pcb.byte, child]
  split
  · rename_i at0
    simp [Pcb.ofBytes, at0]
  split
  · rename_i at1
    simp [Pcb.ofBytes, at1]
  split
  · rename_i inTable
    have place : offset - (offset - 4) % 144 = 4 + 144 * ((offset - 4) / 144) := by omega
    rw [place]
    refine (Fd.byte_ofBytes (known.2 ⟨(offset - 4) / 144, by omega⟩)).trans ?_
    congr 1
    show 4 + 144 * ((offset - 4) / 144) + (offset - 4) % 144 = offset
    omega
  split
  · rename_i word
    have pick : [le32 bytes 1156, le32 bytes 1160, le32 bytes 1164, le32 bytes 1168, le32 bytes 1172,
        le32 bytes 1176, le32 bytes 1180].getD ((offset - 1156) / 4) 0 =
        le32 bytes (1156 + 4 * ((offset - 1156) / 4)) := by
      obtain ⟨index, low⟩ : ∃ index, (offset - 1156) / 4 = index := ⟨_, rfl⟩
      have bound : index < 7 := by omega
      rw [low]
      obtain rfl | rfl | rfl | rfl | rfl | rfl | rfl :
          index = 0 ∨ index = 1 ∨ index = 2 ∨ index = 3 ∨ index = 4 ∨ index = 5 ∨ index = 6 := by omega
      all_goals rfl
    simp only [Pcb.ofBytes]
    have place : 1156 + 4 * ((offset - 1156) / 4) + (offset - 1156) % 4 = offset := by omega
    rw [pick, wordByte_le32 bytes _ (Nat.mod_lt _ (by decide)), place]
  · rfl

end Decode

/-- Tests every number below a bound, the last one first: on memories that are not known
the answer does not unfold further than to that test. -/
def allBelow (test : Nat → Bool) : Nat → Bool
  | 0 => true
  | n + 1 => test n && allBelow test n

theorem allBelow_iff {test : Nat → Bool} {n : Nat} : allBelow test n = true ↔ ∀ i < n, test i = true := by
  induction n with
  | zero => simp [allBelow]
  | succ n ih =>
      rw [allBelow, Bool.and_eq_true, ih]
      constructor
      · rintro ⟨last, below⟩ i bound
        rcases Nat.lt_succ_iff_lt_or_eq.mp bound with lower | rfl
        · exact below i lower
        · exact last
      · intro all
        exact ⟨all n n.lt_succ_self, fun i bound => all i (bound.trans n.lt_succ_self)⟩

/-- The memory from the PCB of `p` on. -/
def pcbBytes (mem : Memory) (p : Slot) : Memory := fun i => mem (pcbAddr p + i)

/-- A byte of the PCB of `p` differs. A `pcb_t` has 1184 bytes. -/
def Touched (before after : Memory) (p : Slot) : Prop := ∃ i < 1184, pcbBytes after p i ≠ pcbBytes before p i

instance (before after : Memory) (p : Slot) : Decidable (Touched before after p) :=
  decidable_of_iff (¬allBelow (fun i => pcbBytes after p i == pcbBytes before p i) 1184 = true)
    (by simp [allBelow_iff, Touched])

/-- Of the kernel's page only PCBs differ. -/
def OnlyPcbs (before after : Memory) : Prop :=
  ∀ i < 0x400000, after (0x400000 + i) ≠ before (0x400000 + i) →
    (pcbAt (0x400000 + i)).any (fun place => decide (place.2 < 1184)) = true

instance (before after : Memory) : Decidable (OnlyPcbs before after) :=
  decidable_of_iff (allBelow (fun i => after (0x400000 + i) == before (0x400000 + i) ||
      (pcbAt (0x400000 + i)).any fun place => decide (place.2 < 1184)) 0x400000 = true)
    (by simp only [allBelow_iff, OnlyPcbs, Bool.or_eq_true, beq_iff_eq, ne_eq, or_iff_not_imp_left])

/-- The kernel behind the stores of a caller. What it does once its variables, its stacks,
the file system image or the pointers in a PCB are overwritten is not modelled. -/
def Kernel.stored (env : Env) (k : Kernel) (before after : Memory) : Except Stop Kernel :=
  if OnlyPcbs before after ∧
      ∀ p : Slot, Touched before after p → PointersKnown env (pcbBytes after p) then
    .ok { k with pcbs := fun p => if Touched before after p then .ofBytes env (pcbBytes after p) else k.pcbs p }
  else .error .outOfBounds

section Stores

variable {env : Env} {k k' : Kernel} {mem before after : Memory} {p q : Slot}

theorem pcbAt_add {offset : Nat} (inside : offset < 0x2000) : pcbAt (pcbAddr p + offset) = some (p, offset) := by
  have last := p.isLt
  have lower : 0x7F4000 ≤ pcbAddr p + offset ∧ pcbAddr p + offset < 0x800000 := by
    unfold pcbAddr
    omega
  rw [pcbAt, dif_pos lower]
  congr 2
  · ext
    unfold pcbAddr
    simp only
    omega
  · unfold pcbAddr
    omega

theorem pcbAt_some {address offset : Nat} (found : pcbAt address = some (p, offset)) :
    address = pcbAddr p + offset ∧ offset < 0x2000 := by
  unfold pcbAt at found
  split at found
  · cases found
    unfold pcbAddr
    simp only
    omega
  · cases found

theorem pcb_inKernelPage {offset : Nat} (inside : offset < 0x2000) : InKernelPage (pcbAddr p + offset) := by
  have last := p.isLt
  unfold InKernelPage pcbAddr
  omega

theorem pcbAddr_apart (different : q ≠ p) : pcbAddr q + 0x2000 ≤ pcbAddr p ∨ pcbAddr p + 0x2000 ≤ pcbAddr q := by
  have apart : q.val ≠ p.val := fun same => different (Fin.ext same)
  have last := p.isLt
  have other := q.isLt
  unfold pcbAddr
  omega

theorem Kernel.seen_pcb {offset : Nat} (inside : offset < 0x2000) :
    k.seen env mem (pcbAddr p + offset) = (k.pcbs p).byte env offset := by
  rw [Kernel.seen, pcbAt_add inside]

theorem PageKept.untouched (kept : PageKept before after) : ¬Touched before after p := by
  rintro ⟨i, inside, differs⟩
  exact differs (kept _ (pcb_inKernelPage (by omega)))

theorem PageKept.blit {source : Nat → UInt8} {dest count : Nat}
    (outside : dest + count ≤ 0x400000 ∨ 0x800000 ≤ dest) : PageKept mem (mem.blit dest source count) := by
  rintro address ⟨lower, upper⟩
  exact Memory.blit_outside (by omega)

/-- A store that changes nothing in the page leaves the kernel as it is. -/
theorem Kernel.stored_kept (kept : PageKept before after) : k.stored env before after = .ok k := by
  have only : OnlyPcbs before after :=
    fun i inside differs => absurd (kept (0x400000 + i) ⟨by omega, by omega⟩) differs
  unfold Kernel.stored
  rw [if_pos ⟨only, fun p touched => absurd touched kept.untouched⟩]
  simp only [if_neg kept.untouched]

/-- A store inside of one PCB replaces that PCB by what its bytes say now. -/
theorem Kernel.stored_pcb (offset count : Nat) (inside : offset + count ≤ 1184)
    (elsewhere : ∀ address, address < pcbAddr p + offset ∨ pcbAddr p + offset + count ≤ address →
      after address = before address)
    (touched : Touched before after p) (known : PointersKnown env (pcbBytes after p)) :
    k.stored env before after = .ok (k.setPcb p (.ofBytes env (pcbBytes after p))) := by
  have only : OnlyPcbs before after := by
    intro i _ differs
    have within : pcbAddr p + offset ≤ 0x400000 + i ∧ 0x400000 + i < pcbAddr p + offset + count := by
      by_contra outside
      exact differs (elsewhere _ (by omega))
    obtain ⟨place, shape⟩ := Nat.exists_eq_add_of_le (show pcbAddr p ≤ 0x400000 + i by omega)
    rw [shape, pcbAt_add (by omega)]
    simp only [Option.any_some, decide_eq_true_eq]
    omega
  have others : ∀ q, q ≠ p → ¬Touched before after q := by
    rintro q different ⟨i, _, differs⟩
    have apart := pcbAddr_apart different
    exact differs (elsewhere _ (by omega))
  have allKnown : ∀ q, Touched before after q → PointersKnown env (pcbBytes after q) := by
    intro q found
    obtain rfl : q = p := by
      by_contra different
      exact others q different found
    exact known
  have replaced : (fun q => if Touched before after q then .ofBytes env (pcbBytes after q) else k.pcbs q) =
      Function.update k.pcbs p (.ofBytes env (pcbBytes after p)) := by
    funext q
    by_cases same : q = p
    · subst same
      rw [if_pos touched, Function.update_self]
    · rw [if_neg (others q same), Function.update_of_ne same]
  unfold Kernel.stored
  rw [if_pos ⟨only, allKnown⟩, replaced, Kernel.setPcb]

theorem Kernel.stored_cases (stored : k.stored env before after = .ok k') :
    OnlyPcbs before after ∧ ∀ p, (¬Touched before after p ∧ k'.pcbs p = k.pcbs p) ∨
      (PointersKnown env (pcbBytes after p) ∧ k'.pcbs p = .ofBytes env (pcbBytes after p)) := by
  unfold Kernel.stored at stored
  split at stored
  · rename_i accepted
    cases stored
    refine ⟨accepted.1, fun p => ?_⟩
    by_cases touched : Touched before after p
    · exact .inr ⟨accepted.2 p touched, by simp only [if_pos touched]⟩
    · exact .inl ⟨touched, by simp only [if_neg touched]⟩
  · cases stored

/-- What the kernel finds behind the stores of a caller is what was stored. -/
theorem Kernel.seen_stored (stored : k.stored env (k.seen env mem) after = .ok k') : k'.seen env after = after := by
  obtain ⟨only, replaced⟩ := Kernel.stored_cases stored
  funext address
  cases place : pcbAt address with
  | none => rw [Kernel.seen, place]
  | some found =>
      obtain ⟨p, offset⟩ := found
      obtain ⟨rfl, inside⟩ := pcbAt_some place
      rw [Kernel.seen_pcb inside]
      rcases replaced p with ⟨untouched, same⟩ | ⟨known, decoded⟩
      · have held : k.seen env mem (pcbAddr p + offset) = (k.pcbs p).byte env offset := Kernel.seen_pcb inside
        rw [same, ← held]
        by_contra differs
        -- What changed is a byte of a PCB, and this PCB has none.
        have place := pcb_inKernelPage (p := p) inside
        obtain ⟨i, shape⟩ := Nat.exists_eq_add_of_le place.1
        have changed := only i (by have upper := place.2; omega) (by rw [← shape]; exact Ne.symm differs)
        rw [← shape, pcbAt_add inside] at changed
        exact untouched ⟨offset, by simpa using changed, Ne.symm differs⟩
      · rw [decoded, Pcb.byte_ofBytes known, pcbBytes]

end Stores

namespace OneMemory

/-- The position is read again behind the copy. -/
def fread (env : Env) (k : Kernel) (fd : Fin 8) (mem : Memory) (buf : Nat) (nbytes : Int) :
    Except Stop (Int × Memory × Kernel) := do
  match ← getPCBTail k k.activeTask with
  | none => .error .pageFault
  | some p =>
      let entry := (k.pcbs p).fdArr fd
      if entry.filePosition ≥ env.image.length entry.inodeNumber then return (0, mem, k)
      let result := FileSystem.readData env.image entry.inodeNumber entry.filePosition mem buf (u32 nbytes)
      let k ← k.stored env mem result.mem
      if result.ret = -1 then return (-1, result.mem, k)
      let entry := (k.pcbs p).fdArr fd
      return (result.ret, result.mem,
        k.setFd p fd { entry with filePosition := u32 (entry.filePosition + result.ret) })

/-- No other operation uses a PCB behind its stores. -/
def readOp (env : Env) (k : Kernel) (fotp : Fotp) (fd : Fin 8) (mem : Memory) (buf : Nat) (nbytes : Int)
    (cpu : Cpu) : Except Stop (Int × Memory × Kernel) :=
  match fotp with
  | .file => fread env k fd mem buf nbytes
  | fotp => do
      let result ← BozOS.readOp env k fotp fd mem buf nbytes cpu
      return (result.1, result.2.1, ← result.2.2.stored env mem result.2.1)

def sysRead (env : Env) (k : Kernel) (fd : Int) (mem : Memory) (buf : Nat) (nbytes : Int) (cpu : Cpu) :
    Except Stop (Int × Memory × Kernel) := do
  let mem := k.seen env mem
  match ← callerPcb k with
  | none => return (-1, mem, k)
  | some p =>
      if buf = 0 ∨ nbytes < 0 then return (-1, mem, k)
      match fdOf fd with
      | none => return (-1, mem, k)
      | some fd =>
          if ((k.pcbs p).fdArr fd).inUseFlag = 0 then return (-1, mem, k)
          match ((k.pcbs p).fdArr fd).fotp with
          | none => return (-1, mem, k)
          | some fotp => readOp env k fotp fd mem buf nbytes cpu

/-- The argument is copied from where `memset` may just have cleared it. -/
def getargs (env : Env) (k : Kernel) (mem : Memory) (buf : Nat) (nbytes : Int) :
    Except Stop (Int × Memory × Kernel) := do
  let mem := k.seen env mem
  match ← callerPcb k with
  | none => return (-1, mem, k)
  | some p =>
      if strlen ((k.pcbs p).fromArg env) addressSpace = 0 then return (-1, mem, k)
      let stored := memcpy (mem.fill buf 0 1024) buf (pcbAddr p + 17) (u32 nbytes)
      return (0, stored, ← k.stored env mem stored)

def next (env : Env) (k : Kernel) : Event → Except Stop Kernel
  | .read fd mem buf nbytes cpu => (sysRead env k fd mem buf nbytes cpu).map fun result => result.2.2
  | .getargs mem buf nbytes => (getargs env k mem buf nbytes).map fun result => result.2.2
  | event => BozOS.next env k event

def Steps (env : Env) (k : Kernel) (event : Event) (after : Kernel) : Prop := next env k event = .ok after

/-- The event stores nothing into the kernel's page, other than bytes that are there. -/
def Spares (env : Env) (k : Kernel) : Event → Prop
  | .read fd mem buf nbytes cpu => ∀ result, sysRead env k fd mem buf nbytes cpu = .ok result →
      PageKept (k.seen env mem) result.2.1
  | .getargs mem buf nbytes => ∀ result, getargs env k mem buf nbytes = .ok result →
      PageKept (k.seen env mem) result.2.1
  | _ => True

/-- A step with a caller that keeps its buffers out of the kernel's page. -/
def SparingSteps (env : Env) (k : Kernel) (event : Event) (after : Kernel) : Prop :=
  Steps env k event after ∧ Spares env k event

end OneMemory

end BozOS
