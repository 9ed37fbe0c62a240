import BozOS.Data.Chain
import BozOS.Data.Memory
import BozOS.Data.Runs
import Mathlib.Data.Fintype.Card
import Mathlib.Logic.Function.Basic

namespace BozOS.Fish

open Data

/-! The blinking characters of `fish`: the list routines of `blink.S` and the
allocator of `fish.c` they call. The records are the cells of one array, and a
cell whose location is zero counts as free. -/

/-- `struct mp1_blink_struct` but for its link. -/
structure Blinker where
  location : UInt16
  onChar : UInt8
  offChar : UInt8
  onLength : UInt16
  offLength : UInt16
  countdown : UInt16
  status : UInt16
deriving DecidableEq, Repr

/-- An index of `blink_array`. A pointer to a record is one, or `NULL`. -/
abbrev Cell := Fin 2000

structure BlinkStruct extends Blinker where
  next : Option Cell

structure State where
  blinkArray : Cell → BlinkStruct
  mp1ListHead : Option Cell
  -- the text page from `vmem_base_addr` on
  vmem : Memory

/-- A record of zero bytes, as `mp1_free` leaves it. -/
def BlinkStruct.zero : BlinkStruct := ⟨⟨0, 0, 0, 0, 0, 0, 0⟩, none⟩

/-- The program behind the `ece391_memset` of its `main`. -/
def State.initial (vmem : Memory) : State := ⟨fun _ => .zero, none, vmem⟩

def State.next (s : State) (cell : Cell) : Option Cell := (s.blinkArray cell).next

def State.setCell (s : State) (cell : Cell) (record : BlinkStruct) : State :=
  { s with blinkArray := Function.update s.blinkArray cell record }

def mp1Poke (s : State) (offset : Nat) (byte : UInt8) : State := { s with vmem := s.vmem.store offset byte }

/-- No list has more nodes than there are cells. -/
def listFuel : Nat := 2000

/-- A positive number in 16 bits, as `jg` sees it. -/
def Positive (word : UInt16) : Prop := 0 < word ∧ word < 0x8000

instance (word : UInt16) : Decidable (Positive word) := inferInstanceAs (Decidable (_ ∧ _))

/-- What one round of `tasklet_loop` makes of a record. -/
def Blinker.tick (b : Blinker) : Blinker :=
  if Positive (b.countdown - 1) then { b with countdown := b.countdown - 1 }
  else if b.status &&& 1 = 0 then { b with countdown := b.onLength, status := b.status ^^^ 1 }
  else { b with countdown := b.offLength, status := b.status ^^^ 1 }

/-- What it draws at the record's location. -/
def Blinker.drawn (b : Blinker) : Option UInt8 :=
  if Positive (b.countdown - 1) then none
  else if b.status &&& 1 = 0 then some b.onChar
  else some b.offChar

def Blinker.drawTo (b : Blinker) (vmem : Memory) : Memory :=
  match b.drawn with
  | none => vmem
  | some char => vmem.store (2 * b.location.toNat) char

def taskletRound (s : State) (cell : Cell) : State :=
  let record := s.blinkArray cell
  { s with vmem := record.drawTo s.vmem }.setCell cell { record with toBlinker := record.tick }

def mp1RtcTasklet (s : State) : Option State :=
  visitFrom State.next taskletRound listFuel s.mp1ListHead s

/-- The loop of `mp1_malloc`. -/
def mp1Malloc (s : State) : Option Cell :=
  (List.finRange 2000).find? fun cell => (s.blinkArray cell).location = 0

def mp1Free (s : State) (cell : Cell) : State := s.setCell cell .zero

/-- The new record before it is linked: shown, with its first countdown. -/
def Blinker.fresh (b : Blinker) : Blinker := { b with status := 1, countdown := b.onLength }

/-- `mp1_ioctl_add` on the record at the user's address. -/
def mp1IoctlAdd (s : State) (user : Blinker) : Int × State :=
  if 80 * 25 ≤ user.location then (-1, s)
  else
    match mp1Malloc s with
    | none => (-1, s)
    | some cell =>
        let linked := { s.setCell cell ⟨user.fresh, s.mp1ListHead⟩ with mp1ListHead := some cell }
        (0, mp1Poke linked (2 * user.location.toNat) user.onChar)

/-- `none` stands for a search that never ends, the inner `none` for the value
zero. -/
def mp1FindHelper (s : State) (location : UInt16) : Option (Option Cell) :=
  findFrom s.next (fun cell => (s.blinkArray cell).location = location) listFuel s.mp1ListHead

/-- The search for the pointer that leads to `cell`, and the removal. The pointer
is the head of the list or the link of another record. -/
def unlink (s : State) (cell : Cell) : Option State :=
  if s.mp1ListHead = some cell then some { s with mp1ListHead := s.next cell }
  else
    match predecessorFrom s.next cell listFuel s.mp1ListHead with
    | some (some before) => some (s.setCell before { s.blinkArray before with next := s.next cell })
    | _ => none

def mp1IoctlRemove (s : State) (arg : UInt32) : Option (Int × State) := do
  match ← mp1FindHelper s arg.toUInt16 with
  | none => return (-1, s)
  | some cell => return (0, mp1Free (← unlink s cell) cell)

/-- The character `mp1_ioctl_sync` draws. `testb` with 1 leaves a byte whose sign
bit is clear, and `cmovl` waits for it to be set. -/
def syncChar (b : Blinker) : UInt8 :=
  if b.status.toUInt8 &&& 0x1 &&& 0x80 ≠ 0 then b.onChar else b.offChar

/-- `sync_copy_loop`. -/
def Blinker.synced (first second : Blinker) : Blinker :=
  { second with
    onLength := first.onLength
    offLength := first.offLength
    countdown := first.countdown
    status := first.status }

def mp1IoctlSync (s : State) (arg : UInt32) : Option (Int × State) := do
  match ← mp1FindHelper s (arg >>> 16).toUInt16 with
  | none => return (-1, s)
  | some first =>
      match ← mp1FindHelper s arg.toUInt16 with
      | none => return (-1, s)
      | some second =>
          let record := s.blinkArray second
          let synced := (s.blinkArray first).synced record.toBlinker
          return (0, mp1Poke (s.setCell second { record with toBlinker := synced }) (2 * synced.location.toNat)
            (syncChar synced))

/-- `mp1_ioctl_find`: the return value, and the record copied to the user. -/
def mp1IoctlFind (s : State) (location : UInt16) : Option (Int × Option Blinker) := do
  match ← mp1FindHelper s location with
  | none => return (-1, none)
  | some cell => return (0, some (s.blinkArray cell).toBlinker)

/-- The four commands of `mp1_ioctl`, and the call from the clock. -/
inductive Request where
  | add (user : Blinker)
  | remove (arg : UInt32)
  | find (location : UInt16)
  | sync (arg : UInt32)
  | tasklet
deriving DecidableEq, Repr

structure Reply where
  ret : Int
  copied : Option Blinker
deriving DecidableEq, Repr

def serve (s : State) : Request → Option (Reply × State)
  | .add user => some (⟨(mp1IoctlAdd s user).1, none⟩, (mp1IoctlAdd s user).2)
  | .remove arg => (mp1IoctlRemove s arg).map fun result => (⟨result.1, none⟩, result.2)
  | .find location => (mp1IoctlFind s location).map fun result => (⟨result.1, result.2⟩, s)
  | .sync arg => (mp1IoctlSync s arg).map fun result => (⟨result.1, none⟩, result.2)
  | .tasklet => (mp1RtcTasklet s).map fun after => (⟨0, none⟩, after)

def Serves (s : State) (exchange : Request × Reply) (after : State) : Prop :=
  serve s exchange.1 = some (exchange.2, after)

end BozOS.Fish
