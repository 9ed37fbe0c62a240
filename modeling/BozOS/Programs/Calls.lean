import BozOS.Programs.System
import BozOS.Descriptors.Arguments
import BozOS.Descriptors.Sequential
import BozOS.Descriptors.Listing

namespace BozOS.Programs

open Data Lib FileSystem

/-! One rule for each call a program makes, in terms of its descriptor table and of
what it has written. -/

def getargs (mem : Memory) (buf : Nat) (nbytes : Int) : User (Int × Memory) := Client.request (.getargs mem buf nbytes)

def close (fd : Int) (mem : Memory) : User (Int × Memory) := Client.request (.close fd mem)

def read (fd : Int) (mem : Memory) (buf : Nat) (nbytes : Int) : User (Int × Memory) :=
  Client.request (.read fd mem buf nbytes)

def write (fd : Int) (mem : Memory) (buf : Nat) (nbytes : Int) : User (Int × Memory) :=
  Client.request (.write fd mem buf nbytes)

/-- A string constant of a program, at an address of its own. -/
def constant (s : String) : Memory := fun address => (literal s).getD (address - 1) 0

/-- `ece391_fdputs`. -/
def fdputs (fd : Int) (mem : Memory) (s : Nat) : User Unit := do
  let _ ← write fd mem s (strlen (fun i => mem (s + i)) addressSpace)
  return ()

/-- Where the process stands between two calls, and the position of the directory
listing if it is at one. -/
structure At (p : Slot) (fdArr : Fin 8 → Fd) (written : List UInt8) (place : Option Nat) (s : Session) : Prop where
  resident : Resident p fdArr s.kernel
  output : s.written = written
  listing : ∀ index, place = some index → s.kernel.dreadLoc = index

/-- What is assumed of the rest of the system: while a listing is on, nobody else
reads a directory. -/
structure Calm (env : Env) (allowed : Kernel → Event → Prop) (place : Option Nat) : Prop where
  loadable : Loadable env
  quiet : place ≠ none → ∀ k event, allowed k event → directoryRead k event = none

variable {env : Env} {p : Slot} {allowed : Kernel → Event → Prop} {Result : Type}
  {post : Result → Session → Prop} {resume : Int × Memory → User Result} {fdArr : Fin 8 → Fd} {written : List UInt8}
  {place : Option Nat} {s after : Session} {mem : Memory} {buf : Nat} {fd : Fin 8}

theorem At.stable (calm : Calm env allowed place) (s after : Session) (here : At p fdArr written place s)
    (others : (server env p allowed).others s after) : At p fdArr written place after := by
  obtain ⟨event, foreign, permitted, step, kept⟩ := others
  refine ⟨here.resident.foreign calm.loadable foreign step, kept.trans here.output, fun index placed => ?_⟩
  rw [next_listing (calm.quiet (by rw [placed]; exact Option.some_ne_none index) _ _ permitted) step]
  exact here.listing index placed

/-- The table after a `read` has moved the position of a descriptor. -/
def movedTo (fdArr : Fin 8 → Fd) (fd : Fin 8) (position : Nat) : Fin 8 → Fd :=
  Function.update fdArr fd { fdArr fd with filePosition := position }

/-- Descriptor `fd` of the table is open on a file. -/
structure Opened (fdArr : Fin 8 → Fd) (fd : Fin 8) (inode position : Nat) : Prop where
  used : (fdArr fd).inUseFlag ≠ 0
  table : (fdArr fd).fotp = some .file
  number : (fdArr fd).inodeNumber = inode
  place : (fdArr fd).filePosition = position

theorem Opened.fileOpen {k : Kernel} {inode position : Nat} (opened : Opened fdArr fd inode position)
    (resident : Resident p fdArr k) (caller : callerPcb k = .ok (some p)) : FileOpen k p fd inode position := by
  have table := resident.table
  exact ⟨caller, by rw [table]; exact opened.used, by rw [table]; exact opened.table,
    by rw [table]; exact opened.number, by rw [table]; exact opened.place⟩

theorem Opened.moved {inode position next : Nat} (opened : Opened fdArr fd inode position) :
    Opened (movedTo fdArr fd next) fd inode next := by
  refine ⟨?_, ?_, ?_, ?_⟩ <;> rw [movedTo, Function.update_self]
  · exact opened.used
  · exact opened.table
  · exact opened.number

end BozOS.Programs
