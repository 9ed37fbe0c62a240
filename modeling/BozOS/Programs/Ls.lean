import BozOS.Programs.Calls

namespace BozOS.Programs

open Data Lib FileSystem

/-! `ece391ls.c`: one line for every entry of the directory. -/

variable {env : Env} {p : Slot} {allowed : Kernel → Event → Prop} {fdArr : Fin 8 → Fd} {s : Session} {fd : Fin 8}
  {buf dot fuel : Nat} {mem : Memory} {k : Kernel}

section Directory

variable {Result : Type} {post : Result → Session → Prop} {resume : Int × Memory → User Result} {written : List UInt8}
  {place : Option Nat} {index : Nat}

/-- Descriptor `fd` of the table is open on the directory. -/
structure OnDirectory (fdArr : Fin 8 → Fd) (fd : Fin 8) : Prop where
  used : (fdArr fd).inUseFlag ≠ 0
  table : (fdArr fd).fotp = some .dir

theorem OnDirectory.sysRead_eq {nbytes : Nat} {cpu : Cpu} (opened : OnDirectory fdArr fd)
    (resident : Resident p fdArr k) (caller : callerPcb k = .ok (some p)) (target : buf ≠ 0) :
    sysRead env k fd.val mem buf nbytes cpu = .ok (dread env k mem buf cpu) := by
  have table := resident.table
  have reads : Reads k fd.val buf nbytes p fd .dir := by
    refine ⟨caller, by omega, fdOf_val fd, ?_, ?_⟩
    · rw [table]
      exact opened.used
    · rw [table]
      exact opened.table
  rw [reads.sysRead_eq, readOp]

theorem Resident.dread {cpu : Cpu} (resident : Resident p fdArr k) :
    Resident p fdArr (dread env k mem buf cpu).2.2 := by
  obtain ⟨cursor, same⟩ := dread_kernel env k mem buf cpu
  have frame : CallFrame (some p) k (BozOS.dread env k mem buf cpu).2.2 := dread_frame
  have moved := resident.call frame
  rw [same] at moved ⊢
  rwa [resident.table] at moved

end Directory

section Loop

end Loop

section Main

variable {dentry : Dentry}

end Main

end BozOS.Programs
