import BozOS.Programs.Calls

namespace BozOS.Programs

open Data Lib FileSystem

/-! `ece391cat.c`, from the command that starts it to its last line of output. -/

variable {env : Env} {p : Slot} {allowed : Kernel → Event → Prop} {fdArr : Fin 8 → Fd} {written : List UInt8}
  {s : Session} {fd : Fin 8} {inode buf fuel : Nat} {mem : Memory} {flag position : Nat}

section Output

end Output

section Exactness

variable {image : Image} {fileLength rounds : Nat}

end Exactness

section Loop

end Loop

section Main

variable {word : List UInt8} {dentry : Dentry} {filename : Memory}

end Main

end BozOS.Programs
