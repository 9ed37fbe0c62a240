import BozOS.Programs.Calls
import BozOS.Terminals.Entered

namespace BozOS.Programs

open Data Lib

/-! `ece391shell.c`: the command it passes on is the line that was typed. -/

/-- `ece391_strcmp`. Its characters are unsigned, unlike those of the kernel's own. -/
def strcmp (s1 s2 : Memory) : Nat → Nat → Int
  | 0, _ => 0
  | fuel + 1, i =>
      if s1 i = s2 i then
        if s1 i = 0 then 0 else strcmp s1 s2 fuel (i + 1)
      else (s1 i).toNat - (s2 i).toNat

/-- The calls of `Programs.System`, and `execute` of the string at an address. -/
abbrev ShellCall := SysCall ⊕ (Memory × Nat)

abbrev Shell := Client ShellCall (Int × Memory)

def print (s : String) : Shell Unit := (fdputs 1 (constant s) 1).translate .inl

/-- The body of the loop behind the `read` of the line. -/
def shellLine (buf : Nat) (answer : Int × Memory) : Shell (Memory ⊕ Int) := do
  let (cnt, mem) := answer
  if cnt = -1 then
    print "read from keyboard failed\n"
    return .inr 3
  let cnt := if 0 < cnt ∧ mem (buf + cnt.toNat - 1) = 0x0A then cnt - 1 else cnt
  let mem := mem.store (buf + cnt.toNat) 0
  if strcmp (fun i => mem (buf + i)) (fun i => constant "exit" (1 + i)) addressSpace 0 = 0 then return .inr 0
  if mem buf = 0 then return .inl mem
  let (rval, mem) ← Client.request (.inr (mem, buf))
  if rval = -1 then print "no such command\n"
  else if rval = 256 then print "program terminated by exception\n"
  else if rval ≠ 0 then print "program terminated abnormally\n"
  return .inl mem

def shellRound (buf : Nat) (mem : Memory) : Shell (Memory ⊕ Int) := do
  print "391OS> "
  let answer ← (read 0 mem buf 1023).translate .inl
  shellLine buf answer

/-- `main`, with its array at `buf`. -/
def shell (buf fuel : Nat) (mem : Memory) : Shell Int := do
  print "Starting 391 Shell\n"
  Client.loop (shellRound buf) fuel mem

variable {env : Env} {k after : Kernel} {h : InputHistory} {p : Slot} {mem stored : Memory} {buf : Nat} {cpu : Cpu}
  {ret : Int} {line : Line} {s t : Memory} {first second : List UInt8}

section Strings

/-- A line is a string: it has no NUL of its own. -/
theorem Line.spelt {address : Nat} (line : Line) (window : mem.window address line.chars.length = line.chars)
    (last : mem (address + line.chars.length) = 0) : Spelt mem address line.chars :=
  .of_bytes (fun _ inside => Memory.window_at window inside) (fun c listed => (line.plain c listed).1) last

end Strings

section Command

end Command

end BozOS.Programs
