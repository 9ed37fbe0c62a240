import BozOS.Kernel.Process
import BozOS.Data.Runs

namespace BozOS

open Data

/-! The kernel as a transition system: the calls of the running task and the
interrupts, each one atomic step. A call that waits has no step until the
interrupt it waits for has come. -/

inductive Event where
  | execute (command : Memory) (cpu : Cpu)
  | halt (status : Nat) (cpu : Cpu)
  | read (fd : Int) (mem : Memory) (buf : Nat) (nbytes : Int) (cpu : Cpu)
  | write (fd : Int) (mem : Memory) (buf : Nat) (nbytes : Int)
  | open (filename : Memory)
  | close (fd : Int)
  | getargs (mem : Memory) (buf : Nat) (nbytes : Int)
  | vidmap (mem : Memory) (screenStart : Nat)
  | setHandler
  | sigreturn
  | tick (cpu : Cpu)
  | key (scanCode : UInt8)
  | rtc

def setHandler (k : Kernel) : Int × Kernel := (0, puts k (literal "System call SET_HANDLER.\n"))

def sigreturn (k : Kernel) : Int × Kernel := (0, puts k (literal "System call SIGRETURN.\n"))

def Executed.kernel : Executed → Kernel
  | .returned _ k => k
  | .launched _ k => k

def Halted.kernel : Halted → Kernel
  | .resumed _ _ _ k => k
  | .restarted _ k => k

def Switched.kernel : Switched → Kernel
  | .idle k => k
  | .launched _ k => k
  | .launchFailed k => k
  | .resumed _ _ k => k

def next (env : Env) (k : Kernel) : Event → Except Stop Kernel
  | .execute command cpu => (execute env k command cpu).map Executed.kernel
  | .halt status cpu => (halt env k status cpu).map Halted.kernel
  | .read fd mem buf nbytes cpu => (sysRead env k fd mem buf nbytes cpu).map fun result => result.2.2
  | .write fd mem buf nbytes => (sysWrite k fd mem buf nbytes).map Prod.snd
  | .open filename => (sysOpen env k filename).map Prod.snd
  | .close fd => (sysClose k fd).map Prod.snd
  | .getargs mem buf nbytes => (getargs env k mem buf nbytes).map fun _ => k
  | .vidmap mem screenStart => .ok (vidmap env k mem screenStart).2.2
  | .setHandler => .ok (setHandler k).2
  | .sigreturn => .ok (sigreturn k).2
  | .tick cpu => (taskSwitch env k cpu).map Switched.kernel
  | .key scanCode => .ok (kbIntHandler k scanCode)
  | .rtc => .ok (rtcHandler k)

def Steps (env : Env) (k : Kernel) (event : Event) (after : Kernel) : Prop := next env k event = .ok after

def runEvents (env : Env) : Kernel → List Event → Except Stop Kernel := runAll (next env)

def stateAfter (env : Env) : Kernel → List Event → Kernel := endState (next env)

section Inversion

variable {α β γ : Type} {first : Except Stop α} {f : α → Except Stop β} {result : β}

/-- A sequence of two calls returns exactly when both do. -/
theorem bind_ok : (first >>= f) = .ok result ↔ ∃ middle, first = .ok middle ∧ f middle = .ok result := by
  cases first with
  | error stop => simp [bind, Except.bind]
  | ok value => simp [bind, Except.bind]

theorem map_ok {f : α → β} : first.map f = .ok result ↔ ∃ value, first = .ok value ∧ f value = result := by
  cases first with
  | error stop => simp [Except.map]
  | ok value => simp [Except.map]

end Inversion

theorem stateAfter_run {env : Env} {k : Kernel} {events : List Event}
    (ends : (runEvents env k events).isOk = true) : Run (Steps env) k events (stateAfter env k events) :=
  endState_run ends

end BozOS
