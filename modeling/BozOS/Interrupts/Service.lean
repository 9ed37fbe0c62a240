import BozOS.Interrupts.Controller

namespace BozOS.Interrupts

open Data

/-! The kernel's interrupts from the devices to the end of their handlers: the three
lines the kernel enables, the gates behind their vectors and the words by which the
handlers end their service. -/

/-- The number the function of a handler passes to `send_eoi`. -/
def eoiOf : Handler → Option (BitVec 32)
  | .pit => some 0
  | .keyboard => some 1
  | .rtc => some 8
  | _ => none

/-- The controller when `kernel.c` enables interrupts, after `i8259_init`, `kb_init`,
`rtc_init` and `pit_init`. -/
def bootPic (controller : Controller) : Pic :=
  enableIrq (enableIrq (enableIrq (i8259Init (.loaded controller)) 1) 8) 0

inductive ServiceEvent where
  | raise (line : Fin 16)
  | interrupt (vector : Nat)
  | finish (vector : Nat)

structure Service where
  pic : Pic
  -- the vectors whose handlers have not sent their end of interrupt
  running : List Nat

/-- Handlers leave interrupts enabled, so that others can come in between. -/
inductive Service.Step (s : Service) : ServiceEvent → Service → Prop where
  | raise {line : Fin 16} (device : line ≠ 2) :
      Service.Step s (.raise line) { s with pic := { s.pic with controller := s.pic.controller.raise line } }
  | interrupt {vector : Nat} {next : Controller} (taken : s.pic.controller.acknowledge = some (vector, next)) :
      Service.Step s (.interrupt vector) ⟨{ s.pic with controller := next }, vector :: s.running⟩
  | finish {vector : Nat} {handler : Handler} {irqNum : BitVec 32} (begun : vector ∈ s.running)
      (handles : handlerOf vector = some handler) (ends : eoiOf handler = some irqNum) :
      Service.Step s (.finish vector) ⟨sendEoi s.pic irqNum, s.running.erase vector⟩

/-- Whether a request is still to be delivered. -/
def ServiceEvent.awaits (line : Fin 16) (waiting : Bool) : ServiceEvent → Bool
  | .raise raised => waiting || decide (raised = line)
  | .interrupt vector => waiting && decide (vector ≠ 32 + line.val)
  | .finish _ => waiting

/-- The last that happened on the line was a request. -/
def awaited (events : List ServiceEvent) (line : Fin 16) : Bool := events.foldl (ServiceEvent.awaits line) false

section Served

variable {s after : Service} {lines : Lines} {events : List ServiceEvent} {event : ServiceEvent} {vector : Nat}
  {handler : Handler} {irqNum : BitVec 32} {line n : Fin 16} {controller : Controller}

/-- The lines with a device the kernel listens to. -/
def Kept (n : Fin 16) : Prop := n.val = 0 ∨ n.val = 1 ∨ n.val = 8

instance : DecidablePred Kept := fun n => inferInstanceAs (Decidable (n.val = 0 ∨ n.val = 1 ∨ n.val = 8))

theorem Kept.known {n : Fin 16} (kept : Kept n) : n = 0 ∨ n = 1 ∨ n = 8 :=
  kept.imp Fin.ext (Or.imp Fin.ext Fin.ext)

/-- What every state of the run has in common. -/
structure Serving (events : List ServiceEvent) (s : Service) (lines : Lines) : Prop where
  programmed : Programmed s.pic lines
  enabled : ∀ n, n ∈ lines.enabled ↔ n = 2 ∨ Kept n
  pending : ∀ n, n ∈ lines.pending ↔ awaited events n = true
  serving : ∀ n, n ∈ lines.serving ↔ 32 + n.val ∈ s.running ∨ n = 2 ∧ 40 ∈ s.running
  distinct : s.running.Nodup
  own : ∀ vector ∈ s.running, ∃ n, Kept n ∧ vector = 32 + n.val

theorem awaited_snoc : awaited (events ++ [event]) line = event.awaits line (awaited events line) := by
  rw [awaited, List.foldl_append]
  rfl

theorem handler_line (handles : handlerOf vector = some handler) (ends : eoiOf handler = some irqNum) :
    ∃ n, Kept n ∧ vector = 32 + n.val ∧ Lines.lineOf irqNum = some n := by
  unfold handlerOf at handles
  split at handles
  · cases handles
    cases ends
  split at handles
  · cases handles
    cases ends
  split at handles
  · cases handles
    cases ends
    exact ⟨0, .inl rfl, by assumption, rfl⟩
  split at handles
  · cases handles
    cases ends
    exact ⟨1, .inr (.inl rfl), by assumption, rfl⟩
  split at handles
  · cases handles
    cases ends
    exact ⟨8, .inr (.inr rfl), by assumption, rfl⟩
  split at handles
  · cases handles
    cases ends
  · cases handles

theorem Serving.boot (controller : Controller) : ∃ lines, Serving [] ⟨bootPic controller, []⟩ lines := by
  have programmed : Programmed (bootPic controller) (((Lines.initial.enable 1).enable 8).enable 0) :=
    ((Programmed.init controller).enable.enable).enable
  refine ⟨_, programmed, fun n => ?_, fun n => ?_, fun n => ?_, List.nodup_nil,
    fun vector none => absurd none List.not_mem_nil⟩
  · revert n
    simp only [Lines.enable, Lines.initial, Set.mem_ofPred_eq, Set.mem_singleton_iff]
    decide
  · exact iff_of_false (Set.notMem_empty n) Bool.false_ne_true
  · exact iff_of_false (Set.notMem_empty n) (by simp)

theorem Serving.raise (serving : Serving events s lines) (device : line ≠ 2) :
    Serving (events ++ [.raise line]) { s with pic := { s.pic with controller := s.pic.controller.raise line } }
      { lines with pending := insert line lines.pending } where
  programmed := serving.programmed.raise device
  enabled := serving.enabled
  pending n := by
    rw [awaited_snoc, Set.mem_insert_iff, serving.pending, ServiceEvent.awaits, Bool.or_eq_true, decide_eq_true_eq,
      or_comm, eq_comm (a := n) (b := line)]
  serving := serving.serving
  distinct := serving.distinct
  own := serving.own

/-- The line of a request that can be delivered is one the kernel keeps, and its
handler is not running. -/
theorem Serving.ready (serving : Serving events s lines) (ready : lines.Ready n) :
    Kept n ∧ 32 + n.val ∉ s.running := by
  refine ⟨((serving.enabled n).mp ready.enabled).resolve_left ready.device, fun runs => ready.free ?_⟩
  refine ⟨n, (serving.serving n).mpr (.inl runs), ?_⟩
  unfold Lines.input
  by_cases small : n.val < 8
  · rw [if_pos small]
    exact .inl ⟨small, Nat.le_refl _⟩
  · exact .inr ⟨not_lt.mp small, not_lt.mp small, le_refl n⟩

theorem Serving.interrupt {next : Controller} (serving : Serving events s lines)
    (taken : s.pic.controller.acknowledge = some (vector, next)) :
    ∃ lines,
      Serving (events ++ [.interrupt vector]) ⟨{ s.pic with controller := next }, vector :: s.running⟩ lines := by
  obtain ⟨n, rfl, ready, -, delivered⟩ := serving.programmed.acknowledge_some taken
  obtain ⟨kept, fresh⟩ := serving.ready ready
  have cascaded : 8 ≤ n.val ↔ n = 8 := by
    rcases kept.known with rfl | rfl | rfl <;> decide
  refine ⟨lines.deliver n, delivered, serving.enabled, fun m => ?_, fun m => ?_,
    List.nodup_cons.mpr ⟨fresh, serving.distinct⟩, fun vector member => ?_⟩
  · have other : m ≠ n ↔ 32 + n.val ≠ 32 + m.val := by rw [ne_eq, Fin.ext_iff]; omega
    rw [awaited_snoc, ServiceEvent.awaits, Bool.and_eq_true, decide_eq_true_eq, ← serving.pending, ← other]
    rfl
  · have same : 32 + m.val = 32 + n.val ↔ m = n := by rw [Fin.ext_iff]; omega
    have second : 40 = 32 + n.val ↔ 8 ≤ n.val := by rw [cascaded, Fin.ext_iff]; omega
    rw [List.mem_cons, List.mem_cons, same, second]
    have before := serving.serving m
    change (m ∈ lines.serving ∨ m = n ∨ m = 2 ∧ 8 ≤ n.val) ↔ _
    rw [before]
    grind
  · rcases List.mem_cons.mp member with rfl | old
    · exact ⟨n, kept, rfl⟩
    · exact serving.own vector old

theorem Serving.finish (serving : Serving events s lines) (begun : vector ∈ s.running)
    (handles : handlerOf vector = some handler) (ends : eoiOf handler = some irqNum) :
    Serving (events ++ [.finish vector]) ⟨sendEoi s.pic irqNum, s.running.erase vector⟩ (lines.eoi irqNum) := by
  obtain ⟨n, kept, rfl, named⟩ := handler_line handles ends
  have cascaded : 8 ≤ n.val ↔ n = 8 := by
    rcases kept.known with rfl | rfl | rfl <;> decide
  refine ⟨serving.programmed.eoi, serving.enabled, fun m => ?_, fun m => ?_, serving.distinct.erase _,
    fun vector member => serving.own vector (List.mem_of_mem_erase member)⟩
  · rw [awaited_snoc, ServiceEvent.awaits, ← serving.pending]
    rfl
  · have same : 32 + m.val = 32 + n.val ↔ m = n := by rw [Fin.ext_iff]; omega
    have second : 40 = 32 + n.val ↔ 8 ≤ n.val := by rw [cascaded, Fin.ext_iff]; omega
    have cascade : n ≠ 2 := by rcases kept.known with rfl | rfl | rfl <;> decide
    have before := serving.serving m
    have none : 34 ∉ s.running := fun member => by
      obtain ⟨other, listened, equal⟩ := serving.own _ member
      rcases listened.known with rfl | rfl | rfl <;> simp at equal
    rw [serving.distinct.mem_erase_iff, serving.distinct.mem_erase_iff, ne_eq, ne_eq, same, second]
    simp only [Lines.eoi, named, Option.some.injEq, Set.mem_ofPred_eq, forall_eq', before]
    by_cases two : m = 2
    · subst two
      have twoVector : 32 + (2 : Fin 16).val = 34 := rfl
      rw [twoVector]
      grind
    · grind

theorem Serving.step (serving : Serving events s lines) (step : Service.Step s event after) :
    ∃ lines, Serving (events ++ [event]) after lines := by
  cases step with
  | raise device => exact ⟨_, serving.raise device⟩
  | interrupt taken => exact serving.interrupt taken
  | finish begun handles ends => exact ⟨_, serving.finish begun handles ends⟩

/-- With no handler running nothing is held back. -/
theorem Serving.quiet (serving : Serving events s lines) (idle : s.running = []) (kept : Kept n)
    (waits : awaited events n = true) : lines.Ready n where
  device := by rcases kept.known with rfl | rfl | rfl <;> decide
  pending := (serving.pending n).mpr waits
  enabled := (serving.enabled n).mpr (.inr kept)
  cascade := fun _ => (serving.enabled 2).mpr (.inl rfl)
  free := by
    rintro ⟨m, member, -⟩
    have runs := (serving.serving m).mp member
    rw [idle] at runs
    simp at runs

end Served

end BozOS.Interrupts
