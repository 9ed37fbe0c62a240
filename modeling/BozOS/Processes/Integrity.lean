import BozOS.Processes.Launch

namespace BozOS

open Data Lib FileSystem

/-! The process table over whole runs: one step lemma for every event, and the
integrity of the table in every state the kernel can reach. -/

variable {env : Env} {k after : Kernel} {pool pool' : Stacks TermId Slot} {t : TermId} {p q self : Slot}
  {event : Event} {events : List Event}

/-- What an event does to one list: it keeps it, it starts a process on it, or,
when the running task halts there, it ends the last process. A base shell that
halts is replaced. -/
inductive ListMove (halts : Prop) : List Slot → List Slot → Prop where
  | keep {list : List Slot} : ListMove halts list list
  | start {list : List Slot} (p : Slot) : ListMove halts list (list ++ [p])
  | exit {front : List Slot} {self : Slot} (ended : halts) : ListMove halts (front ++ [self]) front
  | restart {self : Slot} (p : Slot) (ended : halts) : ListMove halts [self] [p]

def Event.isHalt : Event → Bool
  | .halt .. => true
  | _ => false

/-- The processes other than the running one keep every field of their PCB but
the link to the child. -/
def KeepsOthers (pool : Stacks TermId Slot) (before after : Kernel) : Prop :=
  ∀ q, pool.Listed q → pool.top before.activeTask ≠ some q →
    after.pcbs q = { before.pcbs q with childPcb := after.child q }

structure TableStep (k : Kernel) (event : Event) (after : Kernel) (pool pool' : Stacks TermId Slot) : Prop where
  represents : Represents after pool'
  others : KeepsOthers pool k after
  moves : ∀ u, ListMove (event.isHalt ∧ u = k.activeTask) (pool.stack u) (pool'.stack u)
  elsewhere : ∀ u, u ≠ after.activeTask → pool'.stack u = pool.stack u
  steady : (∀ cpu, event ≠ .tick cpu) → after.activeTask = k.activeTask

theorem same_link (same : after.pcbs q = k.pcbs q) :
    after.pcbs q = { k.pcbs q with childPcb := after.child q } := by
  rw [Kernel.child, same]

theorem moves_push (fresh : ¬pool.Listed p) {halts : Prop} (u : TermId) :
    ListMove halts (pool.stack u) ((pool.push t p fresh).stack u) := by
  by_cases same : u = t
  · subst same
    rw [Stacks.stack_push_self]
    exact .start p
  · rw [Stacks.stack_push_other fresh same]
    exact .keep

theorem execute_step (represents : Represents k pool) (loadable : Loadable env) {command : Memory} {cpu : Cpu}
    (step : Steps env k (.execute command cpu) after) :
    ∃ pool', TableStep k (.execute command cpu) after pool pool' := by
  obtain ⟨result, called, rfl⟩ := map_ok.mp step
  obtain ⟨parsed, parses, -⟩ := bind_ok.mp called
  rcases execute_ends represents loadable parses with
    ⟨ret, after, ended, frame, -⟩ | ⟨p, fresh, entryPt, after, ended, effect⟩
  · obtain rfl := Except.ok.inj (called.symm.trans ended)
    exact ⟨pool, represents.processFrame frame,
      fun q _ _ => same_link (congrFun frame.pcbs q), fun u => .keep, fun u _ => rfl,
      fun _ => frame.task⟩
  · obtain rfl := Except.ok.inj (called.symm.trans ended)
    exact ⟨_, effect.represents, fun q listed _ => effect.kept q listed, fun u => moves_push fresh u,
      fun u different => Stacks.stack_push_other fresh (effect.task ▸ different), fun _ => effect.task⟩

theorem halt_step (represents : Represents k pool) (loadable : Loadable env) {status : Nat} {cpu : Cpu}
    (step : Steps env k (.halt status cpu) after) :
    ∃ pool', TableStep k (.halt status cpu) after pool pool' := by
  obtain ⟨result, called, rfl⟩ := map_ok.mp step
  cases topmost : pool.top k.activeTask with
  | none =>
      simp only [halt, represents.getPCBTail_eq, topmost, bind, Except.bind] at called
      cases called
  | some self =>
      rcases halt_ends represents loadable topmost with
        ⟨front, parent, ret, esp, ebp, after, stacked, ended, effect⟩ |
        ⟨alone, p, fresh, entryPt, after, ended, effect⟩
      · obtain rfl := Except.ok.inj (called.symm.trans ended)
        refine ⟨_, effect.represents, fun q _ other => effect.kept q fun same => other (same ▸ topmost),
          fun u => ?_, fun u different => Stacks.stack_pop_other (effect.task ▸ different), fun _ => effect.task⟩
        by_cases same : u = k.activeTask
        · subst same
          have stacked' : pool.stack k.activeTask = (front ++ [parent]) ++ [self] := by rw [stacked]; simp
          rw [Stacks.stack_pop_self, stacked', List.dropLast_concat]
          exact .exit ⟨rfl, rfl⟩
        · rw [Stacks.stack_pop_other same]
          exact .keep
      · obtain rfl := Except.ok.inj (called.symm.trans ended)
        have stacked' : pool.stack k.activeTask = [] ++ [self] := alone
        have apart : ∀ u, u ≠ k.activeTask →
            ((pool.pop k.activeTask).push k.activeTask p fresh).stack u = pool.stack u := by
          intro u different
          rw [Stacks.stack_push_other fresh different, Stacks.stack_pop_other different]
        refine ⟨_, effect.represents, fun q listed other => effect.kept q ?_, fun u => ?_,
          fun u different => apart u (effect.task ▸ different), fun _ => effect.task⟩
        · exact (Stacks.listed_pop stacked').mpr ⟨fun same => other (same ▸ topmost), listed⟩
        · by_cases same : u = k.activeTask
          · subst same
            have pushed : ((pool.pop k.activeTask).push k.activeTask p fresh).stack k.activeTask = [p] := by
              rw [Stacks.stack_push_self, Stacks.stack_pop_self, alone]
              rfl
            rw [alone]
            exact pushed ▸ .restart p ⟨rfl, rfl⟩
          · exact apart u same ▸ .keep

theorem kept_of_saved {outgoing : Slot} {cpu : Cpu} (saved : after.pcbs = (saveSwitch k outgoing cpu).pcbs)
    (different : q ≠ outgoing) : after.pcbs q = k.pcbs q := by
  rw [saved, saveSwitch_other different]

theorem tick_step (represents : Represents k pool) (loadable : Loadable env) {cpu : Cpu}
    (step : Steps env k (.tick cpu) after) : ∃ pool', TableStep k (.tick cpu) after pool pool' := by
  obtain ⟨result, called, rfl⟩ := map_ok.mp step
  rcases taskSwitch_ends represents loadable cpu with
    ⟨-, ended⟩ | ⟨outgoing, topmost, ⟨incoming, after, -, ended, moved, -, saved⟩ |
      ⟨after, -, ended, -, moved, -, saved⟩ | ⟨p, fresh, entryPt, after, -, ended, effect⟩⟩
  · obtain rfl := Except.ok.inj (called.symm.trans ended)
    exact ⟨pool, represents, fun q _ _ => rfl, fun u => .keep, fun u _ => rfl, fun _ => rfl⟩
  · obtain rfl := Except.ok.inj (called.symm.trans ended)
    exact ⟨pool, moved, fun q _ other => same_link (kept_of_saved saved fun same => other (same ▸ topmost)),
      fun u => .keep, fun u _ => rfl, fun steady => absurd rfl (steady cpu)⟩
  · obtain rfl := Except.ok.inj (called.symm.trans ended)
    exact ⟨pool, moved, fun q _ other => same_link (kept_of_saved saved fun same => other (same ▸ topmost)),
      fun u => .keep, fun u _ => rfl, fun steady => absurd rfl (steady cpu)⟩
  · obtain rfl := Except.ok.inj (called.symm.trans ended)
    refine ⟨_, effect.represents, fun q listed other => ?_, fun u => moves_push fresh u,
      fun u different => Stacks.stack_push_other fresh (effect.task ▸ different),
      fun steady => absurd rfl (steady cpu)⟩
    have apart : q ≠ outgoing := fun same => other (same ▸ topmost)
    have kept := effect.kept q listed
    rwa [saveSwitch_other apart] at kept

/-- One event, whichever it is, is a move on the stacks. -/
theorem next_step (represents : Represents k pool) (loadable : Loadable env) (step : Steps env k event after) :
    ∃ pool', TableStep k event after pool pool' := by
  cases manages : event.managesProcesses with
  | true =>
      cases event with
      | execute command cpu => exact execute_step represents loadable step
      | halt status cpu => exact halt_step represents loadable step
      | tick cpu => exact tick_step represents loadable step
      | _ => cases manages
  | false =>
      have frame := next_frame manages (represents.getPCBTail_eq k.activeTask) step
      exact ⟨pool, represents.frame frame, fun q _ other => same_link (frame.others q other), fun u => .keep,
        fun u _ => rfl, fun _ => frame.task⟩

theorem run_represents (unlinked : ∀ p, (k.pcbs p).childPcb = none) (loadable : Loadable env)
    (run : Run (Steps env) (multiTermInit k) events after) : ∃ pool, Represents after pool := by
  refine Run.invariant (fun state => ∃ pool, Represents state pool) run (fun step invariant => ?_)
    ⟨Stacks.empty, Represents.boot unlinked⟩
  obtain ⟨pool, represents⟩ := invariant
  obtain ⟨pool', moved⟩ := next_step represents loadable step
  exact ⟨pool', moved.represents⟩

theorem addPCB_full (represents : Represents k pool) (t : TermId) :
    (∃ after, addPCB k t = .ok (none, after)) ↔ ∑ u, (pool.stack u).length = 6 := by
  have used : ∑ u, (pool.stack u).length = Fintype.card Slot ↔ ∀ p, pool.Listed p := Stacks.sum_length_eq_card
  rw [Fintype.card_fin] at used
  rw [used, ← represents.freeSlot_none]
  constructor
  · rintro ⟨after, added⟩
    cases free : freeSlot k with
    | none => rfl
    | some p =>
        obtain ⟨linked, added', -⟩ := addPCB_linked represents free t
        rw [added'] at added
        cases added
  · intro free
    exact ⟨k, by rw [addPCB, free]⟩

/-- The process table in one state: three linked lists that share no process, a
usage table that marks exactly the listed ones, and the running task mapped. -/
structure TableIntact (k : Kernel) (lists : TermId → List Slot) : Prop where
  -- A chain ends in `NULL`, and visits no PCB twice.
  linked : ∀ t, Chain k.child (k.terminalTable t).pcbHead (lists t)
  acyclic : ∀ t, (lists t).Nodup
  disjoint : ∀ t u, t ≠ u → List.Disjoint (lists t) (lists u)
  usage : ∀ p, k.processUsage p = .inUse ↔ ∃! t, p ∈ lists t
  identity : ∀ t p, p ∈ lists t → (k.pcbs p).pid = p.val ∧
    (k.pcbs p).selfPage = 0x800000 + p.val * 0x400000 ∧ (k.pcbs p).selfKStack = 0x800000 - p.val * 0x2000 - 4
  exhausted : ∀ t, (∃ after, addPCB k t = .ok (none, after)) ↔ ∑ u, (lists u).length = 6
  running : ∀ tail, (lists k.activeTask).getLast? = some tail →
    k.pageDirectory (0x8000000 / 0x400000) = (k.pcbs tail).selfPage ||| 0x87 ∧
      k.tssEsp0 = (k.pcbs tail).selfKStack

theorem Represents.intact (represents : Represents k pool) : TableIntact k pool.stack where
  linked := represents.lists
  acyclic := pool.nodup
  disjoint t u different p inFirst inSecond := different (pool.disjoint inFirst inSecond)
  usage p := (represents.usage p).trans ⟨Stacks.existsUnique_of_listed, fun listed => listed.exists⟩
  identity t p member := represents.identity p ⟨t, member⟩
  exhausted t := addPCB_full represents t
  running tail topmost := by
    obtain ⟨-, page, kStack⟩ := represents.identity tail (Stacks.listed_of_top topmost)
    rw [page, kStack]
    exact represents.running tail topmost

theorem processTable_intact (env : Env) (boot k : Kernel) (events : List Event)
    (unlinked : ∀ p, (boot.pcbs p).childPcb = none) (loadable : Loadable env)
    (run : Run (Steps env) (multiTermInit boot) events k) : ∃ lists, TableIntact k lists := by
  obtain ⟨pool, represents⟩ := run_represents unlinked loadable run
  exact ⟨pool.stack, represents.intact⟩

/-- A shell starts a child, the scheduler starts the second terminal's shell, and
that shell halts. -/
def shellEvents : List Event :=
  [.execute shellCommand .reset, .execute shellCommand .reset, .tick .reset, .halt 0 .reset]

theorem shellEvents_intact :
    ∃ k, Run (Steps shellEnv) (multiTermInit .loaded) shellEvents k ∧ ∃ lists, TableIntact k lists := by
  have run : Run (Steps shellEnv) (multiTermInit .loaded) shellEvents _ := stateAfter_run (by decide)
  exact ⟨_, run, processTable_intact shellEnv .loaded _ shellEvents (fun _ => rfl) shellEnv_loadable run⟩

end BozOS
