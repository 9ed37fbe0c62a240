import BozOS.Processes.Frame
import BozOS.Data.Stacks

namespace BozOS

open Data Lib FileSystem

/-! The process table against its abstract model: three stacks of process
numbers over one pool of six. `Represents` ties together the lists threaded
through the PCBs, the usage table, the page directory and the task segment;
starting a process is a push, ending one is a pop. -/

structure Represents (k : Kernel) (pool : Stacks TermId Slot) : Prop where
  lists : ∀ t, Chain k.child (k.terminalTable t).pcbHead (pool.stack t)
  usage : ∀ p, k.processUsage p = .inUse ↔ pool.Listed p
  -- `execute` does not set `child_pcb`: a free PCB has to end the list already
  unlinked : ∀ p, ¬pool.Listed p → k.child p = none
  identity : ∀ p, pool.Listed p →
    (k.pcbs p).pid = p.val ∧ (k.pcbs p).selfPage = userPage p ∧ (k.pcbs p).selfKStack = kernelStack p
  running : ∀ p, pool.top k.activeTask = some p →
    k.pageDirectory 32 = userPage p ||| 0x87 ∧ k.tssEsp0 = kernelStack p

variable {k after : Kernel} {pool pool' : Stacks TermId Slot} {t : TermId} {p q : Slot}

theorem stack_length_le (pool : Stacks TermId Slot) (t : TermId) : (pool.stack t).length ≤ 6 := by
  simpa using (pool.nodup t).length_le_card

theorem freeSlot_unused (found : freeSlot k = some p) : k.processUsage p = .notUsed := by
  simpa using List.find?_some found

theorem freeSlot_exists (unused : k.processUsage p = .notUsed) : ∃ q, freeSlot k = some q := by
  cases found : freeSlot k with
  | some q => exact ⟨q, rfl⟩
  | none =>
      rw [freeSlot, List.find?_eq_none] at found
      exact absurd unused (by simpa using found p (List.mem_finRange p))

namespace Represents

theorem boot (unlinked : ∀ p, k.child p = none) : Represents (multiTermInit k) Stacks.empty where
  lists t := .nil
  usage p := by simp [multiTermInit]
  unlinked p _ := unlinked p
  identity p listed := absurd listed Stacks.not_listed_empty
  running p topmost := absurd (Stacks.listed_of_top topmost) Stacks.not_listed_empty

theorem walkToTail_eq (represents : Represents k pool) {head : Slot}
    (headed : (k.terminalTable t).pcbHead = some head) :
    ∃ tail, walkToTail k head = .ok tail ∧ pool.top t = some tail := by
  have chain := represents.lists t
  have bound := stack_length_le pool t
  rw [headed] at chain
  cases split : (pool.stack t).reverse with
  | nil =>
      rw [List.reverse_eq_nil_iff] at split
      rw [split] at chain
      cases chain
  | cons tail rest =>
      have stacked : pool.stack t = rest.reverse ++ [tail] := by
        rw [← List.reverse_reverse (pool.stack t), split, List.reverse_cons]
      rw [stacked] at chain bound
      have enough : rest.reverse.length < 6 := by simp at bound ⊢; omega
      exact ⟨tail, by rw [walkToTail, lastFrom_chain chain enough], by rw [Stacks.top, stacked]; simp⟩

theorem head_none (represents : Represents k pool) :
    (k.terminalTable t).pcbHead = none ↔ pool.stack t = [] := by
  rw [(represents.lists t).head_eq, List.head?_eq_none_iff]

theorem getPCBTail_eq (represents : Represents k pool) (t : TermId) :
    getPCBTail k t = .ok (pool.top t) := by
  unfold getPCBTail
  cases headed : (k.terminalTable t).pcbHead with
  | none => simp [Stacks.top, represents.head_none.mp headed]
  | some head =>
      obtain ⟨tail, walked, topmost⟩ := represents.walkToTail_eq headed
      simp [walked, topmost, Except.map]

theorem frame {self : Option Slot} (represents : Represents k pool) (kept : CallFrame self k after) :
    Represents after pool := by
  have same : ∀ p, after.child p = k.child p ∧ (after.pcbs p).pid = (k.pcbs p).pid ∧
      (after.pcbs p).selfPage = (k.pcbs p).selfPage ∧ (after.pcbs p).selfKStack = (k.pcbs p).selfKStack := by
    intro p
    obtain ⟨fdArr, changed⟩ := kept.descriptors p
    simp [Kernel.child, changed]
  refine ⟨fun t => ?_, fun p => ?_, fun p free => ?_, fun p listed => ?_, fun p topmost => ?_⟩
  · rw [kept.heads t]
    exact (represents.lists t).congr fun node _ => (same node).1
  · rw [kept.usage]
    exact represents.usage p
  · rw [(same p).1]
    exact represents.unlinked p free
  · rw [(same p).2.1, (same p).2.2.1, (same p).2.2.2]
    exact represents.identity p listed
  · rw [kept.page, kept.stack]
    exact represents.running p (kept.task ▸ topmost)

theorem processFrame (represents : Represents k pool) (kept : ProcessFrame k after) : Represents after pool :=
  represents.frame (show CallFrame none k after from kept.toCallFrame)

theorem freeSlot_none (represents : Represents k pool) : freeSlot k = none ↔ ∀ p, pool.Listed p := by
  rw [freeSlot, List.find?_eq_none]
  constructor
  · intro full p
    have used := full p (List.mem_finRange p)
    refine (represents.usage p).mp ?_
    cases usage : k.processUsage p with
    | notUsed => simp [usage] at used
    | inUse => rfl
  · intro full p _
    simp [(represents.usage p).mpr (full p)]

theorem freeSlot_some (represents : Represents k pool) (found : freeSlot k = some p) : ¬pool.Listed p := by
  intro listed
  have unused := List.find?_some found
  simp [(represents.usage p).mpr listed] at unused

end Represents

/-- The kernel between `add_PCB` and the launch: slot `p` is linked behind the
list of `t`, and nothing else about any PCB has changed. -/
structure Linked (pool : Stacks TermId Slot) (t : TermId) (p : Slot) (fresh : ¬pool.Listed p)
    (before after : Kernel) : Prop where
  lists : ∀ u, Chain after.child (after.terminalTable u).pcbHead ((pool.push t p fresh).stack u)
  usage : after.processUsage = Function.update before.processUsage p .inUse
  free : ∀ q, ¬pool.Listed q → after.pcbs q = before.pcbs q
  inner : ∀ q, pool.top t ≠ some q → after.pcbs q = before.pcbs q
  links : ∀ q, ∃ child, after.pcbs q = { before.pcbs q with childPcb := child }
  task : after.activeTask = before.activeTask
  userPages : after.userPages = before.userPages
  terminals : ∀ u, ∃ head, after.terminalTable u = { before.terminalTable u with pcbHead := head }

theorem chain_unaffected (represents : Represents k pool) {u : TermId} (different : u ≠ t)
    (headed : (after.terminalTable u).pcbHead = (k.terminalTable u).pcbHead)
    (inner : ∀ q, pool.top t ≠ some q → after.pcbs q = k.pcbs q) :
    Chain after.child (after.terminalTable u).pcbHead (pool.stack u) := by
  rw [headed]
  refine (represents.lists u).congr fun node member => ?_
  have elsewhere : pool.top t ≠ some node := by
    intro topmost
    exact different (pool.disjoint member (List.mem_of_getLast? topmost))
  rw [Kernel.child, Kernel.child, inner node elsewhere]

/-- The new process on a terminal without one. -/
theorem linked_first (represents : Represents k pool) (fresh : ¬pool.Listed p)
    (headed : (k.terminalTable t).pcbHead = none) :
    Linked pool t p fresh k ({ k with processUsage := Function.update k.processUsage p .inUse }.setTerm t
      { k.terminalTable t with pcbHead := some p }) := by
  have emptyStack := represents.head_none.mp headed
  refine ⟨fun u => ?_, rfl, fun q _ => rfl, fun q _ => rfl, fun q => ⟨(k.pcbs q).childPcb, rfl⟩, rfl, rfl, fun u => ?_⟩
  · by_cases same : u = t
    · subst same
      rw [Stacks.stack_push_self, emptyStack, Kernel.setTerm_same]
      have ended : Chain k.child (k.child p) [] := by
        rw [represents.unlinked p fresh]
        exact .nil
      exact .cons ended
    · rw [Stacks.stack_push_other fresh same]
      exact chain_unaffected represents same (congrArg Term.pcbHead (Kernel.setTerm_other same)) (fun q _ => rfl)
  · by_cases same : u = t
    · subst same
      exact ⟨some p, by rw [Kernel.setTerm_same]⟩
    · exact ⟨(k.terminalTable u).pcbHead, by rw [Kernel.setTerm_other same]⟩

/-- The new process behind the last one of a terminal. -/
theorem linked_behind {tail : Slot} (represents : Represents k pool) (fresh : ¬pool.Listed p)
    (topmost : pool.top t = some tail) :
    Linked pool t p fresh k ({ k with processUsage := Function.update k.processUsage p .inUse }.setPcb tail
      { k.pcbs tail with childPcb := some p }) := by
  have listed := Stacks.listed_of_top topmost
  have different : p ≠ tail := fun same => fresh (same ▸ listed)
  obtain ⟨front, stacked⟩ : ∃ front, pool.stack t = front ++ [tail] := List.getLast?_eq_some_iff.mp topmost
  have once := pool.nodup t
  rw [stacked, List.nodup_append] at once
  have frameOther : ∀ q, q ≠ tail → (({ k with
      processUsage := Function.update k.processUsage p .inUse } : Kernel).setPcb tail
        { k.pcbs tail with childPcb := some p }).pcbs q = k.pcbs q :=
    fun q other => Kernel.setPcb_other other
  refine ⟨fun u => ?_, rfl, fun q free => ?_, fun q other => ?_, fun q => ?_, rfl, rfl,
    fun u => ⟨(k.terminalTable u).pcbHead, rfl⟩⟩
  · by_cases same : u = t
    · subst same
      rw [Stacks.stack_push_self, stacked, List.append_assoc]
      refine (stacked ▸ represents.lists u).snoc ?_ ?_ ?_
      · simp [Kernel.child]
      · rw [Kernel.child, frameOther p different]
        exact represents.unlinked p fresh
      · intro node member
        have apart : node ≠ tail := once.2.2 node member tail (by simp)
        rw [Kernel.child, frameOther node apart]
        rfl
    · rw [Stacks.stack_push_other fresh same]
      exact chain_unaffected represents same rfl
        (fun q other => frameOther q fun equal => other (equal ▸ topmost))
  · exact frameOther q fun equal => free (equal ▸ listed)
  · exact frameOther q fun equal => other (equal ▸ topmost)
  · by_cases same : q = tail
    · subst same
      exact ⟨some p, Kernel.setPcb_same⟩
    · exact ⟨(k.pcbs q).childPcb, frameOther q same⟩

theorem addPCB_linked (represents : Represents k pool) (found : freeSlot k = some p) (t : TermId) :
    ∃ after, addPCB k t = .ok (some p, after) ∧
      Linked pool t p (represents.freeSlot_some found) k after := by
  have fresh := represents.freeSlot_some found
  simp only [addPCB, found]
  cases headed : (k.terminalTable t).pcbHead with
  | none => exact ⟨_, rfl, linked_first represents fresh headed⟩
  | some head =>
      obtain ⟨tail, walked, topmost⟩ := represents.walkToTail_eq headed
      have walked' : walkToTail { k with processUsage := Function.update k.processUsage p .inUse } head =
          .ok tail := walked
      simp only [walked', bind, Except.bind, pure, Except.pure]
      exact ⟨_, rfl, linked_behind represents fresh topmost⟩

end BozOS
