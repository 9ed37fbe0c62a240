import Mathlib.Data.List.Nodup
import Mathlib.Tactic.Common

namespace BozOS.Data

/-! Singly linked lists threaded through a successor function.

`Chain next head nodes` is the representation relation: following `next` from
`head` visits exactly `nodes` and then ends. The two walks below are the loops
programs run over such a list; they take fuel because a successor function may
be cyclic, and the theorems say how much fuel a chain needs. -/

inductive Chain (next : α → Option α) : Option α → List α → Prop where
  | nil : Chain next none []
  | cons {node : α} {rest : List α} (following : Chain next (next node) rest) :
      Chain next (some node) (node :: rest)

namespace Chain

variable {α : Type*} {next next' : α → Option α} {head : Option α} {nodes before after : List α}
  {node last fresh : α}

theorem head_eq (chain : Chain next head nodes) : head = nodes.head? := by
  cases chain <;> rfl

theorem unique (first : Chain next head nodes) (second : Chain next head after) : nodes = after := by
  induction first generalizing after with
  | nil => cases second; rfl
  | cons _ ih =>
      cases second with
      | cons following => rw [ih following]

theorem suffix (chain : Chain next head (before ++ node :: after)) :
    Chain next (some node) (node :: after) := by
  induction before generalizing head with
  | nil =>
      cases chain with
      | cons following => exact .cons following
  | cons first rest ih =>
      cases chain with
      | cons following => exact ih following

theorem congr (chain : Chain next head nodes) (agree : ∀ node ∈ nodes, next' node = next node) :
    Chain next' head nodes := by
  induction chain with
  | nil => exact .nil
  | @cons node rest following ih =>
      apply Chain.cons
      rw [agree node (by simp)]
      exact ih (fun other member => agree other (by simp [member]))

theorem next_eq (chain : Chain next head (before ++ node :: after)) : next node = after.head? := by
  cases chain.suffix with
  | cons following => exact following.head_eq

theorem next_last (chain : Chain next head (before ++ [last])) : next last = none :=
  chain.next_eq

/-- Linking a fresh, unlinked node behind the last one appends it. -/
theorem snoc (chain : Chain next head (before ++ [last])) (linked : next' last = some fresh)
    (ended : next' fresh = none) (agree : ∀ node ∈ before, next' node = next node) :
    Chain next' head (before ++ [last, fresh]) := by
  induction before generalizing head with
  | nil =>
      cases chain with
      | cons =>
          apply Chain.cons
          rw [linked]
          apply Chain.cons
          rw [ended]
          exact .nil
  | cons first rest ih =>
      cases chain with
      | cons following =>
          apply Chain.cons
          rw [agree first (by simp)]
          exact ih following (fun other member => agree other (by simp [member]))

/-- Cutting the link into the last node removes it. -/
theorem cut (chain : Chain next head (before ++ node :: after)) (ended : next' node = none)
    (agree : ∀ other ∈ before, next' other = next other) :
    Chain next' head (before ++ [node]) := by
  induction before generalizing head with
  | nil =>
      cases chain with
      | cons =>
          apply Chain.cons
          rw [ended]
          exact .nil
  | cons first rest ih =>
      cases chain with
      | cons following =>
          apply Chain.cons
          rw [agree first (by simp)]
          exact ih following (fun other member => agree other (by simp [member]))

/-- Linking a node in front of the first one. -/
theorem push (chain : Chain next head nodes) (linked : next' fresh = head)
    (agree : ∀ node ∈ nodes, next' node = next node) : Chain next' (some fresh) (fresh :: nodes) := by
  apply Chain.cons
  rw [linked]
  exact chain.congr agree

/-- Taking out the first node. -/
theorem tail (chain : Chain next head (node :: after)) (agree : ∀ other ∈ after, next' other = next other) :
    Chain next' (next node) after := by
  cases chain with
  | cons following => exact following.congr agree

/-- Taking out a node behind another one, which gets its successor. -/
theorem unlink (chain : Chain next head (before ++ last :: node :: after)) (linked : next' last = next node)
    (agree : ∀ other ∈ before ++ after, next' other = next other) : Chain next' head (before ++ last :: after) := by
  induction before generalizing head with
  | nil =>
      cases chain with
      | cons following =>
          apply Chain.cons
          rw [linked]
          exact following.tail agree
  | cons first rest ih =>
      cases chain with
      | cons following =>
          apply Chain.cons
          rw [agree first (by simp)]
          exact ih following fun other member => agree other (by simp [member])

end Chain

/-- Walks to the last node. `none` means the fuel ran out first. -/
def lastFrom (next : α → Option α) : Nat → α → Option α
  | 0, _ => none
  | fuel + 1, node =>
      match next node with
      | none => some node
      | some following => lastFrom next fuel following

/-- Walks to the node whose successor is `target`. The inner `none` means the
walk ran off the end of the list, the outer one that the fuel ran out. -/
def predecessorFrom [DecidableEq α] (next : α → Option α) (target : α) :
    Nat → Option α → Option (Option α)
  | _, none => some none
  | 0, some _ => none
  | fuel + 1, some node =>
      if next node = some target then some (some node)
      else predecessorFrom next target fuel (next node)

/-- Walks to the first node with a property. `some none` means that there is none,
and `none` that the fuel ran out first. -/
def findFrom (next : α → Option α) (wanted : α → Bool) : Nat → Option α → Option (Option α)
  | _, none => some none
  | 0, some _ => none
  | fuel + 1, some node => if wanted node then some (some node) else findFrom next wanted fuel (next node)

/-- Visits the nodes of a list, with a state that holds the links. -/
def visitFrom (next : σ → α → Option α) (visit : σ → α → σ) : Nat → Option α → σ → Option σ
  | _, none, state => some state
  | 0, some _, _ => none
  | fuel + 1, some node, state => visitFrom next visit fuel (next (visit state node) node) (visit state node)

section Walks

variable {α : Type*} {next next' : α → Option α} {nodes before after : List α} {node last target : α}
  {fuel : Nat}

theorem lastFrom_chain (chain : Chain next (some node) (before ++ [last]))
    (enough : before.length < fuel) : lastFrom next fuel node = some last := by
  induction before generalizing node fuel with
  | nil =>
      obtain ⟨fuel, rfl⟩ := Nat.exists_eq_add_of_lt enough
      cases chain with
      | cons following =>
          have ended := following.head_eq
          simp only [List.head?_nil] at ended
          simp [lastFrom, ended]
  | cons first rest ih =>
      cases fuel with
      | zero => simp at enough
      | succ fuel =>
          cases chain with
          | cons following =>
              obtain ⟨second, found⟩ : ∃ second, next first = some second := by
                rw [following.head_eq]
                cases rest <;> simp
              rw [found] at following
              simp only [lastFrom, found]
              exact ih following (by simpa using enough)

theorem predecessorFrom_chain [DecidableEq α] {head : Option α}
    (chain : Chain next head (before ++ [node, target])) (enough : before.length < fuel) :
    predecessorFrom next target fuel head = some (some node) := by
  induction before generalizing head fuel with
  | nil =>
      obtain ⟨fuel, rfl⟩ := Nat.exists_eq_add_of_lt enough
      have linked : next node = some target :=
        (show Chain next head ([] ++ node :: [target]) from chain).next_eq
      cases chain with
      | cons => simp [predecessorFrom, linked]
  | cons first rest ih =>
      cases fuel with
      | zero => simp at enough
      | succ fuel =>
          cases chain with
          | cons following =>
              have skipped : next first ≠ some target := by
                intro reached
                have ended : Chain next (some target) [target] :=
                  (show Chain next (next first) ((rest ++ [node]) ++ target :: []) by
                    simpa using following).suffix
                rw [reached] at following
                have lengths := congrArg List.length (following.unique ended)
                simp at lengths
              simp only [predecessorFrom, if_neg skipped]
              exact ih following (by simpa using enough)

/-- The same anywhere in a list that visits no node twice. -/
theorem predecessorFrom_nodup [DecidableEq α] {head : Option α}
    (chain : Chain next head (before ++ node :: target :: after))
    (nodup : (before ++ node :: target :: after).Nodup) (enough : before.length < fuel) :
    predecessorFrom next target fuel head = some (some node) := by
  induction before generalizing head fuel with
  | nil =>
      obtain ⟨fuel, rfl⟩ := Nat.exists_eq_add_of_lt enough
      have linked : next node = some target := chain.next_eq
      cases chain with
      | cons => simp [predecessorFrom, linked]
  | cons first rest ih =>
      cases fuel with
      | zero => simp at enough
      | succ fuel =>
          cases chain with
          | cons following =>
              obtain ⟨-, later⟩ := List.nodup_cons.mp nodup
              have skipped : next first ≠ some target := by
                rw [following.head_eq]
                cases rest with
                | nil =>
                    have different : node ≠ target := fun same => by simp [same] at later
                    simpa using different
                | cons second rest =>
                    have different : second ≠ target := fun same => by simp [same] at later
                    simpa using different
              simp only [predecessorFrom, if_neg skipped]
              exact ih following later (by simpa using enough)

theorem findFrom_chain {head : Option α} {wanted : α → Bool} (chain : Chain next head nodes)
    (enough : nodes.length ≤ fuel) : findFrom next wanted fuel head = some (nodes.find? wanted) := by
  induction chain generalizing fuel with
  | nil => cases fuel <;> rfl
  | @cons node rest following ih =>
      cases fuel with
      | zero => simp at enough
      | succ fuel =>
          rw [findFrom, List.find?_cons]
          cases found : wanted node with
          | true => rfl
          | false => exact ih (by simpa using enough)

end Walks

section Visits

variable {α σ : Type*} {next : σ → α → Option α} {visit : σ → α → σ} {head : Option α} {nodes : List α} {state : σ}
  {fuel : Nat}

/-- Visits that do not touch the links reach every node once, in order. -/
theorem visitFrom_chain (keeps : ∀ state node other, next (visit state node) other = next state other)
    (chain : Chain (next state) head nodes) (enough : nodes.length ≤ fuel) :
    visitFrom next visit fuel head state = some (nodes.foldl visit state) := by
  induction nodes generalizing head state fuel with
  | nil =>
      cases chain
      cases fuel <;> rfl
  | cons node rest ih =>
      cases chain with
      | cons following =>
          cases fuel with
          | zero => simp at enough
          | succ fuel =>
              have later : Chain (next (visit state node)) (next state node) rest :=
                following.congr fun other _ => keeps state node other
              rw [visitFrom, keeps]
              exact ih later (by simpa using enough)

end Visits

end BozOS.Data
