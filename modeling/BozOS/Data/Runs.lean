import Mathlib.Data.List.Induction
import Mathlib.Logic.Relation
import Mathlib.Tactic.Common

namespace BozOS.Data

/-! Finite runs of a labelled transition system, with the induction rules the
invariants of this development are proved by. -/

/-- `Run Step first labels last`: the steps labelled `labels`, in order, lead
from `first` to `last`. -/
inductive Run (Step : σ → ε → σ → Prop) : σ → List ε → σ → Prop where
  | nil {state : σ} : Run Step state [] state
  | cons {first middle last : σ} {label : ε} {labels : List ε}
      (step : Step first label middle) (rest : Run Step middle labels last) :
      Run Step first (label :: labels) last

namespace Run

variable {σ ε : Type*} {Step : σ → ε → σ → Prop} {first middle last : σ} {label : ε}
  {labels before after : List ε}

theorem append (front : Run Step first before middle) (back : Run Step middle after last) :
    Run Step first (before ++ after) last := by
  induction front with
  | nil => exact back
  | cons step _ ih => exact .cons step (ih back)

theorem snoc (front : Run Step first labels middle) (step : Step middle label last) :
    Run Step first (labels ++ [label]) last :=
  front.append (.cons step .nil)

theorem split (run : Run Step first (before ++ after) last) :
    ∃ middle, Run Step first before middle ∧ Run Step middle after last := by
  induction before generalizing first with
  | nil => exact ⟨first, .nil, run⟩
  | cons label rest ih =>
      cases run with
      | cons step run =>
          obtain ⟨middle, front, back⟩ := ih run
          exact ⟨middle, .cons step front, back⟩

theorem unsnoc (run : Run Step first (labels ++ [label]) last) :
    ∃ middle, Run Step first labels middle ∧ Step middle label last := by
  obtain ⟨middle, front, back⟩ := run.split
  cases back with
  | cons step rest =>
      cases rest
      exact ⟨middle, front, step⟩

/-- A property kept by every step holds at the end of every run. -/
theorem invariant (Inv : σ → Prop) (run : Run Step first labels last)
    (preserved : ∀ {state label next}, Step state label next → Inv state → Inv next)
    (initially : Inv first) : Inv last := by
  induction run with
  | nil => exact initially
  | cons step _ ih => exact ih (preserved step initially)

/-- The same for a property of the state and of the labels that led to it. -/
theorem history (Inv : List ε → σ → Prop) (run : Run Step first labels last)
    (preserved : ∀ {before state label next}, Run Step first before state → Step state label next →
      Inv before state → Inv (before ++ [label]) next)
    (initially : Inv [] first) : Inv labels last := by
  induction labels using List.reverseRecOn generalizing last with
  | nil =>
      cases run
      exact initially
  | append_singleton before label ih =>
      obtain ⟨middle, front, step⟩ := run.unsnoc
      exact preserved front step (ih front)

/-- A relation that every step keeps, by a step of the other system under the same
label, is kept by every run. -/
theorem simulate {τ : Type*} {Other : τ → ε → τ → Prop} {start : τ} (Related : σ → τ → Prop)
    (run : Run Step first labels last)
    (kept : ∀ {state label next other}, Step state label next → Related state other →
      ∃ moved, Other other label moved ∧ Related next moved)
    (related : Related first start) : ∃ moved, Run Other start labels moved ∧ Related last moved := by
  induction run generalizing start with
  | nil => exact ⟨start, .nil, related⟩
  | cons step _ ih =>
      obtain ⟨middle, moves, related⟩ := kept step related
      obtain ⟨moved, rest, related⟩ := ih related
      exact ⟨moved, .cons moves rest, related⟩

/-- A run of which another system takes every step. -/
theorem transfer {Other : σ → ε → σ → Prop} (run : Run Step first labels last)
    (taken : ∀ {state label next}, label ∈ labels → Step state label next → Other state label next) :
    Run Other first labels last := by
  induction run with
  | nil => exact .nil
  | cons step _ ih =>
      exact .cons (taken List.mem_cons_self step) (ih fun member => taken (List.mem_cons_of_mem _ member))

/-- Steps that another system takes under other labels make a run of that system. -/
theorem relabel {κ : Type*} {Other : σ → κ → σ → Prop} (run : Run Step first labels last)
    (taken : ∀ {state label next}, Step state label next → ∃ other, Other state other next) :
    ∃ others, Run Other first others last := by
  induction run with
  | nil => exact ⟨[], .nil⟩
  | cons step _ ih =>
      obtain ⟨other, moves⟩ := taken step
      obtain ⟨others, rest⟩ := ih
      exact ⟨other :: others, .cons moves rest⟩

end Run

section Deterministic

variable {σ ε δ : Type} {next : σ → ε → Except δ σ} {first last : σ} {labels : List ε}

/-- A step function that may fail, applied along a list of labels. -/
def runAll (next : σ → ε → Except δ σ) : σ → List ε → Except δ σ
  | state, [] => .ok state
  | state, label :: rest => do runAll next (← next state label) rest

def endState (next : σ → ε → Except δ σ) (first : σ) (labels : List ε) : σ :=
  match runAll next first labels with
  | .ok last => last
  | .error _ => first

theorem runAll_run (ran : runAll next first labels = .ok last) :
    Run (fun state label after => next state label = .ok after) first labels last := by
  induction labels generalizing first with
  | nil =>
      cases ran
      exact .nil
  | cons label rest ih =>
      rw [runAll] at ran
      cases step : next first label with
      | error stop =>
          rw [step] at ran
          cases ran
      | ok middle =>
          rw [step] at ran
          exact .cons step (ih ran)

theorem endState_run (ends : (runAll next first labels).isOk = true) :
    Run (fun state label after => next state label = .ok after) first labels (endState next first labels) := by
  unfold endState
  cases ran : runAll next first labels with
  | error stop =>
      rw [ran] at ends
      cases ends
  | ok last => exact runAll_run ran

/-- The steps leave no choice: a run ends where the step function leads. -/
theorem run_endState (run : Run (fun state label after => next state label = .ok after) first labels last) :
    endState next first labels = last := by
  have ran : runAll next first labels = .ok last := by
    induction run with
    | nil => rfl
    | cons step _ ih =>
        rw [runAll, step]
        exact ih
  rw [endState, ran]

end Deterministic

end BozOS.Data
