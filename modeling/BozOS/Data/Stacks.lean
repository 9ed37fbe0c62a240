import Mathlib.Data.Fintype.Card
import Mathlib.Algebra.BigOperators.Group.Finset.Basic
import Mathlib.Algebra.Order.BigOperators.Group.Finset
import Mathlib.Tactic.Common

namespace BozOS.Data

/-! Several stacks that share one pool of slots.

A slot is on at most one stack and at most once on it; both facts are carried
by the structure, so every operation has to keep them to be definable at all. -/

structure Stacks (τ σ : Type*) where
  stack : τ → List σ
  nodup : ∀ owner, (stack owner).Nodup
  disjoint : ∀ {owner other slot}, slot ∈ stack owner → slot ∈ stack other → owner = other

namespace Stacks

variable {τ σ : Type*} {pool : Stacks τ σ} {owner other : τ} {slot : σ}

def Listed (pool : Stacks τ σ) (slot : σ) : Prop := ∃ owner, slot ∈ pool.stack owner

/-- The slot on top of a stack: the last element of its list. -/
def top (pool : Stacks τ σ) (owner : τ) : Option σ := (pool.stack owner).getLast?

def empty : Stacks τ σ where
  stack := fun _ => []
  nodup := fun _ => List.nodup_nil
  disjoint := fun member => absurd member List.not_mem_nil

@[simp] theorem not_listed_empty : ¬(empty : Stacks τ σ).Listed slot := by
  rintro ⟨owner, member⟩
  exact List.not_mem_nil member

theorem listed_of_top (topmost : pool.top owner = some slot) : pool.Listed slot :=
  ⟨owner, List.mem_of_getLast? topmost⟩

theorem existsUnique_of_listed (listed : pool.Listed slot) : ∃! owner, slot ∈ pool.stack owner := by
  obtain ⟨owner, member⟩ := listed
  exact ⟨owner, member, fun other inOther => pool.disjoint inOther member⟩

/-- The stacks use up the pool exactly when every slot is on one of them. -/
theorem sum_length_eq_card [Fintype τ] [Fintype σ] [DecidableEq σ] :
    ∑ owner, (pool.stack owner).length = Fintype.card σ ↔ ∀ slot, pool.Listed slot := by
  have counted : ∑ owner, (pool.stack owner).length =
      (Finset.univ.biUnion fun owner => (pool.stack owner).toFinset).card := by
    rw [Finset.card_biUnion]
    · exact Finset.sum_congr rfl fun owner _ => (List.toFinset_card_of_nodup (pool.nodup owner)).symm
    · intro first _ second _ different
      refine Finset.disjoint_left.mpr ?_
      intro element inFirst inSecond
      exact different (pool.disjoint (List.mem_toFinset.mp inFirst) (List.mem_toFinset.mp inSecond))
  rw [counted, Finset.card_eq_iff_eq_univ, Finset.eq_univ_iff_forall]
  simp [Listed]

variable [DecidableEq τ]

def push (pool : Stacks τ σ) (owner : τ) (slot : σ) (fresh : ¬pool.Listed slot) : Stacks τ σ where
  stack := Function.update pool.stack owner (pool.stack owner ++ [slot])
  nodup := by
    intro other
    by_cases same : other = owner
    · subst same
      rw [Function.update_self]
      have absent : slot ∉ pool.stack other := fun member => fresh ⟨other, member⟩
      refine List.nodup_append.mpr ⟨pool.nodup other, List.nodup_singleton slot, ?_⟩
      intro element member added addedMember
      rw [List.mem_singleton] at addedMember
      rintro rfl
      exact absent (addedMember ▸ member)
    · rw [Function.update_of_ne same]
      exact pool.nodup other
  disjoint := by
    intro first second element inFirst inSecond
    by_cases firstSame : first = owner <;> by_cases secondSame : second = owner
    · rw [firstSame, secondSame]
    · subst firstSame
      rw [Function.update_of_ne secondSame] at inSecond
      rw [Function.update_self, List.mem_append, List.mem_singleton] at inFirst
      rcases inFirst with old | rfl
      · exact pool.disjoint old inSecond
      · exact absurd ⟨second, inSecond⟩ fresh
    · subst secondSame
      rw [Function.update_of_ne firstSame] at inFirst
      rw [Function.update_self, List.mem_append, List.mem_singleton] at inSecond
      rcases inSecond with old | rfl
      · exact pool.disjoint inFirst old
      · exact absurd ⟨first, inFirst⟩ fresh
    · rw [Function.update_of_ne firstSame] at inFirst
      rw [Function.update_of_ne secondSame] at inSecond
      exact pool.disjoint inFirst inSecond

def pop (pool : Stacks τ σ) (owner : τ) : Stacks τ σ where
  stack := Function.update pool.stack owner (pool.stack owner).dropLast
  nodup := by
    intro other
    by_cases same : other = owner
    · subst same
      rw [Function.update_self]
      exact (pool.nodup other).sublist (List.dropLast_sublist _)
    · rw [Function.update_of_ne same]
      exact pool.nodup other
  disjoint := by
    have below : ∀ {first element}, element ∈ Function.update pool.stack owner
        (pool.stack owner).dropLast first → element ∈ pool.stack first := by
      intro first element member
      by_cases same : first = owner
      · subst same
        rw [Function.update_self] at member
        exact List.mem_of_mem_dropLast member
      · rwa [Function.update_of_ne same] at member
    intro first second element inFirst inSecond
    exact pool.disjoint (below inFirst) (below inSecond)

theorem stack_push_self (fresh : ¬pool.Listed slot) :
    (pool.push owner slot fresh).stack owner = pool.stack owner ++ [slot] :=
  Function.update_self ..

theorem stack_push_other (fresh : ¬pool.Listed slot) (different : other ≠ owner) :
    (pool.push owner slot fresh).stack other = pool.stack other :=
  Function.update_of_ne different ..

theorem stack_pop_self : (pool.pop owner).stack owner = (pool.stack owner).dropLast :=
  Function.update_self ..

theorem stack_pop_other (different : other ≠ owner) :
    (pool.pop owner).stack other = pool.stack other :=
  Function.update_of_ne different ..

theorem listed_push {added : σ} (fresh : ¬pool.Listed added) :
    (pool.push owner added fresh).Listed slot ↔ slot = added ∨ pool.Listed slot := by
  constructor
  · rintro ⟨holder, member⟩
    by_cases same : holder = owner
    · subst same
      rw [stack_push_self, List.mem_append, List.mem_singleton] at member
      exact member.symm.imp_right fun old => ⟨holder, old⟩
    · rw [stack_push_other fresh same] at member
      exact .inr ⟨holder, member⟩
  · rintro (rfl | ⟨holder, member⟩)
    · exact ⟨owner, by rw [stack_push_self]; simp⟩
    · by_cases same : holder = owner
      · subst same
        exact ⟨holder, by rw [stack_push_self]; simp [member]⟩
      · exact ⟨holder, by rwa [stack_push_other fresh same]⟩

theorem listed_pop {removed : σ} {below : List σ} (topmost : pool.stack owner = below ++ [removed]) :
    (pool.pop owner).Listed slot ↔ slot ≠ removed ∧ pool.Listed slot := by
  have popped : (pool.pop owner).stack owner = below := by rw [stack_pop_self, topmost]; simp
  have once := pool.nodup owner
  rw [topmost, List.nodup_append] at once
  constructor
  · rintro ⟨holder, member⟩
    by_cases same : holder = owner
    · subst same
      rw [popped] at member
      exact ⟨once.2.2 slot member removed (by simp), holder, by rw [topmost]; simp [member]⟩
    · rw [stack_pop_other same] at member
      refine ⟨?_, holder, member⟩
      rintro rfl
      exact same (pool.disjoint member (by rw [topmost]; simp))
  · rintro ⟨different, holder, member⟩
    by_cases same : holder = owner
    · subst same
      rw [topmost, List.mem_append, List.mem_singleton] at member
      exact ⟨holder, by rw [popped]; exact member.resolve_right different⟩
    · exact ⟨holder, by rwa [stack_pop_other same]⟩

end Stacks

end BozOS.Data
