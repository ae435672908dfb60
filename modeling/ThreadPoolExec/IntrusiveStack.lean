import Mathlib.Data.List.Basic
import Mathlib.Logic.Function.Basic
import Mathlib.Tactic.Common

/-!
# Intrusive stacks

A stack whose links are in the elements: each node has the address of the one
below it, and one pointer has the address of the top. The memory is a function
of the address, so addresses that are not in use hold anything.
-/

set_option autoImplicit false

namespace IntrusiveStack

universe u v

variable {ι : Type u} {α : Type v}

/-- `prev` is the address below, or null. -/
structure Node (ι : Type u) (α : Type v) where
  prev : Option ι
  value : α
deriving DecidableEq, Repr

/-- The nodes that a pointer leads to, the one it points to first. -/
def Chain (memory : ι → Node ι α) : Option ι → List (ι × α) → Prop
  | top, [] => top = none
  | top, (address, value) :: rest =>
      top = some address ∧ (memory address).value = value ∧ Chain memory (memory address).prev rest

section Chain

variable {memory : ι → Node ι α} {top : Option ι} {stack other rest : List (ι × α)} {address : ι}
  {value : α}

/-- A pointer leads to one stack. -/
theorem Chain.unique (chain : Chain memory top stack) (otherChain : Chain memory top other) :
    stack = other := by
  induction stack generalizing top other with
  | nil =>
      cases other with
      | nil => rfl
      | cons head tail => exact absurd (otherChain.1.symm.trans chain) nofun
  | cons head tail ih =>
      obtain ⟨address, value⟩ := head
      obtain ⟨rfl, valueIs, below⟩ := chain
      cases other with
      | nil => exact absurd otherChain nofun
      | cons otherHead otherTail =>
          obtain ⟨otherAddress, otherValue⟩ := otherHead
          obtain ⟨same, otherIs, otherBelow⟩ := otherChain
          cases same
          rw [ih below otherBelow, ← valueIs, ← otherIs]

/-- Writing at an address that is not on the stack. -/
theorem Chain.update [DecidableEq ι] (node : Node ι α) (outside : address ∉ stack.map Prod.fst)
    (chain : Chain memory top stack) : Chain (Function.update memory address node) top stack := by
  induction stack generalizing top with
  | nil => exact chain
  | cons head tail ih =>
      obtain ⟨topIs, valueIs, below⟩ := chain
      simp only [List.map_cons, List.mem_cons, not_or] at outside
      have elsewhere : Function.update memory address node head.1 = memory head.1 :=
        Function.update_of_ne (Ne.symm outside.1) _ _
      refine ⟨topIs, by rw [elsewhere]; exact valueIs, ?_⟩
      rw [elsewhere]
      exact ih outside.2 below

theorem Chain.push [DecidableEq ι] (value : α) (fresh : address ∉ stack.map Prod.fst)
    (chain : Chain memory top stack) :
    Chain (Function.update memory address ⟨top, value⟩) (some address)
      ((address, value) :: stack) := by
  refine ⟨rfl, by rw [Function.update_self], ?_⟩
  rw [Function.update_self]
  exact chain.update _ fresh

theorem Chain.pop (chain : Chain memory (some address) ((address, value) :: rest)) :
    Chain memory (memory address).prev rest :=
  chain.2.2

theorem Chain.top_eq (chain : Chain memory top stack) :
    top = stack.head?.map Prod.fst := by
  cases stack with
  | nil => exact chain
  | cons head tail => exact chain.1

end Chain

end IntrusiveStack
