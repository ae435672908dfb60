import Mathlib.Tactic.Common

/-!
# Priorities and levels

The two priority queues number their sub-queues in opposite directions and
clamp a priority with different formulas. `queueIndex` and `translatePriority`
are those formulas; levels are counted in the order in which a taker probes
them, so level zero has the highest priority in both.
-/

set_option autoImplicit false

namespace ThreadPoolExec

namespace Executor

def LO_PRI : Int8 := -128
def MID_PRI : Int8 := 0
/-- The priority that both queues make of one out of range: with `n` levels
the priorities are the `n` ones around zero, zero the higher of two in the
middle. -/
def clampPriority (numPriorities : Nat) (priority : Int8) : Int :=
  max (-(numPriorities / 2 : Int)) (min priority.toInt ((numPriorities + 1) / 2 - 1))

theorem clampPriority_bounds {numPriorities : Nat} (positive : 0 < numPriorities)
    (priority : Int8) :
    -(numPriorities / 2 : Int) ≤ clampPriority numPriorities priority ∧
      clampPriority numPriorities priority ≤ (numPriorities + 1) / 2 - 1 := by
  unfold clampPriority
  omega

end Executor

/-- What a bounded queue does with an item that does not fit. -/
inductive QueueBehaviorIfFull where
  | throw
  | block
deriving DecidableEq, Repr

namespace BlockingQueue

universe u

/-- The calls on a queue. `tryTake` is the one that does not wait at all:
`nonBlockingTake` of one queue, `try_take` of the other. -/
inductive Operation (τ : Type u) where
  | add (item : τ)
  | addWithPriority (item : τ) (priority : Int8)
  | take
  | tryTakeFor
  | tryTake

/-- How a call ends. -/
inductive Outcome (τ : Type u) where
  | added
  | queueFull
  | aborted
  | taken (item : Option τ)
deriving DecidableEq, Repr

/-- The items that a call has brought into the queue. -/
def Outcome.adds {τ : Type u} : Outcome τ → Nat
  | .added => 1
  | _ => 0

/-- The items that a call has taken out of it. -/
def Outcome.takes {τ : Type u} : Outcome τ → Nat
  | .taken (some _) => 1
  | _ => 0

end BlockingQueue

namespace PriorityLifoSemMPMCQueue

/-- The index into `queues_` that `addWithPriority` computes, as an `int`. -/
def queueIndex (numPriorities : Nat) (priority : Int8) : Int :=
  let mid : Int := numPriorities / 2
  if priority.toInt < 0 then max 0 (mid + priority.toInt)
  else min (numPriorities - 1) (mid + priority.toInt)

/-- `nonBlockingTake` probes `queues_` from its last element to its first.
`CHECK_LT(queue, queues_.size())` aborts where this is `none`. -/
def level? (numPriorities : Nat) (priority : Int8) : Option Nat :=
  let queue := (queueIndex numPriorities priority).toNat
  if queue < numPriorities then some (numPriorities - 1 - queue) else none

theorem level?_lt {numPriorities : Nat} {priority : Int8} {level : Nat}
    (found : level? numPriorities priority = some level) : level < numPriorities := by
  simp only [level?] at found
  split at found
  · cases found
    omega
  · cases found

theorem queueIndex_bounds {numPriorities : Nat} (positive : 0 < numPriorities)
    (priority : Int8) :
    0 ≤ queueIndex numPriorities priority ∧
      queueIndex numPriorities priority < numPriorities := by
  simp only [queueIndex]
  split <;> omega

theorem queueIndex_eq {numPriorities : Nat} (positive : 0 < numPriorities) (priority : Int8) :
    queueIndex numPriorities priority =
      Executor.clampPriority numPriorities priority + numPriorities / 2 := by
  simp only [queueIndex, Executor.clampPriority]
  split <;> omega

/-- The check on the index never fails. -/
theorem level?_isSome {numPriorities : Nat} (positive : 0 < numPriorities)
    (priority : Int8) : (level? numPriorities priority).isSome = true := by
  have bounds := queueIndex_bounds positive priority
  simp only [level?]
  rw [if_pos (by omega)]
  rfl

/-- Poison tasks go to the level that is probed last. -/
theorem level?_loPri {numPriorities : Nat} (positive : 0 < numPriorities)
    (small : numPriorities < 256) :
    level? numPriorities Executor.LO_PRI = some (numPriorities - 1) := by
  have lowest : Executor.LO_PRI.toInt = -128 := by decide
  have index : queueIndex numPriorities Executor.LO_PRI = 0 := by
    simp only [queueIndex, lowest]
    rw [if_pos (by omega)]
    omega
  simp [level?, index, positive]

end PriorityLifoSemMPMCQueue

namespace PriorityUnboundedBlockingQueue

/-- `folly::constexpr_clamp` -/
def clamp (value low high : Int8) : Int8 :=
  if value < low then low else if high < value then high else value

/-- `hi` and `lo` are narrowed to `int8_t`; their difference is not. -/
def translatePriority (priorities : Nat) (priority : Int8) : Int :=
  let hi := Int8.ofInt ((priorities + 1) / 2 - 1)
  let lo := Int8.ofInt (hi.toInt - (priorities - 1))
  hi.toInt - (clamp priority lo hi).toInt

/-- `at_priority` throws where this is `none`. -/
def level? (priorities : Nat) (priority : Int8) : Option Nat :=
  let index := translatePriority priorities priority
  if 0 ≤ index ∧ index < priorities then some index.toNat else none

theorem clamp_bounds (value : Int8) {low high : Int8} (ordered : low.toInt ≤ high.toInt) :
    low.toInt ≤ (clamp value low high).toInt ∧ (clamp value low high).toInt ≤ high.toInt := by
  unfold clamp
  simp only [Int8.lt_iff_toInt_lt]
  split_ifs <;> omega

theorem level?_lt {priorities : Nat} {priority : Int8} {level : Nat}
    (found : level? priorities priority = some level) : level < priorities := by
  simp only [level?] at found
  split at found
  · cases found
    omega
  · cases found

private theorem hi_toInt {priorities : Nat} (positive : 0 < priorities)
    (small : priorities < 256) :
    (Int8.ofInt ((priorities + 1) / 2 - 1)).toInt = ((priorities : Int) + 1) / 2 - 1 :=
  Int8.toInt_ofInt_of_le (by omega) (by omega)

private theorem lo_toInt {priorities : Nat} (positive : 0 < priorities)
    (small : priorities < 256) :
    (Int8.ofInt (((priorities : Int) + 1) / 2 - 1 - (priorities - 1))).toInt =
      ((priorities : Int) + 1) / 2 - 1 - (priorities - 1) :=
  Int8.toInt_ofInt_of_le (by omega) (by omega)

theorem translatePriority_bounds {priorities : Nat} (positive : 0 < priorities)
    (small : priorities < 256) (priority : Int8) :
    0 ≤ translatePriority priorities priority ∧
      translatePriority priorities priority < priorities := by
  have high := hi_toInt positive small
  have low := lo_toInt positive small
  simp only [translatePriority, high]
  have ordered : (Int8.ofInt (((priorities : Int) + 1) / 2 - 1 - (priorities - 1))).toInt ≤
      (Int8.ofInt (((priorities : Int) + 1) / 2 - 1)).toInt := by omega
  have bounds := clamp_bounds priority ordered
  omega

theorem translatePriority_eq {priorities : Nat} (positive : 0 < priorities)
    (small : priorities < 256) (priority : Int8) :
    translatePriority priorities priority =
      (priorities + 1) / 2 - 1 - Executor.clampPriority priorities priority := by
  have high := hi_toInt positive small
  have low := lo_toInt positive small
  simp only [translatePriority, Executor.clampPriority, high]
  unfold clamp
  simp only [Int8.lt_iff_toInt_lt, high, low]
  split_ifs <;> omega

/-- Every priority has a level. -/
theorem level?_isSome {priorities : Nat} (positive : 0 < priorities)
    (small : priorities < 256) (priority : Int8) :
    (level? priorities priority).isSome = true := by
  simp only [level?]
  rw [if_pos (translatePriority_bounds positive small priority)]
  rfl

/-- Poison tasks go to the level that is probed last. -/
theorem level?_loPri {priorities : Nat} (positive : 0 < priorities)
    (small : priorities < 256) :
    level? priorities Executor.LO_PRI = some (priorities - 1) := by
  have high := hi_toInt positive small
  have low := lo_toInt positive small
  have lowest : Executor.LO_PRI.toInt = -128 := by decide
  have last : translatePriority priorities Executor.LO_PRI = priorities - 1 := by
    simp only [translatePriority, high]
    rw [clamp, if_pos (by rw [Int8.lt_iff_toInt_lt, low, lowest]; omega), low]
    omega
  simp only [level?, last]
  rw [if_pos (by omega)]
  congr
  omega

end PriorityUnboundedBlockingQueue

end ThreadPoolExec
