import Mathlib.Data.List.TakeWhile
import Mathlib.Order.Lattice
import Mathlib.Tactic.Common

/-!
# Binary searches

The searches of the C++ standard library on a sequence: a range is halved until
it is empty. They are right only where the sequence is partitioned by what is
searched for, as an ascending one is.
-/

set_option autoImplicit false

namespace BinarySearch

universe u

variable {α : Type u}

/-- Halve a range that starts at `first`; `fuel` bounds the rounds. -/
def search (before : α → Bool) (vec : List α) : Nat → Nat → Nat → Nat
  | 0, first, _ => first
  | fuel + 1, first, len =>
      if len = 0 then first
      else
        match vec[first + len / 2]? with
        | none => first
        | some item =>
            if before item then search before vec fuel (first + len / 2 + 1) (len - len / 2 - 1)
            else search before vec fuel first (len / 2)

def partitionPoint (before : α → Bool) (vec : List α) : Nat :=
  search before vec vec.length 0 vec.length

/-- What is before comes first. -/
def Partitioned (before : α → Bool) (vec : List α) : Prop :=
  vec.Pairwise fun item later => before later = true → before item = true

/-- Everything under `low` is before, and nothing from `high` on. -/
structure Splits (before : α → Bool) (vec : List α) (low high : Nat) : Prop where
  ordered : low ≤ high
  inside : high ≤ vec.length
  below : ∀ index item, index < low → vec[index]? = some item → before item = true
  above : ∀ index item, high ≤ index → vec[index]? = some item → before item = false

section Search

variable {before : α → Bool} {vec : List α} {item : α} {low high first len index : Nat}

/-- The item in the middle decides for everything on one side of it. -/
theorem Partitioned.below (partitioned : Partitioned before vec) (found : vec[index]? = some item)
    (isBefore : before item = true) :
    ∀ other value, other < index + 1 → vec[other]? = some value → before value = true := by
  intro other value lt at_
  obtain ⟨inside, rfl⟩ := List.getElem?_eq_some_iff.mp found
  obtain ⟨otherInside, rfl⟩ := List.getElem?_eq_some_iff.mp at_
  rcases Nat.lt_succ_iff_lt_or_eq.mp lt with earlier | rfl
  · exact List.pairwise_iff_getElem.mp partitioned other index otherInside inside earlier isBefore
  · exact isBefore

theorem Partitioned.above (partitioned : Partitioned before vec) (found : vec[index]? = some item)
    (notBefore : before item = false) :
    ∀ other value, index ≤ other → vec[other]? = some value → before value = false := by
  intro other value le at_
  obtain ⟨inside, rfl⟩ := List.getElem?_eq_some_iff.mp found
  obtain ⟨otherInside, rfl⟩ := List.getElem?_eq_some_iff.mp at_
  rcases Nat.lt_or_eq_of_le le with later | rfl
  · have ordered :=
      List.pairwise_iff_getElem.mp partitioned index other inside otherInside later
    cases isBefore : before vec[other] with
    | false => rfl
    | true => exact absurd (ordered isBefore) (by simp [notBefore])
  · exact notBefore

theorem Partitioned.search (partitioned : Partitioned before vec) {fuel : Nat} (enough : len ≤ fuel)
    (splits : Splits before vec first (first + len)) :
    Splits before vec (search before vec fuel first len) (search before vec fuel first len) := by
  induction fuel generalizing first len with
  | zero =>
      obtain rfl := Nat.le_zero.mp enough
      exact splits
  | succ fuel ih =>
      simp only [BinarySearch.search]
      split_ifs with none
      · subst none
        exact splits
      · have middle : first + len / 2 < vec.length := by
          have inside := splits.inside
          omega
        rw [List.getElem?_eq_getElem middle]
        have found := List.getElem?_eq_getElem middle
        cases isBefore : before vec[first + len / 2] with
        | true =>
            simp only [isBefore, if_true]
            apply ih (by omega)
            constructor
            case ordered => omega
            case inside =>
              have inside := splits.inside
              omega
            case below => exact partitioned.below found isBefore
            case above =>
              intro index item le
              exact splits.above index item (by omega)
        | false =>
            simp only [isBefore, Bool.false_eq_true, if_false]
            apply ih (by omega)
            constructor
            case ordered => omega
            case inside => exact Nat.le_of_lt middle
            case below => exact splits.below
            case above => exact partitioned.above found isBefore

theorem Partitioned.splits (partitioned : Partitioned before vec) :
    Splits before vec (partitionPoint before vec) (partitionPoint before vec) := by
  apply partitioned.search (Nat.le_refl _)
  constructor
  case ordered => exact Nat.le_add_right 0 _
  case inside => exact Nat.le_of_eq (Nat.zero_add _)
  case below => exact fun index item lt => absurd lt (Nat.not_lt_zero index)
  case above =>
    intro index item le found
    obtain ⟨inside, -⟩ := List.getElem?_eq_some_iff.mp found
    omega

theorem Splits.takeWhile (splits : Splits before vec low low) :
    vec.take low = vec.takeWhile before ∧ vec.drop low = vec.dropWhile before := by
  induction vec generalizing low with
  | nil => simp
  | cons head tail ih =>
      cases low with
      | zero =>
          have stops := splits.above 0 head (Nat.le_refl 0) rfl
          simp [stops]
      | succ low =>
          have passes := splits.below 0 head (Nat.succ_pos low) rfl
          have rest : Splits before tail low low := by
            constructor
            case ordered => exact Nat.le_refl low
            case inside => exact Nat.le_of_succ_le_succ splits.inside
            case below =>
              intro index item lt
              exact splits.below (index + 1) item (Nat.succ_lt_succ lt)
            case above =>
              intro index item le
              exact splits.above (index + 1) item (Nat.succ_le_succ le)
          obtain ⟨front, back⟩ := ih rest
          simp [passes, front, back]

/-- A sequence is split at one place only. -/
theorem Splits.unique (splits : Splits before vec low low) (others : Splits before vec high high) :
    low = high := by
  have lengths := congrArg List.length (splits.takeWhile.1.trans others.takeWhile.1.symm)
  rwa [List.length_take, List.length_take, Nat.min_eq_left splits.inside,
    Nat.min_eq_left others.inside] at lengths

end Search

/-! ## Ascending sequences -/

section Ascending

variable [LinearOrder α] {vec : List α} {value : α} {index : Nat}

def lowerBound (vec : List α) (value : α) : Nat :=
  partitionPoint (· < value) vec

def upperBound (vec : List α) (value : α) : Nat :=
  partitionPoint (fun item => !decide (value < item)) vec

def equalRange (vec : List α) (value : α) : Nat × Nat :=
  (lowerBound vec value, upperBound vec value)

def binarySearch (vec : List α) (value : α) : Bool :=
  (vec[lowerBound vec value]?).any fun item => !decide (value < item)

theorem lowerBound_splits (ascending : vec.Pairwise (· < ·)) (value : α) :
    Splits (· < value) vec (lowerBound vec value) (lowerBound vec value) := by
  refine Partitioned.splits (ascending.imp fun {item later} lt isBefore => ?_)
  exact decide_eq_true (lt.trans (of_decide_eq_true isBefore))

theorem upperBound_splits (ascending : vec.Pairwise (· < ·)) (value : α) :
    Splits (fun item => !decide (value < item)) vec (upperBound vec value)
      (upperBound vec value) := by
  refine Partitioned.splits (ascending.imp fun {item later} lt isBefore => ?_)
  simp only [Bool.not_eq_true', decide_eq_false_iff_not] at isBefore ⊢
  exact fun above => isBefore (above.trans lt)

/-- Where an item is found, its range begins and ends. -/
theorem equalRange_eq (ascending : vec.Pairwise (· < ·)) (found : vec[index]? = some value) :
    equalRange vec value = (index, index + 1) := by
  obtain ⟨inside, rfl⟩ := List.getElem?_eq_some_iff.mp found
  have ordered := List.pairwise_iff_getElem.mp ascending
  have first : Splits (· < vec[index]) vec index index := by
    constructor
    case ordered => exact Nat.le_refl index
    case inside => exact Nat.le_of_lt inside
    case below =>
      intro other item lt at_
      obtain ⟨otherInside, rfl⟩ := List.getElem?_eq_some_iff.mp at_
      exact decide_eq_true (ordered other index otherInside inside lt)
    case above =>
      intro other item le at_
      obtain ⟨otherInside, rfl⟩ := List.getElem?_eq_some_iff.mp at_
      apply decide_eq_false
      rcases Nat.lt_or_eq_of_le le with later | rfl
      · exact (ordered index other inside otherInside later).asymm
      · exact lt_irrefl _
  have second : Splits (fun item => !decide (vec[index] < item)) vec (index + 1) (index + 1) := by
    constructor
    case ordered => exact Nat.le_refl (index + 1)
    case inside => exact inside
    case below =>
      intro other item lt at_
      obtain ⟨otherInside, rfl⟩ := List.getElem?_eq_some_iff.mp at_
      simp only [Bool.not_eq_true', decide_eq_false_iff_not]
      rcases Nat.lt_succ_iff_lt_or_eq.mp lt with earlier | rfl
      · exact (ordered other index otherInside inside earlier).asymm
      · exact lt_irrefl _
    case above =>
      intro other item le at_
      obtain ⟨otherInside, rfl⟩ := List.getElem?_eq_some_iff.mp at_
      simpa using ordered index other inside otherInside le
  exact Prod.ext ((lowerBound_splits ascending _).unique first)
    ((upperBound_splits ascending _).unique second)

/-- Of what is not there, the range is empty. -/
theorem equalRange_of_not_mem (ascending : vec.Pairwise (· < ·)) (missing : value ∉ vec) :
    upperBound vec value = lowerBound vec value := by
  have splits := lowerBound_splits ascending value
  refine (upperBound_splits ascending value).unique ⟨Nat.le_refl _, splits.inside, ?_, ?_⟩
  · intro index item lt at_
    have below := of_decide_eq_true (splits.below index item lt at_)
    simpa using below.le
  · intro index item le at_
    have above := of_decide_eq_false (splits.above index item le at_)
    have other : item ≠ value := fun same => missing (same ▸ List.mem_of_getElem? at_)
    simpa using lt_of_le_of_ne (not_lt.mp above) other.symm

theorem equalRange_iff (ascending : vec.Pairwise (· < ·)) :
    (equalRange vec value).1 + 1 = (equalRange vec value).2 ↔ value ∈ vec := by
  constructor
  · intro one
    by_contra missing
    have none := equalRange_of_not_mem ascending missing
    simp only [equalRange, none] at one
    exact absurd one (Nat.succ_ne_self _)
  · intro member
    obtain ⟨index, found⟩ := List.mem_iff_getElem?.mp member
    rw [equalRange_eq ascending found]

theorem binarySearch_iff (ascending : vec.Pairwise (· < ·)) :
    binarySearch vec value = true ↔ value ∈ vec := by
  have splits := lowerBound_splits ascending value
  constructor
  · intro searched
    obtain ⟨item, at_, notAbove⟩ := (Option.any_eq_true _ _).mp searched
    have notBelow := of_decide_eq_false (splits.above _ item (Nat.le_refl _) at_)
    simp only [Bool.not_eq_true', decide_eq_false_iff_not] at notAbove
    have same : item = value := le_antisymm (not_lt.mp notAbove) (not_lt.mp notBelow)
    exact same ▸ List.mem_of_getElem? at_
  · intro member
    obtain ⟨index, found⟩ := List.mem_iff_getElem?.mp member
    have first : lowerBound vec value = index := congrArg Prod.fst (equalRange_eq ascending found)
    simp [binarySearch, first, found]

end Ascending

end BinarySearch
