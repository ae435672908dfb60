import Mathlib.Algebra.BigOperators.Group.List.Basic
import Mathlib.Algebra.GroupWithZero.Nat
import Mathlib.Data.List.Basic
import Mathlib.Tactic.Common

/-!
# Levelled FIFO queues

A list of first-in first-out levels that is probed one level at a time, from
the first level on. A probe position splits the levels into those already
passed and those still ahead; the counts on both sides are what an argument
about non-atomic scans needs.
-/

set_option autoImplicit false

namespace Levels

universe u

variable {τ : Type u}

/-- Append an item to a level; a level that does not exist changes nothing. -/
def push (levels : List (List τ)) (level : Nat) (item : τ) : List (List τ) :=
  levels.modify level (· ++ [item])

/-- Take the oldest item of a level. -/
def pop (levels : List (List τ)) (level : Nat) : Option (τ × List (List τ)) :=
  match levels[level]? with
  | some (item :: rest) => some (item, levels.set level rest)
  | _ => none

/-- The number of items in the levels before a position. -/
def before (levels : List (List τ)) (position : Nat) : Nat :=
  ((levels.take position).map List.length).sum

/-- The number of items in the levels from a position on. -/
def after (levels : List (List τ)) (position : Nat) : Nat :=
  ((levels.drop position).map List.length).sum

/-- The number of items in all levels. -/
def size (levels : List (List τ)) : Nat :=
  (levels.map List.length).sum

variable {levels others : List (List τ)} {level position : Nat} {item : τ}

@[simp] theorem before_zero : before levels 0 = 0 := rfl

@[simp] theorem after_zero : after levels 0 = size levels := rfl

theorem before_add_after (levels : List (List τ)) (position : Nat) :
    before levels position + after levels position = size levels := by
  rw [before, after, ← List.sum_append, ← List.map_append, List.take_append_drop, size]

theorem before_of_length_le (covers : levels.length ≤ position) :
    before levels position = size levels := by
  rw [before, List.take_of_length_le covers, size]

theorem after_of_length_le (covers : levels.length ≤ position) : after levels position = 0 := by
  rw [after, List.drop_of_length_le covers, List.map_nil, List.sum_nil]

@[simp] theorem length_push : (push levels level item).length = levels.length := by
  simp [push]

theorem length_pop (popped : pop levels level = some (item, others)) :
    others.length = levels.length := by
  unfold pop at popped
  split at popped
  · cases popped
    simp
  · cases popped

theorem pop_eq_some_iff : pop levels level = some (item, others) ↔
    ∃ rest, levels[level]? = some (item :: rest) ∧ others = levels.set level rest := by
  unfold pop
  split
  · next found =>
      simp only [found, Option.some.injEq, Prod.mk.injEq, List.cons.injEq]
      constructor
      · rintro ⟨rfl, rfl⟩
        exact ⟨_, ⟨rfl, rfl⟩, rfl⟩
      · rintro ⟨_, ⟨rfl, rfl⟩, rfl⟩
        exact ⟨rfl, rfl⟩
  · next missing =>
      constructor
      · nofun
      · rintro ⟨rest, found, -⟩
        exact absurd found (missing item rest)

theorem pop_eq_none_iff : pop levels level = none ↔
    levels[level]? = none ∨ levels[level]? = some [] := by
  unfold pop
  split
  · next found => simp [found]
  · next missing =>
      cases found : levels[level]? with
      | none => simp
      | some items =>
          cases items with
          | nil => simp
          | cons head tail => exact absurd found (missing head tail)

theorem before_push (inside : level < levels.length) :
    before (push levels level item) position =
      before levels position + if level < position then 1 else 0 := by
  induction levels generalizing level position with
  | nil => simp at inside
  | cons head tail ih =>
      cases position with
      | zero => simp [before]
      | succ position =>
          cases level with
          | zero => simp [before, push]; omega
          | succ level =>
              have rest : before (push tail level item) position = _ :=
                ih (by simpa using inside)
              simp only [before, push, List.modify_succ_cons, List.take_succ_cons,
                List.map_cons, List.sum_cons, Nat.add_lt_add_iff_right] at rest ⊢
              omega

theorem size_push (inside : level < levels.length) :
    size (push levels level item) = size levels + 1 := by
  have all : before (push levels level item) levels.length = _ := before_push inside
  rwa [before_of_length_le (by simp), before_of_length_le (Nat.le_refl _), if_pos inside] at all

theorem after_push (inside : level < levels.length) :
    after (push levels level item) position =
      after levels position + if position ≤ level then 1 else 0 := by
  have front : before (push levels level item) position = _ := before_push inside
  have all : size (push levels level item) = _ := size_push inside
  have split := before_add_after levels position
  have splitPush := before_add_after (push levels level item) position
  split_ifs at front ⊢ <;> omega

theorem before_pop (popped : pop levels level = some (item, others)) :
    before levels position = before others position + if level < position then 1 else 0 := by
  obtain ⟨rest, found, rfl⟩ := pop_eq_some_iff.mp popped
  clear popped
  induction levels generalizing level position with
  | nil => simp at found
  | cons head tail ih =>
      cases position with
      | zero => simp [before]
      | succ position =>
          cases level with
          | zero =>
              simp only [List.getElem?_cons_zero, Option.some.injEq] at found
              simp [before, found]
              omega
          | succ level =>
              have tailSplit : before tail position = _ := ih (by simpa using found)
              simp only [before, List.set_cons_succ, List.take_succ_cons, List.map_cons,
                List.sum_cons, Nat.add_lt_add_iff_right] at tailSplit ⊢
              omega

theorem size_pop (popped : pop levels level = some (item, others)) :
    size levels = size others + 1 := by
  have all : before levels levels.length = _ := before_pop popped
  have inside : level < levels.length := by
    obtain ⟨rest, found, -⟩ := pop_eq_some_iff.mp popped
    exact (List.getElem?_eq_some_iff.mp found).1
  rwa [before_of_length_le (Nat.le_refl _), before_of_length_le (Nat.le_of_eq (length_pop popped)),
    if_pos inside] at all

theorem after_pop (popped : pop levels level = some (item, others)) :
    after levels position = after others position + if position ≤ level then 1 else 0 := by
  have front : before levels position = _ := before_pop popped
  have all := size_pop popped
  have split := before_add_after levels position
  have splitPop := before_add_after others position
  split_ifs at front ⊢ <;> omega

theorem before_succ_of_empty (empty : levels[position]? = some []) :
    before levels (position + 1) = before levels position := by
  rw [before, before, List.take_add_one, empty]
  simp

theorem after_succ_of_empty (empty : levels[position]? = some []) :
    after levels (position + 1) = after levels position := by
  have front := before_succ_of_empty empty
  have split := before_add_after levels position
  have splitNext := before_add_after levels (position + 1)
  omega

theorem getD_push : (push levels level item).getD position [] =
    if level = position ∧ position < levels.length then levels.getD position [] ++ [item]
    else levels.getD position [] := by
  simp only [push, List.getD_eq_getElem?_getD, List.getElem?_modify]
  by_cases inside : position < levels.length
  · by_cases same : level = position <;> simp [inside, same]
  · simp [inside]

theorem getD_pop (popped : pop levels level = some (item, others)) :
    levels.getD position [] =
      if level = position then item :: others.getD position [] else others.getD position [] := by
  obtain ⟨rest, found, rfl⟩ := pop_eq_some_iff.mp popped
  have inside := (List.getElem?_eq_some_iff.mp found).1
  simp only [List.getD_eq_getElem?_getD, List.getElem?_set]
  by_cases same : level = position
  · subst same
    simp only [found, inside, if_true, Option.getD_some]
  · simp [same]

theorem flatten_push_perm (inside : level < levels.length) :
    (push levels level item).flatten.Perm (item :: levels.flatten) := by
  induction levels generalizing level with
  | nil => cases inside
  | cons head tail ih =>
      cases level with
      | zero =>
          simp only [push, List.modify_zero_cons, List.flatten_cons, List.append_assoc]
          exact List.perm_middle
      | succ level =>
          have rest : (push tail level item).flatten.Perm _ := ih (Nat.lt_of_succ_lt_succ inside)
          simp only [push, List.modify_succ_cons, List.flatten_cons] at rest ⊢
          exact (rest.append_left head).trans List.perm_middle

theorem flatten_pop_perm (popped : pop levels level = some (item, others)) :
    levels.flatten.Perm (item :: others.flatten) := by
  obtain ⟨rest, found, rfl⟩ := pop_eq_some_iff.mp popped
  clear popped
  induction levels generalizing level with
  | nil => cases found
  | cons head tail ih =>
      cases level with
      | zero =>
          cases found
          exact .refl _
      | succ level =>
          simp only [List.set_cons_succ, List.flatten_cons]
          exact ((ih found).append_left head).trans List.perm_middle

theorem size_eq_zero_iff : size levels = 0 ↔ ∀ items ∈ levels, items = [] := by
  induction levels with
  | nil => simp [size]
  | cons head tail ih => simp [size, ← ih]

theorem size_pos_of_mem {items : List τ} (member : items ∈ levels) (holds : item ∈ items) :
    0 < size levels := by
  rw [Nat.pos_iff_ne_zero, ne_eq, size_eq_zero_iff]
  intro empty
  rw [empty items member] at holds
  exact absurd holds List.not_mem_nil

end Levels
