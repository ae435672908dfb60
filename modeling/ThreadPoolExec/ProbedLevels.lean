import Mathlib.Data.List.TakeWhile
import ThreadPoolExec.Levels

/-!
# Levels behind a semaphore

A taker waits for a permit and then probes one level after the other. Whoever
adds an item gives the permit afterwards. As long as there is an item for every
permit, every taker has one ahead of it, whatever the others do between two of
its probes. A mark on items cuts every level short; the same holds of what
waits before the marks, for takers that are far enough.
-/

set_option autoImplicit false

namespace Levels

universe u

variable {τ : Type u}

/-- Whether a taker at a position has no level left before a given one. -/
def probe (position level : Nat) : Nat :=
  if level ≤ position then 1 else 0

/-- From every level on, beginning with `first`, there is an item for each of
the takers that have only those levels left. -/
def Ahead (levels : List (List τ)) (probing : Nat → Nat) (first : Nat) : Prop :=
  ∀ level, first ≤ level → probing level ≤ after levels level

/-- There is an item for every permit, for every taker past the semaphore and
for everyone who has still to give the permit for an item. -/
structure Backed (levels : List (List τ)) (permits posting : Nat) (probing : Nat → Nat) :
    Prop where
  permits : permits + posting + probing 0 ≤ size levels
  ahead : Ahead levels probing 0

section Ahead

variable {levels others : List (List τ)} {probing fewer rest : Nat → Nat}
  {first level position permits posting less : Nat} {item : τ}

theorem Ahead.mono (ahead : Ahead levels probing first)
    (le : ∀ level, first ≤ level → fewer level ≤ probing level) : Ahead levels fewer first :=
  fun level within => Nat.le_trans (le level within) (ahead level within)

theorem Ahead.push (inside : level < levels.length) (ahead : Ahead levels probing first) :
    Ahead (push levels level item) probing first := by
  intro probed within
  rw [after_push inside]
  exact Nat.le_add_right_of_le (ahead probed within)

theorem Ahead.pass (ahead : Ahead levels rest (first + 1)) :
    Ahead levels (fun level => probe 0 level + rest level) (first + 1) := by
  intro probed within
  have later := ahead probed within
  simp only [probe]
  split_ifs <;> omega

theorem Ahead.pop (popped : pop levels position = some (item, others))
    (ahead : Ahead levels (fun level => probe position level + rest level) first) :
    Ahead others rest first := by
  intro probed within
  have before := ahead probed within
  simp only [probe, after_pop popped] at before
  omega

/-- A taker moves past a level that is empty, so what lay ahead still does. -/
theorem Ahead.move (empty : levels[position]? = some [])
    (falls : rest (position + 1) ≤ rest position) (later : first ≠ position + 1)
    (ahead : Ahead levels (fun level => probe position level + rest level) first) :
    Ahead levels (fun level => probe (position + 1) level + rest level) first := by
  intro probed within
  by_cases passed : probed = position + 1
  · subst passed
    have before := ahead position (by omega)
    simp only [probe, Nat.le_refl, if_true] at before ⊢
    rw [after_succ_of_empty empty]
    omega
  · have before := ahead probed within
    simp only [probe] at before ⊢
    split_ifs at before ⊢ <;> omega

theorem Ahead.pos (ahead : Ahead levels probing first) (within : first ≤ position)
    (waits : 0 < probing position) : 0 < after levels position :=
  Nat.lt_of_lt_of_le waits (ahead position within)

theorem Backed.mono (backed : Backed levels permits posting probing) (owed : less ≤ posting)
    (le : ∀ level, fewer level ≤ probing level) : Backed levels permits less fewer where
  permits := by
    have permits := backed.permits
    have first := le 0
    omega
  ahead := backed.ahead.mono fun level _ => le level

theorem Backed.push (inside : level < levels.length)
    (backed : Backed levels permits posting probing) :
    Backed (push levels level item) permits (posting + 1) probing where
  permits := by
    have permits := backed.permits
    rw [size_push inside]
    omega
  ahead := backed.ahead.push inside

theorem Backed.post (backed : Backed levels permits (posting + 1) probing) :
    Backed levels (permits + 1) posting probing where
  permits := by
    have permits := backed.permits
    omega
  ahead := backed.ahead

/-- A taker passes the semaphore: its permit was for an item in the queue. -/
theorem Backed.pass (backed : Backed levels (permits + 1) posting rest) :
    Backed levels permits posting (fun level => probe 0 level + rest level) where
  permits := by
    have permits := backed.permits
    simp only [probe, Nat.le_refl, if_true]
    omega
  ahead := by
    intro probed within
    cases probed with
    | zero =>
        have permits := backed.permits
        simp only [probe, Nat.le_refl, if_true, after_zero]
        omega
    | succ probed =>
        have later : Ahead levels rest (0 + 1) := fun level _ => backed.ahead level (Nat.zero_le _)
        exact later.pass (probed + 1) (Nat.succ_pos probed)

theorem Backed.pop (popped : pop levels position = some (item, others))
    (backed : Backed levels permits posting (fun level => probe position level + rest level)) :
    Backed others permits posting rest where
  permits := by
    have permits := backed.permits
    simp only [probe, Nat.zero_le, if_true, size_pop popped] at permits
    omega
  ahead := backed.ahead.pop popped

theorem Backed.move (empty : levels[position]? = some [])
    (falls : rest (position + 1) ≤ rest position)
    (backed : Backed levels permits posting (fun level => probe position level + rest level)) :
    Backed levels permits posting (fun level => probe (position + 1) level + rest level) where
  permits := by
    have permits := backed.permits
    simpa only [probe, Nat.zero_le, if_true] using permits
  ahead := backed.ahead.move empty falls (Nat.succ_ne_zero position).symm

end Ahead

/-! ## What waits before a mark -/

/-- The items of each level up to the first that is not kept. -/
def front (keep : τ → Bool) (levels : List (List τ)) : List (List τ) :=
  levels.map (List.takeWhile keep)

section Front

variable {keep : τ → Bool} {levels others : List (List τ)} {level position : Nat} {item : τ}

theorem front_of_forall (all : ∀ items ∈ levels, ∀ item ∈ items, keep item = true) :
    front keep levels = levels := by
  refine (List.map_congr_left fun items member => ?_).trans (List.map_id levels)
  exact List.takeWhile_eq_self_iff.mpr (all items member)

theorem front_of_empty (empty : levels[level]? = some []) :
    (front keep levels)[level]? = some [] := by
  simp [front, empty]

/-- A kept item that is taken was before the mark. -/
theorem pop_front (popped : pop levels level = some (item, others)) (kept : keep item = true) :
    pop (front keep levels) level = some (item, front keep others) := by
  obtain ⟨rest, found, rfl⟩ := pop_eq_some_iff.mp popped
  refine pop_eq_some_iff.mpr ⟨rest.takeWhile keep, ?_, ?_⟩
  · simp [front, found, kept]
  · rw [front, front, List.map_set]

theorem takeWhile_sublist_push (items : List τ) (item : τ) :
    (items.takeWhile keep).Sublist ((items ++ [item]).takeWhile keep) := by
  induction items with
  | nil => exact List.nil_sublist _
  | cons head tail ih =>
      cases kept : keep head with
      | false => simp [kept]
      | true =>
          simp only [List.cons_append, List.takeWhile_cons, kept, if_true]
          exact ih.cons_cons head

theorem after_front_push : after (front keep levels) position ≤
    after (front keep (push levels level item)) position := by
  induction levels generalizing level position with
  | nil => simp [front, push]
  | cons head tail ih =>
      have longer : (head.takeWhile keep).length ≤ ((head ++ [item]).takeWhile keep).length :=
        (takeWhile_sublist_push head item).length_le
      cases level with
      | zero =>
          cases position with
          | zero => simpa [after, front, push] using longer
          | succ position => exact Nat.le_refl _
      | succ level =>
          cases position with
          | zero =>
              have rest := @ih level 0
              simpa [after, front, push] using rest
          | succ position =>
              have rest := @ih level position
              simpa [after, front, push] using rest

/-- The items of a level from the first on that is not kept. -/
def behind (keep : τ → Bool) (levels : List (List τ)) (level : Nat) : List τ :=
  (levels.getD level []).dropWhile keep

theorem behind_of_forall (all : ∀ items ∈ levels, ∀ item ∈ items, keep item = true) :
    behind keep levels level = [] := by
  refine List.dropWhile_eq_nil_iff.mpr fun item member => ?_
  rw [List.getD_eq_getElem?_getD] at member
  cases found : levels[level]? with
  | none => simp [found] at member
  | some items =>
      rw [found] at member
      exact all items (List.mem_of_getElem? found) item member

theorem mem_of_push {other : τ} (member : other ∈ (push levels level item).getD position []) :
    other ∈ levels.getD position [] ∨ other = item := by
  rw [getD_push] at member
  split at member
  · exact (List.mem_append.mp member).imp_right List.mem_singleton.mp
  · exact .inl member

theorem mem_of_pop {other : τ} (popped : pop levels level = some (item, others))
    (member : other ∈ others.getD position []) : other ∈ levels.getD position [] := by
  rw [getD_pop popped]
  split
  · exact List.mem_cons_of_mem item member
  · exact member

theorem mem_behind_push {other : τ}
    (member : other ∈ behind keep (push levels level item) position) :
    other ∈ behind keep levels position ∨ other = item := by
  rw [behind, getD_push] at member
  split at member
  · rw [List.dropWhile_append] at member
    split at member
    · exact .inr (List.mem_singleton.mp ((List.dropWhile_sublist _).subset member))
    · exact (List.mem_append.mp member).imp_right List.mem_singleton.mp
  · exact .inl member

theorem behind_pop (popped : pop levels level = some (item, others)) (kept : keep item = true) :
    behind keep levels position = behind keep others position := by
  rw [behind, getD_pop popped]
  split
  · rw [List.dropWhile_cons_of_pos kept, behind]
  · rfl

/-- When a level is down to a mark, all that is left in it is behind the mark. -/
theorem pop_marked (popped : pop levels level = some (item, others)) (marked : keep item = false) :
    (front keep levels)[level]? = some [] ∧ behind keep levels level = levels.getD level [] := by
  obtain ⟨rest, found, -⟩ := pop_eq_some_iff.mp popped
  simp [front, behind, found, marked]

end Front

/-! ## What a sweep has found

Whoever reads one level after the other, while items come and go, knows of the
levels it has passed what nobody undoes. -/

/-- The levels before a position hold no marked item. -/
def ClearBefore (marked : τ → Bool) (levels : List (List τ)) (position : Nat) : Prop :=
  ∀ level < position, ∀ item ∈ levels.getD level [], marked item = false

section Clear

variable {marked : τ → Bool} {levels others : List (List τ)} {position later : Nat} {item : τ}

theorem exists_level_of_mem (member : item ∈ levels.flatten) :
    ∃ level < levels.length, item ∈ levels.getD level [] := by
  obtain ⟨items, inLevels, inLevel⟩ := List.mem_flatten.mp member
  obtain ⟨level, inside, rfl⟩ := List.mem_iff_getElem.mp inLevels
  refine ⟨level, inside, ?_⟩
  rwa [List.getD_eq_getElem?_getD, List.getElem?_eq_getElem inside]

@[simp] theorem ClearBefore.zero : ClearBefore marked levels 0 :=
  fun _ below => absurd below (Nat.not_lt_zero _)

/-- The levels stay clear as long as nobody adds a marked item. -/
theorem ClearBefore.mono (clear : ClearBefore marked levels position)
    (kept : ∀ level, ∀ item ∈ others.getD level [],
      item ∈ levels.getD level [] ∨ marked item = false) :
    ClearBefore marked others position := by
  intro level below item member
  rcases kept level item member with before | unmarked
  · exact clear level below item before
  · exact unmarked

theorem ClearBefore.succ (clear : ClearBefore marked levels position)
    (empty : (levels.getD position []).length = 0) :
    ClearBefore marked levels (position + 1) := by
  intro level below item member
  rcases Nat.lt_or_eq_of_le (Nat.le_of_lt_succ below) with passed | rfl
  · exact clear level passed item member
  · rw [List.length_eq_zero_iff.mp empty] at member
    cases member

/-- Past the last level there is nothing more to find. -/
theorem ClearBefore.of_length_le (clear : ClearBefore marked levels position)
    (covers : levels.length ≤ position) : ClearBefore marked levels later := by
  intro level _ item member
  by_cases inside : level < position
  · exact clear level inside item member
  · have outside : levels.length ≤ level := Nat.le_trans covers (Nat.le_of_not_lt inside)
    rw [List.getD_eq_getElem?_getD, List.getElem?_eq_none outside] at member
    cases member

theorem ClearBefore.forall_flatten (clear : ClearBefore marked levels levels.length) :
    ∀ item ∈ levels.flatten, marked item = false := by
  intro item member
  obtain ⟨level, inside, inLevel⟩ := exists_level_of_mem member
  exact clear level inside item inLevel

end Clear

end Levels
