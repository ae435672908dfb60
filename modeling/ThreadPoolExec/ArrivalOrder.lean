import Mathlib.Data.List.Basic
import Mathlib.Order.Lattice
import Mathlib.Tactic.Common

/-!
# Priorities by arrival

Entries wait in the order of their arrival, each with a key; the next one to
leave is the oldest of those with the greatest key. A queue that keeps one
first-in first-out level a key is seen through `level`.
-/

set_option autoImplicit false

namespace ArrivalOrder

universe u v

variable {κ : Type u} {τ : Type v} [LinearOrder κ]

/-- The items that wait with a key, oldest first. -/
def level (waiting : List (κ × τ)) (key : κ) : List τ :=
  (waiting.filter fun entry => entry.1 = key).map Prod.snd

/-- The greatest key. -/
def top? (waiting : List (κ × τ)) : Option κ :=
  (waiting.map Prod.fst).find? fun key => waiting.all fun entry => entry.1 ≤ key

/-- The oldest item of the greatest key, and what waits without it. -/
def takeTop (waiting : List (κ × τ)) : Option (τ × List (κ × τ)) :=
  match top? waiting with
  | none => none
  | some key =>
      (waiting.find? fun entry => entry.1 = key).map fun entry =>
        (entry.2, waiting.eraseP fun entry => entry.1 = key)

variable {waiting : List (κ × τ)} {key other : κ} {item : τ} {rest : List τ}

@[simp] theorem level_nil : level ([] : List (κ × τ)) key = [] := rfl

theorem level_cons {entry : κ × τ} :
    level (entry :: waiting) key =
      if entry.1 = key then entry.2 :: level waiting key else level waiting key := by
  by_cases same : entry.1 = key <;> simp [level, same]

theorem level_append_singleton :
    level (waiting ++ [(other, item)]) key =
      if other = key then level waiting key ++ [item] else level waiting key := by
  by_cases same : other = key <;> simp [level, same]

theorem level_eq_nil_iff : level waiting key = [] ↔ ∀ entry ∈ waiting, entry.1 ≠ key := by
  simp [level]

/-- Without the oldest entry of a key, the others keep their order. -/
theorem level_eraseP (found : level waiting key = item :: rest) :
    level (waiting.eraseP fun entry => entry.1 = key) other =
      if other = key then rest else level waiting other := by
  induction waiting with
  | nil => cases found
  | cons head tail ih =>
      rw [level_cons] at found
      by_cases first : head.1 = key
      · rw [List.eraseP_cons_of_pos (by simpa using first)]
        rw [if_pos first, List.cons.injEq] at found
        by_cases same : other = key
        · rw [if_pos same, same]
          exact found.2
        · rw [if_neg same, level_cons, if_neg fun equal => same (equal.symm.trans first)]
      · rw [if_neg first] at found
        rw [List.eraseP_cons_of_neg (by simpa using first), level_cons, ih found, level_cons]
        by_cases same : head.1 = other
        · rw [if_pos same, if_neg fun equal => first (same.trans equal),
            if_neg fun equal => first (same.trans equal), if_pos same]
        · rw [if_neg same, if_neg same]

theorem find_of_level (found : level waiting key = item :: rest) :
    (waiting.find? fun entry => entry.1 = key) = some (key, item) := by
  induction waiting with
  | nil => cases found
  | cons head tail ih =>
      rw [level_cons] at found
      by_cases first : head.1 = key
      · rw [if_pos first, List.cons.injEq] at found
        rw [List.find?_cons_of_pos (by simpa using first)]
        exact congrArg some (Prod.ext first found.1)
      · rw [if_neg first] at found
        rw [List.find?_cons_of_neg (by simpa using first)]
        exact ih found

theorem top_of_level (found : level waiting key = item :: rest)
    (above : ∀ higher, key < higher → level waiting higher = []) : top? waiting = some key := by
  have waits := List.mem_of_find?_eq_some (find_of_level found)
  have bounds : ∀ entry ∈ waiting, entry.1 ≤ key := by
    intro entry member
    by_contra higher
    exact level_eq_nil_iff.mp (above entry.1 (lt_of_not_ge higher)) entry member rfl
  cases top : top? waiting with
  | none =>
      have none := List.find?_eq_none.mp top key (List.mem_map.mpr ⟨_, waits, rfl⟩)
      simp only [List.all_eq_true, decide_eq_true_eq] at none
      exact absurd bounds none
  | some greatest =>
      have isTop := List.find?_some top
      simp only [List.all_eq_true, decide_eq_true_eq] at isTop
      obtain ⟨entry, member, rfl⟩ := List.mem_map.mp (List.mem_of_find?_eq_some top)
      exact congrArg some (le_antisymm (bounds entry member) (isTop _ waits))

/-- A scan of the levels from the greatest key on finds what leaves next. -/
theorem takeTop_of_level (found : level waiting key = item :: rest)
    (above : ∀ higher, key < higher → level waiting higher = []) :
    takeTop waiting = some (item, waiting.eraseP fun entry => entry.1 = key) := by
  simp only [takeTop, top_of_level found above, find_of_level found, Option.map_some]

theorem length_takeTop {after : List (κ × τ)} (top : takeTop waiting = some (item, after)) :
    after.length + 1 = waiting.length := by
  unfold takeTop at top
  split at top
  · cases top
  · next key _ =>
      obtain ⟨entry, found, same⟩ := Option.map_eq_some_iff.mp top
      cases same
      have member := List.mem_of_find?_eq_some found
      have isKey := List.find?_some found
      have shorter : (waiting.eraseP fun entry => entry.1 = key).length = waiting.length - 1 :=
        List.length_eraseP_of_mem member isKey
      have positive := List.length_pos_of_mem member
      omega

theorem takeTop_of_empty (empty : ∀ key, level waiting key = []) : takeTop waiting = none := by
  cases waiting with
  | nil => rfl
  | cons head tail =>
      exact absurd rfl (level_eq_nil_iff.mp (empty head.1) head List.mem_cons_self)

theorem exists_top_level (some : waiting ≠ []) :
    ∃ key, level waiting key ≠ [] ∧ ∀ higher, key < higher → level waiting higher = [] := by
  induction waiting with
  | nil => exact absurd rfl some
  | cons head tail ih =>
      by_cases last : tail = []
      · subst last
        refine ⟨head.1, by simp [level_cons], fun higher greater => ?_⟩
        rw [level_cons, if_neg (ne_of_lt greater), level_nil]
      · obtain ⟨key, found, above⟩ := ih last
        rcases le_or_gt head.1 key with lower | greater
        · refine ⟨key, ?_, fun higher later => ?_⟩
          · rw [level_cons]
            split
            · exact List.cons_ne_nil _ _
            · exact found
          · rw [level_cons, if_neg (ne_of_lt (lt_of_le_of_lt lower later)), above higher later]
        · refine ⟨head.1, by simp [level_cons], fun higher later => ?_⟩
          rw [level_cons, if_neg (ne_of_lt later), above higher (lt_trans greater later)]

theorem takeTop_eq_none (nothing : takeTop waiting = none) : waiting = [] := by
  by_contra some
  obtain ⟨key, found, above⟩ := exists_top_level some
  obtain ⟨item, rest, same⟩ := List.exists_cons_of_ne_nil found
  rw [takeTop_of_level same above] at nothing
  cases nothing

end ArrivalOrder
