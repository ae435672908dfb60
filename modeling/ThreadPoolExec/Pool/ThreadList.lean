import Mathlib.Algebra.BigOperators.Group.List.Basic
import ThreadPoolExec.BinarySearch
import ThreadPoolExec.Pool.Frames

/-!
# The list of threads

`ThreadList` keeps its threads in the order of their ids and finds them by
binary search. The CPU time of the threads that have left it is kept as a sum.
A thread stands for itself by its id, which is all that `Compare` looks at.
-/

set_option autoImplicit false

namespace ThreadPoolExec.ThreadPoolExecutor

open BinarySearch

structure ThreadList where
  vec : List Nat := []
  pastCpuUsed : Nat := 0

namespace ThreadList

def add (list : ThreadList) (state : Nat) : ThreadList :=
  let it := lowerBound list.vec state
  { list with vec := list.vec.take it ++ state :: list.vec.drop it }

/-- `none` if one of the checks fails. -/
def remove (usedCpuTime : Nat → Nat) (list : ThreadList) (state : Nat) : Option ThreadList :=
  let itPair := equalRange list.vec state
  -- CHECK(itPair.first != vec_.end())
  if itPair.1 = list.vec.length then none
  -- CHECK(std::next(itPair.first) == itPair.second)
  else if itPair.1 + 1 ≠ itPair.2 then none
  else
    some
      { vec := list.vec.eraseIdx itPair.1
        pastCpuUsed := list.pastCpuUsed + usedCpuTime state }

def contains (list : ThreadList) (ts : Nat) : Bool :=
  binarySearch list.vec ts

/-- The loop of `getUsedCpuTime` over some of the threads. -/
def accumulate (usedCpuTime : Nat → Nat) (acc : Nat) (threads : List Nat) : Nat :=
  threads.foldl (fun acc thread => acc + usedCpuTime thread) acc

def getUsedCpuTime (usedCpuTime : Nat → Nat) (list : ThreadList) : Nat :=
  accumulate usedCpuTime list.pastCpuUsed list.vec

/-! ## The order of the threads -/

def Ascending (list : ThreadList) : Prop :=
  list.vec.Pairwise (· < ·)

section Order

variable {usedCpuTime later : Nat → Nat} {list after : ThreadList} {state ts : Nat}

theorem contains_iff (ascending : list.Ascending) : list.contains ts = true ↔ ts ∈ list.vec :=
  binarySearch_iff ascending

/-- On an ascending list, the pool's own operations do the same. -/
theorem add_vec (ascending : list.Ascending) :
    (list.add state).vec = CPUThreadPoolExecutor.ThreadList.add list.vec state := by
  obtain ⟨front, back⟩ := (lowerBound_splits ascending state).takeWhile
  simp only [add, CPUThreadPoolExecutor.ThreadList.add, front, back]

/-- Both checks hold of a thread of the list. -/
theorem checks (ascending : list.Ascending) (member : state ∈ list.vec) :
    (equalRange list.vec state).1 ≠ list.vec.length ∧
      (equalRange list.vec state).1 + 1 = (equalRange list.vec state).2 := by
  obtain ⟨index, found⟩ := List.mem_iff_getElem?.mp member
  obtain ⟨inside, -⟩ := List.getElem?_eq_some_iff.mp found
  rw [equalRange_eq ascending found]
  exact ⟨Nat.ne_of_lt inside, rfl⟩

theorem remove_of_mem (usedCpuTime : Nat → Nat) (ascending : list.Ascending)
    (member : state ∈ list.vec) :
    ∃ index, list.vec[index]? = some state ∧
      list.remove usedCpuTime state =
        some ⟨list.vec.eraseIdx index, list.pastCpuUsed + usedCpuTime state⟩ := by
  obtain ⟨index, found⟩ := List.mem_iff_getElem?.mp member
  obtain ⟨inside, -⟩ := List.getElem?_eq_some_iff.mp found
  refine ⟨index, found, ?_⟩
  simp [remove, equalRange_eq ascending found, Nat.ne_of_lt inside]

theorem remove_of_not_mem (ascending : list.Ascending) (missing : state ∉ list.vec) :
    list.remove usedCpuTime state = none := by
  simp only [remove]
  split_ifs with first second
  · rfl
  · rfl
  · exact absurd ((equalRange_iff ascending).mp (not_not.mp second)) missing

theorem remove_vec (ascending : list.Ascending) :
    (list.remove usedCpuTime state).map vec =
      CPUThreadPoolExecutor.ThreadList.remove list.vec state := by
  obtain ⟨front, back⟩ := (lowerBound_splits ascending state).takeWhile
  by_cases member : state ∈ list.vec
  · obtain ⟨index, found, removed⟩ := remove_of_mem usedCpuTime ascending member
    have first : lowerBound list.vec state = index :=
      congrArg Prod.fst (equalRange_eq ascending found)
    obtain ⟨inside, rfl⟩ := List.getElem?_eq_some_iff.mp found
    rw [first] at front back
    rw [List.drop_eq_getElem_cons inside] at back
    have behind : (list.vec.drop (index + 1)).head? ≠ some list.vec[index] := by
      rw [List.head?_drop]
      intro same
      obtain ⟨nextInside, equal⟩ := List.getElem?_eq_some_iff.mp same
      have below := List.pairwise_iff_getElem.mp ascending index (index + 1) inside nextInside
        (Nat.lt_succ_self index)
      exact absurd equal.symm (Nat.ne_of_lt below)
    rw [removed, CPUThreadPoolExecutor.ThreadList.remove, ← back, ← front]
    simp only [Option.map_some, List.eraseIdx_eq_take_drop_succ]
    rw [if_pos ⟨trivial, behind⟩]
  · rw [remove_of_not_mem ascending member, CPUThreadPoolExecutor.ThreadList.remove]
    split
    · rfl
    · next found rest behind =>
        have listed : found ∈ list.vec :=
          (List.dropWhile_sublist _).subset (behind ▸ List.mem_cons_self)
        have other : found ≠ state := fun same => member (same ▸ listed)
        rw [if_neg fun alone => other alone.1]
        rfl

/-- A thread that is removed was there once, and the others keep their order. -/
theorem remove_eq_some (ascending : list.Ascending)
    (removed : list.remove usedCpuTime state = some after) :
    list.vec.Perm (state :: after.vec) ∧ after.vec.Sublist list.vec ∧
      after.pastCpuUsed = list.pastCpuUsed + usedCpuTime state := by
  by_cases member : state ∈ list.vec
  · obtain ⟨index, found, result⟩ := remove_of_mem usedCpuTime ascending member
    cases removed.symm.trans result
    exact ⟨Interleaving.perm_of_getElem? found, List.eraseIdx_sublist _ _, rfl⟩
  · cases removed.symm.trans (remove_of_not_mem ascending member)

theorem perm_add (list : ThreadList) (state : Nat) :
    (list.add state).vec.Perm (state :: list.vec) := by
  refine List.perm_middle.trans ?_
  rw [List.take_append_drop]

/-- An id above all others is added at the end. -/
theorem add_last (ascending : list.Ascending) (above : ∀ thread ∈ list.vec, thread < state) :
    (list.add state).vec = list.vec ++ [state] := by
  have all : list.vec.takeWhile (· < state) = list.vec :=
    List.takeWhile_eq_self_iff.mpr fun thread member => decide_eq_true (above thread member)
  have none : list.vec.dropWhile (· < state) = [] :=
    List.dropWhile_eq_nil_iff.mpr fun thread member => decide_eq_true (above thread member)
  rw [add_vec ascending, CPUThreadPoolExecutor.ThreadList.add, all, none]

end Order

/-! ## The CPU time -/

section Cpu

variable {usedCpuTime later : Nat → Nat} {list after : ThreadList} {state acc : Nat}
  {threads : List Nat}

theorem accumulate_eq (usedCpuTime : Nat → Nat) (acc : Nat) (threads : List Nat) :
    accumulate usedCpuTime acc threads = acc + (threads.map usedCpuTime).sum := by
  induction threads generalizing acc with
  | nil => rfl
  | cons thread rest ih =>
      rw [accumulate, List.foldl_cons, ← accumulate, ih, List.map_cons, List.sum_cons,
        Nat.add_assoc]

theorem accumulate_perm (usedCpuTime : Nat → Nat) (acc : Nat) {others : List Nat}
    (same : threads.Perm others) :
    accumulate usedCpuTime acc threads = accumulate usedCpuTime acc others := by
  rw [accumulate_eq, accumulate_eq, (same.map usedCpuTime).sum_eq]

theorem accumulate_mono {acc' : Nat} (start : acc ≤ acc')
    (monotone : ∀ thread, usedCpuTime thread ≤ later thread) :
    accumulate usedCpuTime acc threads ≤ accumulate later acc' threads := by
  induction threads generalizing acc acc' with
  | nil => exact start
  | cons thread rest ih => exact ih (Nat.add_le_add start (monotone thread))

/-- A thread that joins the list brings its CPU time. -/
theorem getUsedCpuTime_add (usedCpuTime : Nat → Nat) (list : ThreadList) (state : Nat) :
    (list.add state).getUsedCpuTime usedCpuTime =
      list.getUsedCpuTime usedCpuTime + usedCpuTime state := by
  have same := accumulate_perm usedCpuTime list.pastCpuUsed (perm_add list state)
  refine Eq.trans same ?_
  rw [getUsedCpuTime, accumulate_eq, accumulate_eq, List.map_cons, List.sum_cons]
  omega

/-- A thread that leaves the list leaves its CPU time in the past sum. -/
theorem getUsedCpuTime_remove (ascending : list.Ascending)
    (removed : list.remove usedCpuTime state = some after) :
    after.getUsedCpuTime usedCpuTime = list.getUsedCpuTime usedCpuTime := by
  obtain ⟨same, -, past⟩ := remove_eq_some ascending removed
  rw [getUsedCpuTime, getUsedCpuTime, accumulate_perm _ _ same, past]
  rfl

end Cpu

end ThreadList

end ThreadPoolExec.ThreadPoolExecutor
