import Mathlib.Data.List.Nodup
import ThreadPoolExec.MPMCQueue.Dynamic

/-!
# Arrays and the seqlock word

The array of a ticket is the last one whose offset the ticket has reached.
Appending an array leaves the tickets below its offset where they are, and
the search through the closed arrays finds the array of a lagging ticket.
-/

set_option autoImplicit false

namespace ThreadPoolExec.MPMCQueue.Dynamic

/-- The last array whose offset a ticket has reached. -/
def resolve : List ClosedArray → Nat → Option ClosedArray
  | [], _ => none
  | array :: rest, ticket =>
      (resolve rest ticket).or (if array.offset ≤ ticket then some array else none)

section Resolve

variable {arrays front back : List ClosedArray} {array : ClosedArray} {ticket : Nat}

theorem resolve_append :
    resolve (front ++ back) ticket = (resolve back ticket).or (resolve front ticket) := by
  induction front with
  | nil => simp [resolve]
  | cons first rest ih => rw [List.cons_append, resolve, ih, resolve, Option.or_assoc]

theorem resolve_singleton :
    resolve [array] ticket = if array.offset ≤ ticket then some array else none := rfl

theorem resolve_append_of_lt (later : ticket < array.offset) :
    resolve (arrays ++ [array]) ticket = resolve arrays ticket := by
  rw [resolve_append, resolve_singleton, if_neg (Nat.not_le.mpr later)]
  rfl

theorem resolve_append_of_le (reached : array.offset ≤ ticket) :
    resolve (arrays ++ [array]) ticket = some array := by
  rw [resolve_append, resolve_singleton, if_pos reached]
  rfl

theorem resolve_eq_none_of_lt (later : ∀ array ∈ arrays, ticket < array.offset) :
    resolve arrays ticket = none := by
  induction arrays with
  | nil => rfl
  | cons first rest ih =>
      rw [resolve, ih fun array member => later array (List.mem_cons_of_mem _ member),
        if_neg (Nat.not_le.mpr (later first List.mem_cons_self))]
      rfl

theorem resolve_split (reached : array.offset ≤ ticket)
    (later : ∀ next ∈ back, ticket < next.offset) :
    resolve (front ++ array :: back) ticket = some array := by
  rw [resolve_append, resolve, resolve_eq_none_of_lt later, if_pos reached]
  rfl

/-- The array of a ticket is the one whose offset the ticket has reached while
it has not reached any later offset. -/
theorem exists_split_of_resolve (found : resolve arrays ticket = some array) :
    ∃ front back, arrays = front ++ array :: back ∧ array.offset ≤ ticket ∧
      ∀ next ∈ back, ticket < next.offset := by
  induction arrays with
  | nil => cases found
  | cons first rest ih =>
      rw [resolve] at found
      cases inRest : resolve rest ticket with
      | some other =>
          rw [inRest, Option.some_or] at found
          cases found
          obtain ⟨front, back, rfl, reached, later⟩ := ih inRest
          exact ⟨first :: front, back, rfl, reached, later⟩
      | none =>
          rw [inRest, Option.none_or] at found
          split at found
          · next reached =>
              cases found
              refine ⟨[], rest, rfl, reached, fun next member => ?_⟩
              by_contra early
              obtain ⟨front, back, rfl⟩ := List.append_of_mem member
              rw [resolve_append, resolve, if_pos (Nat.le_of_not_lt early)] at inRest
              cases inBack : resolve back ticket <;> simp [inBack] at inRest
          · cases found

theorem offset_le_of_resolve (found : resolve arrays ticket = some array) :
    array.offset ≤ ticket :=
  (exists_split_of_resolve found).choose_spec.choose_spec.2.1

theorem mem_of_resolve (found : resolve arrays ticket = some array) : array ∈ arrays := by
  obtain ⟨front, back, rfl, -⟩ := exists_split_of_resolve found
  exact List.mem_append_right _ List.mem_cons_self

/-- The first array takes every ticket that no other does. -/
theorem exists_resolve {first : ClosedArray} {rest : List ClosedArray} (zero : first.offset = 0)
    (ticket : Nat) : ∃ array, resolve (first :: rest) ticket = some array := by
  rw [resolve, if_pos (zero ▸ Nat.zero_le _)]
  cases resolve rest ticket with
  | none => exact ⟨first, rfl⟩
  | some array => exact ⟨array, rfl⟩

/-- The loop of `maybeUpdateFromClosed` looks for the array of the ticket
among the closed ones. -/
theorem searchClosed_eq_resolve (closed : List ClosedArray) (ticket : Nat) {count : Nat}
    (inside : count ≤ closed.length) :
    searchClosed closed ticket count = resolve (closed.take count) ticket := by
  induction count with
  | zero => rfl
  | succ index ih =>
      have present := List.getElem?_eq_getElem (Nat.lt_of_succ_le inside)
      rw [searchClosed, present, List.take_add_one, present, Option.toList_some]
      simp only
      rw [resolve_append, resolve_singleton, ih (Nat.le_of_succ_le inside)]
      split <;> simp

end Resolve

/-! ## The seqlock word -/

/-- The word that publishes an array's offset and the number of arrays closed
before it. -/
def seqlockWord (offset numClosed : Nat) : Nat :=
  (offset <<< kSeqlockBits) + 2 * numClosed

section SeqlockWord

variable {offset numClosed : Nat}

private theorem seqlockWord_eq : seqlockWord offset numClosed = offset * 64 + 2 * numClosed := by
  rw [seqlockWord, Nat.shiftLeft_eq, kSeqlockBits]

theorem getOffset_seqlockWord (few : numClosed < 32) :
    getOffset (seqlockWord offset numClosed) = offset := by
  rw [getOffset, Nat.shiftRight_eq_div_pow, kSeqlockBits, seqlockWord_eq]
  omega

theorem getNumClosed_seqlockWord (few : numClosed < 32) :
    getNumClosed (seqlockWord offset numClosed) = numClosed := by
  have mask : (1 <<< kSeqlockBits) - 1 = 2 ^ 6 - 1 := rfl
  rw [getNumClosed, mask, Nat.and_two_pow_sub_one_eq_mod, Nat.shiftRight_eq_div_pow,
    seqlockWord_eq]
  omega

theorem seqlockWord_even : seqlockWord offset numClosed % 2 = 0 := by
  rw [seqlockWord_eq]
  omega

end SeqlockWord

/-! ## Places -/

/-- The cell and the turn of a ticket under the arrays published so far. -/
def placeIn (layout : Layout) (arrays : List ClosedArray) (ticket : Nat) : (Nat × Nat) × Nat :=
  match resolve arrays ticket with
  | some array => array.place layout ticket
  | none => ((0, 0), ticket)

theorem placeIn_eq {layout : Layout} {arrays : List ClosedArray} {array : ClosedArray}
    {ticket : Nat} (found : resolve arrays ticket = some array) :
    placeIn layout arrays ticket = array.place layout ticket := by
  rw [placeIn, found]

/-- Within one array, a cell and a turn belong to one ticket. -/
theorem ClosedArray.place_inj {layout : Layout} {array : ClosedArray} {left right : Nat}
    (coprime : array.capacity.Coprime array.stride) (reached : array.offset ≤ left)
    (otherReached : array.offset ≤ right)
    (same : array.place layout left = array.place layout right) : left = right := by
  have injective : Function.Injective
      (MPMCQueue.place layout.kSlotPadding array.capacity array.stride) :=
    place_injective coprime
  have slot : MPMCQueue.place layout.kSlotPadding array.capacity array.stride
      (left - array.offset) = MPMCQueue.place layout.kSlotPadding array.capacity array.stride
        (right - array.offset) := by
    simp only [ClosedArray.place, Prod.mk.injEq, true_and] at same
    exact Prod.ext same.1 same.2
  have := injective slot
  omega

theorem placeIn_injective {layout : Layout} {arrays : List ClosedArray}
    (found : ∀ ticket, ∃ array, resolve arrays ticket = some array)
    (distinct : (arrays.map ClosedArray.slots).Nodup)
    (coprime : ∀ array ∈ arrays, array.capacity.Coprime array.stride) :
    Function.Injective (placeIn layout arrays) := by
  intro left right same
  obtain ⟨array, leftFound⟩ := found left
  obtain ⟨other, rightFound⟩ := found right
  rw [placeIn_eq leftFound, placeIn_eq rightFound] at same
  have slots : array.slots = other.slots := congrArg (fun place => place.1.1) same
  have equal : array = other :=
    List.inj_on_of_nodup_map distinct (mem_of_resolve leftFound) (mem_of_resolve rightFound) slots
  subst equal
  exact ClosedArray.place_inj (coprime array (mem_of_resolve leftFound))
    (offset_le_of_resolve leftFound) (offset_le_of_resolve rightFound) same

end ThreadPoolExec.MPMCQueue.Dynamic
