import Mathlib.Data.Nat.ModEq
import Mathlib.Data.Nat.Prime.Basic
import Mathlib.Tactic.Common
import Mathlib.Tactic.NormNum.Prime

/-!
# Slots of an MPMC queue

Tickets walk through the slots with a stride that is prime to the capacity,
so `capacity` consecutive tickets use every slot once, and a slot and a turn
determine the ticket. The array and the test for a full queue are computed in
machine words.
-/

set_option autoImplicit false

namespace ThreadPoolExec.MPMCQueue

def smallPrimes : List Nat := [2, 3, 5, 7, 11, 13, 17, 19, 23]

/-- One round of `computeStride`, on `bestStride` and `bestSep`. -/
def tryStride (capacity : Nat) (best : Nat × Nat) (stride : Nat) : Nat × Nat :=
  if stride % capacity = 0 ∨ capacity % stride = 0 then best
  else
    let sep := min (stride % capacity) (capacity - stride % capacity)
    if best.2 < sep then (stride, sep) else best

def computeStride (capacity : Nat) : Nat :=
  (smallPrimes.foldl (tryStride capacity) (1, 1)).1

/-- The length of the array that a constructor allocates, in `size_t`. -/
def slotCount (kSlotPadding capacity : Nat) : Nat :=
  (capacity + 2 * kSlotPadding) % 2 ^ 64

/-- The slots are padded on both sides by `kSlotPadding`. -/
def idx (kSlotPadding ticket capacity stride : Nat) : Nat :=
  (ticket * stride) % capacity + kSlotPadding

def turn (ticket capacity : Nat) : Nat :=
  ticket / capacity

private theorem tryStride_coprime {capacity stride : Nat} {best : Nat × Nat}
    (prime : stride.Prime) (coprime : capacity.Coprime best.1) :
    capacity.Coprime (tryStride capacity best stride).1 := by
  unfold tryStride
  split
  · exact coprime
  · next distinct =>
      rw [not_or] at distinct
      dsimp only
      split
      · have notDivides : ¬ stride ∣ capacity := by
          intro divides
          exact distinct.2 (Nat.mod_eq_zero_of_dvd divides)
        exact ((Nat.Prime.coprime_iff_not_dvd prime).mpr notDivides).symm
      · exact coprime

/-- Tickets less than a round apart do not share a slot. -/
theorem idx_injOn {kSlotPadding capacity stride left right : Nat}
    (coprime : capacity.Coprime stride) (near : left < right + capacity)
    (nearToo : right < left + capacity)
    (same : idx kSlotPadding left capacity stride = idx kSlotPadding right capacity stride) :
    left = right := by
  have residue : left ≡ right [MOD capacity] :=
    Nat.ModEq.cancel_right_of_coprime coprime (Nat.add_right_cancel same)
  rcases Nat.le_total left right with le | le
  · have divides := (Nat.modEq_iff_dvd' le).mp residue
    have zero := Nat.eq_zero_of_dvd_of_lt divides (by omega)
    omega
  · have divides := (Nat.modEq_iff_dvd' le).mp residue.symm
    have zero := Nat.eq_zero_of_dvd_of_lt divides (by omega)
    omega

theorem coprime_computeStride (capacity : Nat) : capacity.Coprime (computeStride capacity) := by
  have primes : ∀ stride ∈ smallPrimes, stride.Prime := by
    simp only [smallPrimes, List.forall_mem_cons, List.not_mem_nil, false_implies, implies_true,
      and_true]
    norm_num
  have fold : ∀ (strides : List Nat) (best : Nat × Nat), (∀ stride ∈ strides, stride.Prime) →
      capacity.Coprime best.1 → capacity.Coprime (strides.foldl (tryStride capacity) best).1 := by
    intro strides
    induction strides with
    | nil =>
        intro best _ coprime
        exact coprime
    | cons stride rest ih =>
        intro best prime coprime
        rw [List.forall_mem_cons] at prime
        exact ih _ prime.2 (tryStride_coprime prime.1 coprime)
  exact fold smallPrimes (1, 1) primes (Nat.coprime_one_right capacity)

/-- The slot of a ticket and its turn there. -/
def place (kSlotPadding capacity stride ticket : Nat) : Nat × Nat :=
  (idx kSlotPadding ticket capacity stride, turn ticket capacity)

theorem place_injective {kSlotPadding capacity stride : Nat}
    (coprime : capacity.Coprime stride) :
    Function.Injective (place kSlotPadding capacity stride) := by
  intro left right same
  simp only [place, idx, turn, Prod.mk.injEq, Nat.add_right_cancel_iff] at same
  have residue : left % capacity = right % capacity :=
    Nat.ModEq.cancel_right_of_coprime coprime same.1
  rw [← Nat.div_add_mod left capacity, ← Nat.div_add_mod right capacity, same.2, residue]

/-- The ticket before on the same slot is `capacity` smaller. -/
theorem place_of_later_turn {kSlotPadding capacity stride ticket : Nat} (positive : 0 < capacity)
    (later : capacity ≤ ticket) :
    (place kSlotPadding capacity stride ticket).1 =
        (place kSlotPadding capacity stride (ticket - capacity)).1 ∧
      (place kSlotPadding capacity stride ticket).2 =
        (place kSlotPadding capacity stride (ticket - capacity)).2 + 1 := by
  obtain ⟨earlier, rfl⟩ := Nat.exists_eq_add_of_le later
  simp only [place, idx, turn, Nat.add_sub_cancel_left]
  refine ⟨?_, ?_⟩
  · rw [Nat.add_mul, Nat.add_comm (capacity * stride), Nat.add_mul_mod_self_left]
  · rw [Nat.add_comm, Nat.add_div_right _ positive]

/-- Turns of one slot are at least `capacity` tickets apart. -/
theorem add_capacity_le_of_turn_lt {kSlotPadding capacity stride earlier later : Nat}
    (coprime : capacity.Coprime stride)
    (sameSlot : (place kSlotPadding capacity stride earlier).1 =
      (place kSlotPadding capacity stride later).1)
    (turns : (place kSlotPadding capacity stride earlier).2 <
      (place kSlotPadding capacity stride later).2) : earlier + capacity ≤ later := by
  simp only [place, idx, turn, Nat.add_right_cancel_iff] at sameSlot turns
  have residue : earlier % capacity = later % capacity :=
    Nat.ModEq.cancel_right_of_coprime coprime sameSlot
  have rounds : capacity * (earlier / capacity) + capacity ≤ capacity * (later / capacity) :=
    Nat.mul_le_mul_left capacity turns
  have := Nat.div_add_mod earlier capacity
  have := Nat.div_add_mod later capacity
  omega

/-! ## The test for a full queue -/

/-- `static_cast<ssize_t>` of a `size_t`. -/
def ssize (size : Nat) : Int :=
  if size < 2 ^ 63 then size else (size : Int) - 2 ^ 64

theorem ssize_of_lt {size : Nat} (small : size < 2 ^ 63) : ssize size = size :=
  if_pos small

/-- The cast does not raise a value. -/
theorem ssize_le (size : Nat) : ssize size ≤ size := by
  unfold ssize
  split <;> omega

theorem ssize_neg {size : Nat} (large : 2 ^ 63 ≤ size) (word : size < 2 ^ 64) :
    ssize size < 0 := by
  rw [ssize, if_neg (Nat.not_lt.mpr large)]
  omega

/-- A push ticket does not fit: the test of `tryObtainPromisedPushTicket`. -/
def full (capacity pushes pops : Nat) : Bool :=
  ssize capacity ≤ (pushes : Int) - pops

theorem full_iff {capacity : Nat} (small : capacity < 2 ^ 63) (pushes pops : Nat) :
    full capacity pushes pops = true ↔ (capacity : Int) ≤ (pushes : Int) - pops := by
  unfold full
  rw [ssize_of_lt small, decide_eq_true_iff]

/-- The test finds every queue full that is. -/
theorem lt_of_not_full {capacity pushes pops : Nat} (room : ¬ full capacity pushes pops = true) :
    pushes < pops + capacity := by
  have below : ¬ ssize capacity ≤ (pushes : Int) - pops := fun test => room (decide_eq_true test)
  have := ssize_le capacity
  omega

/-- From 2^63 on it finds an empty queue full as well. -/
theorem full_of_large {capacity : Nat} (large : 2 ^ 63 ≤ capacity) (word : capacity < 2 ^ 64)
    (tickets : Nat) : full capacity tickets tickets = true := by
  have := ssize_neg large word
  exact decide_eq_true (by omega)

theorem full_mono {capacity count pushes pops : Nat} (later : count ≤ pushes)
    (test : full capacity count pops = true) : full capacity pushes pops = true := by
  have before : ssize capacity ≤ (count : Int) - pops := of_decide_eq_true test
  exact decide_eq_true (by omega)

end ThreadPoolExec.MPMCQueue
