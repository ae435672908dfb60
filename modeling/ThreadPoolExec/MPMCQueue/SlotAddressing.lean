import Mathlib.Order.Interval.Finset.Nat
import ThreadPoolExec.MPMCQueue.Slots

/-!
# Slots and turns in machine arithmetic

`idx` multiplies in 64 bits and `turn` keeps 32, which the turn sequencer of a
slot doubles. Tickets whose product does not overflow still walk through all
slots, and those less than `2^31 * capacity` apart do not meet on one.
-/

set_option autoImplicit false

namespace ThreadPoolExec.MPMCQueue

/-- `idx`, in `uint64_t`. -/
def idx64 (kSlotPadding ticket cap stride : Nat) : Nat :=
  ticket * stride % 2 ^ 64 % cap + kSlotPadding

/-- `turn`, a `uint32_t`. -/
def turn32 (ticket cap : Nat) : Nat :=
  turn ticket cap % 2 ^ 32

/-- The turn that an `enqueue` waits for in its slot. -/
def enqueueTurn (ticket cap : Nat) : Nat :=
  turn32 ticket cap * 2 % 2 ^ 32

/-- The turn that a `dequeue` waits for in its slot. -/
def dequeueTurn (ticket cap : Nat) : Nat :=
  (turn32 ticket cap * 2 + 1) % 2 ^ 32

/-- The slot of a ticket, with the turns of its `enqueue` and its `dequeue`. -/
def slotTurns (kSlotPadding cap ticket : Nat) : List (Nat × Nat) :=
  [(idx64 kSlotPadding ticket cap (computeStride cap), enqueueTurn ticket cap),
    (idx64 kSlotPadding ticket cap (computeStride cap), dequeueTurn ticket cap)]

section Arithmetic

variable {kSlotPadding cap stride ticket other : Nat}

theorem idx64_eq_idx (fits : ticket * stride < 2 ^ 64) :
    idx64 kSlotPadding ticket cap stride = idx kSlotPadding ticket cap stride := by
  rw [idx64, idx, Nat.mod_eq_of_lt fits]

theorem computeStride_pos (cap : Nat) : 0 < computeStride cap := by
  have step : ∀ (strides : List Nat) (best : Nat × Nat), (∀ stride ∈ strides, 0 < stride) →
      0 < best.1 → 0 < (strides.foldl (tryStride cap) best).1 := by
    intro strides
    induction strides with
    | nil => exact fun best _ positive => positive
    | cons stride rest ih =>
        intro best positive found
        rw [List.forall_mem_cons] at positive
        apply ih _ positive.2
        unfold tryStride
        split
        · exact found
        · dsimp only
          split
          · exact positive.1
          · exact found
  exact step smallPrimes (1, 1) (by decide) Nat.one_pos

theorem idx_mem_Ico (positive : 0 < cap) :
    idx kSlotPadding ticket cap stride ∈ Finset.Ico kSlotPadding (kSlotPadding + cap) := by
  rw [Finset.mem_Ico, idx]
  have inside := Nat.mod_lt (ticket * stride) positive
  omega

/-- Tickets less than `cap` apart are on different slots. -/
theorem injOn_idx (coprime : cap.Coprime stride) (first : Nat) :
    Set.InjOn (fun ticket => idx kSlotPadding ticket cap stride)
      (Finset.Ico first (first + cap)) := by
  intro ticket inside other otherInside same
  simp only [Finset.coe_Ico, Set.mem_Ico] at inside otherInside
  apply idx_injOn coprime _ _ same
  · exact inside.2.trans_le (Nat.add_le_add_right otherInside.1 cap)
  · exact otherInside.2.trans_le (Nat.add_le_add_right inside.1 cap)

/-- Tickets on one slot that share a 32-bit turn are far apart. -/
theorem eq_of_turns (coprime : cap.Coprime stride)
    (sameSlot : idx kSlotPadding ticket cap stride = idx kSlotPadding other cap stride)
    (sameTurn : enqueueTurn ticket cap = enqueueTurn other cap)
    (near : ticket < other + 2 ^ 31 * cap) (otherNear : other < ticket + 2 ^ 31 * cap) :
    ticket = other := by
  have residue : ticket % cap = other % cap :=
    Nat.ModEq.cancel_right_of_coprime coprime (Nat.add_right_cancel sameSlot)
  have turns : turn ticket cap % 2 ^ 31 = turn other cap % 2 ^ 31 := by
    unfold enqueueTurn turn32 at sameTurn
    omega
  have split := Nat.div_add_mod ticket cap
  have otherSplit := Nat.div_add_mod other cap
  have close : ∀ {low high : Nat}, high < low + 2 ^ 31 * cap → high % cap = low % cap →
      high / cap < low / cap + 2 ^ 31 := by
    intro low high within residue
    by_contra far
    have rounds : cap * (low / cap + 2 ^ 31) ≤ cap * (high / cap) :=
      Nat.mul_le_mul_left cap (Nat.le_of_not_lt far)
    have lowSplit := Nat.div_add_mod low cap
    have highSplit := Nat.div_add_mod high cap
    rw [Nat.mul_add, Nat.mul_comm cap (2 ^ 31)] at rounds
    omega
  have upper := close near residue
  have lower := close otherNear residue.symm
  have sameRound : ticket / cap = other / cap := by
    unfold turn at turns
    omega
  rw [← split, ← otherSplit, sameRound, residue]

end Arithmetic

/-- How tickets are laid out over the slots of a queue. -/
structure SlotAddressing (kSlotPadding cap : Nat) : Prop where
  positive : 0 < computeStride cap
  coprime : (computeStride cap).Coprime cap
  /-- `cap` tickets in a row are on every slot once. -/
  visits : ∀ first,
    (∀ ticket ∈ Finset.Ico first (first + cap), ticket * computeStride cap < 2 ^ 64) →
    Set.BijOn (fun ticket => idx64 kSlotPadding ticket cap (computeStride cap))
      (Finset.Ico first (first + cap)) (Finset.Ico kSlotPadding (kSlotPadding + cap))
  /-- No slot and turn is for two of the operations on two tickets. -/
  apart : ∀ ticket other, ticket ≠ other →
    ticket * computeStride cap < 2 ^ 64 → other * computeStride cap < 2 ^ 64 →
    ticket < other + 2 ^ 31 * cap → other < ticket + 2 ^ 31 * cap →
    (slotTurns kSlotPadding cap ticket ++ slotTurns kSlotPadding cap other).Nodup

theorem slotAddressing (kSlotPadding cap : Nat) (positive : 0 < cap) :
    SlotAddressing kSlotPadding cap := by
  have coprime := coprime_computeStride cap
  constructor
  case positive => exact computeStride_pos cap
  case coprime => exact coprime.symm
  case visits =>
    intro first fits
    have agree : Set.EqOn (fun ticket => idx kSlotPadding ticket cap (computeStride cap))
        (fun ticket => idx64 kSlotPadding ticket cap (computeStride cap))
        (Finset.Ico first (first + cap)) := by
      intro ticket inside
      exact (idx64_eq_idx (fits ticket inside)).symm
    have maps : Set.MapsTo (fun ticket => idx kSlotPadding ticket cap (computeStride cap))
        (Finset.Ico first (first + cap)) (Finset.Ico kSlotPadding (kSlotPadding + cap)) :=
      fun ticket _ => idx_mem_Ico positive
    have injective : Set.InjOn (fun ticket => idx kSlotPadding ticket cap (computeStride cap))
        (Finset.Ico first (first + cap)) := injOn_idx coprime first
    refine Set.BijOn.congr ⟨maps, injective, ?_⟩ agree
    apply Finset.surjOn_of_injOn_of_card_le _ maps injective
    rw [Nat.card_Ico, Nat.card_Ico, Nat.add_sub_cancel_left, Nat.add_sub_cancel_left]
  case apart =>
    intro ticket other distinct fits otherFits near otherNear
    have turns : idx64 kSlotPadding ticket cap (computeStride cap) =
        idx64 kSlotPadding other cap (computeStride cap) →
        turn32 ticket cap * 2 % 2 ^ 32 ≠ turn32 other cap * 2 % 2 ^ 32 := by
      intro sameSlot sameTurn
      rw [idx64_eq_idx fits, idx64_eq_idx otherFits] at sameSlot
      exact distinct (eq_of_turns coprime sameSlot sameTurn near otherNear)
    simp only [slotTurns, enqueueTurn, dequeueTurn, List.cons_append, List.nil_append,
      List.nodup_cons, List.mem_cons, Prod.mk.injEq, List.not_mem_nil, or_false, not_or, not_and,
      List.nodup_nil, not_false_eq_true, and_true]
    omega

/-- Five slots, which the tickets visit two apart. -/
theorem slotAddressing_five : computeStride 5 = 2 ∧ SlotAddressing 16 5 :=
  ⟨by decide, slotAddressing 16 5 (by decide)⟩

end ThreadPoolExec.MPMCQueue
