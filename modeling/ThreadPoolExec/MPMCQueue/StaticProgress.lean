import ThreadPoolExec.MPMCQueue.StaticFailures
import ThreadPoolExec.MPMCQueue.StaticPromises
import ThreadPoolExec.Quiescence

/-!
# Progress of the static queue

A call that holds a ticket waits for its turn, and the turns of a slot go to
other tickets first. Whoever is due on the slot can go ahead, so a call waits
for ever only where nobody has come for the other side; and a call without a
ticket repeats its loop only because other calls got theirs.
-/

set_option autoImplicit false

namespace ThreadPoolExec.MPMCQueue

open Interleaving TurnCells

universe u

variable {V : Type u} {layout : Layout}

/-! ## Whom a blocked call waits for -/

/-- The turn of a ticket needs a ticket of the other side that has not been
given out. -/
def Starved (layout : Layout) (memory : Memory V) (holder : Holder V) : Prop :=
  if holder.phase.storing then memory.popTicket + layout.capacity ≤ holder.ticket
  else memory.pushTicket ≤ holder.ticket

section Blocked

variable {memory : Memory V} {calls : List (Call V)} {holder : Holder V}

theorem next_holding_eq_none :
    (Pc.holding holder).next layout memory = none ↔
      (memory.slots (layout.place holder.ticket).1).advance (layout.place holder.ticket).2
        holder.phase = none := by
  simp only [Pc.next, Memory.slotAt]
  split
  · next stuck => simp [stuck]
  · next slot left advanced => simp [advanced]

/-- A holder whose half of the turn has come is with a call that has a step. -/
private theorem Coherent.exists_step (coherent : Coherent layout memory calls)
    {ticket : Nat} {storing : Bool}
    (come : (memory.slots (layout.place ticket).1).At (layout.place ticket).2 storing)
    (given : if storing then ticket < memory.pushTicket else ticket < memory.popTicket) :
    ∃ call ∈ calls, ∃ due, call.pc = .holding due ∧ due.ticket = ticket ∧
      call.pc.next layout memory ≠ none := by
  have isGiven : if storing then (memory.pushed[ticket]?).isSome
      else decide (ticket < memory.popTicket) = true := by
    cases storing with
    | true =>
        have inside : ticket < memory.pushed.length := coherent.pushTicket ▸ given
        simp [inside]
    | false => exact decide_eq_true given
  obtain ⟨due, held, rfl, side⟩ := coherent.sequenced.exists_holder_of_at come isGiven
  obtain ⟨slot, left, advanced⟩ := coherent.sequenced.advances held (side ▸ come)
  obtain ⟨call, member, holding⟩ := List.mem_filterMap.mp held
  have pcIs : call.pc = .holding due := by
    cases pcIs : call.pc <;> rw [pcIs] at holding <;> cases holding
    rfl
  refine ⟨call, member, due, pcIs, rfl, fun stuck => ?_⟩
  rw [pcIs, next_holding_eq_none, advanced] at stuck
  cases stuck

/-- A blocked holder waits for a ticket that was not given out, or for a call
on the same slot that has a step. -/
theorem Coherent.starved_or_due (positive : 0 < layout.capacity)
    (coherent : Coherent layout memory calls) (held : holder ∈ holders calls)
    (blocked : (Pc.holding holder).next layout memory = none) :
    Starved layout memory holder ∨
      ∃ call ∈ calls, ∃ due, call.pc = .holding due ∧
        (layout.place due.ticket).1 = (layout.place holder.ticket).1 ∧
        call.pc.next layout memory ≠ none := by
  have before := coherent.sequenced.turn_lt_of_blocked held (next_holding_eq_none.mp blocked)
  have issued := coherent.issued held
  -- the ticket whose turn the slot is at
  obtain ⟨current, placed⟩ := Layout.exists_place positive holder.ticket
    ((memory.slots (layout.place holder.ticket).1).turn / 2)
  have sameSlot : (layout.place current).1 = (layout.place holder.ticket).1 := by rw [placed]
  have turnIs : (layout.place current).2 =
      (memory.slots (layout.place holder.ticket).1).turn / 2 := by rw [placed]
  have earlier : (layout.place current).2 < (layout.place holder.ticket).2 →
      current + layout.capacity ≤ holder.ticket := fun turns =>
    add_capacity_le_of_turn_lt (coprime_computeStride layout.capacity) sameSlot turns
  have notLater : (layout.place current).2 ≤ (layout.place holder.ticket).2 →
      current ≤ holder.ticket := by
    intro turns
    rcases Nat.lt_or_eq_of_le turns with turns | same
    · have := earlier turns
      omega
    · exact Nat.le_of_eq (layout.place_injective (Prod.ext sameSlot same))
  have half : (memory.slots (layout.place current).1).At (layout.place current).2
      (decide ((memory.slots (layout.place holder.ticket).1).turn % 2 = 0)) := by
    unfold Cell.At
    rw [sameSlot, turnIs]
    split
    · next even =>
        have := of_decide_eq_true even
        omega
    · next odd =>
        have : ¬ _ = 0 := fun even => odd (decide_eq_true even)
        omega
  by_cases given : if decide ((memory.slots (layout.place holder.ticket).1).turn % 2 = 0) then
      current < memory.pushTicket else current < memory.popTicket
  · obtain ⟨call, member, due, pcIs, rfl, steps⟩ := coherent.exists_step half given
    exact .inr ⟨call, member, due, pcIs, sameSlot, steps⟩
  · refine .inl ?_
    unfold Starved
    split
    · next storing =>
        rw [if_pos storing] at before issued
        split at given
        · have := notLater (by omega)
          omega
        · next odd =>
            have : ¬ _ = 0 := fun even => odd (decide_eq_true even)
            have := earlier (by omega)
            omega
    · next taking =>
        rw [if_neg taking] at before issued
        have := notLater (by omega)
        split at given
        · omega
        · omega

end Blocked

/-- The count that a call will compare with the dispenser of its side. -/
def Pc.loaded : Pc V → Option (Side V × Nat)
  | .readyProbe side count | .readyReload side count | .readyCas side count
  | .promisedCompare side count | .promisedCas side count
  | .untilCompare side _ count | .untilCas side _ count => some (side, count)
  | _ => none

/-- A call that has loaded a count since overtaken goes around its loop once
more. -/
def Pc.overtaken (memory : Memory V) (pc : Pc V) : Nat :=
  match pc.loaded with
  | some (side, count) => if memory.dispenser side = count then 0 else 3
  | none => 0

/-- The steps of a call that nobody overtakes. -/
def Pc.stepsLeft : Pc V → Nat
  | .fetchAdd _ => 1
  | .readyLoad _ => 4
  | .readyProbe _ _ => 3
  | .readyReload _ _ | .readyCas _ _ => 2
  | .promisedLoad _ => 3
  | .promisedCompare _ _ => 2
  | .promisedCas _ _ => 1
  | .untilLoad _ waits => 5 * waits + 4
  | .untilCompare _ waits _ => 5 * waits + 3
  | .untilCas _ waits _ => 5 * waits + 2
  | .untilWait _ waits _ => 5 * waits + 1
  | .holding holder => holder.phase.stepsLeft
  | .wrote _ _ | .read _ _ | .refused _ => 0

def Pc.seeks (pc : Pc V) : Nat :=
  if pc.searching then 1 else 0

/-- A call that gets a ticket overtakes at most those that are still without
one, which is what the square pays for. -/
def work (memory : Memory V) (calls : List (Call V)) : Nat :=
  total (fun call => call.pc.stepsLeft + call.pc.overtaken memory) calls +
    3 * (total (fun call => call.pc.seeks) calls * total (fun call => call.pc.seeks) calls)

section Work

variable {memory after : Memory V} {pc next : Pc V}

theorem overtaken_le (memory : Memory V) (pc : Pc V) : pc.overtaken memory ≤ 3 * pc.seeks := by
  unfold Pc.overtaken Pc.seeks
  cases pc <;> simp only [Pc.loaded, Pc.searching, if_true, Bool.false_eq_true, if_false] <;>
    first | omega | (split <;> omega)

theorem overtaken_of_dispenser (same : ∀ side : Side V, after.dispenser side = memory.dispenser side)
    (pc : Pc V) : pc.overtaken after = pc.overtaken memory := by
  unfold Pc.overtaken
  split
  · rw [same]
  · rfl

theorem stepsLeft_advanced (holder : Holder V) (left : Phase V ⊕ V) :
    (Pc.advanced holder left).stepsLeft + (Pc.advanced holder left).overtaken memory =
      left.elim Phase.stepsLeft fun _ => 0 := by
  cases left with
  | inl phase => rfl
  | inr value =>
      simp only [Pc.advanced]
      split <;> rfl

/-- What a step does to the work: it is a step of the call alone, or gives a
ticket to a call without one. -/
theorem next_spends (stepped : pc.next layout memory = some (after, next)) :
    ((∀ side : Side V, after.dispenser side = memory.dispenser side) ∧ next.seeks ≤ pc.seeks ∧
      next.stepsLeft + next.overtaken after < pc.stepsLeft + pc.overtaken memory) ∨
    (pc.seeks = 1 ∧ next.seeks = 0 ∧
      next.stepsLeft + next.overtaken after ≤ pc.stepsLeft + pc.overtaken memory + 2) := by
  cases pc with
  | fetchAdd side =>
      cases stepped
      refine .inr ⟨rfl, rfl, ?_⟩
      cases side <;> exact Nat.le_refl 3
  | readyLoad side =>
      cases stepped
      refine .inl ⟨fun _ => rfl, Nat.le_refl _, ?_⟩
      simp [Pc.stepsLeft, Pc.overtaken, Pc.loaded]
  | readyProbe side ticket =>
      simp only [Pc.next] at stepped
      split at stepped
      all_goals
        cases stepped
        refine .inl ⟨fun _ => rfl, Nat.le_refl _, ?_⟩
        simp [Pc.stepsLeft, Pc.overtaken, Pc.loaded]
  | readyReload side ticket =>
      simp only [Pc.next] at stepped
      split at stepped
      · cases stepped
        refine .inl ⟨fun _ => rfl, Nat.zero_le _, ?_⟩
        simp only [Pc.stepsLeft, Pc.overtaken, Pc.loaded]
        omega
      · next moved =>
          cases stepped
          refine .inl ⟨fun _ => rfl, Nat.le_refl _, ?_⟩
          simp [Pc.stepsLeft, Pc.overtaken, Pc.loaded, moved]
  | readyCas side ticket =>
      simp only [Pc.next] at stepped
      split at stepped
      · cases stepped
        refine .inr ⟨rfl, rfl, ?_⟩
        cases side <;>
          simp only [Pc.stepsLeft, Phase.stepsLeft, Pc.overtaken, Pc.loaded, Memory.grant] <;> omega
      · next moved =>
          cases stepped
          refine .inl ⟨fun _ => rfl, Nat.le_refl _, ?_⟩
          simp [Pc.stepsLeft, Pc.overtaken, Pc.loaded, moved]
  | promisedLoad side =>
      cases stepped
      refine .inl ⟨fun _ => rfl, Nat.le_refl _, ?_⟩
      simp [Pc.stepsLeft, Pc.overtaken, Pc.loaded]
  | promisedCompare side count =>
      simp only [Pc.next] at stepped
      split at stepped
      · cases stepped
        refine .inl ⟨fun _ => rfl, Nat.zero_le _, ?_⟩
        simp only [Pc.stepsLeft, Pc.overtaken, Pc.loaded]
        omega
      · cases stepped
        refine .inl ⟨fun _ => rfl, Nat.le_refl _, ?_⟩
        simp [Pc.stepsLeft, Pc.overtaken, Pc.loaded]
  | promisedCas side count =>
      simp only [Pc.next] at stepped
      split at stepped
      · cases stepped
        refine .inr ⟨rfl, rfl, ?_⟩
        cases side <;>
          simp only [Pc.stepsLeft, Phase.stepsLeft, Pc.overtaken, Pc.loaded, Memory.grant] <;> omega
      · next moved =>
          cases stepped
          refine .inl ⟨fun _ => rfl, Nat.le_refl _, ?_⟩
          simp [Pc.stepsLeft, Pc.overtaken, Pc.loaded, moved]
  | untilLoad side waits =>
      cases stepped
      refine .inl ⟨fun _ => rfl, Nat.le_refl _, ?_⟩
      simp [Pc.stepsLeft, Pc.overtaken, Pc.loaded]
  | untilCompare side waits count =>
      simp only [Pc.next] at stepped
      split at stepped
      · cases stepped
        refine .inl ⟨fun _ => rfl, Nat.le_refl _, ?_⟩
        simp only [Pc.stepsLeft, Pc.overtaken, Pc.loaded]
        omega
      · cases stepped
        refine .inl ⟨fun _ => rfl, Nat.le_refl _, ?_⟩
        simp [Pc.stepsLeft, Pc.overtaken, Pc.loaded]
  | untilCas side waits count =>
      simp only [Pc.next] at stepped
      split at stepped
      · cases stepped
        refine .inr ⟨rfl, rfl, ?_⟩
        cases side <;>
          simp only [Pc.stepsLeft, Phase.stepsLeft, Pc.overtaken, Pc.loaded, Memory.grant] <;> omega
      · next moved =>
          cases stepped
          refine .inl ⟨fun _ => rfl, Nat.le_refl _, ?_⟩
          simp only [Pc.stepsLeft, Pc.overtaken, Pc.loaded, if_neg moved, if_true]
          omega
  | untilWait side waits ticket =>
      cases waits with
      | zero =>
          cases stepped
          refine .inl ⟨fun _ => rfl, Nat.zero_le _, ?_⟩
          simp [Pc.stepsLeft, Pc.overtaken, Pc.loaded]
      | succ waits =>
          simp only [Pc.next] at stepped
          split at stepped
          · cases stepped
            refine .inl ⟨fun _ => rfl, Nat.le_refl _, ?_⟩
            simp only [Pc.stepsLeft, Pc.overtaken, Pc.loaded]
            omega
          · cases stepped
  | holding holder =>
      obtain ⟨ticket, phase⟩ := holder
      simp only [Pc.next] at stepped
      split at stepped
      · cases stepped
      · next slot left advanced =>
          cases stepped
          refine .inl ⟨fun side => by cases side <;> rfl, ?_, ?_⟩
          · cases left with
            | inl later => exact Nat.le_refl _
            | inr value =>
                simp only [Pc.advanced]
                split <;> exact Nat.le_refl _
          · rw [stepsLeft_advanced]
            exact Nat.lt_of_succ_le (Nat.le_of_eq (advance_stepsLeft advanced))
  | wrote ticket value => cases stepped
  | read ticket value => cases stepped
  | refused side => cases stepped

/-- Others lose by a ticket given out at most what they pay for beforehand. -/
private theorem total_stepsLeft_le (calls : List (Call V)) :
    total (fun call => call.pc.stepsLeft + call.pc.overtaken after) calls ≤
      total (fun call => call.pc.stepsLeft + call.pc.overtaken memory) calls +
        3 * total (fun call => call.pc.seeks) calls := by
  induction calls with
  | nil => exact Nat.zero_le _
  | cons call rest ih =>
      have lost := overtaken_le after call.pc
      simp only [total_cons]
      omega

private theorem total_stepsLeft_eq (same : ∀ side : Side V, after.dispenser side = memory.dispenser side)
    (calls : List (Call V)) :
    total (fun call => call.pc.stepsLeft + call.pc.overtaken after) calls =
      total (fun call => call.pc.stepsLeft + call.pc.overtaken memory) calls := by
  congr 1
  funext call
  rw [overtaken_of_dispenser same]

theorem work_spends (layout : Layout) :
    (system layout : System (Memory V) (Call V) Unit (Operation V)).Spends Label.acts
      fun state => work state.shared state.agents := by
  refine System.Spends.of_act ?_ ?_
  · intro memory calls others same
    unfold work
    rw [total_perm same, total_perm same]
  · intro choice memory call after left rest acted
    obtain ⟨next, stepped, rfl⟩ := act_eq_some choice acted
    simp only [work, List.singleton_append, total_cons]
    rcases next_spends stepped with ⟨same, seeks, less⟩ | ⟨sought, found, more⟩
    · have squares := Nat.mul_le_mul
        (Nat.add_le_add_right seeks (total (fun call => call.pc.seeks) rest))
        (Nat.add_le_add_right seeks (total (fun call => call.pc.seeks) rest))
      rw [total_stepsLeft_eq same]
      omega
    · have others := @total_stepsLeft_le _ memory after rest
      have square : ∀ count : Nat, (1 + count) * (1 + count) = count * count + 2 * count + 1 := by
        intro count
        simp only [Nat.add_mul, Nat.mul_add]
        omega
      rw [sought, found, square, Nat.zero_add]
      omega

end Work

/-! ## Where the calls end -/

/-- A call with a deadline waits for it, or for its turn. -/
def Pc.awaitsDeadline : Pc V → Bool
  | .untilWait _ (_ + 1) _ => true
  | _ => false

/-- Every call has returned, waits for its deadline, or holds a ticket of one
side that waits for the other side to come. -/
def Settled (layout : Layout) (storing : Bool) (memory : Memory V) (calls : List (Call V)) : Prop :=
  ∀ call ∈ calls, call.pc.running = true → call.pc.awaitsDeadline = true ∨
    ∃ holder, call.pc = .holding holder ∧ holder.phase.storing = storing ∧
      Starved layout memory holder

theorem next_eq_none {memory : Memory V} {pc : Pc V} (stuck : pc.next layout memory = none)
    (running : pc.running = true) :
    pc.awaitsDeadline = true ∨ ∃ holder, pc = .holding holder := by
  cases pc with
  | holding holder => exact .inr ⟨holder, rfl⟩
  | untilWait side waits ticket =>
      cases waits with
      | zero => cases stuck
      | succ waits => exact .inl rfl
  | readyProbe side ticket =>
      simp only [Pc.next] at stuck
      split at stuck <;> cases stuck
  | readyReload side ticket =>
      simp only [Pc.next] at stuck
      split at stuck <;> cases stuck
  | readyCas side ticket =>
      simp only [Pc.next] at stuck
      split at stuck <;> cases stuck
  | promisedCompare side count =>
      simp only [Pc.next] at stuck
      split at stuck <;> cases stuck
  | promisedCas side count =>
      simp only [Pc.next] at stuck
      split at stuck <;> cases stuck
  | untilCompare side waits count =>
      simp only [Pc.next] at stuck
      split at stuck <;> cases stuck
  | untilCas side waits count =>
      simp only [Pc.next] at stuck
      split at stuck <;> cases stuck
  | fetchAdd side => cases stuck
  | readyLoad side => cases stuck
  | promisedLoad side => cases stuck
  | untilLoad side waits => cases stuck
  | wrote ticket value => cases running
  | read ticket value => cases running
  | refused side => cases running

/-- Writes and reads do not starve each other at once. -/
theorem Coherent.starved_side {memory : Memory V} {calls : List (Call V)} {holder other : Holder V}
    (coherent : Coherent layout memory calls)
    (held : holder ∈ holders calls) (otherHeld : other ∈ holders calls)
    (starved : Starved layout memory holder) (otherStarved : Starved layout memory other) :
    holder.phase.storing = other.phase.storing := by
  have issued := coherent.issued held
  have otherIssued := coherent.issued otherHeld
  unfold Starved at starved otherStarved
  cases storing : holder.phase.storing <;> cases otherStoring : other.phase.storing <;>
    simp only [storing, otherStoring, if_true, Bool.false_eq_true, if_false] at * <;> omega

theorem settled_of_atRest (positive : 0 < layout.capacity) {state : Global (Memory V) (Call V)}
    (reached : Reachable (system layout) anySchedule state)
    (rests : (system layout).AtRest Label.acts state) :
    ∃ storing, Settled layout storing state.shared state.agents := by
  have coherent := reachable_coherent reached
  have stuck : ∀ call ∈ state.agents, call.pc.next layout state.shared = none := by
    intro call member
    exact Option.map_eq_none_iff.mp (rests.act_eq_none member ())
  have starves : ∀ call ∈ state.agents, ∀ holder, call.pc = .holding holder →
      holder ∈ holders state.agents ∧ Starved layout state.shared holder := by
    intro call member holder holding
    have held : holder ∈ holders state.agents :=
      List.mem_filterMap.mpr ⟨call, member, by rw [holding]; rfl⟩
    have blocked : (Pc.holding holder).next layout state.shared = none := holding ▸ stuck call member
    rcases coherent.starved_or_due positive held blocked with starved | ⟨other, otherMember, due, -, -, steps⟩
    · exact ⟨held, starved⟩
    · exact absurd (stuck other otherMember) steps
  by_cases writing : ∃ call ∈ state.agents, ∃ holder, call.pc = .holding holder ∧
      holder.phase.storing = true
  · obtain ⟨writer, writerMember, own, ownHolding, storing⟩ := writing
    obtain ⟨ownHeld, ownStarved⟩ := starves writer writerMember own ownHolding
    refine ⟨true, fun call member running => ?_⟩
    rcases next_eq_none (stuck call member) running with awaits | ⟨holder, holding⟩
    · exact .inl awaits
    · obtain ⟨held, starved⟩ := starves call member holder holding
      have side := coherent.starved_side held ownHeld starved ownStarved
      exact .inr ⟨holder, holding, side.trans storing, starved⟩
  · refine ⟨false, fun call member running => ?_⟩
    rcases next_eq_none (stuck call member) running with awaits | ⟨holder, holding⟩
    · exact .inl awaits
    · have taking : holder.phase.storing = false := by
        refine Bool.eq_false_iff.mpr fun storing => ?_
        exact writing ⟨call, member, holder, holding, storing⟩
      exact .inr ⟨holder, holding, taking, (starves call member holder holding).2⟩

end ThreadPoolExec.MPMCQueue
