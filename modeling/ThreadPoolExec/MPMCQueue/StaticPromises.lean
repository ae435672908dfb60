import ThreadPoolExec.MPMCQueue.StaticProperties

/-!
# Ticket promises of the static queue

The test that a call makes for its ticket and the CAS that wins it are
separate steps. What the test saw lasts: the slot of a ticket that nobody has
moves only with the ticket, and the dispensers only grow.
-/

set_option autoImplicit false

namespace ThreadPoolExec.MPMCQueue

open Interleaving TurnCells

universe u

variable {V : Type u} {layout : Layout}

def Side.storing : Side V → Bool
  | .push _ => true
  | .pop => false

/-- The slot of a ticket is at the ticket's turn. -/
def Memory.OnTurn (memory : Memory V) (layout : Layout) (storing : Bool) (ticket : Nat) : Prop :=
  (memory.slotAt (layout.place ticket)).At (layout.place ticket).2 storing

/-- The other side has come so far that a ticket waits for issued tickets only. -/
def Memory.Covers (memory : Memory V) (layout : Layout) (storing : Bool) (ticket : Nat) : Prop :=
  if storing then ticket < memory.popTicket + layout.capacity else ticket < memory.pushTicket

theorem covers_of_promised {memory : Memory V} {side : Side V} {ticket : Nat}
    (promised : ¬ unpromised layout.capacity ticket (memory.other side) side = true) :
    memory.Covers layout side.storing ticket := by
  cases side with
  | push value =>
      have bound : ticket < memory.popTicket + layout.capacity := lt_of_not_full promised
      exact bound
  | pop =>
      have some : ¬ memory.pushTicket ≤ ticket := fun empty => promised (decide_eq_true empty)
      exact Nat.lt_of_not_le some

theorem Memory.Covers.mono {memory after : Memory V} {storing : Bool} {ticket : Nat}
    (grows : memory.pushTicket ≤ after.pushTicket ∧ memory.popTicket ≤ after.popTicket)
    (covers : memory.Covers layout storing ticket) : after.Covers layout storing ticket := by
  cases storing with
  | true =>
      have bound : ticket < memory.popTicket + layout.capacity := covers
      exact Nat.lt_of_lt_of_le bound (Nat.add_le_add_right grows.2 _)
  | false =>
      have bound : ticket < memory.pushTicket := covers
      exact Nat.lt_of_lt_of_le bound grows.1

/-! ## Calls on the way to a promise -/

/-- A call that was promised its ticket, or looks for such a ticket. -/
def Pc.PromisedPath (layout : Layout) (memory : Memory V) : Pc V → Prop
  | .promisedLoad _ | .promisedCompare _ _ | .untilLoad _ _ | .untilCompare _ _ _
  | .untilWait _ _ _ | .refused _ => True
  | .promisedCas side count | .untilCas side _ count => memory.Covers layout side.storing count
  | .holding holder => memory.Covers layout holder.phase.storing holder.ticket
  | .wrote ticket _ => memory.Covers layout true ticket
  | .read ticket _ => memory.Covers layout false ticket
  | _ => False

section Steps

variable {memory after : Memory V} {pc next : Pc V} {id : Nat} {rest : List (Call V)}

private theorem grant_covers {side : Side V}
    (covers : memory.Covers layout side.storing (memory.dispenser side)) :
    (Pc.holding (memory.grant side).2).PromisedPath layout (memory.grant side).1 := by
  cases side with
  | push value => exact covers
  | pop => exact covers

private theorem advanced_covers {holder : Holder V} {slot changed : Cell V} {turn : Nat}
    {left : Phase V ⊕ V} (advanced : slot.advance turn holder.phase = some (changed, left))
    (covers : memory.Covers layout holder.phase.storing holder.ticket) :
    (Pc.advanced holder left).PromisedPath layout memory := by
  cases left with
  | inl phase =>
      have side := advance_inl advanced
      show memory.Covers layout phase.storing holder.ticket
      rw [side]
      exact covers
  | inr value =>
      simp only [Pc.advanced]
      split
      · next storing =>
          rw [storing] at covers
          exact covers
      · next taking =>
          rw [Bool.eq_false_iff.mpr taking] at covers
          exact covers

theorem promisedPath_next (stepped : pc.next layout memory = some (after, next))
    (path : pc.PromisedPath layout memory) : next.PromisedPath layout after := by
  cases pc with
  | promisedLoad side =>
      cases stepped
      trivial
  | untilLoad side waits =>
      cases stepped
      trivial
  | promisedCompare side count =>
      simp only [Pc.next] at stepped
      split at stepped
      · cases stepped
        trivial
      · next promised =>
          cases stepped
          exact covers_of_promised promised
  | untilCompare side waits count =>
      simp only [Pc.next] at stepped
      split at stepped
      · cases stepped
        trivial
      · next promised =>
          cases stepped
          exact covers_of_promised promised
  | promisedCas side count =>
      simp only [Pc.next] at stepped
      split at stepped
      · next current =>
          cases stepped
          subst current
          exact grant_covers path
      · cases stepped
        trivial
  | untilCas side waits count =>
      simp only [Pc.next] at stepped
      split at stepped
      · next current =>
          cases stepped
          subst current
          exact grant_covers path
      · cases stepped
        trivial
  | untilWait side waits ticket =>
      cases waits with
      | zero =>
          cases stepped
          trivial
      | succ waits =>
          simp only [Pc.next] at stepped
          split at stepped
          · cases stepped
            trivial
          · cases stepped
  | holding holder =>
      simp only [Pc.next] at stepped
      split at stepped
      · cases stepped
      · next slot left advanced =>
          cases stepped
          exact advanced_covers advanced path
  | wrote ticket value => cases stepped
  | read ticket value => cases stepped
  | refused side => cases stepped
  | _ => cases path

theorem Pc.PromisedPath.mono
    (grows : memory.pushTicket ≤ after.pushTicket ∧ memory.popTicket ≤ after.popTicket)
    (path : pc.PromisedPath layout memory) : pc.PromisedPath layout after := by
  cases pc <;> first | exact path | exact Memory.Covers.mono grows path

/-- A holder's ticket was given out. -/
theorem Coherent.issued {calls : List (Call V)} {holder : Holder V}
    (coherent : Coherent layout memory calls) (held : holder ∈ holders calls) :
    if holder.phase.storing then holder.ticket < memory.pushTicket
    else holder.ticket < memory.popTicket := by
  split
  · next storing =>
      obtain ⟨value, stores⟩ := stores_of_storing storing
      have pushed := coherent.sequenced.value_of_storing held stores
      rw [coherent.pushTicket]
      exact (List.getElem?_eq_some_iff.mp pushed).1
  · next taking =>
      have given := coherent.sequenced.given_of_taking held (Bool.eq_false_iff.mpr taking)
      exact of_decide_eq_true given

end Steps

/-! ## What a call is promised -/

/-- `write` and `read`. -/
def Operation.ready : Operation V → Bool
  | .write _ | .read => true
  | _ => false

/-- `writeIfNotFull` and `readIfNotEmpty`, with a deadline or without. -/
def Operation.promised : Operation V → Bool
  | .writeIfNotFull _ | .tryWriteUntil _ _ | .readIfNotEmpty | .tryReadUntil _ => true
  | _ => false

section Runs

variable {state begun later : Global (Memory V) (Call V)} {operation : Operation V}
  {labels : List (Label Unit (Operation V))}

end Runs

end ThreadPoolExec.MPMCQueue
