import ThreadPoolExec.MPMCQueue.DynamicProperties

/-!
# Ticket promises of the dynamic queue

The array of a ticket is fixed once the ticket was looked up, so what a call
has tested in that array lasts through the expansions, and the argument is
that of the static queue on the cells of the array.
-/

set_option autoImplicit false

namespace ThreadPoolExec.MPMCQueue.Dynamic

open Interleaving TurnCells

universe u

variable {V : Type u} {layout : Layout}

/-- The cell of a ticket in an array is at the ticket's turn. -/
def Memory.OnTurn (memory : Memory V) (layout : Layout) (array : ClosedArray) (storing : Bool)
    (ticket : Nat) : Prop :=
  (memory.cells (array.place layout ticket).1).At (array.place layout ticket).2 storing

/-- The other side has come so far that a ticket waits for issued tickets only. -/
def Memory.Covers (memory : Memory V) (array : ClosedArray) (storing : Bool) (ticket : Nat) :
    Prop :=
  if storing then ticket < memory.popTicket + array.capacity else ticket < memory.pushTicket

theorem covers_of_promised {memory : Memory V} {array : ClosedArray} {side : Side V}
    {ticket count : Nat} (stale : count ≤ memory.other side)
    (promised : unpromised array.capacity ticket count side ≠ true) :
    memory.Covers array (Side.pushes side) ticket := by
  cases side with
  | push value =>
      have room : ticket < count + array.capacity := lt_of_not_full promised
      have stale : count ≤ memory.popTicket := stale
      have bound : ticket < memory.popTicket + array.capacity := by omega
      exact bound
  | pop =>
      have more : ¬ count ≤ ticket := fun empty => promised (decide_eq_true empty)
      exact Nat.lt_of_lt_of_le (Nat.lt_of_not_le more) stale

theorem Memory.Covers.mono {memory after : Memory V} {array : ClosedArray} {storing : Bool}
    {ticket : Nat} (pushes : memory.pushTicket ≤ after.pushTicket)
    (pops : memory.popTicket ≤ after.popTicket) (covers : memory.Covers array storing ticket) :
    after.Covers array storing ticket := by
  cases storing with
  | true =>
      have bound : ticket < memory.popTicket + array.capacity := covers
      exact Nat.lt_of_lt_of_le bound (Nat.add_le_add_right pops _)
  | false =>
      have bound : ticket < memory.pushTicket := covers
      exact Nat.lt_of_lt_of_le bound pushes

/-! ## Calls on the way to a promise -/

/-- A try of a call that was promised its ticket, or looks for such a ticket. -/
def TryingPromised (memory : Memory V) (attempt : Attempt V) : Trying → Prop
  | .cas array => memory.Covers array (Side.pushes attempt.side) attempt.ticket
  | _ => True

def Pc.PromisedPath (memory : Memory V) : Pc V → Prop
  | .begin kind _ => ∃ timed, kind = .promised timed
  | .trying attempt at_ =>
      (∃ timed, attempt.kind = .promised timed) ∧ attempt.other ≤ memory.other attempt.side ∧
        TryingPromised memory attempt at_
  | .holding array holder => memory.Covers array holder.phase.storing holder.ticket
  | .wrote array ticket _ => memory.Covers array true ticket
  | .read array ticket _ => memory.Covers array false ticket
  | .refused _ | .assertFailed => True

section Steps

variable {memory after : Memory V} {pc next : Pc V} {attempt : Attempt V} {array : ClosedArray}
  {rest : List (Call V)} {choice : Choice}

theorem retry_of_searching (kindIs : attempt.kind ≠ .blocking) :
    attempt.retry = .begin attempt.kind attempt.side := by
  unfold Attempt.retry
  split
  · next isBlocking => exact absurd isBlocking kindIs
  · rfl

theorem refuse_cases (attempt : Attempt V) (again : Bool) :
    attempt.refuse again = .begin attempt.kind attempt.side ∨
      attempt.refuse again = .refused attempt.side := by
  unfold Attempt.refuse
  split
  · split
    · exact .inl rfl
    · exact .inr rfl
  · exact .inr rfl

theorem other_le (pushes : memory.pushTicket ≤ after.pushTicket)
    (pops : memory.popTicket ≤ after.popTicket) (side : Side V) :
    memory.other side ≤ after.other side := by
  cases side with
  | push value => exact pops
  | pop => exact pushes

theorem Pc.PromisedPath.mono (pushes : memory.pushTicket ≤ after.pushTicket)
    (pops : memory.popTicket ≤ after.popTicket) (path : pc.PromisedPath memory) :
    pc.PromisedPath after := by
  cases pc with
  | trying attempt at_ =>
      obtain ⟨kindIs, stale, tried⟩ := path
      refine ⟨kindIs, Nat.le_trans stale (other_le pushes pops _), ?_⟩
      cases at_ with
      | cas array => exact Memory.Covers.mono pushes pops tried
      | _ => trivial
  | holding array holder => exact Memory.Covers.mono pushes pops path
  | wrote array ticket value => exact Memory.Covers.mono pushes pops path
  | read array ticket value => exact Memory.Covers.mono pushes pops path
  | _ => exact path

private theorem held_promised (covers : memory.Covers array (Side.pushes attempt.side) attempt.ticket) :
    (attempt.held array).PromisedPath memory := by
  cases sideIs : attempt.side <;> rw [sideIs] at covers <;>
    simp only [Attempt.held, sideIs] <;> exact covers

private theorem promisedPath_leads {at_ : Trying} {timed : Bool}
    (kindIs : attempt.kind = .promised timed) (stale : attempt.other ≤ memory.other attempt.side)
    (tried : TryingPromised memory attempt at_) (leads : Leads layout memory attempt at_ next) :
    next.PromisedPath memory := by
  have searching : attempt.kind ≠ .blocking := by simp [kindIs]
  cases leads with
  | loaded => exact ⟨⟨timed, kindIs⟩, Nat.le_refl _, trivial⟩
  | @moves _ then_ plain =>
      refine ⟨⟨timed, kindIs⟩, stale, ?_⟩
      cases then_ with
      | cas array => exact absurd rfl (plain array)
      | _ => trivial
  | ready isReady => rw [kindIs] at isReady; cases isReady
  | promised _ test => exact ⟨⟨timed, kindIs⟩, stale, covers_of_promised stale test⟩
  | retry =>
      rw [retry_of_searching searching]
      exact ⟨timed, kindIs⟩
  | refused again =>
      rcases refuse_cases attempt again with begins | refused
      · rw [begins]
        exact ⟨timed, kindIs⟩
      · rw [refused]
        trivial
  | won => exact held_promised tried
  | owned _ isBlocking => exact absurd isBlocking searching
  | failed => trivial

theorem promisedPath_next (stepped : pc.next layout choice memory = some (after, next))
    (path : pc.PromisedPath memory) : next.PromisedPath after := by
  obtain ⟨-, pushes, pops, -⟩ := counters_next stepped
  cases pc with
  | begin kind side =>
      obtain ⟨timed, rfl⟩ := path
      cases stepped
      exact ⟨⟨timed, rfl⟩, Nat.zero_le _, trivial⟩
  | trying attempt at_ =>
      obtain ⟨⟨timed, kindIs⟩, stale, tried⟩ := path
      obtain ⟨-, leads⟩ := trying_leads stepped
      exact (promisedPath_leads kindIs stale tried leads).mono pushes pops
  | holding array holder =>
      simp only [Pc.next] at stepped
      split at stepped
      · cases stepped
      · next cell left advanced =>
          cases stepped
          cases left with
          | inl phase =>
              have side := advance_inl advanced
              show memory.Covers array phase.storing holder.ticket
              rw [side]
              exact path
          | inr value =>
              have covers : memory.Covers array holder.phase.storing holder.ticket := path
              simp only [Pc.advanced]
              split
              · next storing =>
                  rw [storing] at covers
                  exact covers
              · next taking =>
                  rw [Bool.eq_false_iff.mpr taking] at covers
                  exact covers
  | wrote array ticket value => cases stepped
  | read array ticket value => cases stepped
  | refused side => cases stepped
  | assertFailed => cases stepped

theorem OnTurn.advances {storing : Bool} {ticket : Nat} (advances : Advances memory after)
    (come : memory.OnTurn layout array storing ticket) :
    after.OnTurn layout array storing ticket := by
  unfold Memory.OnTurn
  rw [advances.cells]
  exact come

/-- A holder's ticket was given out. -/
theorem Coherent.issued {calls : List (Call V)} {call : Call V} {holder : Holder V}
    (coherent : Coherent layout memory calls) (member : call ∈ calls)
    (pcIs : call.pc = .holding array holder) :
    holder.ticket < memory.dispensed holder.phase.storing := by
  have own : call.pc.owns holder.phase.storing holder.ticket = 1 := by
    rw [pcIs]
    cases side : holder.phase.storing <;>
      simp [Pc.owns, Pc.owned?, Pc.stores, Pc.takes, Pc.stored?, Pc.taken?, side]
  have counted : call.pc.owns holder.phase.storing holder.ticket ≤
      Dynamic.owners holder.phase.storing holder.ticket calls :=
    weight_le_total (fun call : Call V => call.pc.owns holder.phase.storing holder.ticket) member
  rw [own, coherent.owners] at counted
  split at counted
  · assumption
  · exact absurd counted (Nat.not_succ_le_zero 0)

end Steps

/-! ## What a call is promised -/

/-- `write` and `read`. -/
def Operation.ready : Operation V → Bool
  | .write _ | .read => true
  | _ => false

/-- `writeIfNotFull` and `readIfNotEmpty`, with a deadline or without. -/
def Operation.promised : Operation V → Bool
  | .writeIfNotFull _ | .tryWriteUntil _ | .readIfNotEmpty | .tryReadUntil => true
  | _ => false

section Runs

variable {state begun later : Global (Memory V) (Call V)} {operation : Operation V}
  {labels : List (Label Choice (Operation V))}

/-- A ticket that was given out is with a call. -/
theorem Coherent.exists_owner {memory : Memory V} {calls : List (Call V)} {pushes : Bool}
    {ticket : Nat} (coherent : Coherent layout memory calls)
    (given : ticket < memory.dispensed pushes) :
    ∃ call ∈ calls, call.pc.owns pushes ticket = 1 := by
  have count := coherent.owners pushes ticket
  rw [if_pos given] at count
  obtain ⟨call, member, owns⟩ := total_pos_iff.mp (count ▸ Nat.one_pos)
  have atMost : call.pc.owns pushes ticket ≤ 1 := by
    have single := weight_le_total (fun call : Call V => call.pc.owns pushes ticket) member
    exact Nat.le_trans single (Nat.le_of_eq count)
  exact ⟨call, member, Nat.le_antisymm atMost owns⟩

end Runs

end ThreadPoolExec.MPMCQueue.Dynamic
