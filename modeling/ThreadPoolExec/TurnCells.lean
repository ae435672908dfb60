import Mathlib.Data.List.Perm.Basic
import Mathlib.Logic.Function.Basic
import Mathlib.Tactic.Common

/-!
# Turn-sequenced cells

Tickets are given out on two sides, one for storing and one for taking a
value. A ticket has a place, a cell and a turn on it; a cell serves the turns
in order, each one for a store and then for a take. The steps of a ticket's
holder are separate, so the holders of other tickets move in between.
-/

set_option autoImplicit false

namespace TurnCells

universe u v

variable {κ : Type u} {V : Type v}

/-- `turn` counts completed stores and takes; `contents` is the live object. -/
structure Cell (V : Type v) where
  turn : Nat := 0
  contents : Option V := none

inductive Phase (V : Type v) where
  | storeWait (value : V)
  | store (value : V)
  | storeDone (value : V)
  | takeWait
  | take
  | takeDone (value : V)
deriving DecidableEq, Repr

def Phase.storing : Phase V → Bool
  | .storeWait _ | .store _ | .storeDone _ => true
  | .takeWait | .take | .takeDone _ => false

def Phase.stores? : Phase V → Option V
  | .storeWait value | .store value | .storeDone value => some value
  | .takeWait | .take | .takeDone _ => none

def Phase.waiting : Phase V → Bool
  | .storeWait _ | .takeWait => true
  | .store _ | .storeDone _ | .take | .takeDone _ => false

theorem stores_of_storing {phase : Phase V} (storing : phase.storing = true) :
    ∃ value, phase.stores? = some value := by
  cases phase with
  | storeWait value => exact ⟨value, rfl⟩
  | store value => exact ⟨value, rfl⟩
  | storeDone value => exact ⟨value, rfl⟩
  | takeWait => cases storing
  | take => cases storing
  | takeDone value => cases storing

structure Holder (V : Type v) where
  ticket : Nat
  phase : Phase V
deriving DecidableEq, Repr

/-- One step of the holder of a turn. It ends with the value stored or taken
once it has completed its half of the turn. A take of a cell without a live
object has no step. -/
def Cell.advance (cell : Cell V) (turn : Nat) : Phase V → Option (Cell V × (Phase V ⊕ V))
  | .storeWait value =>
      if cell.turn = turn * 2 then some (cell, .inl (.store value)) else none
  | .store value => some ({ cell with contents := some value }, .inl (.storeDone value))
  | .storeDone value => some ({ cell with turn := turn * 2 + 1 }, .inr value)
  | .takeWait => if cell.turn = turn * 2 + 1 then some (cell, .inl .take) else none
  | .take =>
      match cell.contents with
      | none => none
      | some value => some ({ cell with contents := none }, .inl (.takeDone value))
  | .takeDone value => some ({ cell with turn := turn * 2 + 2 }, .inr value)

/-- The holder that a step leaves, if any. -/
def remaining (ticket : Nat) : Phase V ⊕ V → List (Holder V)
  | .inl phase => [⟨ticket, phase⟩]
  | .inr _ => []

theorem advance_inr {cell next : Cell V} {turn : Nat} {phase : Phase V} {value : V}
    (advanced : cell.advance turn phase = some (next, .inr value)) :
    phase = .storeDone value ∨ phase = .takeDone value := by
  cases phase with
  | storeDone stored =>
      cases advanced
      exact .inl rfl
  | takeDone taken =>
      cases advanced
      exact .inr rfl
  | storeWait stored =>
      simp only [Cell.advance] at advanced
      split at advanced <;> cases advanced
  | store stored => cases advanced
  | takeWait =>
      simp only [Cell.advance] at advanced
      split at advanced <;> cases advanced
  | take =>
      simp only [Cell.advance] at advanced
      split at advanced <;> cases advanced

theorem advance_inl {cell next : Cell V} {turn : Nat} {phase left : Phase V}
    (advanced : cell.advance turn phase = some (next, .inl left)) :
    left.storing = phase.storing := by
  cases phase with
  | storeDone stored => cases advanced
  | takeDone taken => cases advanced
  | storeWait stored =>
      simp only [Cell.advance] at advanced
      split at advanced
      · cases advanced
        rfl
      · cases advanced
  | store stored =>
      cases advanced
      rfl
  | takeWait =>
      simp only [Cell.advance] at advanced
      split at advanced
      · cases advanced
        rfl
      · cases advanced
  | take =>
      simp only [Cell.advance] at advanced
      split at advanced
      · cases advanced
      · cases advanced
        rfl

/-- The steps that a holder still has to make. -/
def Phase.stepsLeft : Phase V → Nat
  | .storeWait _ | .takeWait => 3
  | .store _ | .take => 2
  | .storeDone _ | .takeDone _ => 1

theorem advance_stepsLeft {cell next : Cell V} {turn : Nat} {phase : Phase V}
    {left : Phase V ⊕ V} (advanced : cell.advance turn phase = some (next, left)) :
    left.elim Phase.stepsLeft (fun _ => 0) + 1 = phase.stepsLeft := by
  cases phase with
  | storeWait value =>
      simp only [Cell.advance] at advanced
      split at advanced <;> cases advanced
      rfl
  | store value =>
      cases advanced
      rfl
  | storeDone value =>
      cases advanced
      rfl
  | takeWait =>
      simp only [Cell.advance] at advanced
      split at advanced <;> cases advanced
      rfl
  | take =>
      simp only [Cell.advance] at advanced
      split at advanced
      · cases advanced
      · cases advanced
        rfl
  | takeDone value =>
      cases advanced
      rfl

/-! ## What holds of every ticket -/

/-- The phases of a ticket's holders on one side. -/
def phasesAt (storing : Bool) (ticket : Nat) (holders : List (Holder V)) : List (Phase V) :=
  (holders.filter fun holder =>
    holder.ticket = ticket ∧ holder.phase.storing = storing).map Holder.phase

def storeWaits (value : Option V) : List (Phase V) :=
  (value.map Phase.storeWait).toList

def takeWaits (popped : Bool) : List (Phase V) :=
  if popped then [.takeWait] else []

/-- A cell, as the ticket with a turn on it must find it: `value` is the value
to store if that side of the ticket was given out, `popped` tells whether the
other side was. -/
inductive Consistent (turn : Nat) (cell : Cell V) (value : Option V) (popped : Bool)
    (stores takes : List (Phase V)) : Prop where
  | early (turnIs : cell.turn < turn * 2) (stored : stores = storeWaits value)
      (taken : takes = takeWaits popped)
  | vacant (turnIs : cell.turn = turn * 2) (contents : cell.contents = none)
      (stored : stores = storeWaits value ∨ stores = (value.map Phase.store).toList)
      (taken : takes = takeWaits popped)
  | filled (stored : V) (turnIs : cell.turn = turn * 2) (contents : cell.contents = some stored)
      (valueIs : value = some stored) (storing : stores = [.storeDone stored])
      (taken : takes = takeWaits popped)
  | readable (stored : V) (turnIs : cell.turn = turn * 2 + 1)
      (contents : cell.contents = some stored) (valueIs : value = some stored)
      (storing : stores = []) (taken : takes = takeWaits popped ∨ popped ∧ takes = [.take])
  | taken (stored : V) (turnIs : cell.turn = turn * 2 + 1) (contents : cell.contents = none)
      (valueIs : value = some stored) (gone : popped) (storing : stores = [])
      (taking : takes = [.takeDone stored])
  | past (stored : V) (turnIs : turn * 2 + 2 ≤ cell.turn) (valueIs : value = some stored)
      (gone : popped) (storing : stores = []) (taking : takes = [])

/-- Every ticket finds its cell as it must. -/
def Sequenced (place : Nat → κ × Nat) (cells : κ → Cell V) (values : Nat → Option V)
    (popped : Nat → Bool) (holders : List (Holder V)) : Prop :=
  ∀ ticket, Consistent (place ticket).2 (cells (place ticket).1) (values ticket)
    (popped ticket) (phasesAt true ticket holders) (phasesAt false ticket holders)

/-- A cell changes by a step made in one of the two halves of a turn. -/
structure Within (turn : Nat) (cell next : Cell V) : Prop where
  during : cell.turn = turn * 2 ∨ cell.turn = turn * 2 + 1
  stays : next.turn = cell.turn ∨ next.turn = cell.turn + 1
  cleared : next.turn = turn * 2 + 2 → next.contents = none

/-- The tickets of other turns do not notice. -/
theorem Consistent.frame {turn other : Nat} {cell next : Cell V} {value : Option V}
    {popped : Bool} {stores takes : List (Phase V)} (within : Within turn cell next)
    (different : other ≠ turn) (consistent : Consistent other cell value popped stores takes) :
    Consistent other next value popped stores takes := by
  have during := within.during
  have stays := within.stays
  cases consistent with
  | early turnIs stored taken =>
      rcases Nat.lt_or_ge next.turn (other * 2) with still | arrived
      · exact .early still stored taken
      · have last : next.turn = turn * 2 + 2 := by omega
        exact .vacant (by omega) (within.cleared last) (.inl stored) taken
  | vacant turnIs contents stored taken => omega
  | filled stored turnIs contents valueIs storing taken => omega
  | readable stored turnIs contents valueIs storing taken => omega
  | taken stored turnIs contents valueIs gone storing taking => omega
  | past stored turnIs valueIs gone storing taking =>
      exact .past stored (by omega) valueIs gone storing taking

section Holders

variable {holder : Holder V} {holders others : List (Holder V)} {storing : Bool} {ticket : Nat}

theorem phasesAt_cons_of_ne (different : holder.ticket ≠ ticket) :
    phasesAt storing ticket (holder :: holders) = phasesAt storing ticket holders := by
  simp [phasesAt, different]

theorem phasesAt_cons_self {phase : Phase V} :
    phasesAt storing ticket (⟨ticket, phase⟩ :: holders) =
      if phase.storing = storing then phase :: phasesAt storing ticket holders
      else phasesAt storing ticket holders := by
  by_cases side : phase.storing = storing <;> simp [phasesAt, side]

theorem phasesAt_perm (same : holders.Perm others) :
    (phasesAt storing ticket holders).Perm (phasesAt storing ticket others) :=
  (same.filter _).map _

theorem mem_phasesAt (member : holder ∈ holders) :
    holder.phase ∈ phasesAt holder.phase.storing holder.ticket holders := by
  refine List.mem_map.mpr ⟨holder, List.mem_filter.mpr ⟨member, ?_⟩, rfl⟩
  simp

private theorem eq_of_perm_of_short {left right : List (Phase V)} (same : left.Perm right)
    (short : left.length ≤ 1) : left = right := by
  match left, short with
  | [], _ => exact (List.nil_perm.mp same).symm
  | [phase], _ => exact List.singleton_perm.mp same

end Holders

section Runs

variable {place : Nat → κ × Nat} {cells : κ → Cell V} {values : Nat → Option V}
  {popped : Nat → Bool}
  {holders others : List (Holder V)}

private theorem Consistent.short {turn : Nat} {cell : Cell V} {value : Option V}
    {popped : Bool} {stores takes : List (Phase V)}
    (consistent : Consistent turn cell value popped stores takes) :
    stores.length ≤ 1 ∧ takes.length ≤ 1 := by
  have waits : (storeWaits value).length ≤ 1 := by cases value <;> simp [storeWaits]
  have pending : (takeWaits popped : List (Phase V)).length ≤ 1 := by
    cases popped <;> simp [takeWaits]
  cases consistent with
  | early turnIs stored taken => exact ⟨stored ▸ waits, taken ▸ pending⟩
  | vacant turnIs contents stored taken =>
      refine ⟨?_, taken ▸ pending⟩
      rcases stored with rfl | rfl
      · exact waits
      · cases value <;> simp
  | filled stored turnIs contents valueIs storing taken =>
      exact ⟨by simp [storing], taken ▸ pending⟩
  | readable stored turnIs contents valueIs storing taken =>
      refine ⟨by simp [storing], ?_⟩
      rcases taken with rfl | ⟨-, rfl⟩
      · exact pending
      · simp
  | taken stored turnIs contents valueIs gone storing taking => simp [storing, taking]
  | past stored turnIs valueIs gone storing taking => simp [storing, taking]

theorem Sequenced.perm (same : holders.Perm others)
    (sequenced : Sequenced place cells values popped holders) :
    Sequenced place cells values popped others := by
  intro ticket
  have short := (sequenced ticket).short
  rw [← eq_of_perm_of_short (phasesAt_perm same) short.1,
    ← eq_of_perm_of_short (phasesAt_perm same) short.2]
  exact sequenced ticket

private theorem storeWaits_eq_cons {value : Option V} {phase : Phase V} {rest : List (Phase V)}
    (waits : phase :: rest = storeWaits value) :
    ∃ stored, value = some stored ∧ phase = .storeWait stored ∧ rest = [] := by
  cases value with
  | none => cases waits
  | some stored =>
      cases waits
      exact ⟨stored, rfl, rfl, rfl⟩

private theorem takeWaits_eq_cons {popped : Bool} {phase : Phase V} {rest : List (Phase V)}
    (waits : phase :: rest = takeWaits popped) :
    popped = true ∧ phase = .takeWait ∧ rest = [] := by
  cases popped with
  | false => cases waits
  | true =>
      cases waits
      exact ⟨rfl, rfl, rfl⟩

private theorem store_eq_cons {value : Option V} {phase : Phase V} {rest : List (Phase V)}
    (ready : phase :: rest = (value.map Phase.store).toList) :
    ∃ stored, value = some stored ∧ phase = .store stored ∧ rest = [] := by
  cases value with
  | none => cases ready
  | some stored =>
      cases ready
      exact ⟨stored, rfl, rfl, rfl⟩

section Advance

variable {turn : Nat} {cell next : Cell V} {value : Option V} {popped : Bool}
  {stores takes : List (Phase V)} {phase : Phase V} {left : Phase V ⊕ V} {stored : V}

private theorem Consistent.advance_storeWait
    (consistent : Consistent turn cell value popped (.storeWait stored :: stores) takes)
    (advanced : cell.advance turn (.storeWait stored) = some (next, left)) :
    next = cell ∧ left = .inl (.store stored) ∧
      Consistent turn next value popped (.store stored :: stores) takes := by
  simp only [Cell.advance] at advanced
  split at advanced
  · next arrived =>
      cases advanced
      refine ⟨rfl, rfl, ?_⟩
      cases consistent with
      | vacant turnIs contents storing taken =>
          refine .vacant turnIs contents (.inr ?_) taken
          rcases storing with waits | ready
          · obtain ⟨_, rfl, same, rfl⟩ := storeWaits_eq_cons waits
            cases same
            rfl
          · obtain ⟨_, _, impossible, _⟩ := store_eq_cons ready
            cases impossible
      | early turnIs => omega
      | filled _ _ _ _ storing => cases storing
      | readable _ _ _ _ storing => cases storing
      | taken _ _ _ _ _ storing => cases storing
      | past _ _ _ _ storing => cases storing
  · cases advanced

private theorem Consistent.advance_store
    (consistent : Consistent turn cell value popped (.store stored :: stores) takes)
    (advanced : cell.advance turn (.store stored) = some (next, left)) :
    Within turn cell next ∧ left = .inl (.storeDone stored) ∧
      Consistent turn next value popped (.storeDone stored :: stores) takes := by
  cases advanced
  cases consistent with
  | vacant turnIs contents storing taken =>
      refine ⟨⟨.inl turnIs, .inl rfl, fun last => ?_⟩, rfl, ?_⟩
      · exact absurd (turnIs.symm.trans last) (by omega)
      · rcases storing with waits | ready
        · obtain ⟨_, _, impossible, _⟩ := storeWaits_eq_cons waits
          cases impossible
        · obtain ⟨_, valueIs, same, rfl⟩ := store_eq_cons ready
          cases same
          exact .filled stored turnIs rfl valueIs rfl taken
  | early turnIs waits taken =>
      obtain ⟨_, _, impossible, _⟩ := storeWaits_eq_cons waits
      cases impossible
  | filled _ _ _ _ storing => cases storing
  | readable _ _ _ _ storing => cases storing
  | taken _ _ _ _ _ storing => cases storing
  | past _ _ _ _ storing => cases storing

private theorem Consistent.advance_storeDone
    (consistent : Consistent turn cell value popped (.storeDone stored :: stores) takes)
    (advanced : cell.advance turn (.storeDone stored) = some (next, left)) :
    Within turn cell next ∧ left = .inr stored ∧ Consistent turn next value popped stores takes := by
  cases advanced
  cases consistent with
  | filled stored turnIs contents valueIs storing taken =>
      cases storing
      refine ⟨⟨.inl turnIs, .inr (by rw [turnIs]), fun last => ?_⟩, rfl, ?_⟩
      · exact absurd last (by simp)
      · exact .readable stored rfl contents valueIs rfl (.inl taken)
  | early turnIs waits taken =>
      obtain ⟨_, _, impossible, _⟩ := storeWaits_eq_cons waits
      cases impossible
  | vacant turnIs contents storing taken =>
      rcases storing with waits | ready
      · obtain ⟨_, _, impossible, _⟩ := storeWaits_eq_cons waits
        cases impossible
      · obtain ⟨_, _, impossible, _⟩ := store_eq_cons ready
        cases impossible
  | readable _ _ _ _ storing => cases storing
  | taken _ _ _ _ _ storing => cases storing
  | past _ _ _ _ storing => cases storing

private theorem Consistent.advance_takeWait
    (consistent : Consistent turn cell value popped stores (.takeWait :: takes))
    (advanced : cell.advance turn .takeWait = some (next, left)) :
    next = cell ∧ left = .inl .take ∧
      Consistent turn next value popped stores (.take :: takes) := by
  simp only [Cell.advance] at advanced
  split at advanced
  · next arrived =>
      cases advanced
      refine ⟨rfl, rfl, ?_⟩
      cases consistent with
      | readable stored turnIs contents valueIs storing taken =>
          refine .readable stored turnIs contents valueIs storing (.inr ?_)
          rcases taken with waits | ⟨gone, impossible⟩
          · obtain ⟨gone, -, rfl⟩ := takeWaits_eq_cons waits
            exact ⟨gone, rfl⟩
          · cases impossible
      | early turnIs => omega
      | vacant turnIs => omega
      | filled _ turnIs => omega
      | taken _ _ _ _ _ _ taking => cases taking
      | past _ _ _ _ _ taking => cases taking
  · cases advanced

private theorem Consistent.advance_take
    (consistent : Consistent turn cell value popped stores (.take :: takes))
    (advanced : cell.advance turn .take = some (next, left)) :
    Within turn cell next ∧ ∃ stored, left = .inl (.takeDone stored) ∧
      Consistent turn next value popped stores (.takeDone stored :: takes) := by
  have pending : ∀ {rest}, .take :: rest ≠ (takeWaits popped : List (Phase V)) := by
    intro rest waits
    cases (takeWaits_eq_cons waits).2.1
  cases consistent with
  | readable stored turnIs contents valueIs storing taken =>
      simp only [Cell.advance, contents] at advanced
      cases advanced
      refine ⟨⟨.inr turnIs, .inl rfl, fun _ => rfl⟩, stored, rfl, ?_⟩
      rcases taken with waits | ⟨gone, ready⟩
      · exact absurd waits pending
      · cases ready
        exact .taken stored turnIs rfl valueIs gone storing rfl
  | early _ _ taken => exact absurd taken pending
  | vacant _ _ _ taken => exact absurd taken pending
  | filled _ _ _ _ _ taken => exact absurd taken pending
  | taken _ _ _ _ _ _ taking => cases taking
  | past _ _ _ _ _ taking => cases taking

private theorem Consistent.advance_takeDone
    (consistent : Consistent turn cell value popped stores (.takeDone stored :: takes))
    (advanced : cell.advance turn (.takeDone stored) = some (next, left)) :
    Within turn cell next ∧ left = .inr stored ∧ Consistent turn next value popped stores takes := by
  have pending : ∀ {rest}, .takeDone stored :: rest ≠ takeWaits popped := by
    intro rest waits
    cases (takeWaits_eq_cons waits).2.1
  cases advanced
  cases consistent with
  | taken _ turnIs contents valueIs gone storing taking =>
      cases taking
      refine ⟨⟨.inr turnIs, .inr (by rw [turnIs]), fun _ => contents⟩, rfl, ?_⟩
      exact .past stored (Nat.le_refl _) valueIs gone storing rfl
  | readable _ _ _ _ _ taken =>
      rcases taken with waits | ⟨-, impossible⟩
      · exact absurd waits pending
      · cases impossible
  | early _ _ taken => exact absurd taken pending
  | vacant _ _ _ taken => exact absurd taken pending
  | filled _ _ _ _ _ taken => exact absurd taken pending
  | past _ _ _ _ _ taking => cases taking

end Advance

/-- What a step does to its cell, and to the phases of its own ticket. -/
private theorem Consistent.advance {turn : Nat} {cell next : Cell V} {value : Option V}
    {popped : Bool} {holder : Holder V} {rest : List (Holder V)} {left : Phase V ⊕ V}
    (consistent : Consistent turn cell value popped
      (phasesAt true holder.ticket (holder :: rest))
      (phasesAt false holder.ticket (holder :: rest)))
    (advanced : cell.advance turn holder.phase = some (next, left)) :
    (next = cell ∨ Within turn cell next) ∧
      Consistent turn next value popped
        (phasesAt true holder.ticket (remaining holder.ticket left ++ rest))
        (phasesAt false holder.ticket (remaining holder.ticket left ++ rest)) := by
  obtain ⟨ticket, phase⟩ := holder
  simp only [phasesAt_cons_self] at consistent
  cases phase with
  | storeWait stored =>
      obtain ⟨same, rfl, after⟩ := consistent.advance_storeWait advanced
      exact ⟨.inl same, by simpa [remaining, phasesAt_cons_self, Phase.storing] using after⟩
  | store stored =>
      obtain ⟨within, rfl, after⟩ := consistent.advance_store advanced
      exact ⟨.inr within, by simpa [remaining, phasesAt_cons_self, Phase.storing] using after⟩
  | storeDone stored =>
      obtain ⟨within, rfl, after⟩ := consistent.advance_storeDone advanced
      exact ⟨.inr within, by simpa [remaining, Phase.storing] using after⟩
  | takeWait =>
      obtain ⟨same, rfl, after⟩ := consistent.advance_takeWait advanced
      exact ⟨.inl same, by simpa [remaining, phasesAt_cons_self, Phase.storing] using after⟩
  | take =>
      obtain ⟨within, stored, rfl, after⟩ := consistent.advance_take advanced
      exact ⟨.inr within, by simpa [remaining, phasesAt_cons_self, Phase.storing] using after⟩
  | takeDone stored =>
      obtain ⟨within, rfl, after⟩ := consistent.advance_takeDone advanced
      exact ⟨.inr within, by simpa [remaining, Phase.storing] using after⟩

/-- A step of one holder keeps every ticket's view, whatever the others are
doing on the same cell. -/
theorem Sequenced.advance [DecidableEq κ] {holder : Holder V} {next : Cell V}
    {left : Phase V ⊕ V} (injective : Function.Injective place)
    (sequenced : Sequenced place cells values popped (holder :: others))
    (advanced : (cells (place holder.ticket).1).advance (place holder.ticket).2 holder.phase =
      some (next, left)) :
    Sequenced place (Function.update cells (place holder.ticket).1 next) values popped
      (remaining holder.ticket left ++ others) := by
  intro ticket
  obtain ⟨change, after⟩ := (sequenced holder.ticket).advance advanced
  by_cases own : ticket = holder.ticket
  · subst own
    simpa using after
  · have unchanged : ∀ storing, phasesAt storing ticket
        (remaining holder.ticket left ++ others) =
          phasesAt storing ticket (holder :: others) := by
      intro storing
      rw [phasesAt_cons_of_ne (Ne.symm own)]
      cases left with
      | inl phase => exact phasesAt_cons_of_ne (Ne.symm own)
      | inr value => rfl
    rw [unchanged, unchanged]
    have before := sequenced ticket
    by_cases elsewhere : (place ticket).1 = (place holder.ticket).1
    · have otherTurn : (place ticket).2 ≠ (place holder.ticket).2 := by
        intro sameTurn
        exact own (injective (Prod.ext elsewhere sameTurn))
      rw [elsewhere] at before ⊢
      rw [Function.update_self]
      rcases change with rfl | within
      · exact before
      · exact before.frame within otherTurn
    · rw [Function.update_of_ne elsewhere]
      exact before

/-! ## Giving out tickets -/

theorem Sequenced.start :
    Sequenced place (fun _ => ({} : Cell V)) (fun _ => none) (fun _ => false) [] := by
  intro ticket
  rcases Nat.eq_zero_or_pos (place ticket).2 with first | later
  · exact .vacant (by simp [first]) rfl (.inl rfl) rfl
  · exact .early (by simp only; omega) rfl rfl

/-- The store side of a ticket is given out. -/
theorem Sequenced.push {more : Nat → Option V} {ticket : Nat} {value : V}
    (fresh : values ticket = none) (given : more ticket = some value)
    (kept : ∀ other, other ≠ ticket → more other = values other)
    (sequenced : Sequenced place cells values popped holders) :
    Sequenced place cells more popped (⟨ticket, .storeWait value⟩ :: holders) := by
  intro other
  have before := sequenced other
  by_cases own : other = ticket
  · subst own
    rw [phasesAt_cons_self, phasesAt_cons_self, given]
    simp only [Phase.storing, if_true, Bool.true_eq_false, if_false]
    rw [fresh] at before
    cases before with
    | early turnIs stored taken => exact .early turnIs (by rw [stored]; rfl) taken
    | vacant turnIs contents stored taken =>
        refine .vacant turnIs contents (.inl ?_) taken
        rcases stored with none | none <;> (rw [none]; rfl)
    | filled _ _ _ valueIs => cases valueIs
    | readable _ _ _ valueIs => cases valueIs
    | taken _ _ _ valueIs => cases valueIs
    | past _ _ valueIs => cases valueIs
  · rw [phasesAt_cons_of_ne (Ne.symm own), phasesAt_cons_of_ne (Ne.symm own), kept other own]
    exact before

/-- The take side of a ticket is given out. -/
theorem Sequenced.pop {more : Nat → Bool} {ticket : Nat} (fresh : popped ticket = false)
    (given : more ticket = true) (kept : ∀ other, other ≠ ticket → more other = popped other)
    (sequenced : Sequenced place cells values popped holders) :
    Sequenced place cells values more (⟨ticket, .takeWait⟩ :: holders) := by
  intro other
  have before := sequenced other
  by_cases own : other = ticket
  · subst own
    rw [phasesAt_cons_self, phasesAt_cons_self, given]
    simp only [Phase.storing, if_true, Bool.false_eq_true, if_false]
    rw [fresh] at before
    cases before with
    | early turnIs stored taken => exact .early turnIs stored (by rw [taken]; rfl)
    | vacant turnIs contents stored taken =>
        exact .vacant turnIs contents stored (by rw [taken]; rfl)
    | filled value turnIs contents valueIs storing taken =>
        exact .filled value turnIs contents valueIs storing (by rw [taken]; rfl)
    | readable value turnIs contents valueIs storing taken =>
        refine .readable value turnIs contents valueIs storing (.inl ?_)
        rcases taken with taken | ⟨gone, -⟩
        · rw [taken]
          rfl
        · cases gone
    | taken _ _ _ _ gone => cases gone
    | past _ _ _ gone => cases gone
  · rw [phasesAt_cons_of_ne (Ne.symm own), phasesAt_cons_of_ne (Ne.symm own), kept other own]
    exact before

/-- Tickets that neither side was given out of may move to cells that no turn
has come past. -/
theorem Sequenced.move {elsewhere : Nat → κ × Nat}
    (moved : ∀ ticket, elsewhere ticket = place ticket ∨
      values ticket = none ∧ popped ticket = false ∧
        (cells (elsewhere ticket).1).turn = 0 ∧ (cells (elsewhere ticket).1).contents = none)
    (sequenced : Sequenced place cells values popped holders) :
    Sequenced elsewhere cells values popped holders := by
  intro ticket
  have before := sequenced ticket
  rcases moved ticket with kept | ⟨noValue, notPopped, turnIs, contents⟩
  · rw [kept]
    exact before
  · have idle : phasesAt true ticket holders = [] ∧ phasesAt false ticket holders = [] := by
      rw [noValue, notPopped] at before
      cases before with
      | early _ stored taken => exact ⟨stored, taken⟩
      | vacant _ _ stored taken => exact ⟨stored.elim id id, taken⟩
      | filled _ _ _ valueIs => cases valueIs
      | readable _ _ _ valueIs => cases valueIs
      | taken _ _ _ valueIs => cases valueIs
      | past _ _ valueIs => cases valueIs
    rw [idle.1, idle.2, noValue, notPopped]
    rcases Nat.eq_zero_or_pos (elsewhere ticket).2 with first | later
    · exact .vacant (by omega) contents (.inl rfl) rfl
    · exact .early (by omega) rfl rfl

/-! ## What a ticket's holder can rely on -/

section Holding

variable {ticket : Nat} {value : V}

/-- What a holder stores is the value of its ticket. -/
theorem Sequenced.value_of_storing {phase : Phase V} (member : ⟨ticket, phase⟩ ∈ holders)
    (stores : phase.stores? = some value)
    (sequenced : Sequenced place cells values popped holders) : values ticket = some value := by
  have side : phase.storing = true := by
    cases phase <;> first | rfl | cases stores
  have present : phase ∈ phasesAt true ticket holders := side ▸ mem_phasesAt member
  have waiting : phase ∈ storeWaits (values ticket) → values ticket = some value := by
    intro waits
    cases valueIs : values ticket with
    | none => simp [storeWaits, valueIs] at waits
    | some stored =>
        simp only [storeWaits, valueIs, Option.map_some, Option.toList_some,
          List.mem_singleton] at waits
        subst waits
        exact stores
  cases sequenced ticket with
  | early _ stored => exact waiting (stored ▸ present)
  | vacant _ _ stored =>
      rcases stored with stored | stored
      · exact waiting (stored ▸ present)
      · cases valueIs : values ticket with
        | none => simp [stored, valueIs] at present
        | some other =>
            simp only [stored, valueIs, Option.map_some, Option.toList_some,
              List.mem_singleton] at present
            subst present
            exact stores
  | filled other _ _ valueIs storing =>
      rw [storing, List.mem_singleton] at present
      subst present
      exact valueIs.trans stores
  | readable _ _ _ _ storing => simp [storing] at present
  | taken _ _ _ _ _ storing => simp [storing] at present
  | past _ _ _ _ storing => simp [storing] at present

theorem Sequenced.given_of_taking {holder : Holder V} (member : holder ∈ holders)
    (taking : holder.phase.storing = false)
    (sequenced : Sequenced place cells values popped holders) :
    popped holder.ticket = true := by
  have present := taking ▸ mem_phasesAt member
  by_contra later
  have own := sequenced holder.ticket
  rw [Bool.eq_false_iff.mpr later] at own
  have none : (takeWaits false : List (Phase V)) = [] := rfl
  cases own with
  | early _ _ taken => simp [taken, none] at present
  | vacant _ _ _ taken => simp [taken, none] at present
  | filled _ _ _ _ _ taken => simp [taken, none] at present
  | readable _ _ _ _ _ taken =>
      rcases taken with taken | ⟨gone, -⟩
      · simp [taken, none] at present
      · cases gone
  | taken _ _ _ _ gone => cases gone
  | past _ _ _ gone => cases gone

/-- A holder about to store finds no live object in its cell. -/
theorem Sequenced.vacant_of_store (member : ⟨ticket, .store value⟩ ∈ holders)
    (sequenced : Sequenced place cells values popped holders) :
    (cells (place ticket).1).contents = none := by
  have present : .store value ∈ phasesAt true ticket holders := mem_phasesAt member
  cases sequenced ticket with
  | vacant _ contents => exact contents
  | early _ stored =>
      cases valueIs : values ticket <;> simp [stored, valueIs, storeWaits] at present
  | filled _ _ _ _ storing => simp [storing] at present
  | readable _ _ _ _ storing => simp [storing] at present
  | taken _ _ _ _ _ storing => simp [storing] at present
  | past _ _ _ _ storing => simp [storing] at present

/-- A holder about to take finds the value of its ticket. -/
theorem Sequenced.contents_of_take (member : ⟨ticket, .take⟩ ∈ holders)
    (sequenced : Sequenced place cells values popped holders) :
    ∃ value, (cells (place ticket).1).contents = some value ∧ values ticket = some value := by
  have present : .take ∈ phasesAt false ticket holders := mem_phasesAt member
  have pending : .take ∉ (takeWaits (popped ticket) : List (Phase V)) := by
    unfold takeWaits
    split <;> simp
  cases sequenced ticket with
  | readable value _ contents valueIs => exact ⟨value, contents, valueIs⟩
  | early _ _ taken => exact absurd (taken ▸ present) pending
  | vacant _ _ _ taken => exact absurd (taken ▸ present) pending
  | filled _ _ _ _ _ taken => exact absurd (taken ▸ present) pending
  | taken _ _ _ _ _ _ taking => simp [taking] at present
  | past _ _ _ _ _ taking => simp [taking] at present

/-- What a holder took is the value of its ticket. -/
theorem Sequenced.value_of_takeDone (member : ⟨ticket, .takeDone value⟩ ∈ holders)
    (sequenced : Sequenced place cells values popped holders) : values ticket = some value := by
  have present : .takeDone value ∈ phasesAt false ticket holders := mem_phasesAt member
  have pending : .takeDone value ∉ takeWaits (popped ticket) := by
    unfold takeWaits
    split <;> simp
  cases sequenced ticket with
  | taken stored _ _ valueIs _ _ taking =>
      rw [taking, List.mem_singleton] at present
      cases present
      exact valueIs
  | early _ _ taken => exact absurd (taken ▸ present) pending
  | vacant _ _ _ taken => exact absurd (taken ▸ present) pending
  | filled _ _ _ _ _ taken => exact absurd (taken ▸ present) pending
  | readable _ _ _ _ _ taken =>
      rcases taken with taken | ⟨-, taking⟩
      · exact absurd (taken ▸ present) pending
      · simp [taking] at present
  | past _ _ _ _ _ taking => simp [taking] at present

/-- A completed store has come past its half of the turn. -/
theorem Sequenced.turn_of_stored (given : values ticket = some value)
    (done : phasesAt true ticket holders = [])
    (sequenced : Sequenced place cells values popped holders) :
    (place ticket).2 * 2 < (cells (place ticket).1).turn := by
  have own := sequenced ticket
  rw [given, done] at own
  cases own with
  | early _ stored => cases stored
  | vacant _ _ stored => rcases stored with stored | stored <;> cases stored
  | filled _ _ _ _ storing => cases storing
  | readable _ turnIs => omega
  | taken _ turnIs => omega
  | past _ turnIs => omega

/-- A turn that the cell is past was stored and taken. -/
theorem Sequenced.given_of_past (past : (place ticket).2 * 2 + 2 ≤ (cells (place ticket).1).turn)
    (sequenced : Sequenced place cells values popped holders) :
    (values ticket).isSome ∧ popped ticket = true := by
  cases sequenced ticket with
  | past _ _ valueIs gone => exact ⟨by rw [valueIs]; rfl, gone⟩
  | early turnIs => omega
  | vacant turnIs => omega
  | filled _ turnIs => omega
  | readable _ turnIs => omega
  | taken _ turnIs => omega

end Holding

/-! ## A ticket whose turn has come -/

/-- The cell is at the half of a turn in which one side moves. -/
def Cell.At (cell : Cell V) (turn : Nat) (storing : Bool) : Prop :=
  cell.turn = if storing then turn * 2 else turn * 2 + 1

theorem eq_of_at {cell : Cell V} {turn other : Nat} {storing side : Bool}
    (here : cell.At turn storing) (there : cell.At other side) : turn = other ∧ storing = side := by
  unfold Cell.At at here there
  cases storing <;> cases side <;> simp only [if_true, Bool.false_eq_true, if_false] at here there
  · exact ⟨by omega, rfl⟩
  · omega
  · omega
  · exact ⟨by omega, rfl⟩

section Turns

variable {holder other : Holder V} {ticket : Nat} {storing : Bool} {next : Cell V}
  {left : Phase V ⊕ V}

private theorem storeWaits_waiting {phase : Phase V} {value : Option V}
    (waits : phase ∈ storeWaits value) : phase.waiting = true := by
  cases value with
  | none => cases waits
  | some stored =>
      obtain rfl := List.mem_singleton.mp waits
      rfl

private theorem takeWaits_waiting {phase : Phase V} {popped : Bool}
    (waits : phase ∈ takeWaits popped) : phase.waiting = true := by
  cases popped with
  | false => cases waits
  | true =>
      obtain rfl := List.mem_singleton.mp waits
      rfl

/-- A holder that is past its wait finds the cell at its half of the turn. -/
theorem Sequenced.at_of_passed (member : holder ∈ holders) (passed : holder.phase.waiting = false)
    (sequenced : Sequenced place cells values popped holders) :
    (cells (place holder.ticket).1).At (place holder.ticket).2 holder.phase.storing := by
  have present := mem_phasesAt member
  have own := sequenced holder.ticket
  have notWaiting : ¬ holder.phase.waiting = true := Bool.eq_false_iff.mp passed
  cases side : holder.phase.storing with
  | true =>
      rw [side] at present
      cases own with
      | vacant turnIs => exact turnIs
      | filled _ turnIs => exact turnIs
      | early _ stored => exact absurd (storeWaits_waiting (stored ▸ present)) notWaiting
      | readable _ _ _ _ stored => exact absurd (stored ▸ present) List.not_mem_nil
      | taken _ _ _ _ _ stored => exact absurd (stored ▸ present) List.not_mem_nil
      | past _ _ _ _ stored => exact absurd (stored ▸ present) List.not_mem_nil
  | false =>
      rw [side] at present
      cases own with
      | readable _ turnIs => exact turnIs
      | taken _ turnIs => exact turnIs
      | early _ _ taken => exact absurd (takeWaits_waiting (taken ▸ present)) notWaiting
      | vacant _ _ _ taken => exact absurd (takeWaits_waiting (taken ▸ present)) notWaiting
      | filled _ _ _ _ _ taken => exact absurd (takeWaits_waiting (taken ▸ present)) notWaiting
      | past _ _ _ _ _ taken => exact absurd (taken ▸ present) List.not_mem_nil

/-- A side of a ticket has one holder. -/
theorem Sequenced.ticket_ne (member : other ∈ holders)
    (side : other.phase.storing = holder.phase.storing)
    (sequenced : Sequenced place cells values popped (holder :: holders)) :
    holder.ticket ≠ other.ticket := by
  intro same
  have short := (sequenced holder.ticket).short
  have rest : 0 < (phasesAt holder.phase.storing holder.ticket holders).length := by
    rw [same, ← side]
    exact List.length_pos_of_mem (mem_phasesAt member)
  have two : 1 < (phasesAt holder.phase.storing holder.ticket (holder :: holders)).length := by
    rw [show holder = ⟨holder.ticket, holder.phase⟩ from rfl, phasesAt_cons_self, if_pos rfl,
      List.length_cons]
    exact Nat.succ_lt_succ rest
  cases storing : holder.phase.storing with
  | true => exact absurd short.1 (Nat.not_le.mpr (storing ▸ two))
  | false => exact absurd short.2 (Nat.not_le.mpr (storing ▸ two))

/-- Two holders past their waits are on different cells. -/
theorem Sequenced.cell_ne (injective : Function.Injective place) (member : other ∈ holders)
    (passed : holder.phase.waiting = false) (otherPassed : other.phase.waiting = false)
    (sequenced : Sequenced place cells values popped (holder :: holders)) :
    (place holder.ticket).1 ≠ (place other.ticket).1 := by
  intro same
  have here := sequenced.at_of_passed List.mem_cons_self passed
  have there := sequenced.at_of_passed (List.mem_cons_of_mem _ member) otherPassed
  rw [← same] at there
  obtain ⟨sameTurn, side⟩ := eq_of_at here there
  exact sequenced.ticket_ne member side.symm (injective (Prod.ext same sameTurn))

/-- A holder whose turn has come does not wait. -/
theorem Sequenced.advances (member : holder ∈ holders)
    (come : (cells (place holder.ticket).1).At (place holder.ticket).2 holder.phase.storing)
    (sequenced : Sequenced place cells values popped holders) :
    ∃ next left, (cells (place holder.ticket).1).advance (place holder.ticket).2 holder.phase =
      some (next, left) := by
  obtain ⟨ticket, phase⟩ := holder
  cases phase with
  | storeWait value => exact ⟨_, _, if_pos come⟩
  | store value => exact ⟨_, _, rfl⟩
  | storeDone value => exact ⟨_, _, rfl⟩
  | takeWait => exact ⟨_, _, if_pos come⟩
  | take =>
      obtain ⟨value, contents, -⟩ := sequenced.contents_of_take member
      refine ⟨{ cells (place ticket).1 with contents := none }, .inl (.takeDone value), ?_⟩
      simp only [Cell.advance, contents]
  | takeDone value => exact ⟨_, _, rfl⟩

/-- A ticket whose store is not under way finds its cell before its turn, or at
the turn. -/
theorem Sequenced.turn_le (waits : phasesAt true ticket holders = storeWaits (values ticket))
    (sequenced : Sequenced place cells values popped holders) :
    (cells (place ticket).1).turn ≤ (place ticket).2 * 2 := by
  have stored : ∀ value, values ticket = some value → phasesAt true ticket holders ≠ [] := by
    intro value valueIs
    simp [waits, valueIs, storeWaits]
  cases sequenced ticket with
  | early turnIs => exact Nat.le_of_lt turnIs
  | vacant turnIs => exact Nat.le_of_eq turnIs
  | filled _ turnIs => exact Nat.le_of_eq turnIs
  | readable value _ _ valueIs storing => exact absurd storing (stored value valueIs)
  | taken value _ _ valueIs _ storing => exact absurd storing (stored value valueIs)
  | past value _ valueIs _ storing => exact absurd storing (stored value valueIs)

theorem Sequenced.at_of_first (first : (place ticket).2 = 0)
    (waits : phasesAt true ticket holders = storeWaits (values ticket))
    (sequenced : Sequenced place cells values popped holders) :
    (cells (place ticket).1).At (place ticket).2 true := by
  have bound := sequenced.turn_le waits
  rw [first, Nat.zero_mul] at bound
  rw [first]
  exact Nat.le_zero.mp bound

/-- A store can go ahead once the ticket before on the same cell was taken. -/
theorem Sequenced.at_iff_popped {earlier : Nat} (sameCell : (place ticket).1 = (place earlier).1)
    (nextTurn : (place ticket).2 = (place earlier).2 + 1)
    (waits : phasesAt true ticket holders = storeWaits (values ticket))
    (given : (values earlier).isSome) (stored : phasesAt true earlier holders = [])
    (taken : phasesAt false earlier holders = [])
    (sequenced : Sequenced place cells values popped holders) :
    (cells (place ticket).1).At (place ticket).2 true ↔ popped earlier = true := by
  have bound := sequenced.turn_le waits
  have own := sequenced earlier
  obtain ⟨value, valueIs⟩ := Option.isSome_iff_exists.mp given
  rw [valueIs, stored, taken] at own
  rw [nextTurn, sameCell] at bound ⊢
  unfold Cell.At
  cases own with
  | early _ impossible => cases impossible
  | vacant _ _ impossible => rcases impossible with impossible | impossible <;> cases impossible
  | filled _ _ _ _ impossible => cases impossible
  | readable _ turnIs _ _ _ waiting =>
      have notPopped : popped earlier = false := by
        rcases waiting with waiting | ⟨-, impossible⟩
        · cases poppedIs : popped earlier with
          | false => rfl
          | true => simp [takeWaits, poppedIs] at waiting
        · cases impossible
      simp only [notPopped, if_true, Bool.false_eq_true, iff_false]
      omega
  | taken _ _ _ _ _ _ impossible => cases impossible
  | past _ turnIs _ gone =>
      simp only [gone, if_true, iff_true]
      omega

end Turns

/-! ## Whom a waiting holder waits for -/

section Due

variable {holder : Holder V} {ticket : Nat}

/-- A side of a ticket that was given out and whose half of the turn has come
still has its holder. -/
theorem Sequenced.exists_holder_of_at {storing : Bool}
    (come : (cells (place ticket).1).At (place ticket).2 storing)
    (given : if storing then (values ticket).isSome else popped ticket = true)
    (sequenced : Sequenced place cells values popped holders) :
    ∃ holder ∈ holders, holder.ticket = ticket ∧ holder.phase.storing = storing := by
  have held : phasesAt storing ticket holders ≠ [] := by
    have own := sequenced ticket
    cases storing with
    | true =>
        have turnIs : (cells (place ticket).1).turn = (place ticket).2 * 2 := come
        obtain ⟨value, valueIs⟩ := Option.isSome_iff_exists.mp given
        rw [valueIs] at own
        cases own with
        | early earlier => omega
        | vacant _ _ stored =>
            rcases stored with stored | stored
            · simp [stored, storeWaits]
            · simp [stored]
        | filled _ _ _ _ storing => simp [storing]
        | readable _ later => omega
        | taken _ later => omega
        | past _ later => omega
    | false =>
        have turnIs : (cells (place ticket).1).turn = (place ticket).2 * 2 + 1 := come
        have given : popped ticket = true := given
        rw [given] at own
        cases own with
        | early earlier => omega
        | vacant earlier => omega
        | filled _ earlier => omega
        | readable _ _ _ _ _ taken =>
            rcases taken with taken | ⟨-, taken⟩
            · simp [taken, takeWaits]
            · simp [taken]
        | taken _ _ _ _ _ _ taking => simp [taking]
        | past _ later => omega
  obtain ⟨phase, present⟩ := List.exists_mem_of_ne_nil _ held
  obtain ⟨found, member, -⟩ := List.mem_map.mp present
  obtain ⟨inHolders, same⟩ := List.mem_filter.mp member
  obtain ⟨sameTicket, side⟩ := of_decide_eq_true same
  exact ⟨found, inHolders, sameTicket, side⟩

/-- A holder without a step finds its cell before its half of the turn. -/
theorem Sequenced.turn_lt_of_blocked (member : holder ∈ holders)
    (blocked : (cells (place holder.ticket).1).advance (place holder.ticket).2 holder.phase = none)
    (sequenced : Sequenced place cells values popped holders) :
    (cells (place holder.ticket).1).turn <
      if holder.phase.storing then (place holder.ticket).2 * 2
      else (place holder.ticket).2 * 2 + 1 := by
  obtain ⟨ticket, phase⟩ := holder
  have present := mem_phasesAt member
  have own := sequenced ticket
  cases phase with
  | storeWait value =>
      have notCome : (cells (place ticket).1).turn ≠ (place ticket).2 * 2 := by
        intro come
        simp [Cell.advance, come] at blocked
      simp only [Phase.storing, if_true] at present ⊢
      cases own with
      | early turnIs => exact turnIs
      | vacant turnIs => exact absurd turnIs notCome
      | filled _ turnIs => exact absurd turnIs notCome
      | readable _ _ _ _ stored => exact absurd (stored ▸ present) List.not_mem_nil
      | taken _ _ _ _ _ stored => exact absurd (stored ▸ present) List.not_mem_nil
      | past _ _ _ _ stored => exact absurd (stored ▸ present) List.not_mem_nil
  | takeWait =>
      have notCome : (cells (place ticket).1).turn ≠ (place ticket).2 * 2 + 1 := by
        intro come
        simp [Cell.advance, come] at blocked
      simp only [Phase.storing, Bool.false_eq_true, if_false] at present ⊢
      cases own with
      | early turnIs => omega
      | vacant turnIs => omega
      | filled _ turnIs => omega
      | readable _ turnIs => exact absurd turnIs notCome
      | taken _ turnIs => exact absurd turnIs notCome
      | past _ _ _ _ _ taking => exact absurd (taking ▸ present) List.not_mem_nil
  | take =>
      obtain ⟨value, contents, -⟩ := sequenced.contents_of_take member
      simp [Cell.advance, contents] at blocked
  | store value => cases blocked
  | storeDone value => cases blocked
  | takeDone value => cases blocked

end Due

end Runs

end TurnCells
