import Mathlib.Data.List.Nodup
import Mathlib.Logic.Function.Basic
import ThreadPoolExec.Interleaving

/-!
# The queue observers of a pool

`getQueueObserver` makes the observer of a priority when it is first asked for.
Calls race to put theirs into the slot of the priority; with one priority the other
slots are copies of slot 0.
-/

set_option autoImplicit false

namespace ThreadPoolExec.QueueObservers

open Interleaving

structure Executor where
  queueObserverFactory : Bool := true
  numPriorities : Nat := 1

/-- Observers are numbered as the factory creates them. -/
structure Memory where
  /-- By `to_unsigned(pri)`; `none` is a null pointer. -/
  queueObservers : BitVec 8 → Option Nat := fun _ => none
  created : Nat := 0
  /-- What the calls have freed. -/
  freed : List Nat := []
  /-- What the destructor has freed. -/
  deleted : List Nat := []
  /-- The slots that the destructor has still to free, once it has begun. -/
  destructor : Option (List (BitVec 8)) := none

/-- Where a call of `getQueueObserver(pri)` is. -/
inductive Call where
  | load
  /-- In `getQueueObserver(0)`, whose result goes into the slot. -/
  | shared (inner : Call)
  | create
  | exchange (newObserver : Nat)
  /-- The exchange has failed, and `newObserver` goes out of scope. -/
  | free (newObserver existingObserver : Nat)
  | returned (observer : Option Nat)
deriving DecidableEq

structure Agent where
  pri : BitVec 8
  call : Call := .load
deriving DecidableEq

namespace Memory

def store (memory : Memory) (pri : BitVec 8) (observer : Option Nat) : Memory :=
  { memory with queueObservers := Function.update memory.queueObservers pri observer }

end Memory

def Call.step (executor : Executor) (memory : Memory) (pri : BitVec 8) :
    Call → Option (Memory × Call)
  | .load =>
      if executor.queueObserverFactory = false then some (memory, .returned none)
      else
        match memory.queueObservers pri with
        | some observer => some (memory, .returned (some observer))
        | none =>
            if executor.numPriorities = 1 ∧ pri ≠ 0 then some (memory, .shared .load)
            else some (memory, .create)
  | .shared inner =>
      match inner with
      | .returned sharedObserver =>
          some (memory.store pri sharedObserver, .returned sharedObserver)
      | _ => (inner.step executor memory 0).map fun moved => (moved.1, .shared moved.2)
  | .create => some ({ memory with created := memory.created + 1 }, .exchange memory.created)
  | .exchange newObserver =>
      match memory.queueObservers pri with
      | none => some (memory.store pri (some newObserver), .returned (some newObserver))
      | some existingObserver => some (memory, .free newObserver existingObserver)
  | .free newObserver existingObserver =>
      some ({ memory with freed := newObserver :: memory.freed }, .returned (some existingObserver))
  | .returned _ => none

/-- The slots whose observers the destructor frees. -/
def Executor.deletes (executor : Executor) : List (BitVec 8) :=
  if executor.numPriorities = 1 then [0] else (List.range 256).map (BitVec.ofNat 8)

inductive Choice where
  | getQueueObserver (pri : BitVec 8)
  | destroy
  | delete
deriving DecidableEq

def begin (executor : Executor) (memory : Memory) : Choice → Option (Memory × List Agent)
  | .getQueueObserver pri =>
      match memory.destructor with
      | none => some (memory, [{ pri }])
      | some _ => none
  | .destroy =>
      match memory.destructor with
      | none => some ({ memory with destructor := some executor.deletes }, [])
      | some _ => none
  | .delete =>
      match memory.destructor with
      | some (slot :: rest) =>
          some ({ memory with
            deleted := (memory.queueObservers slot).toList ++ memory.deleted
            destructor := some rest }, [])
      | _ => none

def system (executor : Executor) : System Memory Agent Unit Choice where
  init := ⟨{}, []⟩
  act _ memory agent :=
    (agent.call.step executor memory agent.pri).map fun moved =>
      (moved.1, [{ agent with call := moved.2 }])
  env choice memory := begin executor memory choice

def Call.isReturned : Call → Bool
  | .returned _ => true
  | _ => false

/-- The pool is destroyed when no call is in progress. -/
def outlives (state : Global Memory Agent) : Label Unit Choice → Prop
  | .env .destroy => ∀ agent ∈ state.agents, agent.call.isReturned = true
  | _ => True

instance (state : Global Memory Agent) : (label : Label Unit Choice) →
    Decidable (outlives state label)
  | .env .destroy =>
      inferInstanceAs (Decidable (∀ agent ∈ state.agents, agent.call.isReturned = true))
  | .env (.getQueueObserver _) | .env .delete | .act _ _ => .isTrue trivial

/-- The priorities that share an observer. -/
def Executor.home (executor : Executor) (pri : BitVec 8) : BitVec 8 :=
  if executor.numPriorities = 1 then 0 else pri

def Executor.installed (executor : Executor) (memory : Memory) : List Nat :=
  executor.deletes.filterMap memory.queueObservers

/-- The observer that a call has created and neither installed nor freed. -/
def Call.held : Call → List Nat
  | .exchange newObserver | .free newObserver _ => [newObserver]
  | .shared inner => inner.held
  | .load | .create | .returned _ => []

structure Lawful (executor : Executor) (state : Global Memory Agent) : Prop where
  agree : ∀ pri other observer otherObserver, ⟨pri, .returned observer⟩ ∈ state.agents →
    ⟨other, .returned otherObserver⟩ ∈ state.agents → executor.home pri = executor.home other →
    observer = otherObserver
  present : executor.queueObserverFactory = true → ∀ pri, ⟨pri, .returned none⟩ ∉ state.agents
  /-- A returned observer stays in its slot, and only the destructor frees it. -/
  kept : ∀ pri observer, ⟨pri, .returned (some observer)⟩ ∈ state.agents →
    state.shared.queueObservers pri = some observer ∧ observer ∉ state.shared.freed ∧
      (state.shared.destructor = none → observer ∉ state.shared.deleted)
  once : ∀ observer, state.shared.freed.count observer + state.shared.deleted.count observer ≤ 1
  /-- What is not installed is freed, by the call that still holds it. -/
  losers : ∀ observer < state.shared.created, observer ∉ executor.installed state.shared →
    (∃ agent ∈ state.agents, observer ∈ agent.call.held) ∨ state.shared.freed.count observer = 1
  destroyed : state.shared.destructor = some [] →
    ∀ observer ∈ executor.installed state.shared, state.shared.deleted.count observer = 1

/-! ## Slots -/

section Slots

variable {κ : Type} [DecidableEq κ] {slots : κ → Option Nat} {keys : List κ} {key : κ}
  {observer : Nat}

theorem filterMap_update_of_notMem (absent : key ∉ keys) (content : Option Nat) :
    keys.filterMap (Function.update slots key content) = keys.filterMap slots := by
  apply List.filterMap_congr
  intro other member
  apply Function.update_of_ne
  rintro rfl
  exact absent member

/-- Filling an empty slot adds its content to the list. -/
theorem filterMap_update_perm (nodup : keys.Nodup) (member : key ∈ keys)
    (empty : slots key = none) :
    (keys.filterMap (Function.update slots key (some observer))).Perm
      (observer :: keys.filterMap slots) := by
  obtain ⟨front, back, rfl⟩ := List.append_of_mem member
  have split := List.nodup_middle.mp nodup
  rw [List.nodup_cons, List.mem_append, not_or] at split
  simp only [List.filterMap_append, List.filterMap_cons, Function.update_self, empty,
    filterMap_update_of_notMem split.1.1, filterMap_update_of_notMem split.1.2]
  exact List.perm_middle

end Slots

section Store

variable {memory : Memory} {pri slot : BitVec 8} {content : Option Nat}

theorem Memory.store_self : (memory.store pri content).queueObservers pri = content := by
  simp only [store, Function.update_self]

theorem Memory.store_of_ne (other : slot ≠ pri) :
    (memory.store pri content).queueObservers slot = memory.queueObservers slot := by
  simp only [store, Function.update_of_ne other]

end Store

section Deletes

variable {executor : Executor} {pri : BitVec 8}

theorem nodup_deletes : executor.deletes.Nodup := by
  unfold Executor.deletes
  split
  · exact List.nodup_singleton 0
  · apply List.Nodup.map_on _ List.nodup_range
    intro slot inside other otherInside same
    rw [List.mem_range] at inside otherInside
    have values := congrArg BitVec.toNat same
    simpa [Nat.mod_eq_of_lt inside, Nat.mod_eq_of_lt otherInside] using values

theorem mem_deletes_iff : pri ∈ executor.deletes ↔ executor.home pri = pri := by
  unfold Executor.deletes Executor.home
  split
  · rw [List.mem_singleton, eq_comm]
  · refine iff_of_true (List.mem_map.mpr ⟨pri.toNat, ?_, ?_⟩) rfl
    · exact List.mem_range.mpr pri.isLt
    · rw [BitVec.ofNat_toNat, BitVec.setWidth_eq]

theorem home_home : executor.home (executor.home pri) = executor.home pri := by
  unfold Executor.home
  split <;> rfl

theorem home_of_single (single : executor.numPriorities = 1) : executor.home pri = 0 :=
  if_pos single

end Deletes

/-! ## Steps -/

/-- The result that a call has settled on. -/
def Call.result : Call → Option Nat
  | .free _ existingObserver => some existingObserver
  | .shared inner => inner.result
  | .returned observer => observer
  | .load | .create | .exchange _ => none

/-- Where a call for a priority may be. -/
def Call.Fits (executor : Executor) : BitVec 8 → Call → Prop
  | _, .load => True
  | pri, .shared inner =>
      executor.queueObserverFactory = true ∧ executor.numPriorities = 1 ∧ pri ≠ 0 ∧
        inner.Fits executor 0
  | pri, .create | pri, .exchange _ | pri, .free _ _ =>
      executor.queueObserverFactory = true ∧ executor.home pri = pri
  | _, .returned observer => executor.queueObserverFactory = true ↔ observer ≠ none

/-- What a step of a call does. -/
inductive Effect (executor : Executor) (memory after : Memory) (pri : BitVec 8)
    (call next : Call) : Prop where
  | looks : after = memory → next.held = call.held →
      (∀ observer ∈ next.result, observer ∈ call.result ∨
        ∃ slot, executor.home slot = executor.home pri ∧
          memory.queueObservers slot = some observer) →
      Effect executor memory after pri call next
  | creates : after = { memory with created := memory.created + 1 } → call.held = [] →
      next.held = [memory.created] → next.result = none → Effect executor memory after pri call next
  | installs (observer : Nat) : memory.queueObservers (executor.home pri) = none →
      after = memory.store (executor.home pri) (some observer) → call.held = [observer] →
      next.held = [] → next.result = some observer → Effect executor memory after pri call next
  | frees (observer : Nat) : after = { memory with freed := observer :: memory.freed } →
      call.held = [observer] → next.held = [] → next.result = call.result →
      Effect executor memory after pri call next
  | copies (observer : Nat) : executor.home pri ≠ pri → call.result = some observer →
      after = memory.store pri (some observer) → next.held = call.held →
      next.result = call.result → Effect executor memory after pri call next

section Steps

variable {executor : Executor} {memory after : Memory} {pri : BitVec 8} {call inner next : Call}
  {observer : Nat}

theorem step_shared (running : inner.isReturned = false) :
    (Call.shared inner).step executor memory pri =
      (inner.step executor memory 0).map fun moved => (moved.1, .shared moved.2) := by
  cases inner with
  | returned => cases running
  | _ => rfl

/-- The recursive call's steps are the caller's. -/
theorem Effect.shared (single : executor.numPriorities = 1)
    (effect : Effect executor memory after 0 inner next) :
    Effect executor memory after pri (.shared inner) (.shared next) := by
  have same : executor.home pri = executor.home 0 := by
    rw [home_of_single single, home_of_single single]
  cases effect with
  | looks sameMemory held results =>
      rw [← same] at results
      exact .looks sameMemory held results
  | creates created free held result => exact .creates created free held result
  | installs observer empty stored held free result =>
      rw [← same] at empty stored
      exact .installs observer empty stored held free result
  | frees observer freed held free result => exact .frees observer freed held free result
  | copies observer elsewhere => exact absurd (home_of_single single) elsewhere

theorem step_effect (fits : call.Fits executor pri)
    (stepped : call.step executor memory pri = some (after, next)) :
    Effect executor memory after pri call next ∧ next.Fits executor pri := by
  induction call generalizing pri next with
  | load =>
      simp only [Call.step] at stepped
      split at stepped
      · next absent =>
          cases stepped
          refine ⟨.looks rfl rfl nofun, iff_of_false ?_ (not_not.mpr rfl)⟩
          rw [absent]
          exact nofun
      · next present =>
          have factory : executor.queueObserverFactory = true := (Bool.not_eq_false _).mp present
          split at stepped
          · next observer found =>
              cases stepped
              refine ⟨.looks rfl rfl ?_, iff_of_true factory nofun⟩
              rintro _ ⟨⟩
              exact .inr ⟨pri, rfl, found⟩
          · split at stepped
            · next shares =>
                cases stepped
                exact ⟨.looks rfl rfl nofun, factory, shares.1, shares.2, trivial⟩
            · next own =>
                cases stepped
                refine ⟨.looks rfl rfl nofun, factory, ?_⟩
                unfold Executor.home
                split
                · next single =>
                    by_contra other
                    exact own ⟨single, fun zero => other zero.symm⟩
                · rfl
  | shared inner ih =>
      obtain ⟨factory, single, nonzero, innerFits⟩ := fits
      cases running : inner.isReturned with
      | false =>
          rw [step_shared running] at stepped
          obtain ⟨moved, innerStepped, same⟩ := Option.map_eq_some_iff.mp stepped
          cases same
          obtain ⟨effect, movedFits⟩ := ih innerFits innerStepped
          exact ⟨effect.shared single, factory, single, nonzero, movedFits⟩
      | true =>
          cases inner with
          | returned sharedObserver =>
              cases stepped
              obtain ⟨observer, rfl⟩ := Option.ne_none_iff_exists'.mp (innerFits.mp factory)
              refine ⟨.copies observer ?_ rfl rfl rfl rfl, iff_of_true factory nofun⟩
              rw [home_of_single single]
              exact nonzero.symm
          | _ => cases running
  | create =>
      cases stepped
      exact ⟨.creates rfl rfl rfl rfl, fits⟩
  | exchange newObserver =>
      obtain ⟨factory, own⟩ := fits
      simp only [Call.step] at stepped
      split at stepped
      · next empty =>
          cases stepped
          refine ⟨.installs newObserver ?_ ?_ rfl rfl rfl, iff_of_true factory nofun⟩
          · rw [own, empty]
          · rw [own]
      · next existing found =>
          cases stepped
          refine ⟨.looks rfl rfl ?_, factory, own⟩
          rintro _ ⟨⟩
          exact .inr ⟨pri, rfl, found⟩
  | free newObserver existingObserver =>
      cases stepped
      exact ⟨.frees newObserver rfl rfl rfl rfl, iff_of_true fits.1 nofun⟩
  | returned result => cases stepped

/-- A call that returns leaves its result in the slot of its priority. -/
theorem stored_of_step (fits : call.Fits executor pri)
    (settled : ∀ observer ∈ call.result, memory.queueObservers (executor.home pri) = some observer)
    (stepped : call.step executor memory pri = some (after, .returned (some observer))) :
    after.queueObservers pri = some observer := by
  cases call with
  | load =>
      simp only [Call.step] at stepped
      split at stepped
      · cases stepped
      · split at stepped
        · next found =>
            cases stepped
            exact found
        · split at stepped
          · cases stepped
          · cases stepped
  | shared inner =>
      cases running : inner.isReturned with
      | false =>
          rw [step_shared running] at stepped
          obtain ⟨moved, _, same⟩ := Option.map_eq_some_iff.mp stepped
          cases same
      | true =>
          cases inner with
          | returned sharedObserver =>
              cases stepped
              exact Memory.store_self
          | _ => cases running
  | create => cases stepped
  | exchange newObserver =>
      simp only [Call.step] at stepped
      split at stepped
      · cases stepped
        exact Memory.store_self
      · cases stepped
  | free newObserver existingObserver =>
      cases stepped
      exact fits.2 ▸ settled _ rfl
  | returned result => cases stepped

end Steps

/-! ## Runs -/

/-- What holds between the slots, the calls and who owns an observer. -/
structure Consistent (executor : Executor) (memory : Memory) (agents : List Agent) : Prop where
  aliases : ∀ slot observer, memory.queueObservers slot = some observer →
    memory.queueObservers (executor.home slot) = some observer
  fits : ∀ agent ∈ agents, agent.call.Fits executor agent.pri
  settled : ∀ agent ∈ agents, ∀ observer ∈ agent.call.result,
    memory.queueObservers (executor.home agent.pri) = some observer
  stored : ∀ pri observer, ⟨pri, .returned (some observer)⟩ ∈ agents →
    memory.queueObservers pri = some observer
  owners : (agents.flatMap (fun agent => agent.call.held) ++
    (memory.freed ++ executor.installed memory)).Perm (List.range memory.created)
  idle : memory.destructor ≠ none → ∀ agent ∈ agents, agent.call.isReturned = true
  alive : memory.destructor = none → memory.deleted = []
  deleting : ∀ remaining ∈ memory.destructor,
    (memory.deleted ++ remaining.filterMap memory.queueObservers).Perm (executor.installed memory)

section Runs

variable {executor : Executor} {memory after : Memory} {agents others : List Agent}

theorem Consistent.reorder (same : agents.Perm others)
    (consistent : Consistent executor memory agents) : Consistent executor memory others := by
  constructor
  case aliases => exact consistent.aliases
  case fits => exact fun agent member => consistent.fits agent (same.mem_iff.mpr member)
  case settled => exact fun agent member => consistent.settled agent (same.mem_iff.mpr member)
  case stored =>
    exact fun pri observer member => consistent.stored pri observer (same.mem_iff.mpr member)
  case owners => exact ((same.symm.flatMap_right _).append_right _).trans consistent.owners
  case idle => exact fun begun agent member => consistent.idle begun agent (same.mem_iff.mpr member)
  case alive => exact consistent.alive
  case deleting => exact consistent.deleting

/-- A step fills empty slots, and fills a copy only with what its home has. -/
structure Extends (executor : Executor) (memory after : Memory) : Prop where
  keeps : ∀ slot observer, memory.queueObservers slot = some observer →
    after.queueObservers slot = some observer
  aliases : ∀ slot observer, after.queueObservers slot = some observer →
    after.queueObservers (executor.home slot) = some observer

theorem extends_refl (aliases : ∀ slot observer, memory.queueObservers slot = some observer →
      memory.queueObservers (executor.home slot) = some observer)
    (same : after.queueObservers = memory.queueObservers) : Extends executor memory after := by
  constructor
  case keeps => exact fun slot observer found => same ▸ found
  case aliases => exact same ▸ aliases

theorem extends_of_effect {agent : Agent} {next : Call}
    (consistent : Consistent executor memory (agent :: agents))
    (effect : Effect executor memory after agent.pri agent.call next) :
    Extends executor memory after := by
  cases effect with
  | looks sameMemory => exact extends_refl consistent.aliases (sameMemory ▸ rfl)
  | creates created => exact extends_refl consistent.aliases (created ▸ rfl)
  | frees _ freed => exact extends_refl consistent.aliases (freed ▸ rfl)
  | installs observer empty stored =>
      subst stored
      constructor
      case keeps =>
        intro slot other found
        have different : slot ≠ executor.home agent.pri := by
          rintro rfl
          exact absurd (empty.symm.trans found) nofun
        rw [Memory.store_of_ne different, found]
      case aliases =>
        intro slot other found
        by_cases home : executor.home slot = executor.home agent.pri
        · rw [home, Memory.store_self]
          by_cases own : slot = executor.home agent.pri
          · rw [own, Memory.store_self] at found
            exact found
          · rw [Memory.store_of_ne own] at found
            have filled := consistent.aliases slot other found
            rw [home, empty] at filled
            cases filled
        · have different : slot ≠ executor.home agent.pri := by
            rintro rfl
            exact home home_home
          rw [Memory.store_of_ne different] at found
          rw [Memory.store_of_ne home]
          exact consistent.aliases slot other found
  | copies observer elsewhere result stored =>
      subst stored
      have own := consistent.settled agent List.mem_cons_self observer result
      constructor
      case keeps =>
        intro slot other found
        by_cases same : slot = agent.pri
        · have filled := consistent.aliases slot other found
          rw [same, own] at filled
          rw [same, Memory.store_self, filled]
        · rw [Memory.store_of_ne same, found]
      case aliases =>
        intro slot other found
        have homes : executor.home slot ≠ agent.pri := by
          intro same
          exact elsewhere (same ▸ home_home)
        rw [Memory.store_of_ne homes]
        by_cases same : slot = agent.pri
        · rw [same, Memory.store_self] at found
          rw [same, own, found]
        · rw [Memory.store_of_ne same] at found
          exact consistent.aliases slot other found

/-- An observer passes from the call that made it to a slot or to the freed ones. -/
theorem owners_of_effect {agent : Agent} {next : Call}
    (consistent : Consistent executor memory (agent :: agents))
    (effect : Effect executor memory after agent.pri agent.call next) :
    ((next.held ++ agents.flatMap fun agent => agent.call.held) ++
      (after.freed ++ executor.installed after)).Perm (List.range after.created) := by
  have owners : ((agent.call.held ++ agents.flatMap fun agent => agent.call.held) ++
      (memory.freed ++ executor.installed memory)).Perm (List.range memory.created) :=
    consistent.owners
  cases effect with
  | looks sameMemory held =>
      subst sameMemory
      rw [held]
      exact owners
  | creates created free held =>
      subst created
      rw [free, List.nil_append] at owners
      rw [held, List.range_succ, List.append_assoc]
      exact (owners.cons _).trans (List.perm_append_singleton _ _).symm
  | installs observer empty stored held free =>
      subst stored
      rw [held] at owners
      rw [free, List.nil_append]
      have installed : (executor.installed (memory.store (executor.home agent.pri)
          (some observer))).Perm (observer :: executor.installed memory) :=
        filterMap_update_perm nodup_deletes (mem_deletes_iff.mpr home_home) empty
      have inFront := (installed.append_left memory.freed).trans List.perm_middle
      exact (inFront.append_left _).trans (List.perm_middle.trans owners)
  | frees observer freed held free =>
      subst freed
      rw [held] at owners
      rw [free, List.nil_append]
      exact List.perm_middle.trans owners
  | copies observer elsewhere result stored held =>
      subst stored
      have same : executor.installed (memory.store agent.pri (some observer)) =
          executor.installed memory :=
        filterMap_update_of_notMem (mt mem_deletes_iff.mp elsewhere) _
      rw [held, same]
      exact owners

/-- A step settles on what the home slot of the priority holds. -/
theorem settled_of_effect {agent : Agent} {next : Call} {observer : Nat}
    (consistent : Consistent executor memory (agent :: agents))
    (effect : Effect executor memory after agent.pri agent.call next)
    (settles : observer ∈ next.result) :
    after.queueObservers (executor.home agent.pri) = some observer := by
  have grown := extends_of_effect consistent effect
  have settled := consistent.settled agent List.mem_cons_self observer
  cases effect with
  | looks sameMemory held results =>
      subst sameMemory
      rcases results observer settles with before | ⟨slot, home, found⟩
      · exact settled before
      · exact home ▸ consistent.aliases slot observer found
  | creates created free held result =>
      rw [result] at settles
      cases settles
  | installs other empty stored held free result =>
      rw [result] at settles
      cases settles
      rw [stored, Memory.store_self]
  | frees other freed held free result =>
      apply grown.keeps
      exact settled (result ▸ settles)
  | copies other elsewhere result stored held same =>
      apply grown.keeps
      exact settled (same ▸ settles)

theorem destructor_of_effect {agent : Agent} {next : Call}
    (effect : Effect executor memory after agent.pri agent.call next) :
    after.destructor = memory.destructor ∧ after.deleted = memory.deleted := by
  cases effect with
  | looks same => exact same ▸ ⟨rfl, rfl⟩
  | creates same => exact same ▸ ⟨rfl, rfl⟩
  | installs _ _ same => exact same ▸ ⟨rfl, rfl⟩
  | frees _ same => exact same ▸ ⟨rfl, rfl⟩
  | copies _ _ _ same => exact same ▸ ⟨rfl, rfl⟩

theorem not_isReturned_of_step {agent : Agent} {next : Call}
    (stepped : agent.call.step executor memory agent.pri = some (after, next)) :
    agent.call.isReturned = false := by
  cases called : agent.call with
  | returned observer =>
      rw [called] at stepped
      cases stepped
  | _ => rfl

theorem consistent_step {agent : Agent} {next : Call}
    (stepped : agent.call.step executor memory agent.pri = some (after, next))
    (consistent : Consistent executor memory (agent :: agents)) :
    Consistent executor after ({ agent with call := next } :: agents) := by
  obtain ⟨effect, nextFits⟩ := step_effect (consistent.fits agent List.mem_cons_self) stepped
  have grown := extends_of_effect consistent effect
  obtain ⟨sameDestructor, sameDeleted⟩ := destructor_of_effect effect
  have nextSettled : ∀ observer ∈ next.result,
      after.queueObservers (executor.home agent.pri) = some observer :=
    fun _ settles => settled_of_effect consistent effect settles
  have alive : memory.destructor = none := by
    by_contra begun
    have ended := consistent.idle begun agent List.mem_cons_self
    rw [not_isReturned_of_step stepped] at ended
    cases ended
  constructor
  case aliases => exact grown.aliases
  case fits =>
    intro other member
    rcases List.mem_cons.mp member with rfl | rest
    · exact nextFits
    · exact consistent.fits other (List.mem_cons_of_mem _ rest)
  case settled =>
    intro other member observer settles
    rcases List.mem_cons.mp member with rfl | rest
    · exact nextSettled observer settles
    · apply grown.keeps
      exact consistent.settled other (List.mem_cons_of_mem _ rest) observer settles
  case stored =>
    intro pri observer member
    rcases List.mem_cons.mp member with head | rest
    · cases head
      exact stored_of_step (consistent.fits agent List.mem_cons_self)
        (consistent.settled agent List.mem_cons_self) stepped
    · apply grown.keeps
      exact consistent.stored pri observer (List.mem_cons_of_mem _ rest)
  case owners => exact owners_of_effect consistent effect
  case idle => exact fun begun => absurd (sameDestructor.trans alive) begun
  case alive => exact fun _ => sameDeleted.trans (consistent.alive alive)
  case deleting =>
    intro remaining begun
    rw [sameDestructor, alive] at begun
    cases begun

theorem consistent_begin {choice : Choice} {left : List Agent}
    (outlived : choice = .destroy → ∀ agent ∈ agents, agent.call.isReturned = true)
    (begun : begin executor memory choice = some (after, left))
    (consistent : Consistent executor memory agents) :
    Consistent executor after (left ++ agents) := by
  cases choice with
  | getQueueObserver pri =>
      simp only [begin] at begun
      split at begun
      · next alive =>
          cases begun
          constructor
          case aliases => exact consistent.aliases
          case fits =>
            intro other member
            rcases List.mem_cons.mp member with rfl | rest
            · trivial
            · exact consistent.fits other rest
          case settled =>
            intro other member observer settles
            rcases List.mem_cons.mp member with rfl | rest
            · cases settles
            · exact consistent.settled other rest observer settles
          case stored =>
            exact fun pri observer member =>
              consistent.stored pri observer ((List.mem_cons.mp member).resolve_left nofun)
          case owners => exact consistent.owners
          case idle => exact fun destroyed => absurd alive destroyed
          case alive => exact consistent.alive
          case deleting => exact consistent.deleting
      · cases begun
  | destroy =>
      simp only [begin] at begun
      split at begun
      · next alive =>
          cases begun
          constructor
          case aliases => exact consistent.aliases
          case fits => exact consistent.fits
          case settled => exact consistent.settled
          case stored => exact consistent.stored
          case owners => exact consistent.owners
          case idle => exact fun _ => outlived rfl
          case alive => exact nofun
          case deleting =>
            rintro _ ⟨⟩
            rw [consistent.alive alive, List.nil_append]
            exact .refl _
      · cases begun
  | delete =>
      simp only [begin] at begun
      split at begun
      · next slot rest destroying =>
          cases begun
          have deleting := consistent.deleting (slot :: rest) destroying
          constructor
          case aliases => exact consistent.aliases
          case fits => exact consistent.fits
          case settled => exact consistent.settled
          case stored => exact consistent.stored
          case owners => exact consistent.owners
          case idle => exact fun _ => consistent.idle (destroying ▸ nofun)
          case alive => exact nofun
          case deleting =>
            rintro _ ⟨⟩
            refine List.Perm.trans ?_ deleting
            cases content : memory.queueObservers slot with
            | none =>
                rw [List.filterMap_cons_none content]
                exact .refl _
            | some observer =>
                rw [List.filterMap_cons_some content]
                exact List.perm_middle.symm
      · cases begun

end Runs

section Lawful

variable {executor : Executor} {state : Global Memory Agent}

theorem consistent (reached : Reachable (system executor) outlives state) :
    Consistent executor state.shared state.agents := by
  apply Reaches.invariant (Consistent executor) _ _ _ _ reached
  · exact Consistent.reorder
  · refine ⟨nofun, nofun, nofun, nofun, ?_, nofun, fun _ => rfl, nofun⟩
    change (executor.deletes.filterMap fun _ => none).Perm []
    rw [List.filterMap_none]
  · intro before index choice agent shared left _ _ _ acted consistent
    obtain ⟨moved, stepped, same⟩ := Option.map_eq_some_iff.mp acted
    cases same
    exact consistent_step stepped consistent
  · intro before choice shared left _ permitted begun consistent
    apply consistent_begin _ begun consistent
    rintro rfl
    exact permitted

end Lawful

end ThreadPoolExec.QueueObservers
