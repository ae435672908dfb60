import Mathlib.Data.List.Nodup
import ThreadPoolExec.Interleaving

/-!
# The ids of the worker threads

`ThreadIdWorkerProvider` lets an observer collect the ids of the running workers.
The guard that comes with them holds `threadsExitMutex_` shared; a worker erases
its id first and only then asks for that mutex exclusively.
-/

set_option autoImplicit false

namespace ThreadPoolExec.ThreadIdWorkerProvider

open Interleaving

/-- A `folly::SharedMutex`: any number of readers, or one writer. -/
structure SharedMutex where
  readers : Nat := 0
  writer : Bool := false

namespace SharedMutex

def lock (mutex : SharedMutex) : Option SharedMutex :=
  if mutex.readers = 0 ∧ mutex.writer = false then some { mutex with writer := true } else none

def unlock (mutex : SharedMutex) : SharedMutex :=
  { mutex with writer := false }

def lockShared (mutex : SharedMutex) : Option SharedMutex :=
  if mutex.writer = false then some { mutex with readers := mutex.readers + 1 } else none

def unlockShared (mutex : SharedMutex) : SharedMutex :=
  { mutex with readers := mutex.readers - 1 }

end SharedMutex

/-- `osThreadIds_` is a `Synchronized` set, which has a mutex of its own. -/
structure Provider where
  osThreadIds : List Nat := []
  osThreadIdsMutex : SharedMutex := {}
  threadsExitMutex : SharedMutex := {}
  /-- The threads that have ever been started. -/
  started : List Nat := []

/-- Where a worker thread is: in `addTid`, running, in `removeTid`, or past it. -/
inductive Worker where
  | addTid | insert | inserted
  | running
  | removeTid | erase | erased | block | blocked
  | returned
deriving DecidableEq

/-- Where a call of `collectThreadIds` is. Its guard exists from the copy of the
ids until `dropped`. -/
inductive Collector where
  | readHolder | rlock | copy
  | copied (threadIds : List Nat)
  | guarding (threadIds : List Nat)
  | dropped
deriving DecidableEq

inductive Agent where
  | worker (tid : Nat) (pc : Worker)
  | collector (pc : Collector)
deriving DecidableEq

def stepWorker (provider : Provider) (tid : Nat) : Worker → Option (Provider × Worker)
  | .addTid =>
      provider.osThreadIdsMutex.lock.map fun mutex =>
        ({ provider with osThreadIdsMutex := mutex }, .insert)
  | .insert => some ({ provider with osThreadIds := provider.osThreadIds.insert tid }, .inserted)
  | .inserted =>
      some ({ provider with osThreadIdsMutex := provider.osThreadIdsMutex.unlock }, .running)
  | .running => some (provider, .removeTid)
  | .removeTid =>
      provider.osThreadIdsMutex.lock.map fun mutex =>
        ({ provider with osThreadIdsMutex := mutex }, .erase)
  | .erase => some ({ provider with osThreadIds := provider.osThreadIds.erase tid }, .erased)
  | .erased =>
      some ({ provider with osThreadIdsMutex := provider.osThreadIdsMutex.unlock }, .block)
  | .block =>
      -- `WriteHolder w{threadsExitMutex_}` waits for all guards
      provider.threadsExitMutex.lock.map fun mutex =>
        ({ provider with threadsExitMutex := mutex }, .blocked)
  | .blocked =>
      some ({ provider with threadsExitMutex := provider.threadsExitMutex.unlock }, .returned)
  | .returned => none

def stepCollector (provider : Provider) : Collector → Option (Provider × Collector)
  | .readHolder =>
      provider.threadsExitMutex.lockShared.map fun mutex =>
        ({ provider with threadsExitMutex := mutex }, .rlock)
  | .rlock =>
      provider.osThreadIdsMutex.lockShared.map fun mutex =>
        ({ provider with osThreadIdsMutex := mutex }, .copy)
  | .copy => some (provider, .copied provider.osThreadIds)
  | .copied threadIds =>
      some ({ provider with osThreadIdsMutex := provider.osThreadIdsMutex.unlockShared },
        .guarding threadIds)
  | .guarding _ =>
      -- the destructor of the guard, at any time
      some ({ provider with threadsExitMutex := provider.threadsExitMutex.unlockShared }, .dropped)
  | .dropped => none

def step (_ : Unit) (provider : Provider) : Agent → Option (Provider × List Agent)
  | .worker tid pc =>
      (stepWorker provider tid pc).map fun moved => (moved.1, [.worker tid moved.2])
  | .collector pc => (stepCollector provider pc).map fun moved => (moved.1, [.collector moved.2])

inductive Begin where
  | thread (tid : Nat)
  | collectThreadIds

/-- Ids are distinct: a thread is started once. -/
def begin (provider : Provider) : Begin → Option (Provider × List Agent)
  | .thread tid =>
      if tid ∈ provider.started then none
      else some ({ provider with started := tid :: provider.started }, [.worker tid .addTid])
  | .collectThreadIds => some (provider, [.collector .readHolder])

def system : System Provider Agent Unit Begin where
  init := ⟨{}, []⟩
  act := step
  env choice provider := begin provider choice

/-- The ids that came with a guard which still exists. -/
def Agent.guards : Agent → Option (List Nat)
  | .collector (.copied threadIds) | .collector (.guarding threadIds) => some threadIds
  | _ => none

/-! ## Steps -/

def Agent.tid : Agent → Option Nat
  | .worker tid _ => some tid
  | .collector _ => none

/-- Whether a worker's id is in the set. -/
def Worker.listed : Worker → Bool
  | .inserted | .running | .removeTid | .erase => true
  | _ => false

/-- Whether a worker has still to wait for the guards. -/
def Worker.waits : Worker → Bool
  | .blocked | .returned => false
  | _ => true

/-- The shared holds of `threadsExitMutex_`. -/
def Agent.holds : Agent → Nat
  | .collector .readHolder | .collector .dropped | .worker _ _ => 0
  | .collector _ => 1

/-- What a worker's step does to the ids and to those who wait. -/
inductive WorkerStep (provider after : Provider) (tid : Nat) : Worker → Worker → Prop where
  | insert : after.osThreadIds = provider.osThreadIds.insert tid →
      WorkerStep provider after tid .insert .inserted
  | erase : after.osThreadIds = provider.osThreadIds.erase tid →
      WorkerStep provider after tid .erase .erased
  | block : provider.threadsExitMutex.readers = 0 → after.osThreadIds = provider.osThreadIds →
      WorkerStep provider after tid .block .blocked
  | silent {pc next : Worker} : after.osThreadIds = provider.osThreadIds →
      next.listed = pc.listed → next.waits = pc.waits → WorkerStep provider after tid pc next

section Steps

variable {provider after : Provider} {tid : Nat} {pc next : Worker} {left : List Agent}

theorem SharedMutex.lock_eq_some {mutex locked : SharedMutex} (taken : mutex.lock = some locked) :
    mutex.readers = 0 ∧ locked.readers = mutex.readers := by
  unfold lock at taken
  split at taken
  · next free =>
      cases taken
      exact ⟨free.1, rfl⟩
  · cases taken

theorem SharedMutex.lockShared_eq_some {mutex locked : SharedMutex}
    (taken : mutex.lockShared = some locked) : locked.readers = mutex.readers + 1 := by
  unfold lockShared at taken
  split at taken
  · cases taken
    rfl
  · cases taken

theorem stepWorker_cases (stepped : stepWorker provider tid pc = some (after, next)) :
    WorkerStep provider after tid pc next ∧ after.started = provider.started ∧
      after.threadsExitMutex.readers = provider.threadsExitMutex.readers := by
  cases pc with
  | addTid =>
      obtain ⟨mutex, _, moved⟩ := Option.map_eq_some_iff.mp stepped
      cases moved
      exact ⟨.silent rfl rfl rfl, rfl, rfl⟩
  | insert =>
      cases stepped
      exact ⟨.insert rfl, rfl, rfl⟩
  | inserted =>
      cases stepped
      exact ⟨.silent rfl rfl rfl, rfl, rfl⟩
  | running =>
      cases stepped
      exact ⟨.silent rfl rfl rfl, rfl, rfl⟩
  | removeTid =>
      obtain ⟨mutex, _, moved⟩ := Option.map_eq_some_iff.mp stepped
      cases moved
      exact ⟨.silent rfl rfl rfl, rfl, rfl⟩
  | erase =>
      cases stepped
      exact ⟨.erase rfl, rfl, rfl⟩
  | erased =>
      cases stepped
      exact ⟨.silent rfl rfl rfl, rfl, rfl⟩
  | block =>
      obtain ⟨mutex, taken, moved⟩ := Option.map_eq_some_iff.mp stepped
      cases moved
      obtain ⟨free, same⟩ := SharedMutex.lock_eq_some taken
      exact ⟨.block free rfl, rfl, same⟩
  | blocked =>
      cases stepped
      exact ⟨.silent rfl rfl rfl, rfl, rfl⟩
  | returned => cases stepped

/-- A collector's step leaves the set alone; what it guards it had, or has copied. -/
theorem stepCollector_cases {pc next : Collector}
    (stepped : stepCollector provider pc = some (after, next)) :
    after.osThreadIds = provider.osThreadIds ∧ after.started = provider.started ∧
      ∀ threadIds ∈ (Agent.collector next).guards,
        threadIds = provider.osThreadIds ∨ threadIds ∈ (Agent.collector pc).guards := by
  cases pc with
  | readHolder =>
      obtain ⟨mutex, _, moved⟩ := Option.map_eq_some_iff.mp stepped
      cases moved
      exact ⟨rfl, rfl, nofun⟩
  | rlock =>
      obtain ⟨mutex, _, moved⟩ := Option.map_eq_some_iff.mp stepped
      cases moved
      exact ⟨rfl, rfl, nofun⟩
  | copy =>
      cases stepped
      refine ⟨rfl, rfl, ?_⟩
      rintro _ ⟨⟩
      exact .inl rfl
  | copied threadIds =>
      cases stepped
      exact ⟨rfl, rfl, fun _ member => .inr member⟩
  | guarding threadIds =>
      cases stepped
      exact ⟨rfl, rfl, nofun⟩
  | dropped => cases stepped

/-- The readers of `threadsExitMutex_` change with the holds of the collector. -/
theorem readers_stepCollector {pc next : Collector}
    (stepped : stepCollector provider pc = some (after, next))
    (held : (Agent.collector pc).holds ≤ provider.threadsExitMutex.readers) :
    after.threadsExitMutex.readers + (Agent.collector pc).holds =
      provider.threadsExitMutex.readers + (Agent.collector next).holds := by
  cases pc with
  | readHolder =>
      obtain ⟨mutex, taken, moved⟩ := Option.map_eq_some_iff.mp stepped
      cases moved
      exact SharedMutex.lockShared_eq_some taken
  | rlock =>
      obtain ⟨mutex, _, moved⟩ := Option.map_eq_some_iff.mp stepped
      cases moved
      rfl
  | copy =>
      cases stepped
      rfl
  | copied threadIds =>
      cases stepped
      rfl
  | guarding threadIds =>
      cases stepped
      exact Nat.sub_add_cancel held
  | dropped => cases stepped

end Steps

/-! ## Runs -/

/-- What holds between the set, the exit mutex, the workers and the guards. -/
structure Registered (provider : Provider) (agents : List Agent) : Prop where
  distinct : (agents.filterMap Agent.tid).Nodup
  started : ∀ tid pc, .worker tid pc ∈ agents → tid ∈ provider.started
  ids : ∀ tid ∈ provider.osThreadIds, tid ∈ provider.started
  nodup : provider.osThreadIds.Nodup
  listed : ∀ tid ∈ provider.osThreadIds, ∀ pc, .worker tid pc ∈ agents → pc.listed = true
  holds : provider.threadsExitMutex.readers = total Agent.holds agents
  guarded : ∀ agent ∈ agents, ∀ threadIds ∈ agent.guards, ∀ tid ∈ threadIds,
    tid ∈ provider.started ∧ ∀ pc, .worker tid pc ∈ agents → pc.waits = true

section Runs

variable {provider after : Provider} {agents others : List Agent} {tid : Nat}

theorem Worker.waits_of_listed {pc : Worker} (listed : pc.listed = true) : pc.waits = true := by
  cases pc <;> first | rfl | cases listed

theorem Agent.holds_of_guards {agent : Agent} {threadIds : List Nat}
    (guards : threadIds ∈ agent.guards) : agent.holds = 1 := by
  cases agent with
  | worker tid pc => cases guards
  | collector pc => cases pc <;> first | rfl | cases guards

theorem Registered.reorder (same : agents.Perm others) (registered : Registered provider agents) :
    Registered provider others := by
  constructor
  case distinct => exact (same.filterMap _).nodup_iff.mp registered.distinct
  case started => exact fun tid pc member => registered.started tid pc (same.mem_iff.mpr member)
  case ids => exact registered.ids
  case nodup => exact registered.nodup
  case listed =>
    exact fun tid member pc other => registered.listed tid member pc (same.mem_iff.mpr other)
  case holds => rw [registered.holds, total_perm same]
  case guarded =>
    intro agent member threadIds guards tid inside
    obtain ⟨started, waits⟩ :=
      registered.guarded agent (same.mem_iff.mpr member) threadIds guards tid inside
    exact ⟨started, fun pc other => waits pc (same.mem_iff.mpr other)⟩

theorem registered_stepWorker {pc next : Worker}
    (stepped : stepWorker provider tid pc = some (after, next))
    (registered : Registered provider (.worker tid pc :: agents)) :
    Registered after (.worker tid next :: agents) := by
  obtain ⟨moved, sameStarted, sameReaders⟩ := stepWorker_cases stepped
  have own : Agent.worker tid pc ∈ Agent.worker tid pc :: agents := List.mem_cons_self
  have alone : ∀ other, Agent.worker tid other ∉ agents := by
    intro other member
    have twice : (tid :: agents.filterMap Agent.tid).Nodup := registered.distinct
    exact (List.nodup_cons.mp twice).1 (List.mem_filterMap.mpr ⟨_, member, rfl⟩)
  have old : ∀ other ∈ after.osThreadIds, other ≠ tid → other ∈ provider.osThreadIds := by
    intro other member different
    cases moved with
    | insert ids =>
        rw [ids, List.mem_insert_iff] at member
        exact member.resolve_left different
    | erase ids =>
        rw [ids] at member
        exact List.mem_of_mem_erase member
    | block _ ids => exact ids ▸ member
    | silent ids => exact ids ▸ member
  constructor
  case distinct => exact registered.distinct
  case started =>
    intro other otherPc member
    rw [sameStarted]
    rcases List.mem_cons.mp member with head | rest
    · cases head
      exact registered.started tid pc own
    · exact registered.started other otherPc (List.mem_cons_of_mem _ rest)
  case ids =>
    intro other member
    rw [sameStarted]
    by_cases same : other = tid
    · exact same ▸ registered.started tid pc own
    · exact registered.ids other (old other member same)
  case nodup =>
    cases moved with
    | insert ids => exact ids ▸ List.Nodup.insert registered.nodup
    | erase ids => exact ids ▸ registered.nodup.erase _
    | block _ ids => exact ids ▸ registered.nodup
    | silent ids => exact ids ▸ registered.nodup
  case listed =>
    intro other member otherPc otherMember
    rcases List.mem_cons.mp otherMember with head | rest
    · cases head
      cases moved with
      | insert => rfl
      | erase ids =>
          rw [ids] at member
          exact absurd member registered.nodup.not_mem_erase
      | block _ ids =>
          have erased := registered.listed tid (ids ▸ member) .block own
          exact absurd erased (by decide)
      | silent ids listed =>
          rw [listed]
          exact registered.listed tid (ids ▸ member) _ own
    · have different : other ≠ tid := by
        rintro rfl
        exact alone otherPc rest
      exact registered.listed other (old other member different) otherPc
        (List.mem_cons_of_mem _ rest)
  case holds => rw [sameReaders, registered.holds, total_cons, total_cons, Agent.holds, Agent.holds]
  case guarded =>
    intro agent member threadIds guards other inside
    have inRest : agent ∈ agents := by
      rcases List.mem_cons.mp member with rfl | rest
      · cases guards
      · exact rest
    obtain ⟨isStarted, waits⟩ := registered.guarded agent (List.mem_cons_of_mem _ inRest)
      threadIds guards other inside
    refine ⟨sameStarted ▸ isStarted, fun otherPc otherMember => ?_⟩
    rcases List.mem_cons.mp otherMember with head | rest
    · cases head
      have waited := waits pc own
      cases moved with
      | insert => rfl
      | erase => rfl
      | block free =>
          -- the guard holds the mutex that this worker has taken
          have held := weight_le_total Agent.holds (List.mem_cons_of_mem (.worker tid .block) inRest)
          rw [← registered.holds, free, Agent.holds_of_guards guards] at held
          exact absurd held (by decide)
      | silent _ _ same => rw [same, waited]
    · exact waits otherPc (List.mem_cons_of_mem _ rest)

theorem registered_stepCollector {pc next : Collector}
    (stepped : stepCollector provider pc = some (after, next))
    (registered : Registered provider (.collector pc :: agents)) :
    Registered after (.collector next :: agents) := by
  obtain ⟨sameIds, sameStarted, copied⟩ := stepCollector_cases stepped
  have inRest {other : Nat} {otherPc : Worker} {collector : Collector}
      (member : .worker other otherPc ∈ .collector collector :: agents) :
      Agent.worker other otherPc ∈ agents :=
    (List.mem_cons.mp member).resolve_left nofun
  constructor
  case distinct => exact registered.distinct
  case started =>
    intro other otherPc member
    rw [sameStarted]
    exact registered.started other otherPc (List.mem_cons_of_mem _ (inRest member))
  case ids => exact sameIds ▸ sameStarted ▸ registered.ids
  case nodup => exact sameIds ▸ registered.nodup
  case listed =>
    intro other member otherPc otherMember
    rw [sameIds] at member
    exact registered.listed other member otherPc (List.mem_cons_of_mem _ (inRest otherMember))
  case holds =>
    have holds := registered.holds
    rw [total_cons] at holds ⊢
    have held : (Agent.collector pc).holds ≤ provider.threadsExitMutex.readers := by
      rw [holds]
      exact Nat.le_add_right _ _
    have moved := readers_stepCollector stepped held
    omega
  case guarded =>
    intro agent member threadIds guards other inside
    have before : other ∈ provider.started ∧
        ∀ otherPc, .worker other otherPc ∈ agents → otherPc.waits = true := by
      rcases List.mem_cons.mp member with rfl | rest
      · rcases copied threadIds guards with rfl | had
        · refine ⟨registered.ids other inside, fun otherPc otherMember => ?_⟩
          apply Worker.waits_of_listed
          exact registered.listed other inside otherPc (List.mem_cons_of_mem _ otherMember)
        · obtain ⟨isStarted, waits⟩ := registered.guarded _ List.mem_cons_self threadIds had
            other inside
          exact ⟨isStarted, fun otherPc otherMember =>
            waits otherPc (List.mem_cons_of_mem _ otherMember)⟩
      · obtain ⟨isStarted, waits⟩ := registered.guarded agent (List.mem_cons_of_mem _ rest)
          threadIds guards other inside
        exact ⟨isStarted, fun otherPc otherMember =>
          waits otherPc (List.mem_cons_of_mem _ otherMember)⟩
    exact ⟨sameStarted ▸ before.1, fun otherPc otherMember =>
      before.2 otherPc (inRest otherMember)⟩

theorem registered_begin {choice : Begin} {left : List Agent}
    (begun : begin provider choice = some (after, left)) (registered : Registered provider agents) :
    Registered after (left ++ agents) := by
  cases choice with
  | thread tid =>
      simp only [begin] at begun
      split at begun
      · cases begun
      · next fresh =>
          cases begun
          have absent : ∀ pc, Agent.worker tid pc ∉ agents := fun pc member =>
            fresh (registered.started tid pc member)
          constructor
          case distinct =>
            apply List.nodup_cons.mpr
            refine ⟨fun member => ?_, registered.distinct⟩
            obtain ⟨agent, inside, same⟩ := List.mem_filterMap.mp member
            cases agent with
            | worker other pc =>
                cases same
                exact absent pc inside
            | collector pc => cases same
          case started =>
            intro other pc member
            rcases List.mem_cons.mp member with head | rest
            · cases head
              exact List.mem_cons_self
            · exact List.mem_cons_of_mem _ (registered.started other pc rest)
          case ids => exact fun other member => List.mem_cons_of_mem _ (registered.ids other member)
          case nodup => exact registered.nodup
          case listed =>
            intro other member pc otherMember
            rcases List.mem_cons.mp otherMember with head | rest
            · cases head
              exact absurd (registered.ids tid member) fresh
            · exact registered.listed other member pc rest
          case holds => exact registered.holds.trans (Nat.zero_add _).symm
          case guarded =>
            intro agent member threadIds guards other inside
            rcases List.mem_cons.mp member with rfl | rest
            · cases guards
            · obtain ⟨isStarted, waits⟩ := registered.guarded agent rest threadIds guards other inside
              refine ⟨List.mem_cons_of_mem _ isStarted, fun pc otherMember => ?_⟩
              rcases List.mem_cons.mp otherMember with head | inRest
              · cases head
                exact absurd isStarted fresh
              · exact waits pc inRest
  | collectThreadIds =>
      cases begun
      constructor
      case distinct => exact registered.distinct
      case started =>
        exact fun other pc member =>
          registered.started other pc ((List.mem_cons.mp member).resolve_left nofun)
      case ids => exact registered.ids
      case nodup => exact registered.nodup
      case listed =>
        exact fun other member pc otherMember =>
          registered.listed other member pc ((List.mem_cons.mp otherMember).resolve_left nofun)
      case holds => exact registered.holds.trans (Nat.zero_add _).symm
      case guarded =>
        intro agent member threadIds guards other inside
        rcases List.mem_cons.mp member with rfl | rest
        · cases guards
        · obtain ⟨isStarted, waits⟩ := registered.guarded agent rest threadIds guards other inside
          exact ⟨isStarted, fun pc otherMember =>
            waits pc ((List.mem_cons.mp otherMember).resolve_left nofun)⟩

end Runs

theorem registered {state : Global Provider Agent} (reached : Reachable system anySchedule state) :
    Registered state.shared state.agents := by
  apply Reaches.invariant Registered _ _ _ _ reached
  · exact Registered.reorder
  · exact ⟨.nil, nofun, nofun, .nil, nofun, rfl, nofun⟩
  · intro before index choice agent shared left _ _ _ acted registered
    cases agent with
    | worker tid pc =>
        obtain ⟨moved, stepped, same⟩ := Option.map_eq_some_iff.mp acted
        cases same
        exact registered_stepWorker stepped registered
    | collector pc =>
        obtain ⟨moved, stepped, same⟩ := Option.map_eq_some_iff.mp acted
        cases same
        exact registered_stepCollector stepped registered
  · intro before choice shared left _ _ begun registered
    exact registered_begin begun registered

/-- While a guard exists, no worker whose id came with it has returned from
`removeTid`. -/
theorem collected_alive (state : Global Provider Agent)
    (reached : Reachable system anySchedule state) (agent : Agent) (member : agent ∈ state.agents)
    (threadIds : List Nat) (guards : threadIds ∈ agent.guards) (tid : Nat)
    (collected : tid ∈ threadIds) : .worker tid .returned ∉ state.agents := by
  intro returned
  have waits := ((registered reached).guarded agent member threadIds guards tid collected).2
  exact absurd (waits .returned returned) (by decide)

/-- A worker has erased its id after it was collected, and waits for the guard. -/
theorem collected_alive_erased :
    ∃ state, Reachable system anySchedule state ∧ Agent.worker 7 .block ∈ state.agents ∧
      Agent.collector (.guarding [7]) ∈ state.agents ∧ system.act () state.shared (.worker 7 .block) =
        none ∧ .worker 7 .returned ∉ state.agents := by
  have replayed : (system.run system.init
      [.env (.thread 7), .act 0 (), .act 0 (), .act 0 (), .act 0 (), .env .collectThreadIds,
        .act 0 (), .act 0 (), .act 0 (), .act 0 (), .act 1 (), .act 0 (), .act 0 ()]).map
      (fun state => (state.shared.threadsExitMutex.readers, state.agents)) =
      some (1, [.worker 7 .block, .collector (.guarding [7])]) := by
    decide
  obtain ⟨state, ran, same⟩ := Option.map_eq_some_iff.mp replayed
  obtain ⟨readers, agents⟩ := Prod.mk.inj same
  have reached : Reachable system anySchedule state := Reachable.init.run ran
  have guard : Agent.collector (.guarding [7]) ∈ state.agents := by
    rw [agents]
    decide
  refine ⟨state, reached, ?_, guard, ?_, ?_⟩
  · rw [agents]
    decide
  · have held : state.shared.threadsExitMutex.readers ≠ 0 := by
      rw [readers]
      decide
    simp [system, step, stepWorker, SharedMutex.lock, held]
  · exact collected_alive state reached _ guard [7] rfl 7 List.mem_cons_self

end ThreadPoolExec.ThreadIdWorkerProvider
