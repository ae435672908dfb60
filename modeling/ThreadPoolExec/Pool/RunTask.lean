import ThreadPoolExec.Interleaving
import Mathlib.Logic.Function.Basic

/-!
# Running a task

`runTask` of any number of worker threads, and the subscriptions to task
statistics that go on beside it. User code is a function of the task, its
`expireCallback` or a subscribed callback; what it does is up to the schedule:
it may end, throw, or subscribe a callback.
-/

set_option autoImplicit false

namespace ThreadPoolExec.RunTask

open Interleaving

structure Expiration where
  expiration : Int
  expireCallback : Option Nat
deriving DecidableEq, Repr

/-- Functions are known by numbers, `none` is an empty one. `context` is the
root id of the request context, if there is one. -/
structure Task where
  func : Option Nat
  enqueueTime : Int
  context : Option Nat
  expiration : Option Expiration
deriving DecidableEq, Repr

/-- The constructor. -/
def Task.make (func : Option Nat) (expiration : Int) (expireCallback : Option Nat) (now : Int)
    (context : Option Nat) : Task where
  func := func
  enqueueTime := now
  context := context
  expiration := if 0 < expiration then some ⟨expiration, expireCallback⟩ else none

structure TaskStats where
  expired : Bool := false
  waitTime : Int := 0
  runTime : Int := 0
  enqueueTime : Int := 0
  requestId : Nat := 0
deriving DecidableEq, Repr

def Task.expired (task : Task) (startTime : Int) : Bool :=
  match task.expiration with
  | none => false
  | some expiration => expiration.expiration ≤ startTime - task.enqueueTime

/-- The statistics when user code is called. -/
def Task.stats (task : Task) (startTime : Int) : TaskStats where
  expired := task.expired startTime
  waitTime := startTime - task.enqueueTime
  enqueueTime := task.enqueueTime
  requestId := task.context.getD 0

inductive Called where
  | func (function : Nat)
  | expireCallback (function : Nat)
deriving DecidableEq, Repr

/-- The user code that the task comes to. An empty `func` only throws. -/
def Task.called (task : Task) (startTime : Int) : Option Called :=
  if task.expired startTime then
    (task.expiration.bind Expiration.expireCallback).map Called.expireCallback
  else task.func.map Called.func

/-- The locals of `runTask`; `number` tells its calls apart. -/
structure Run where
  number : Nat
  task : Task
  startTime : Int
  stats : TaskStats
deriving DecidableEq, Repr

/-- The user code that has called `subscribeToTaskStats`. -/
inductive Caller where
  | outside
  | user (run : Run)
  | callback (run : Run) (index : Nat)
deriving DecidableEq, Repr

inductive Pc where
  | waiting
  | begun (number : Nat) (task : Task)
  | user (run : Run)
  | timed (run : Run)
  | settle (run : Run)
  | rlock (run : Run)
  | callback (run : Run) (index : Nat)
  | runlock (run : Run)
  -- subscribeToTaskStats
  | wlock (caller : Caller) (callback : Nat)
  | wunlock (caller : Caller)
  | subscribed
deriving DecidableEq, Repr

/-- A thread, with its `idle` and its `inCallback`. -/
structure Thread where
  idle : Bool := true
  inCallback : Bool := false
  pc : Pc
deriving DecidableEq, Repr

/-- What has become of a call of `runTask`: the callbacks that were subscribed
before it and when it had the lock, the user code it called, and the callbacks
that heard of it. -/
structure Record where
  before : List Nat := []
  called : List Called := []
  subscribed : List Nat := []
  heard : List (Nat × TaskStats) := []
  threw : Bool := false
  finished : Option Run := none
deriving DecidableEq, Repr

/-- `callbackList` and its lock; the rest is history. -/
structure Memory where
  callbackList : List Nat := []
  readers : Nat := 0
  writing : Bool := false
  nextRun : Nat := 0
  records : Nat → Record := fun _ => {}

def Memory.record (memory : Memory) (number : Nat) (record : Record) : Memory :=
  { memory with records := Function.update memory.records number record }

inductive Choice where
  | go
  | clock (now : Int)
  | runTask (task : Task)
  -- what user code does
  | ends
  | throws
  | subscribe (callback : Nat)
deriving DecidableEq, Repr

/-- `subscribeToTaskStats`. In a callback it throws, and the user code that
called it goes on. -/
def Thread.subscribe (thread : Thread) (caller : Caller) (callback : Nat) : Thread :=
  if thread.inCallback then thread else { thread with pc := .wlock caller callback }

def Caller.resume : Caller → Pc
  | .outside => .subscribed
  | .user run => .user run
  | .callback run index => .callback run index

/-- The loop over the callbacks, from a given index. -/
def Thread.notify (thread : Thread) (memory : Memory) (run : Run) (index : Nat) :
    Memory × Thread :=
  match memory.callbackList[index]? with
  | none => (memory, { thread with pc := .runlock run })
  | some callback =>
      let record := memory.records run.number
      (memory.record run.number { record with heard := record.heard ++ [(callback, run.stats)] },
        { thread with pc := .callback run index })

/-- One step of a thread. -/
def Thread.next (choice : Choice) (memory : Memory) (thread : Thread) : Option (Memory × Thread) :=
  match thread.pc, choice with
  | .waiting, .runTask task =>
      some ({ memory with nextRun := memory.nextRun + 1 }.record memory.nextRun
          { before := memory.callbackList },
        { thread with idle := false, pc := .begun memory.nextRun task })
  | .begun number task, .clock now =>
      let run : Run := ⟨number, task, now, task.stats now⟩
      match task.called now with
      | none => some (memory, { thread with pc := .timed run })
      | some called =>
          let record := memory.records number
          some (memory.record number { record with called := record.called ++ [called] },
            { thread with pc := .user run })
  | .user run, .ends | .user run, .throws => some (memory, { thread with pc := .timed run })
  | .user run, .subscribe callback => some (memory, thread.subscribe (.user run) callback)
  | .timed run, .clock now =>
      let stats :=
        if run.stats.expired then run.stats
        else { run.stats with runTime := now - run.startTime }
      some (memory, { thread with pc := .settle { run with stats := stats } })
  | .settle run, .go => some (memory, { thread with idle := true, pc := .rlock run })
  | .rlock run, .go =>
      if memory.writing then none
      else
        let record := memory.records run.number
        some ({ thread with inCallback := true }.notify
          ({ memory with readers := memory.readers + 1 }.record run.number
            { record with subscribed := memory.callbackList }) run 0)
  | .callback run index, .ends => some (thread.notify memory run (index + 1))
  | .callback run _, .throws =>
      let record := memory.records run.number
      some (memory.record run.number { record with threw := true },
        { thread with pc := .runlock run })
  | .callback run index, .subscribe callback =>
      some (memory, thread.subscribe (.callback run index) callback)
  | .runlock run, .go =>
      let record := memory.records run.number
      some ({ memory with readers := memory.readers - 1 }.record run.number
          { record with finished := some run },
        { thread with inCallback := false, pc := .waiting })
  | .wlock caller callback, .go =>
      if memory.writing ∨ 0 < memory.readers then none
      else
        some ({ memory with writing := true, callbackList := memory.callbackList ++ [callback] },
          { thread with pc := .wunlock caller })
  | .wunlock caller, .go =>
      some ({ memory with writing := false }, { thread with pc := caller.resume })
  | _, _ => none

/-- Another worker thread starts, or a thread outside the pool subscribes. -/
inductive Move where
  | worker
  | subscribe (callback : Nat)
deriving DecidableEq, Repr

def Move.thread : Move → Thread
  | .worker => { pc := .waiting }
  | .subscribe callback => Thread.subscribe { pc := .subscribed } .outside callback

def system : System Memory Thread Choice Move where
  init := ⟨{}, []⟩
  act choice memory thread :=
    (thread.next choice memory).map fun moved => (moved.1, [moved.2])
  env move memory := some (memory, [move.thread])

theorem act_eq_some {choice : Choice} {memory after : Memory} {thread : Thread}
    {left : List Thread} (acted : system.act choice memory thread = some (after, left)) :
    ∃ next, thread.next choice memory = some (after, next) ∧ left = [next] := by
  obtain ⟨⟨_, next⟩, stepped, same⟩ := Option.map_eq_some_iff.mp acted
  cases same
  exact ⟨next, stepped, rfl⟩

/-! ## Steps -/

/-- What a step of a thread does. -/
inductive Step (memory : Memory) (thread : Thread) : Memory → Thread → Prop where
  | begins {task : Task} : thread.pc = .waiting →
      Step memory thread
        ({ memory with nextRun := memory.nextRun + 1 }.record memory.nextRun
          { before := memory.callbackList })
        { thread with idle := false, pc := .begun memory.nextRun task }
  | calls {number : Nat} {task : Task} {now : Int} {called : Called} :
      thread.pc = .begun number task → task.called now = some called →
      Step memory thread
        (memory.record number
          { memory.records number with called := (memory.records number).called ++ [called] })
        { thread with pc := .user ⟨number, task, now, task.stats now⟩ }
  | skips {number : Nat} {task : Task} {now : Int} :
      thread.pc = .begun number task → task.called now = none →
      Step memory thread memory { thread with pc := .timed ⟨number, task, now, task.stats now⟩ }
  | returns {run : Run} : thread.pc = .user run →
      Step memory thread memory { thread with pc := .timed run }
  | refused : thread.inCallback = true → Step memory thread memory thread
  | subscribes {caller : Caller} {callback : Nat} : thread.inCallback = false →
      thread.pc = caller.resume → caller ≠ .outside →
      Step memory thread memory { thread with pc := .wlock caller callback }
  | times {run : Run} {now : Int} : thread.pc = .timed run →
      Step memory thread memory { thread with pc := .settle { run with stats :=
        if run.stats.expired then run.stats
        else { run.stats with runTime := now - run.startTime } } }
  | settles {run : Run} : thread.pc = .settle run →
      Step memory thread memory { thread with idle := true, pc := .rlock run }
  | enters {run : Run} : thread.pc = .rlock run → memory.writing = false →
      Step memory thread
        ({ thread with inCallback := true }.notify
          ({ memory with readers := memory.readers + 1 }.record run.number
            { memory.records run.number with subscribed := memory.callbackList }) run 0).1
        ({ thread with inCallback := true }.notify
          ({ memory with readers := memory.readers + 1 }.record run.number
            { memory.records run.number with subscribed := memory.callbackList }) run 0).2
  | notifies {run : Run} {index : Nat} : thread.pc = .callback run index →
      Step memory thread (thread.notify memory run (index + 1)).1
        (thread.notify memory run (index + 1)).2
  | throws {run : Run} {index : Nat} : thread.pc = .callback run index →
      Step memory thread
        (memory.record run.number { memory.records run.number with threw := true })
        { thread with pc := .runlock run }
  | leaves {run : Run} : thread.pc = .runlock run →
      Step memory thread
        ({ memory with readers := memory.readers - 1 }.record run.number
          { memory.records run.number with finished := some run })
        { thread with inCallback := false, pc := .waiting }
  | pushes {caller : Caller} {callback : Nat} : thread.pc = .wlock caller callback →
      memory.writing = false → memory.readers = 0 →
      Step memory thread
        { memory with writing := true, callbackList := memory.callbackList ++ [callback] }
        { thread with pc := .wunlock caller }
  | unlocks {caller : Caller} : thread.pc = .wunlock caller →
      Step memory thread { memory with writing := false } { thread with pc := caller.resume }

section Steps

variable {memory after : Memory} {thread next : Thread} {choice : Choice}

theorem step_subscribe {caller : Caller} {callback : Nat} (resumes : thread.pc = caller.resume)
    (inside : caller ≠ .outside) : Step memory thread memory (thread.subscribe caller callback) := by
  unfold Thread.subscribe
  split
  · next inCallback => exact .refused inCallback
  · next inCallback => exact .subscribes (Bool.eq_false_iff.mpr inCallback) resumes inside

theorem step_of_next (stepped : thread.next choice memory = some (after, next)) :
    Step memory thread after next := by
  unfold Thread.next at stepped
  split at stepped
  · next pcIs =>
      cases stepped
      exact .begins pcIs
  · next pcIs =>
      simp only at stepped
      split at stepped
      · next none =>
          cases stepped
          exact .skips pcIs none
      · next called =>
          cases stepped
          exact .calls pcIs called
  · next pcIs =>
      cases stepped
      exact .returns pcIs
  · next pcIs =>
      cases stepped
      exact .returns pcIs
  · next pcIs =>
      cases stepped
      exact step_subscribe pcIs nofun
  · next pcIs =>
      cases stepped
      exact .times pcIs
  · next pcIs =>
      cases stepped
      exact .settles pcIs
  · next pcIs =>
      split at stepped
      · cases stepped
      · next free =>
          have entered := Step.enters pcIs (Bool.eq_false_iff.mpr free)
          rw [Option.some.inj stepped] at entered
          exact entered
  · next pcIs =>
      have notified := @Step.notifies memory thread _ _ pcIs
      rw [Option.some.inj stepped] at notified
      exact notified
  · next pcIs =>
      cases stepped
      exact .throws pcIs
  · next pcIs =>
      cases stepped
      exact step_subscribe pcIs nofun
  · next pcIs =>
      cases stepped
      exact .leaves pcIs
  · next pcIs =>
      split at stepped
      · cases stepped
      · next free =>
          cases stepped
          simp only [not_or, Nat.not_lt, Nat.le_zero] at free
          exact .pushes pcIs (Bool.eq_false_iff.mpr free.1) free.2
  · next pcIs =>
      cases stepped
      exact .unlocks pcIs
  · cases stepped

end Steps

/-! ## The lock -/

/-- The thread has the lock of `callbackList` to read. -/
def Pc.reads : Pc → Nat
  | .callback _ _ | .runlock _ => 1
  | _ => 0

def Pc.writes : Pc → Nat
  | .wunlock _ => 1
  | _ => 0

/-- A subscription that was called by a callback. -/
def Pc.nested : Pc → Bool
  | .wlock (.callback _ _) _ | .wunlock (.callback _ _) => true
  | _ => false

structure Locked (memory : Memory) (threads : List Thread) : Prop where
  readers : total (fun thread => thread.pc.reads) threads = memory.readers
  writing : total (fun thread => thread.pc.writes) threads = memory.writing.toNat
  exclusive : memory.writing = true → memory.readers = 0
  inCallback : ∀ thread ∈ threads, thread.inCallback = decide (thread.pc.reads = 1)
  outermost : ∀ thread ∈ threads, thread.pc.nested = false

section Locked

variable {memory after : Memory} {thread next : Thread} {threads others rest : List Thread}

theorem Locked.perm (same : threads.Perm others) (locked : Locked memory threads) :
    Locked memory others where
  readers := (total_perm same).symm.trans locked.readers
  writing := (total_perm same).symm.trans locked.writing
  exclusive := locked.exclusive
  inCallback thread member := locked.inCallback thread (same.mem_iff.mpr member)
  outermost thread member := locked.outermost thread (same.mem_iff.mpr member)

/-- The loop over the callbacks keeps the lock. -/
theorem notify_eq (thread : Thread) (memory : Memory) (run : Run) (index : Nat) :
    ∃ records pc, thread.notify memory run index =
        ({ memory with records := records }, { thread with pc := pc }) ∧
      pc.reads = 1 ∧ pc.writes = 0 ∧ pc.nested = false := by
  unfold Thread.notify
  split
  · exact ⟨memory.records, _, rfl, rfl, rfl, rfl⟩
  · exact ⟨_, _, rfl, rfl, rfl, rfl⟩

/-- A step that changes what the thread has of the lock together with the lock. -/
private theorem Locked.replace (locked : Locked memory (thread :: rest))
    (readers : next.pc.reads + memory.readers = thread.pc.reads + after.readers)
    (writing : next.pc.writes + memory.writing.toNat = thread.pc.writes + after.writing.toNat)
    (exclusive : after.writing = true → after.readers = 0)
    (inCallback : next.inCallback = decide (next.pc.reads = 1))
    (outermost : next.pc.nested = false) : Locked after (next :: rest) where
  readers := by
    have before := locked.readers
    simp only [total_cons] at before ⊢
    omega
  writing := by
    have before := locked.writing
    simp only [total_cons] at before ⊢
    omega
  exclusive := exclusive
  inCallback other member := by
    rcases List.mem_cons.mp member with rfl | member
    · exact inCallback
    · exact locked.inCallback other (List.mem_cons_of_mem _ member)
  outermost other member := by
    rcases List.mem_cons.mp member with rfl | member
    · exact outermost
    · exact locked.outermost other (List.mem_cons_of_mem _ member)

theorem Locked.step (step : Step memory thread after next)
    (locked : Locked memory (thread :: rest)) : Locked after (next :: rest) := by
  have own := locked.inCallback thread List.mem_cons_self
  have outermost := locked.outermost thread List.mem_cons_self
  have readers := locked.readers
  have writing := locked.writing
  simp only [total_cons] at readers writing
  cases step with
  | begins pcIs =>
      rw [pcIs] at own
      exact locked.replace (by rw [pcIs]; rfl) (by rw [pcIs]; rfl) locked.exclusive own rfl
  | calls pcIs =>
      rw [pcIs] at own
      exact locked.replace (by rw [pcIs]; rfl) (by rw [pcIs]; rfl) locked.exclusive own rfl
  | skips pcIs =>
      rw [pcIs] at own
      exact locked.replace (by rw [pcIs]; rfl) (by rw [pcIs]; rfl) locked.exclusive own rfl
  | returns pcIs =>
      rw [pcIs] at own
      exact locked.replace (by rw [pcIs]; rfl) (by rw [pcIs]; rfl) locked.exclusive own rfl
  | refused => exact locked
  | @subscribes caller callback outside pcIs inside =>
      cases caller with
      | outside => exact absurd rfl inside
      | callback run index =>
          rw [pcIs, outside] at own
          cases own
      | user run =>
          rw [pcIs] at own
          exact locked.replace (by rw [pcIs]; rfl) (by rw [pcIs]; rfl) locked.exclusive own rfl
  | times pcIs =>
      rw [pcIs] at own
      exact locked.replace (by rw [pcIs]; rfl) (by rw [pcIs]; rfl) locked.exclusive own rfl
  | settles pcIs =>
      rw [pcIs] at own
      exact locked.replace (by rw [pcIs]; rfl) (by rw [pcIs]; rfl) locked.exclusive own rfl
  | enters pcIs free =>
      obtain ⟨records, pc, notified, reads, writes, plain⟩ := notify_eq
        { thread with inCallback := true } _ _ 0
      rw [notified]
      refine locked.replace ?_ ?_ ?_ ?_ plain
      · change pc.reads + memory.readers = thread.pc.reads + (memory.readers + 1)
        rw [reads, pcIs]
        change 1 + memory.readers = 0 + (memory.readers + 1)
        omega
      · change pc.writes + _ = thread.pc.writes + _
        rw [writes, pcIs]
        rfl
      · intro held
        rw [show memory.writing = true from held] at free
        cases free
      · simp only [reads, decide_true]
  | notifies pcIs =>
      obtain ⟨records, pc, notified, reads, writes, plain⟩ := notify_eq thread memory _ _
      rw [notified]
      rw [pcIs] at own
      refine locked.replace ?_ ?_ locked.exclusive ?_ plain
      · change pc.reads + _ = thread.pc.reads + _
        rw [reads, pcIs]
        rfl
      · change pc.writes + _ = thread.pc.writes + _
        rw [writes, pcIs]
        rfl
      · simp only [reads, own]
        rfl
  | throws pcIs =>
      rw [pcIs] at own
      exact locked.replace (by rw [pcIs]; rfl) (by rw [pcIs]; rfl) locked.exclusive own rfl
  | leaves pcIs =>
      rw [pcIs] at readers
      simp only [Pc.reads] at readers
      refine locked.replace ?_ (by rw [pcIs]; rfl) ?_ rfl rfl
      · simp only [pcIs, Pc.reads, Memory.record]
        omega
      · intro held
        have none := locked.exclusive held
        omega
  | @pushes caller callback pcIs free none =>
      rw [pcIs] at own outermost
      refine locked.replace (by rw [pcIs]; rfl) ?_ (fun _ => none) own ?_
      · simp only [pcIs, Pc.writes, free, Bool.toNat_false, Bool.toNat_true]
      · cases caller with
        | callback run index => cases outermost
        | outside => rfl
        | user run => rfl
  | @unlocks caller pcIs =>
      rw [pcIs] at own outermost writing
      have single := Bool.toNat_le memory.writing
      simp only [Pc.writes] at writing
      cases caller with
      | callback run index => cases outermost
      | outside =>
          refine locked.replace (by rw [pcIs]; rfl) ?_ nofun own rfl
          simp only [pcIs, Caller.resume, Pc.writes, Bool.toNat_false]
          omega
      | user run =>
          refine locked.replace (by rw [pcIs]; rfl) ?_ nofun own rfl
          simp only [pcIs, Caller.resume, Pc.writes, Bool.toNat_false]
          omega

end Locked

theorem move_thread (move : Move) :
    move.thread.pc.reads = 0 ∧ move.thread.pc.writes = 0 ∧ move.thread.pc.nested = false ∧
      move.thread.inCallback = false := by
  cases move <;> exact ⟨rfl, rfl, rfl, rfl⟩

theorem reachable_locked {state : Global Memory Thread}
    (reached : Reachable system anySchedule state) : Locked state.shared state.agents := by
  refine Reaches.invariant Locked Locked.perm ?_ ?_ ?_ reached
  · exact ⟨rfl, rfl, nofun, List.forall_mem_nil _, List.forall_mem_nil _⟩
  · intro before index choice thread after left _ _ _ acted locked
    obtain ⟨next, stepped, rfl⟩ := act_eq_some acted
    exact locked.step (step_of_next stepped)
  · intro before move after left _ _ acted locked
    cases acted
    obtain ⟨reads, writes, plain, outside⟩ := move_thread move
    refine ⟨?_, ?_, locked.exclusive, ?_, ?_⟩
    · rw [List.singleton_append, total_cons, reads, Nat.zero_add]
      exact locked.readers
    · rw [List.singleton_append, total_cons, writes, Nat.zero_add]
      exact locked.writing
    · intro thread member
      rcases List.mem_append.mp member with new | old
      · rw [List.mem_singleton.mp new, reads, outside]
        rfl
      · exact locked.inCallback thread old
    · intro thread member
      rcases List.mem_append.mp member with new | old
      · rw [List.mem_singleton.mp new]
        exact plain
      · exact locked.outermost thread old

/-- In every reachable state a thread that is in `runTask` or in
`subscribeToTaskStats` has a step, or waits for the lock of the callbacks, which
another thread has that has a step. -/
theorem lock_progresses {state : Global Memory Thread}
    (reached : Reachable system anySchedule state) :
    ∀ thread ∈ state.agents, thread.pc ≠ .waiting ∧ thread.pc ≠ .subscribed →
      (∃ choice, thread.next choice state.shared ≠ none) ∨
        thread.pc.reads = 0 ∧ thread.pc.writes = 0 ∧ ∃ other ∈ state.agents,
          other.pc.reads + other.pc.writes = 1 ∧
            ∃ choice, other.next choice state.shared ≠ none := by
  intro thread _ busy
  have locked := reachable_locked reached
  have holds : ∀ other ∈ state.agents, 0 < other.pc.reads + other.pc.writes →
      other.pc.reads + other.pc.writes = 1 ∧ ∃ choice, other.next choice state.shared ≠ none := by
    intro other _ positive
    cases pcIs : other.pc <;> rw [pcIs] at positive <;> try exact absurd positive (Nat.lt_irrefl 0)
    case callback run index => exact ⟨rfl, .throws, by simp [Thread.next, pcIs]⟩
    case runlock run => exact ⟨rfl, .go, by simp [Thread.next, pcIs]⟩
    case wunlock caller => exact ⟨rfl, .go, by simp [Thread.next, pcIs]⟩
  have writer : state.shared.writing = true → ∃ other ∈ state.agents,
      other.pc.reads + other.pc.writes = 1 ∧ ∃ choice, other.next choice state.shared ≠ none := by
    intro writing
    have one := locked.writing
    rw [writing, Bool.toNat_true] at one
    obtain ⟨other, inAgents, writes⟩ := total_pos_iff.mp (Nat.lt_of_lt_of_eq Nat.one_pos one.symm)
    exact ⟨other, inAgents, holds other inAgents (Nat.lt_of_lt_of_le writes (Nat.le_add_left _ _))⟩
  cases pcIs : thread.pc with
  | waiting => exact absurd pcIs busy.1
  | subscribed => exact absurd pcIs busy.2
  | begun number task =>
      refine .inl ⟨.clock 0, ?_⟩
      simp only [Thread.next, pcIs]
      split <;> simp
  | user run => exact .inl ⟨.ends, by simp [Thread.next, pcIs]⟩
  | timed run => exact .inl ⟨.clock 0, by simp [Thread.next, pcIs]⟩
  | settle run => exact .inl ⟨.go, by simp [Thread.next, pcIs]⟩
  | callback run index => exact .inl ⟨.throws, by simp [Thread.next, pcIs]⟩
  | runlock run => exact .inl ⟨.go, by simp [Thread.next, pcIs]⟩
  | wunlock caller => exact .inl ⟨.go, by simp [Thread.next, pcIs]⟩
  | rlock run =>
      cases writing : state.shared.writing with
      | false => exact .inl ⟨.go, by simp [Thread.next, pcIs, writing]⟩
      | true => exact .inr ⟨rfl, rfl, writer writing⟩
  | wlock caller callback =>
      by_cases free : state.shared.writing = true ∨ 0 < state.shared.readers
      · refine .inr ⟨rfl, rfl, ?_⟩
        rcases free with writing | reading
        · exact writer writing
        · rw [← locked.readers] at reading
          obtain ⟨other, inAgents, reads⟩ := total_pos_iff.mp reading
          exact ⟨other, inAgents,
            holds other inAgents (Nat.lt_of_lt_of_le reads (Nat.le_add_right _ _))⟩
      · exact .inl ⟨.go, by simp [Thread.next, pcIs, free]⟩

/-- A thread that subscribes beside a callback that reads the list waits. -/
theorem lock_progresses_besideCallback :
    ∃ state : Global Memory Thread, ∃ thread ∈ state.agents,
      thread.next .go state.shared = none ∧
      ((∃ choice, thread.next choice state.shared ≠ none) ∨
        thread.pc.reads = 0 ∧ thread.pc.writes = 0 ∧ ∃ other ∈ state.agents,
          other.pc.reads + other.pc.writes = 1 ∧
            ∃ choice, other.next choice state.shared ≠ none) := by
  refine ⟨_, _, List.mem_cons_self, ?_, lock_progresses (@Reaches.run _ _ _ _ _ _ _ _
    [.env (.subscribe 5), .act 0 .go, .act 0 .go, .env .worker,
      .act 0 (.runTask (Task.make (some 1) 0 none 2 none)), .act 0 (.clock 3), .act 0 .ends,
      .act 0 (.clock 4), .act 0 .go, .act 0 .go, .env (.subscribe 6)] .refl rfl)
    _ List.mem_cons_self ⟨by decide, by decide⟩⟩
  decide

/-! ## Who hears of a task -/

def Pc.number? : Pc → Option Nat
  | .begun number _ => some number
  | .user run | .timed run | .settle run | .rlock run | .callback run _ | .runlock run
  | .wlock (.user run) _ | .wunlock (.user run) => some run.number
  | _ => none

def Pc.runs (number : Nat) (pc : Pc) : Nat :=
  if pc.number? = some number then 1 else 0

def runners (number : Nat) (threads : List Thread) : Nat :=
  total (fun thread => thread.pc.runs number) threads

/-- The user code of a run has been called as it must. -/
structure Ran (memory : Memory) (run : Run) : Prop where
  called : (memory.records run.number).called = (run.task.called run.startTime).toList
  stats : run.stats = { run.task.stats run.startTime with runTime := run.stats.runTime }
  expired : run.stats.expired = true → run.stats.runTime = 0
  before : (memory.records run.number).before <+: memory.callbackList

def Record.quiet (record : Record) : Prop :=
  record.subscribed = [] ∧ record.heard = [] ∧ record.threw = false

/-- The callbacks have heard of the run in their order, all of them unless one
threw. -/
structure Heard (record : Record) (run : Run) : Prop where
  before : record.before <+: record.subscribed
  heard : record.heard <+: record.subscribed.map (·, run.stats)
  all : record.threw = false → record.heard = record.subscribed.map (·, run.stats)

def Pc.Tracks (memory : Memory) : Pc → Prop
  | .begun number _ => ∃ before, memory.records number = { before := before } ∧
      before <+: memory.callbackList
  | .user run | .wlock (.user run) _ | .wunlock (.user run) | .timed run =>
      Ran memory run ∧ run.stats.runTime = 0 ∧ (memory.records run.number).quiet
  | .settle run | .rlock run => Ran memory run ∧ (memory.records run.number).quiet
  | .callback run index =>
      Ran memory run ∧ (memory.records run.number).subscribed = memory.callbackList ∧
        (memory.records run.number).threw = false ∧
        (memory.records run.number).heard =
          (memory.callbackList.take (index + 1)).map (·, run.stats)
  | .runlock run => Ran memory run ∧ Heard (memory.records run.number) run
  | .waiting | .subscribed | .wlock _ _ | .wunlock _ => True

/-- What has become of a call of `runTask` that has returned. -/
structure Complete (record : Record) (run : Run) : Prop extends Heard record run where
  called : record.called = (run.task.called run.startTime).toList
  stats : run.stats = { run.task.stats run.startTime with runTime := run.stats.runTime }
  expired : run.stats.expired = true → run.stats.runTime = 0

structure Coherent (memory : Memory) (threads : List Thread) : Prop where
  owned : ∀ number, runners number threads +
    (if (memory.records number).finished.isSome then 1 else 0) =
      if number < memory.nextRun then 1 else 0
  tracks : ∀ thread ∈ threads, thread.pc.Tracks memory
  complete : ∀ number run, (memory.records number).finished = some run →
    run.number = number ∧ Complete (memory.records number) run

section Coherent

variable {memory after : Memory} {thread next : Thread} {threads others rest : List Thread}
  {run : Run} {pc : Pc}

theorem runners_cons {number : Nat} :
    runners number (thread :: rest) = thread.pc.runs number + runners number rest :=
  total_cons

theorem Coherent.perm (same : threads.Perm others) (coherent : Coherent memory threads) :
    Coherent memory others where
  owned number := by
    have before := coherent.owned number
    rwa [runners, total_perm same] at before
  tracks thread member := coherent.tracks thread (same.mem_iff.mpr member)
  complete := coherent.complete

/-- Other threads append to the callbacks while nobody reads them, and leave
the record of the run alone. -/
theorem Ran.frame (callbacks : memory.callbackList <+: after.callbackList)
    (same : after.records run.number = memory.records run.number) (ran : Ran memory run) :
    Ran after run where
  called := same ▸ ran.called
  stats := ran.stats
  expired := ran.expired
  before := same ▸ ran.before.trans callbacks

theorem Pc.Tracks.frame (callbacks : memory.callbackList <+: after.callbackList)
    (read : pc.reads = 1 → after.callbackList = memory.callbackList)
    (same : ∀ number, pc.number? = some number → after.records number = memory.records number)
    (tracks : pc.Tracks memory) : pc.Tracks after := by
  cases pc with
  | begun number task =>
      obtain ⟨before, recordIs, inside⟩ := tracks
      exact ⟨before, (same number rfl).trans recordIs, inside.trans callbacks⟩
  | user run =>
      obtain ⟨ran, untimed, quiet⟩ := tracks
      exact ⟨ran.frame callbacks (same _ rfl), untimed, same _ rfl ▸ quiet⟩
  | timed run =>
      obtain ⟨ran, untimed, quiet⟩ := tracks
      exact ⟨ran.frame callbacks (same _ rfl), untimed, same _ rfl ▸ quiet⟩
  | settle run =>
      obtain ⟨ran, quiet⟩ := tracks
      exact ⟨ran.frame callbacks (same _ rfl), same _ rfl ▸ quiet⟩
  | rlock run =>
      obtain ⟨ran, quiet⟩ := tracks
      exact ⟨ran.frame callbacks (same _ rfl), same _ rfl ▸ quiet⟩
  | callback run index =>
      obtain ⟨ran, subscribed, quiet, heard⟩ := tracks
      refine ⟨ran.frame callbacks (same _ rfl), ?_, ?_, ?_⟩
      · rw [same _ rfl, read rfl]
        exact subscribed
      · rw [same _ rfl]
        exact quiet
      · rw [same _ rfl, read rfl]
        exact heard
  | runlock run =>
      obtain ⟨ran, heard⟩ := tracks
      exact ⟨ran.frame callbacks (same _ rfl), same _ rfl ▸ heard⟩
  | wlock caller callback =>
      cases caller with
      | user run =>
          obtain ⟨ran, untimed, quiet⟩ := tracks
          exact ⟨ran.frame callbacks (same _ rfl), untimed, same _ rfl ▸ quiet⟩
      | outside => trivial
      | callback run index => trivial
  | wunlock caller =>
      cases caller with
      | user run =>
          obtain ⟨ran, untimed, quiet⟩ := tracks
          exact ⟨ran.frame callbacks (same _ rfl), untimed, same _ rfl ▸ quiet⟩
      | outside => trivial
      | callback run index => trivial
  | waiting => trivial
  | subscribed => trivial

/-- A run that a thread is in is in no other thread, and has not finished. -/
theorem Coherent.own (coherent : Coherent memory (thread :: rest)) {number : Nat}
    (runs : thread.pc.number? = some number) :
    (∀ other ∈ rest, other.pc.number? ≠ some number) ∧
      (memory.records number).finished = none ∧ number < memory.nextRun := by
  have owned := coherent.owned number
  have one : thread.pc.runs number = 1 := if_pos runs
  rw [runners_cons, one] at owned
  have alone : runners number rest = 0 := by
    split at owned <;> split at owned <;> omega
  refine ⟨fun other member otherRuns => ?_, ?_, ?_⟩
  · have weight : other.pc.runs number ≤ runners number rest :=
      weight_le_total (fun thread => thread.pc.runs number) member
    rw [alone, Pc.runs, if_pos otherRuns] at weight
    exact absurd weight (Nat.not_succ_le_zero 0)
  · cases finished : (memory.records number).finished with
    | none => rfl
    | some run =>
        rw [finished, Option.isSome_some, if_pos rfl] at owned
        split at owned <;> omega
  · split at owned
    · split at owned
      · assumption
      · omega
    · split at owned
      · assumption
      · omega

/-- A step within a run. -/
private theorem Coherent.replace (coherent : Coherent memory (thread :: rest))
    (number : next.pc.number? = thread.pc.number?) (runs : after.nextRun = memory.nextRun)
    (callbacks : memory.callbackList <+: after.callbackList)
    (read : ∀ other ∈ rest, other.pc.reads = 1 → after.callbackList = memory.callbackList)
    (records : ∀ number, thread.pc.number? ≠ some number →
      after.records number = memory.records number)
    (finished : ∀ number,
      (after.records number).finished = (memory.records number).finished)
    (tracks : next.pc.Tracks after) : Coherent after (next :: rest) where
  owned other := by
    have before := coherent.owned other
    rw [runners_cons, Pc.runs] at before
    rw [runners_cons, Pc.runs, finished, number, runs]
    exact before
  tracks other member := by
    rcases List.mem_cons.mp member with rfl | member
    · exact tracks
    · refine (coherent.tracks other (List.mem_cons_of_mem _ member)).frame callbacks
        (read other member) fun own otherRuns => records own fun same => ?_
      exact (coherent.own same).1 other member otherRuns
  complete own run done := by
    rw [finished] at done
    have kept := coherent.complete own run done
    have still : after.records own = memory.records own := by
      refine records own fun same => ?_
      rw [(coherent.own same).2.1] at done
      cases done
    rw [still]
    exact kept

theorem record_self {number : Nat} {record : Record} :
    (memory.record number record).records number = record :=
  Function.update_self _ _ _

theorem record_of_ne {own number : Nat} {record : Record} (different : number ≠ own) :
    (memory.record own record).records number = memory.records number :=
  Function.update_of_ne different _ _

theorem record_finished {own : Nat} {record : Record}
    (same : record.finished = (memory.records own).finished) (number : Nat) :
    ((memory.record own record).records number).finished =
      (memory.records number).finished := by
  by_cases isOwn : number = own
  · rw [isOwn, record_self, same]
  · rw [record_of_ne isOwn]

/-- The next callback hears of the run, or all of them have. -/
private theorem notify_tracks (ran : Ran memory run)
    (subscribed : (memory.records run.number).subscribed = memory.callbackList)
    (quiet : (memory.records run.number).threw = false) {index : Nat}
    (heard : (memory.records run.number).heard =
      (memory.callbackList.take index).map (·, run.stats)) :
    (thread.notify memory run index).2.pc.Tracks (thread.notify memory run index).1 ∧
      (thread.notify memory run index).2.pc.number? = some run.number ∧
      (thread.notify memory run index).1.callbackList = memory.callbackList ∧
      (thread.notify memory run index).1.nextRun = memory.nextRun ∧
      (∀ number, number ≠ run.number →
        (thread.notify memory run index).1.records number = memory.records number) ∧
      ∀ number, ((thread.notify memory run index).1.records number).finished =
        (memory.records number).finished := by
  unfold Thread.notify
  split
  · next none =>
      have all : memory.callbackList.take index = memory.callbackList :=
        List.take_of_length_le (List.getElem?_eq_none_iff.mp none)
      rw [all] at heard
      refine ⟨⟨ran, ?_⟩, rfl, rfl, rfl, fun _ _ => rfl, fun _ => rfl⟩
      have same : (memory.records run.number).heard =
          (memory.records run.number).subscribed.map (·, run.stats) := by rw [heard, subscribed]
      exact ⟨subscribed ▸ ran.before, same ▸ List.prefix_rfl, fun _ => same⟩
  · next callback found =>
      refine ⟨?_, rfl, rfl, rfl, fun _ different => record_of_ne different, record_finished rfl⟩
      refine ⟨⟨?_, ran.stats, ran.expired, ?_⟩, ?_, ?_, ?_⟩
      · rw [record_self]
        exact ran.called
      · rw [record_self]
        exact ran.before
      · rw [record_self]
        exact subscribed
      · rw [record_self]
        exact quiet
      · rw [record_self]
        simp only [heard, Memory.record, List.take_add_one, found, Option.toList_some,
          List.map_append, List.map_cons, List.map_nil]

theorem Coherent.lt_nextRun (coherent : Coherent memory threads) (member : thread ∈ threads)
    {number : Nat} (runs : thread.pc.number? = some number) : number < memory.nextRun := by
  have owned := coherent.owned number
  have weight : thread.pc.runs number ≤ runners number threads :=
    weight_le_total (fun thread => thread.pc.runs number) member
  rw [Pc.runs, if_pos runs] at weight
  split at owned
  · split at owned
    · assumption
    · omega
  · split at owned
    · assumption
    · omega

private theorem Coherent.begins {task : Task} (pcIs : thread.pc = .waiting)
    (coherent : Coherent memory (thread :: rest)) :
    Coherent
      ({ memory with nextRun := memory.nextRun + 1 }.record memory.nextRun
        { before := memory.callbackList })
      ({ thread with idle := false, pc := .begun memory.nextRun task } :: rest) where
  owned other := by
    have before := coherent.owned other
    have mine : thread.pc.runs other = 0 := by
      rw [pcIs]
      rfl
    rw [runners_cons, mine, Nat.zero_add] at before
    rw [runners_cons]
    by_cases isNew : other = memory.nextRun
    · subst isNew
      rw [if_neg (Nat.lt_irrefl _)] at before
      rw [record_self]
      have begun : (Pc.begun memory.nextRun task).runs memory.nextRun = 1 := if_pos rfl
      have more : memory.nextRun < memory.nextRun + 1 := Nat.lt_succ_self _
      simp only [begun, Memory.record, more, if_true, Option.isSome_none, Bool.false_eq_true,
        if_false]
      omega
    · have notBegun : (Pc.begun memory.nextRun task).runs other = 0 :=
        if_neg fun same => isNew (Option.some.inj same).symm
      rw [record_of_ne isNew]
      simp only [notBegun, Nat.zero_add]
      change _ = if other < memory.nextRun + 1 then 1 else 0
      rw [before]
      split <;> split <;> omega
  tracks other member := by
    rcases List.mem_cons.mp member with rfl | member
    · exact ⟨memory.callbackList, record_self, List.prefix_rfl⟩
    · refine (coherent.tracks other (List.mem_cons_of_mem _ member)).frame
        (show memory.callbackList <+: _ from List.prefix_rfl) (fun _ => rfl)
        fun own runs => record_of_ne ?_
      exact Nat.ne_of_lt (coherent.lt_nextRun (List.mem_cons_of_mem _ member) runs)
  complete own run done := by
    by_cases isNew : own = memory.nextRun
    · rw [isNew, record_self] at done
      cases done
    · rw [record_of_ne isNew] at done ⊢
      exact coherent.complete own run done

private theorem Coherent.leaves (pcIs : thread.pc = .runlock run)
    (coherent : Coherent memory (thread :: rest)) :
    Coherent
      ({ memory with readers := memory.readers - 1 }.record run.number
        { memory.records run.number with finished := some run })
      ({ thread with inCallback := false, pc := .waiting } :: rest) := by
  have runs : thread.pc.number? = some run.number := by
    rw [pcIs]
    rfl
  obtain ⟨others, unfinished, issued⟩ := coherent.own runs
  have tracks := coherent.tracks thread List.mem_cons_self
  rw [pcIs] at tracks
  obtain ⟨ran, heard⟩ := tracks
  refine ⟨fun other => ?_, fun other member => ?_, fun own run' done => ?_⟩
  · have before := coherent.owned other
    rw [runners_cons] at before
    rw [runners_cons]
    have away : Pc.waiting.runs other = 0 := rfl
    by_cases isOwn : other = run.number
    · subst isOwn
      have mine : thread.pc.runs run.number = 1 := if_pos runs
      rw [mine, unfinished, if_pos issued] at before
      rw [record_self]
      change 0 + runners run.number rest + 1 = if run.number < memory.nextRun then 1 else 0
      rw [if_pos issued]
      simp only [Option.isSome_none, Bool.false_eq_true, if_false] at before
      omega
    · have notMine : thread.pc.runs other = 0 :=
        if_neg fun same => isOwn (Option.some.inj (same.symm.trans runs))
      rw [notMine] at before
      rw [record_of_ne isOwn]
      exact before
  · rcases List.mem_cons.mp member with rfl | member
    · trivial
    · refine (coherent.tracks other (List.mem_cons_of_mem _ member)).frame
        (show memory.callbackList <+: _ from List.prefix_rfl) (fun _ => rfl)
        fun number otherRuns => record_of_ne ?_
      rintro rfl
      exact others other member otherRuns
  · by_cases isOwn : own = run.number
    · subst isOwn
      rw [record_self] at done ⊢
      cases done
      exact ⟨rfl, ⟨heard.before, heard.heard, heard.all⟩, ran.called, ran.stats, ran.expired⟩
    · rw [record_of_ne isOwn] at done ⊢
      exact coherent.complete own run' done

/-- A step within a run that leaves the callbacks alone, and all records but
that of the run. -/
private theorem Coherent.goesOn (coherent : Coherent memory (thread :: rest))
    (own : thread.pc.number? = some run.number) (number : next.pc.number? = some run.number)
    (runs : after.nextRun = memory.nextRun) (callbacks : after.callbackList = memory.callbackList)
    (records : ∀ number, number ≠ run.number →
      after.records number = memory.records number)
    (finished : ∀ number,
      (after.records number).finished = (memory.records number).finished)
    (tracks : next.pc.Tracks after) : Coherent after (next :: rest) := by
  refine coherent.replace (number.trans own.symm) runs (callbacks ▸ List.prefix_rfl)
    (fun _ _ _ => callbacks) (fun other different => records other ?_) finished tracks
  rintro rfl
  exact different own

theorem Coherent.step (step : Step memory thread after next) (locked : Locked memory (thread :: rest))
    (coherent : Coherent memory (thread :: rest)) : Coherent after (next :: rest) := by
  have tracks := coherent.tracks thread List.mem_cons_self
  have readers := locked.readers
  rw [total_cons] at readers
  cases step with
  | begins pcIs => exact coherent.begins pcIs
  | leaves pcIs => exact coherent.leaves pcIs
  | refused => exact coherent
  | @calls number task now called pcIs called_ =>
      rw [pcIs] at tracks
      obtain ⟨before, recordIs, inside⟩ := tracks
      refine @Coherent.goesOn _ _ _ _ _ ⟨number, task, now, task.stats now⟩ coherent
        (by rw [pcIs]; rfl) rfl rfl rfl (fun _ different => record_of_ne different)
        (record_finished rfl) ?_
      refine ⟨⟨?_, rfl, fun _ => rfl, ?_⟩, rfl, ?_⟩
      · rw [record_self, recordIs, called_]
        rfl
      · rw [record_self, recordIs]
        exact inside
      · rw [record_self, recordIs]
        exact ⟨rfl, rfl, rfl⟩
  | @skips number task now pcIs none =>
      rw [pcIs] at tracks
      obtain ⟨before, recordIs, inside⟩ := tracks
      refine @Coherent.goesOn _ _ _ _ _ ⟨number, task, now, task.stats now⟩ coherent
        (by rw [pcIs]; rfl) rfl rfl rfl (fun _ _ => rfl) (fun _ => rfl) ?_
      refine ⟨⟨?_, rfl, fun _ => rfl, ?_⟩, rfl, ?_⟩
      · rw [recordIs, none]
        rfl
      · rw [recordIs]
        exact inside
      · rw [recordIs]
        exact ⟨rfl, rfl, rfl⟩
  | returns pcIs =>
      rw [pcIs] at tracks
      exact coherent.goesOn (by rw [pcIs]; rfl) rfl rfl rfl (fun _ _ => rfl) (fun _ => rfl) tracks
  | @subscribes caller callback outside pcIs inside =>
      rw [pcIs] at tracks
      cases caller with
      | outside => exact absurd rfl inside
      | callback run index =>
          have own := locked.inCallback thread List.mem_cons_self
          rw [pcIs, outside] at own
          cases own
      | user run =>
          exact coherent.goesOn (by rw [pcIs]; rfl) rfl rfl rfl (fun _ _ => rfl) (fun _ => rfl)
            tracks
  | @times run now pcIs =>
      rw [pcIs] at tracks
      obtain ⟨ran, untimed, quiet⟩ := tracks
      refine @Coherent.goesOn _ _ _ _ _ run coherent (by rw [pcIs]; rfl) rfl rfl rfl
        (fun _ _ => rfl) (fun _ => rfl) ?_
      cases expired : run.stats.expired with
      | true =>
          simp only [if_true]
          exact ⟨ran, quiet⟩
      | false =>
          simp only [Bool.false_eq_true, if_false]
          refine ⟨⟨ran.called, ?_, ?_, ran.before⟩, quiet⟩
          · rw [ran.stats]
          · intro late
            rw [show run.stats.expired = true from late] at expired
            cases expired
  | settles pcIs =>
      rw [pcIs] at tracks
      exact coherent.goesOn (by rw [pcIs]; rfl) rfl rfl rfl (fun _ _ => rfl) (fun _ => rfl) tracks
  | @enters run pcIs free =>
      rw [pcIs] at tracks
      obtain ⟨ran, -, heard, quiet⟩ := tracks
      have reading : Ran ({ memory with readers := memory.readers + 1 }.record run.number
          { memory.records run.number with subscribed := memory.callbackList }) run := by
        refine ⟨?_, ran.stats, ran.expired, ?_⟩
        · rw [record_self]
          exact ran.called
        · rw [record_self]
          exact ran.before
      obtain ⟨trackedOn, number, callbacks, runs, records, finished⟩ :=
        @notify_tracks _ { thread with inCallback := true } _ reading (by rw [record_self]; rfl)
          (by rw [record_self]; exact quiet) 0 (by rw [record_self]; exact heard)
      refine coherent.goesOn (by rw [pcIs]; rfl) number runs callbacks ?_ ?_ trackedOn
      · intro other different
        rw [records other different]
        exact record_of_ne different
      · intro other
        rw [finished]
        exact @record_finished { memory with readers := memory.readers + 1 } run.number
          { memory.records run.number with subscribed := memory.callbackList } rfl other
  | @notifies run index pcIs =>
      rw [pcIs] at tracks
      obtain ⟨ran, subscribed, quiet, heard⟩ := tracks
      obtain ⟨trackedOn, number, callbacks, runs, records, finished⟩ :=
        @notify_tracks _ thread _ ran subscribed quiet (index + 1) heard
      exact coherent.goesOn (by rw [pcIs]; rfl) number runs callbacks records finished trackedOn
  | @throws run index pcIs =>
      rw [pcIs] at tracks
      obtain ⟨ran, subscribed, quiet, heard⟩ := tracks
      refine @Coherent.goesOn _ _ _ _ _ run coherent (by rw [pcIs]; rfl) rfl rfl rfl
        (fun _ different => record_of_ne different) (record_finished rfl) ?_
      refine ⟨⟨?_, ran.stats, ran.expired, ?_⟩, ?_⟩
      · rw [record_self]
        exact ran.called
      · rw [record_self]
        exact ran.before
      · rw [record_self]
        refine ⟨subscribed ▸ ran.before, ?_, nofun⟩
        change (memory.records run.number).heard <+: (memory.records run.number).subscribed.map _
        rw [heard, subscribed]
        exact (List.take_prefix _ _).map _
  | @pushes caller callback pcIs free none =>
      rw [pcIs] at tracks readers
      have grows : memory.callbackList <+: memory.callbackList ++ [callback] :=
        List.prefix_append _ _
      refine coherent.replace (by rw [pcIs]; cases caller <;> rfl) rfl grows ?_ (fun _ _ => rfl)
        (fun _ => rfl) ?_
      · intro other member reads
        have weight : other.pc.reads ≤ total (fun thread => thread.pc.reads) rest :=
          weight_le_total (fun thread => thread.pc.reads) member
        change 0 + total (fun thread => thread.pc.reads) rest = memory.readers at readers
        omega
      · cases caller with
        | outside => trivial
        | callback run index => trivial
        | user run =>
            obtain ⟨ran, untimed, quiet⟩ := tracks
            exact ⟨ran.frame grows rfl, untimed, quiet⟩
  | @unlocks caller pcIs =>
      rw [pcIs] at tracks
      have outermost := locked.outermost thread List.mem_cons_self
      rw [pcIs] at outermost
      cases caller with
      | callback run index => cases outermost
      | outside =>
          exact coherent.replace (by rw [pcIs]; rfl) rfl List.prefix_rfl (fun _ _ _ => rfl)
            (fun _ _ => rfl) (fun _ => rfl) trivial
      | user run =>
          obtain ⟨ran, untimed, quiet⟩ := tracks
          have still : Ran { memory with writing := false } run :=
            ran.frame (show memory.callbackList <+: _ from List.prefix_rfl) rfl
          exact coherent.goesOn (by rw [pcIs]; rfl) rfl rfl rfl (fun _ _ => rfl) (fun _ => rfl)
            ⟨still, untimed, quiet⟩

end Coherent

theorem reachable_coherent {state : Global Memory Thread}
    (reached : Reachable system anySchedule state) : Coherent state.shared state.agents := by
  refine Reaches.invariant Coherent Coherent.perm ?_ ?_ ?_ reached
  · refine ⟨fun number => ?_, List.forall_mem_nil _, nofun⟩
    exact (if_neg (Nat.not_lt_zero number)).symm
  · intro before index choice thread after left earlier _ found acted coherent
    obtain ⟨next, stepped, rfl⟩ := act_eq_some acted
    exact coherent.step (step_of_next stepped)
      ((reachable_locked earlier).perm (perm_of_getElem? found))
  · intro before move after left _ _ acted coherent
    cases acted
    have none : move.thread.pc.number? = none := by cases move <;> rfl
    have idle : move.thread.pc.Tracks before.shared := by cases move <;> trivial
    refine ⟨fun number => ?_, ?_, coherent.complete⟩
    · have owned := coherent.owned number
      rw [List.singleton_append, runners_cons, Pc.runs, none, if_neg nofun, Nat.zero_add]
      exact owned
    · intro thread member
      rcases List.mem_append.mp member with new | old
      · rw [List.mem_singleton.mp new]
        exact idle
      · exact coherent.tracks thread old

/-- A call of `runTask` that has returned has called the function of the task,
or its `expireCallback` if it had expired, and nothing else; and the callbacks
subscribed before it have heard of it in their order, with the same statistics,
all of them unless one threw. -/
theorem runs_reported {state : Global Memory Thread}
    (reached : Reachable system anySchedule state) {number : Nat} {run : Run}
    (finished : (state.shared.records number).finished = some run) :
    Complete (state.shared.records number) run :=
  ((reachable_coherent reached).complete number run finished).2

/-- A task that expires has its `expireCallback` called in its place. -/
theorem runs_reported_expired :
    ∃ state : Global Memory Thread, ∃ run : Run,
      (state.shared.records 0).finished = some run ∧ run.stats.expired = true ∧
        Complete (state.shared.records 0) run := by
  refine ⟨_, _, rfl, rfl, runs_reported (@Reaches.run _ _ _ _ _ _ _ _
    [.env (.subscribe 5), .act 0 .go, .act 0 .go, .env .worker,
      .act 0 (.runTask (Task.make (some 1) 2 (some 7) 0 none)), .act 0 (.clock 3), .act 0 .ends,
      .act 0 (.clock 4), .act 0 .go, .act 0 .go, .act 0 .ends, .act 0 .go] .refl rfl) rfl⟩

end ThreadPoolExec.RunTask
