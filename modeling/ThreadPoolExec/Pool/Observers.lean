import ThreadPoolExec.Pool.Accounting

/-!
# Observers and their threads

An observer is told of a thread when it starts, or when the observer is added.
Each telling is answered by one report, when the thread stops or the observer
is removed, unless a worker leaves after a task: that way out has no report.
-/

set_option autoImplicit false

namespace ThreadPoolExec.CPUThreadPoolExecutor

open Interleaving

def Event.tells : Event → Bool
  | .threadStarted | .threadPreviouslyStarted => true
  | .threadStopped | .threadNotYetStopped => false

/-- How often an observer was called for a thread, with certain events. -/
def countCalls (notices : List Notice) (observer thread : Nat) (p : Event → Bool) : Nat :=
  notices.countP fun notice =>
    notice.observer = observer ∧ notice.thread = thread ∧ p notice.event

namespace Memory

variable (memory : Memory) (observer thread : Nat)

def told : Nat :=
  countCalls memory.notices observer thread Event.tells

def reported : Nat :=
  countCalls memory.notices observer thread fun event => !event.tells

def reportedStopped : Nat :=
  countCalls memory.notices observer thread fun event => event = .threadStopped

end Memory

section Counting

variable {observers threads : List Nat} {notices : List Notice} {observer thread : Nat}
  {event : Event} {p : Event → Bool}

theorem countCalls_append (notices more : List Notice) :
    countCalls (notices ++ more) observer thread p =
      countCalls notices observer thread p + countCalls more observer thread p :=
  List.countP_append

/-- Every entry of an observer in the list is called once for each thread. -/
theorem countCalls_notified :
    countCalls (observers.flatMap fun observer => threads.map fun thread =>
      ⟨observer, event, thread⟩) observer thread p =
      if p event then observers.count observer * threads.count thread else 0 := by
  have single : ∀ other, countCalls (threads.map fun thread => ⟨other, event, thread⟩)
      observer thread p = if other = observer ∧ p event then threads.count thread else 0 := by
    intro other
    induction threads with
    | nil => simp [countCalls]
    | cons first rest ih =>
        have split : countCalls ((first :: rest).map fun thread => ⟨other, event, thread⟩)
            observer thread p = countCalls (rest.map fun thread => ⟨other, event, thread⟩)
              observer thread p +
                if other = observer ∧ first = thread ∧ p event then 1 else 0 := by
          simp [countCalls, List.countP_cons]
        rw [split, ih, List.count_cons]
        by_cases isOther : other = observer <;> by_cases isFirst : first = thread <;>
          cases p event <;> simp [isOther, isFirst]
  induction observers with
  | nil => simp [countCalls]
  | cons first rest ih =>
      rw [List.flatMap_cons, countCalls_append, ih, single, List.count_cons]
      by_cases isFirst : first = observer <;> cases p event <;>
        simp [isFirst, Nat.add_mul, Nat.add_comm]

end Counting

/-! ## What the steps do to observers and threads -/

/-- What the calls of observers depend on. -/
structure View where
  threadList : List Nat
  stoppedThreads : List Nat
  nextId : Nat
  observers : List Nat
  notices : List Notice

def Memory.view (memory : Memory) : View :=
  ⟨memory.threadList, memory.stoppedThreads, memory.nextId, memory.observers, memory.notices⟩

/-- The threads that `addThreads` has started and not announced. -/
def Holder.starting : Holder → List Nat
  | .addThreads _ newThreads _ _ => newThreads
  | _ => []

def Memory.starting (memory : Memory) : List Nat :=
  memory.threadListLock.elim [] Holder.starting

def called (observers threads : List Nat) (event : Event) : List Notice :=
  observers.flatMap fun observer => threads.map fun thread => ⟨observer, event, thread⟩

inductive Observes (memory after : Memory) : Holder → Prop where
  | same {holder : Holder} (view : after.view = memory.view) (before : holder.starting = [])
      (now : after.starting = []) : Observes memory after holder
  | stops (thread : Nat) (observed : Bool) (threadList : List Nat)
      (removed : ThreadList.remove memory.threadList thread = some threadList)
      (view : after.view = { memory.view with
        threadList := threadList
        stoppedThreads := memory.stoppedThreads ++ [thread]
        notices := memory.notices ++
          called (if observed then memory.observers else []) [thread] .threadStopped })
      (now : after.starting = []) : Observes memory after (.stopThread thread observed)
  | starts (left : Nat) (newThreads : List Nat) (active : Nat) (next : Call)
      (view : after.view = { memory.view with
        nextId := memory.nextId + 1
        threadList := ThreadList.add memory.threadList memory.nextId })
      (now : after.starting = newThreads ++ [memory.nextId]) :
      Observes memory after (.addThreads (left + 1) newThreads active next)
  | announces (newThreads : List Nat) (active : Nat) (next : Call)
      (view : after.view = { memory.view with
        notices := memory.notices ++ called memory.observers newThreads .threadStarted })
      (now : after.starting = []) : Observes memory after (.addThreads 0 newThreads active next)
  | adds (observer : Nat)
      (view : after.view = { memory.view with
        observers := memory.observers ++ [observer]
        notices := memory.notices ++
          called [observer] memory.threadList .threadPreviouslyStarted })
      (now : after.starting = []) : Observes memory after (.addObserver observer)
  | removes (observer : Nat)
      (view : after.view = { memory.view with
        observers := memory.observers.erase observer
        notices := memory.notices ++ called [observer] memory.threadList .threadNotYetStopped })
      (now : after.starting = []) : Observes memory after (.removeObserver observer)

section Steps

variable {queue : TaskQueue} {choice : CountingSemaphore.Ending} {wake : Bool}
  {memory after : Memory} {left : List Agent} {agent : Agent} {holder : Holder} {observer : Nat}

theorem hold_observes (stepped : holder.next queue wake memory = some (after, left)) :
    Observes memory after holder := by
  cases hold_step stepped with
  | worker thread holder after left step =>
      cases step with
      | stops observed threadList removed => exact .stops thread observed threadList removed rfl rfl
      | _ => exact .same rfl rfl rfl
  | removal removal n holder after left step => cases step <;> exact .same rfl rfl rfl
  | call holder after left step =>
      cases step with
      | startsThread left newThreads active next => exact .starts left newThreads active next rfl rfl
      | startedAll newThreads active next => exact .announces newThreads active next rfl rfl
      | addsObserver observer => exact .adds observer rfl rfl
      | removesObserver observer => exact .removes observer rfl rfl
      | _ => exact .same rfl rfl rfl

theorem act_view (acted : act queue choice memory agent = some (after, left)) :
    after.starting = memory.starting ∧
      (after.view = memory.view ∨ ∃ thread stopped, memory.stoppedThreads = thread :: stopped ∧
        after.view = { memory.view with stoppedThreads := stopped }) := by
  cases act_step acted with
  | locks agent holder wants free =>
      refine ⟨?_, .inl rfl⟩
      have unannounced : holder.starting = [] := by
        unfold Agent.wants at wants
        split at wants <;> cases wants <;> rfl
      rw [Memory.starting, Memory.starting, free]
      exact unannounced
  | worker thread at_ after left step => cases step <;> exact ⟨rfl, .inl rfl⟩
  | call at_ after left step =>
      cases step with
      | joinsOne n joiner thread stopped first => exact ⟨rfl, .inr ⟨thread, stopped, first, rfl⟩⟩
      | _ => exact ⟨rfl, .inl rfl⟩

theorem invoke_view (memory : Memory) (operation : Operation) :
    (memory.invoke operation).1.view = memory.view ∧
      (memory.invoke operation).1.starting = memory.starting := by
  cases operation <;> exact ⟨rfl, rfl⟩

end Steps

/-! ## Reports -/

/-- An observer is only removed while it is registered, as `removeObserver`
checks. -/
def removesRegistered (observer : Nat) (state : Global Memory Agent) :
    Label CountingSemaphore.Ending Move → Bool
  | .env (.hold _) =>
      match state.shared.threadListLock with
      | some (.removeObserver other) => other = observer → observer ∈ state.shared.observers
      | _ => true
  | _ => true

/-- A worker leaves by way of the check after its task. -/
def leavesAfterTask (state : Global Memory Agent) :
    Label CountingSemaphore.Ending Move → Bool
  | .env (.hold _) =>
      match state.shared.threadListLock with
      | some (.stopThread _ false) => true
      | _ => false
  | _ => false

/-- No worker leaves after a task while the observer is registered. -/
def exitsReported (observer : Nat) (state : Global Memory Agent)
    (label : Label CountingSemaphore.Ending Move) : Bool :=
  removesRegistered observer state label ∧
    (leavesAfterTask state label → observer ∉ state.shared.observers)

/-- What an observer has been told of and what has been reported to it. -/
structure Tallied (view : View) (starting : List Nat) (observer : Nat) : Prop where
  nodup : view.threadList.Nodup
  known : ∀ thread ∈ view.threadList, thread < view.nextId
  stopped : ∀ thread ∈ view.stoppedThreads, thread < view.nextId ∧ thread ∉ view.threadList
  fresh : starting.Nodup ∧ starting ⊆ view.threadList
  due : ∀ thread, countCalls view.notices observer thread Event.tells =
    countCalls view.notices observer thread (fun event => !event.tells) +
      if thread ∈ view.threadList ∧ thread ∉ starting then view.observers.count observer else 0
  alive : ∀ thread, thread ∈ view.threadList ∨ view.nextId ≤ thread →
    countCalls view.notices observer thread (fun event => event = .threadStopped) = 0

section Tally

variable {view : View} {starting newThreads threadList : List Nat} {observer other thread : Nat}

theorem countCalls_called {observers threads : List Nat} {event : Event} {p : Event → Bool} :
    countCalls (called observers threads event) observer thread p =
      if p event then observers.count observer * threads.count thread else 0 :=
  countCalls_notified

private theorem tallied_stops {observed : Bool}
    (removed : ThreadList.remove view.threadList thread = some threadList)
    (announced : observed = false → observer ∉ view.observers)
    (tallied : Tallied view [] observer) :
    Tallied { view with
      threadList := threadList
      stoppedThreads := view.stoppedThreads ++ [thread]
      notices := view.notices ++
        called (if observed then view.observers else []) [thread] .threadStopped } [] observer := by
  have same := ThreadList.perm_of_remove removed
  obtain ⟨gone, nodup⟩ := List.nodup_cons.mp (same.nodup_iff.mp tallied.nodup)
  have inList : ∀ other, other ∈ view.threadList ↔ other = thread ∨ other ∈ threadList := by
    intro other
    rw [same.mem_iff, List.mem_cons]
  have known := tallied.known thread ((inList thread).mpr (.inl rfl))
  have stops : (if observed then view.observers else []).count observer =
      view.observers.count observer := by
    cases observed with
    | true => rfl
    | false =>
        rw [List.count_eq_zero_of_not_mem (announced rfl)]
        rfl
  constructor
  case nodup => exact nodup
  case known => exact fun other member => tallied.known other ((inList other).mpr (.inr member))
  case stopped =>
    intro other member
    rcases List.mem_append.mp member with before | last
    · obtain ⟨older, notListed⟩ := tallied.stopped other before
      exact ⟨older, fun listed => notListed ((inList other).mpr (.inr listed))⟩
    · rw [List.mem_singleton.mp last]
      exact ⟨known, gone⟩
  case fresh => exact ⟨List.nodup_nil, List.nil_subset _⟩
  case due =>
    intro other
    have due := tallied.due other
    simp only [List.not_mem_nil, not_false_eq_true, and_true] at due ⊢
    rw [countCalls_append, countCalls_append, countCalls_called, countCalls_called, stops, due]
    by_cases isThread : other = thread
    · subst isThread
      simp [Event.tells, (inList other).mpr (.inl rfl), gone]
    · simp [Event.tells, inList other, isThread, Ne.symm isThread]
  case alive =>
    intro other living
    have apart : thread ≠ other := by
      rintro rfl
      rcases living with listed | new
      · exact gone listed
      · exact absurd known (Nat.not_lt.mpr new)
    have before := tallied.alive other (living.imp_left fun listed => (inList other).mpr (.inr listed))
    rw [countCalls_append, before, countCalls_called]
    simp [apart]

private theorem tallied_starts (tallied : Tallied view starting observer) :
    Tallied { view with
      nextId := view.nextId + 1
      threadList := ThreadList.add view.threadList view.nextId } (starting ++ [view.nextId])
      observer := by
  have same := ThreadList.perm_add view.threadList view.nextId
  have unlisted : view.nextId ∉ view.threadList := fun listed =>
    Nat.lt_irrefl _ (tallied.known _ listed)
  have inList : ∀ other, other ∈ ThreadList.add view.threadList view.nextId ↔
      other = view.nextId ∨ other ∈ view.threadList := by
    intro other
    rw [same.mem_iff, List.mem_cons]
  constructor
  case nodup => exact same.nodup_iff.mpr (List.nodup_cons.mpr ⟨unlisted, tallied.nodup⟩)
  case known =>
    intro other member
    rcases (inList other).mp member with rfl | before
    · exact Nat.lt_succ_self _
    · exact Nat.lt_succ_of_lt (tallied.known other before)
  case stopped =>
    intro other member
    obtain ⟨older, notListed⟩ := tallied.stopped other member
    refine ⟨Nat.lt_succ_of_lt older, fun listed => ?_⟩
    rcases (inList other).mp listed with rfl | before
    · exact Nat.lt_irrefl _ older
    · exact notListed before
  case fresh =>
    obtain ⟨nodup, listed⟩ := tallied.fresh
    refine ⟨List.nodup_append.mpr ⟨nodup, List.pairwise_singleton _ _, ?_⟩, ?_⟩
    · intro first inStarting last isNew equal
      rw [equal, List.mem_singleton.mp isNew] at inStarting
      exact unlisted (listed inStarting)
    · intro other member
      refine (inList other).mpr ?_
      rcases List.mem_append.mp member with before | isNew
      · exact .inr (listed before)
      · exact .inl (List.mem_singleton.mp isNew)
  case due =>
    intro other
    rw [tallied.due other]
    by_cases isNew : other = view.nextId
    · subst isNew
      simp [unlisted]
    · simp [inList other, isNew]
  case alive =>
    intro other living
    refine tallied.alive other ?_
    rcases living with listed | new
    · rcases (inList other).mp listed with rfl | before
      · exact .inr (Nat.le_refl _)
      · exact .inl before
    · exact .inr (Nat.le_of_succ_le new)

private theorem tallied_announces (tallied : Tallied view newThreads observer) :
    Tallied { view with
      notices := view.notices ++ called view.observers newThreads .threadStarted } [] observer where
  nodup := tallied.nodup
  known := tallied.known
  stopped := tallied.stopped
  fresh := ⟨List.nodup_nil, List.nil_subset _⟩
  due other := by
    obtain ⟨nodup, listed⟩ := tallied.fresh
    have due := tallied.due other
    simp only [List.not_mem_nil, not_false_eq_true, and_true]
    rw [countCalls_append, countCalls_append, countCalls_called, countCalls_called, due, nodup.count]
    by_cases isNew : other ∈ newThreads
    · simp [Event.tells, isNew, listed isNew]
    · simp [Event.tells, isNew]
  alive other living := by
    rw [countCalls_append, tallied.alive other living, countCalls_called]
    rfl

private theorem tallied_adds (tallied : Tallied view [] observer) :
    Tallied { view with
      observers := view.observers ++ [other]
      notices := view.notices ++ called [other] view.threadList .threadPreviouslyStarted } []
      observer where
  nodup := tallied.nodup
  known := tallied.known
  stopped := tallied.stopped
  fresh := tallied.fresh
  due thread := by
    have due := tallied.due thread
    simp only [List.not_mem_nil, not_false_eq_true, and_true] at due ⊢
    rw [countCalls_append, countCalls_append, countCalls_called, countCalls_called, due,
      tallied.nodup.count, List.count_append]
    by_cases listed : thread ∈ view.threadList <;> simp [Event.tells, listed, Nat.add_assoc]
  alive thread living := by
    rw [countCalls_append, tallied.alive thread living, countCalls_called]
    rfl

private theorem tallied_removes (registered : other = observer → observer ∈ view.observers)
    (tallied : Tallied view [] observer) :
    Tallied { view with
      observers := view.observers.erase other
      notices := view.notices ++ called [other] view.threadList .threadNotYetStopped } []
      observer where
  nodup := tallied.nodup
  known := tallied.known
  stopped := tallied.stopped
  fresh := tallied.fresh
  due thread := by
    have due := tallied.due thread
    simp only [List.not_mem_nil, not_false_eq_true, and_true] at due ⊢
    rw [countCalls_append, countCalls_append, countCalls_called, countCalls_called, due,
      tallied.nodup.count]
    by_cases isOther : other = observer
    · subst isOther
      have positive := List.count_pos_iff.mpr (registered rfl)
      by_cases listed : thread ∈ view.threadList
      · simp [Event.tells, listed, List.count_erase_self]
        omega
      · simp [Event.tells, listed]
    · simp [Event.tells, isOther, List.count_erase_of_ne (Ne.symm isOther)]
  alive thread living := by
    rw [countCalls_append, tallied.alive thread living, countCalls_called]
    rfl

end Tally

theorem tallied_hold {memory after : Memory} {holder : Holder} {observer : Nat}
    (locked : memory.threadListLock = some holder) (observes : Observes memory after holder)
    (silent : ∀ thread, holder = .stopThread thread false → observer ∉ memory.observers)
    (registered : holder = .removeObserver observer → observer ∈ memory.observers)
    (tallied : Tallied memory.view memory.starting observer) :
    Tallied after.view after.starting observer := by
  rw [Memory.starting, locked, Option.elim_some] at tallied
  cases observes with
  | same view before now =>
      rw [view, now]
      exact before ▸ tallied
  | stops thread observed threadList removed view now =>
      rw [view, now]
      refine tallied_stops removed (fun unobserved => ?_) tallied
      subst unobserved
      exact silent thread rfl
  | starts left newThreads active next view now =>
      rw [view, now]
      exact tallied_starts tallied
  | announces newThreads active next view now =>
      rw [view, now]
      exact tallied_announces tallied
  | adds other view now =>
      rw [view, now]
      exact tallied_adds tallied
  | removes other view now =>
      rw [view, now]
      refine tallied_removes (fun isObserver => ?_) tallied
      subst isObserver
      exact registered rfl

theorem reachable_tallied {queue : TaskQueue} {numThreads : Nat × Nat} {observer : Nat}
    {state : Global Memory Agent}
    (reached : Reachable (system queue numThreads)
      (fun state label => exitsReported observer state label) state) :
    Tallied state.shared.view state.shared.starting observer := by
  refine Reaches.invariant (fun memory _ => Tallied memory.view memory.starting observer)
    (fun _ => id) ?_ ?_ ?_ reached
  · exact ⟨List.nodup_nil, nofun, nofun, ⟨List.nodup_nil, List.nil_subset _⟩, fun _ => rfl,
      fun _ _ => rfl⟩
  · intro before index choice agent after left _ _ _ acted tallied
    obtain ⟨starting, same | ⟨thread, stopped, first, taken⟩⟩ := act_view acted
    · rw [same, starting]
      exact tallied
    · rw [taken, starting]
      refine ⟨tallied.nodup, tallied.known, fun other member => ?_, tallied.fresh, tallied.due,
        tallied.alive⟩
      refine tallied.stopped other ?_
      rw [Memory.view, first]
      exact List.mem_cons_of_mem _ member
  · intro before move after left _ allowed moved tallied
    rcases env_cases moved with ⟨operation, rfl, -, invoked⟩ | ⟨wake, holder, rfl, locked, stepped⟩
    · obtain ⟨view, starting⟩ := invoke_view before.shared operation
      rw [invoked] at view starting
      rw [view, starting]
      exact tallied
    · refine tallied_hold locked (hold_observes stepped) ?_ ?_ tallied
      · rintro thread rfl
        simpa [exitsReported, removesRegistered, leavesAfterTask, locked] using allowed
      · rintro rfl
        simpa [exitsReported, removesRegistered, leavesAfterTask, locked] using allowed

/-- Each telling of a thread to an observer is answered by one report. -/
structure ReportedOnce (memory : Memory) (observer : Nat) : Prop where
  /-- For a thread in the list one report is due for each time that the observer
  is registered, and it has not been `threadStopped` for that thread. -/
  listed : ∀ thread ∈ memory.threadList, thread ∉ memory.starting →
    memory.told observer thread =
        memory.reported observer thread + memory.observers.count observer ∧
      memory.reportedStopped observer thread = 0
  /-- Once a thread has left the list, none is. -/
  gone : ∀ thread, thread ∉ memory.threadList →
    memory.told observer thread = memory.reported observer thread
  stopped : ∀ thread ∈ memory.stoppedThreads,
    memory.told observer thread = memory.reported observer thread
  /-- Nor once the observer was removed. -/
  removed : observer ∉ memory.observers → ∀ thread,
    memory.told observer thread = memory.reported observer thread
  atMost : ∀ thread, memory.reported observer thread ≤ memory.told observer thread ∧
    memory.told observer thread ≤
      memory.reported observer thread + memory.observers.count observer

/-- As long as no worker leaves after a task while the observer is registered,
every thread that it was told of is reported to it once. -/
theorem threads_reportedOnce (queue : TaskQueue) (numThreads : Nat × Nat) (observer : Nat)
    (state : Global Memory Agent)
    (reached : Reachable (system queue numThreads)
      (fun state label => exitsReported observer state label) state) :
    ReportedOnce state.shared observer := by
  have tallied := reachable_tallied reached
  have due : ∀ thread, state.shared.told observer thread =
      state.shared.reported observer thread +
        if thread ∈ state.shared.threadList ∧ thread ∉ state.shared.starting
        then state.shared.observers.count observer else 0 := tallied.due
  have gone : ∀ thread, thread ∉ state.shared.threadList →
      state.shared.told observer thread = state.shared.reported observer thread := by
    intro thread left
    rw [due, if_neg fun listed => left listed.1]
    rfl
  refine ⟨?_, gone, ?_, ?_, ?_⟩
  · intro thread listed announced
    rw [due, if_pos ⟨listed, announced⟩]
    exact ⟨rfl, tallied.alive thread (.inl listed)⟩
  · exact fun thread member => gone thread (tallied.stopped thread member).2
  · intro unregistered thread
    rw [due, List.count_eq_zero_of_not_mem unregistered, ite_self]
    rfl
  · intro thread
    rw [due]
    split
    · exact ⟨Nat.le_add_right _ _, Nat.le_refl _⟩
    · exact ⟨Nat.le_refl _, Nat.le_add_right _ _⟩

/-- A pool of one thread, and an observer that is told of it. -/
private def observeOne : List (Label CountingSemaphore.Ending Move) :=
  frontActs 1 ++ held 7 ++ frontActs 2 ++ [Label.env (Move.invoke (.addObserver 7))] ++
    frontActs 1 ++ held 1 ++ frontActs 2

/-- `setNumThreads(0)` asks the thread to stop. -/
private def dropOne : List (Label CountingSemaphore.Ending Move) :=
  [Label.env (Move.invoke (.setNumThreads 0))] ++ frontActs 1 ++ held 10

/-- The thread is idle and takes the poison task. -/
private def leaveIdle : List (Label CountingSemaphore.Ending Move) :=
  observeOne ++ dropOne ++ [Label.act 1 .handoff] ++ frontActs 2 ++ held 2

theorem threads_reportedOnce_leaveIdle :
    ∃ state : Global Memory Agent,
      (system .unbounded (1, 1)).run (system .unbounded (1, 1)).init leaveIdle = some state ∧
      state.shared.stoppedThreads = [0] ∧ state.shared.told 7 0 = 1 ∧
      ReportedOnce state.shared 7 := by
  have runs : ((system .unbounded (1, 1)).run (system .unbounded (1, 1)).init leaveIdle).map
      (fun state => (state.shared.stoppedThreads, state.shared.told 7 0)) = some ([0], 1) := by
    decide
  obtain ⟨state, replayed, values⟩ := Option.map_eq_some_iff.mp runs
  obtain ⟨stopped, told⟩ := Prod.mk.inj values
  have reached : Reachable (system .unbounded (1, 1))
      (fun state label => exitsReported 7 state label) state :=
    Reachable.init.replay (by decide) replayed
  exact ⟨state, replayed, stopped, told, threads_reportedOnce .unbounded (1, 1) 7 state reached⟩

/-- The thread runs a task when it is asked to stop, and leaves after it. -/
private def leaveBusy : List (Label CountingSemaphore.Ending Move) :=
  observeOne ++ [Label.env (Move.invoke (.add 0))] ++ frontActs 8 ++ dropOne ++
    [Label.act 1 .handoff] ++ frontActs 4 ++ held 2

/-- The thread is stopped and the observer was never told so. -/
theorem not_threads_reportedOnce :
    ¬ ∀ (queue : TaskQueue) (numThreads : Nat × Nat) (observer : Nat) (state : Global Memory Agent),
      queue.bounded = false →
      Reachable (system queue numThreads)
        (fun state label => removesRegistered observer state label) state →
      ReportedOnce state.shared observer := by
  intro reportedOnce
  have runs : ((system .unbounded (1, 1)).run (system .unbounded (1, 1)).init leaveBusy).map
      (fun state => (state.shared.stoppedThreads, state.shared.told 7 0,
        state.shared.reported 7 0)) = some ([0], 1, 0) := by
    decide
  obtain ⟨state, replayed, values⟩ := Option.map_eq_some_iff.mp runs
  simp only [Prod.mk.injEq] at values
  obtain ⟨stopped, told, reported⟩ := values
  have reached : Reachable (system .unbounded (1, 1))
      (fun state label => removesRegistered 7 state label) state :=
    Reachable.init.replay (by decide) replayed
  have balanced := (reportedOnce .unbounded (1, 1) 7 state rfl reached).stopped 0
    (stopped ▸ List.mem_cons_self)
  rw [told, reported] at balanced
  exact absurd balanced (by decide)

end ThreadPoolExec.CPUThreadPoolExecutor
