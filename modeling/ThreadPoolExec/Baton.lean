import Mathlib.Tactic.Common

/-!
# The baton

One lifetime of `Baton<true>`: one call of `post()` and one call of `wait()`,
`try_wait_for()` or `try_wait_until()`. A step of either side is one access to
`state_`, one reading of the clock or one return of the futex. A failed
`assert` ends the side that made it.
-/

set_option autoImplicit false

namespace ThreadPoolExec.Baton

/-- The values of `state_`. -/
inductive State where
  | init | earlyDelivery | waiting | lateDelivery | timedOut
deriving DecidableEq, Repr

inductive FutexResult where
  | valueChanged | awoken | interrupted | timedOut
deriving DecidableEq, Repr

/-- The first and the last time point of the waiter's clock, and `spin_max` of
its options. -/
structure Timing where
  min : Int
  max : Int
  spinMax : Int
  ordered : min < max
deriving DecidableEq, Repr

inductive Call where
  | wait
  | tryWaitFor (timeout : Int)
  | tryWaitUntil (deadline : Int)
deriving DecidableEq, Repr

/-- Where `post()` is. -/
inductive Post where
  | load
  | exchange
  | store
  | wake
  | returned
  | failed
deriving DecidableEq, Repr

/-- Where the waiter is: `tryWait` through `now` in the call itself, `ready`
through `pause` in `spin_pause_until`, the others in `tryWaitSlow`. -/
inductive Wait where
  | tryWait
  | now (timeout : Int)
  | ready (deadline : Int)
  | begin (deadline : Int)
  | spin (deadline tbegin : Int)
  | pause (deadline tbegin : Int)
  | exchange (deadline : Int)
  | futexWaitUntil (deadline : Int)
  | asleep (deadline : Int)
  | reload (deadline : Int)
  | expire
  | returned (posted : Bool)
  | failed
deriving DecidableEq, Repr

/-- What a step of the waiter takes from outside: a clock reading, what the
futex returns, or that the futex puts it to sleep. -/
inductive Choice where
  | go
  | clock (tnow : Int)
  | result (rv : FutexResult)
  | sleep
deriving DecidableEq, Repr

def ready (state : State) : Bool :=
  state = .earlyDelivery ∨ state = .lateDelivery

/-- `post()` once it knows that `state_` was not `INIT`. -/
def Post.afterInit : State → Post
  | .timedOut => .returned
  | .waiting => .store
  | _ => .failed

/-- Entering `tryWaitSlow`: without a positive `spin_max` nothing is spun. -/
def Wait.slow (timing : Timing) (deadline : Int) : Wait :=
  if timing.spinMax ≤ 0 then .exchange deadline else .ready deadline

/-- After the first load of the call. -/
def Wait.afterTryWait (timing : Timing) : Call → Wait
  | .wait => .slow timing timing.max
  | .tryWaitFor timeout => .now timeout
  | .tryWaitUntil deadline => .slow timing deadline

/-- After a return of the futex. Only a wait with a deadline times out. -/
def Wait.afterFutex (timing : Timing) (deadline : Int) : FutexResult → Wait
  | .timedOut => if deadline = timing.max then .failed else .expire
  | _ => .reload deadline

/-- A futex without a deadline does not report that one has passed. -/
def mayReturn (timing : Timing) (deadline : Int) (rv : FutexResult) : Bool :=
  rv ≠ .timedOut ∨ deadline ≠ timing.max

structure Handoff where
  state : State := .init
  /-- `post()` has written its delivery. -/
  delivered : Bool := false
  post : Post := .load
  wait : Wait := .tryWait
deriving DecidableEq, Repr

/-- `futexWake(&state_, 1)`. -/
def Wait.woken : Wait → Wait
  | .asleep deadline => .reload deadline
  | wait => wait

def postStep (handoff : Handoff) : Option Handoff :=
  match handoff.post with
  | .load =>
      some { handoff with
        post := if handoff.state = .init then .exchange else .afterInit handoff.state }
  | .exchange =>
      if handoff.state = .init then
        some { handoff with state := .earlyDelivery, delivered := true, post := .returned }
      else some { handoff with post := .afterInit handoff.state }
  | .store => some { handoff with state := .lateDelivery, delivered := true, post := .wake }
  | .wake => some { handoff with post := .returned, wait := handoff.wait.woken }
  | .returned | .failed => none

def waitStep (timing : Timing) (call : Call) (choice : Choice) (handoff : Handoff) :
    Option Handoff :=
  match handoff.wait, choice with
  | .tryWait, .go =>
      some { handoff with
        wait :=
          match handoff.state with
          | .earlyDelivery => .returned true
          | .init => .afterTryWait timing call
          | _ => .failed }
  | .now timeout, .clock tnow => some { handoff with wait := .slow timing (tnow + timeout) }
  | .ready deadline, .go =>
      some { handoff with
        wait :=
          if ready handoff.state then .returned true
          else if deadline = timing.min then .returned false
          else .begin deadline }
  | .begin deadline, .clock tnow => some { handoff with wait := .spin deadline tnow }
  | .spin deadline tbegin, .go =>
      some { handoff with
        wait := if ready handoff.state then .returned true else .pause deadline tbegin }
  | .pause deadline tbegin, .clock tnow =>
      -- the clock never shows its last time point
      if tnow < timing.max then
        some { handoff with
          wait :=
            if deadline ≤ tnow then .returned false
            else if Min.min tbegin tnow + timing.spinMax ≤ tnow then .exchange deadline
            else .spin deadline (Min.min tbegin tnow) }
      else none
  | .exchange deadline, .go =>
      if handoff.state = .init then
        some { handoff with state := .waiting, wait := .futexWaitUntil deadline }
      else if handoff.state = .earlyDelivery then some { handoff with wait := .returned true }
      else some { handoff with wait := .failed }
  | .futexWaitUntil deadline, .sleep =>
      if handoff.state = .waiting then some { handoff with wait := .asleep deadline } else none
  | .futexWaitUntil deadline, .result rv | .asleep deadline, .result rv =>
      if mayReturn timing deadline rv then
        some { handoff with wait := .afterFutex timing deadline rv }
      else none
  | .reload deadline, .go =>
      some { handoff with
        wait :=
          match handoff.state with
          | .lateDelivery => .returned true
          | .waiting => .futexWaitUntil deadline
          | _ => .failed }
  | .expire, .go => some { handoff with state := .timedOut, wait := .returned false }
  | _, _ => none

inductive Move where
  | post
  | wait (choice : Choice)
deriving DecidableEq, Repr

def step (timing : Timing) (call : Call) (handoff : Handoff) : Move → Option Handoff
  | .post => postStep handoff
  | .wait choice => waitStep timing call choice handoff

inductive Reachable (timing : Timing) (call : Call) : Handoff → Prop where
  | init : Reachable timing call {}
  | step {handoff next : Handoff} {move : Move} : Reachable timing call handoff →
      step timing call handoff move = some next → Reachable timing call next

/-! ## What the two sides leave in `state_` -/

/-- `post()` has not changed `state_`, nor seen it changed. -/
def Post.early (post : Post) : Prop :=
  post = .load ∨ post = .exchange

/-- The waiter has not changed `state_`. -/
def Wait.spinning : Wait → Prop
  | .tryWait | .now _ | .ready _ | .begin _ | .spin _ _ | .pause _ _ | .exchange _ => True
  | _ => False

/-- The waiter has announced itself in `state_`. -/
def Wait.blocking : Wait → Prop
  | .futexWaitUntil _ | .asleep _ | .reload _ | .expire => True
  | _ => False

inductive Consistent : State → Bool → Post → Wait → Prop where
  | spinning {post : Post} {wait : Wait} : post.early → wait.spinning →
      Consistent .init false post wait
  | gaveUp {post : Post} : post.early → Consistent .init false post (.returned false)
  | early {wait : Wait} : wait.spinning → Consistent .earlyDelivery true .returned wait
  | earlyEnd {posted : Bool} : Consistent .earlyDelivery true .returned (.returned posted)
  | waiting {post : Post} {wait : Wait} : post.early ∨ post = .store → wait.blocking →
      Consistent .waiting false post wait
  | waking {wait : Wait} : wait.blocking → Consistent .lateDelivery true .wake wait
  | late {wait : Wait} : wait.blocking → (∀ deadline, wait ≠ .asleep deadline) →
      Consistent .lateDelivery true .returned wait
  | lateEnd {post : Post} {posted : Bool} : post = .wake ∨ post = .returned →
      Consistent .lateDelivery true post (.returned posted)
  | timedOut {delivered : Bool} {post : Post} : post ≠ .failed →
      Consistent .timedOut delivered post (.returned false)

def Wait.deadline : Wait → Option Int
  | .ready deadline | .begin deadline | .spin deadline _ | .pause deadline _
  | .exchange deadline | .futexWaitUntil deadline | .asleep deadline | .reload deadline =>
      some deadline
  | _ => none

theorem Wait.spinning_slow {timing : Timing} {deadline : Int} :
    (Wait.slow timing deadline).spinning := by
  unfold Wait.slow
  split <;> trivial

theorem Wait.spinning_afterTryWait {timing : Timing} {call : Call} :
    (Wait.afterTryWait timing call).spinning := by
  cases call with
  | wait => exact spinning_slow
  | tryWaitFor => trivial
  | tryWaitUntil => exact spinning_slow

theorem Wait.blocking_afterFutex {timing : Timing} {deadline : Int} {rv : FutexResult}
    (returns : mayReturn timing deadline rv = true) :
    (Wait.afterFutex timing deadline rv).blocking ∧
      ∀ later, Wait.afterFutex timing deadline rv ≠ .asleep later := by
  cases rv with
  | timedOut =>
      have timed : deadline ≠ timing.max := by simpa [mayReturn] using returns
      simp [afterFutex, timed, blocking]
  | valueChanged => exact ⟨trivial, fun _ => nofun⟩
  | awoken => exact ⟨trivial, fun _ => nofun⟩
  | interrupted => exact ⟨trivial, fun _ => nofun⟩

theorem Wait.blocking_woken {wait : Wait} (blocking : wait.blocking) :
    wait.woken.blocking ∧ ∀ deadline, wait.woken ≠ .asleep deadline := by
  cases wait with
  | asleep deadline => exact ⟨trivial, fun _ => nofun⟩
  | futexWaitUntil => exact ⟨trivial, fun _ => nofun⟩
  | reload => exact ⟨trivial, fun _ => nofun⟩
  | expire => exact ⟨trivial, fun _ => nofun⟩
  | tryWait => cases blocking
  | now => cases blocking
  | ready => cases blocking
  | begin => cases blocking
  | spin => cases blocking
  | pause => cases blocking
  | exchange => cases blocking
  | returned => cases blocking
  | failed => cases blocking

private theorem consistent_postStep {handoff next : Handoff}
    (consistent : Consistent handoff.state handoff.delivered handoff.post handoff.wait)
    (stepped : postStep handoff = some next) :
    Consistent next.state next.delivered next.post next.wait := by
  obtain ⟨state, delivered, post, wait⟩ := handoff
  simp only at consistent
  cases consistent with
  | spinning early spinning =>
      rcases early with rfl | rfl
      · cases stepped
        exact .spinning (.inr rfl) spinning
      · cases stepped
        exact .early spinning
  | gaveUp early =>
      rcases early with rfl | rfl
      · cases stepped
        exact .gaveUp (.inr rfl)
      · cases stepped
        exact .earlyEnd
  | early spinning => cases stepped
  | earlyEnd => cases stepped
  | waiting posting blocking =>
      rcases posting with (rfl | rfl) | rfl
      · cases stepped
        exact .waiting (.inr rfl) blocking
      · cases stepped
        exact .waiting (.inr rfl) blocking
      · cases stepped
        exact .waking blocking
  | waking blocking =>
      cases stepped
      obtain ⟨still, awake⟩ := Wait.blocking_woken blocking
      exact .late still awake
  | late => cases stepped
  | lateEnd posting =>
      rcases posting with rfl | rfl
      · cases stepped
        exact .lateEnd (.inr rfl)
      · cases stepped
  | timedOut running =>
      cases post with
      | load =>
          cases stepped
          exact .timedOut nofun
      | exchange =>
          cases stepped
          exact .timedOut nofun
      | store =>
          cases stepped
          exact .lateEnd (.inl rfl)
      | wake =>
          cases stepped
          exact .timedOut nofun
      | returned => cases stepped
      | failed => cases stepped

/-- What a step of the waiter can do. -/
inductive Wait.Step (timing : Timing) (call : Call) : State → Wait → State → Wait → Prop where
  | tried : Step timing call .earlyDelivery .tryWait .earlyDelivery (.returned true)
  | notYet : Step timing call .init .tryWait .init (.afterTryWait timing call)
  | tryFailed {state : State} : state ≠ .init → state ≠ .earlyDelivery →
      Step timing call state .tryWait state .failed
  | deadline {state : State} {timeout tnow : Int} :
      Step timing call state (.now timeout) state (.slow timing (tnow + timeout))
  | spun {state : State} {wait : Wait} : wait.spinning → Baton.ready state = true →
      Step timing call state wait state (.returned true)
  | elapsed {state : State} {wait : Wait} {deadline : Int} : wait.spinning →
      (wait = .ready deadline ∧ deadline = timing.min ∨
        ∃ tbegin tnow, wait = .pause deadline tbegin ∧ deadline ≤ tnow ∧ tnow < timing.max) →
      Step timing call state wait state (.returned false)
  | spins {state : State} {deadline : Int} {wait next : Wait} : wait.spinning → next.spinning →
      wait.deadline = some deadline → next.deadline = some deadline →
      Step timing call state wait state next
  | blocks {deadline : Int} :
      Step timing call .init (.exchange deadline) .waiting (.futexWaitUntil deadline)
  | posted {deadline : Int} :
      Step timing call .earlyDelivery (.exchange deadline) .earlyDelivery (.returned true)
  | exchangeFailed {state : State} {deadline : Int} : state ≠ .init → state ≠ .earlyDelivery →
      Step timing call state (.exchange deadline) state .failed
  | sleeps {deadline : Int} :
      Step timing call .waiting (.futexWaitUntil deadline) .waiting (.asleep deadline)
  | returns {state : State} {deadline : Int} {wait : Wait} {rv : FutexResult} :
      wait = .futexWaitUntil deadline ∨ wait = .asleep deadline →
      mayReturn timing deadline rv = true →
      Step timing call state wait state (.afterFutex timing deadline rv)
  | delivered {deadline : Int} :
      Step timing call .lateDelivery (.reload deadline) .lateDelivery (.returned true)
  | spurious {deadline : Int} :
      Step timing call .waiting (.reload deadline) .waiting (.futexWaitUntil deadline)
  | reloadFailed {state : State} {deadline : Int} : state ≠ .waiting → state ≠ .lateDelivery →
      Step timing call state (.reload deadline) state .failed
  | expires {state : State} : Step timing call state .expire .timedOut (.returned false)

theorem waitStep_step {timing : Timing} {call : Call} {choice : Choice} {handoff next : Handoff}
    (stepped : waitStep timing call choice handoff = some next) :
    ∃ state wait, next = { handoff with state := state, wait := wait } ∧
      Wait.Step timing call handoff.state handoff.wait state wait := by
  obtain ⟨state, delivered, post, wait⟩ := handoff
  cases wait with
  | tryWait =>
      cases choice with
      | go =>
          cases stepped
          refine ⟨state, _, rfl, ?_⟩
          cases state with
          | init => exact .notYet
          | earlyDelivery => exact .tried
          | waiting => exact .tryFailed nofun nofun
          | lateDelivery => exact .tryFailed nofun nofun
          | timedOut => exact .tryFailed nofun nofun
      | clock => cases stepped
      | result => cases stepped
      | sleep => cases stepped
  | now timeout =>
      cases choice with
      | clock tnow =>
          cases stepped
          exact ⟨state, _, rfl, .deadline⟩
      | go => cases stepped
      | result => cases stepped
      | sleep => cases stepped
  | ready deadline =>
      cases choice with
      | go =>
          cases stepped
          refine ⟨state, _, rfl, ?_⟩
          split
          · next isReady => exact .spun trivial isReady
          · split
            · next first => exact .elapsed trivial (.inl ⟨rfl, first⟩)
            · exact .spins trivial trivial rfl rfl
      | clock => cases stepped
      | result => cases stepped
      | sleep => cases stepped
  | begin deadline =>
      cases choice with
      | clock tnow =>
          cases stepped
          exact ⟨state, _, rfl, .spins trivial trivial rfl rfl⟩
      | go => cases stepped
      | result => cases stepped
      | sleep => cases stepped
  | spin deadline tbegin =>
      cases choice with
      | go =>
          cases stepped
          refine ⟨state, _, rfl, ?_⟩
          split
          · next isReady => exact .spun trivial isReady
          · exact .spins trivial trivial rfl rfl
      | clock => cases stepped
      | result => cases stepped
      | sleep => cases stepped
  | pause deadline tbegin =>
      cases choice with
      | clock tnow =>
          simp only [waitStep] at stepped
          split at stepped
          · next inside =>
              cases stepped
              refine ⟨state, _, rfl, ?_⟩
              split
              · next expired => exact .elapsed trivial (.inr ⟨tbegin, tnow, rfl, expired, inside⟩)
              · split
                · exact .spins trivial trivial rfl rfl
                · exact .spins trivial trivial rfl rfl
          · cases stepped
      | go => cases stepped
      | result => cases stepped
      | sleep => cases stepped
  | exchange deadline =>
      cases choice with
      | go =>
          simp only [waitStep] at stepped
          split at stepped
          · next isInit =>
              cases stepped
              subst isInit
              exact ⟨_, _, rfl, .blocks⟩
          · next notInit =>
              split at stepped
              · next early =>
                  cases stepped
                  subst early
                  exact ⟨_, _, rfl, .posted⟩
              · next notEarly =>
                  cases stepped
                  exact ⟨state, _, rfl, .exchangeFailed notInit notEarly⟩
      | clock => cases stepped
      | result => cases stepped
      | sleep => cases stepped
  | futexWaitUntil deadline =>
      cases choice with
      | sleep =>
          simp only [waitStep] at stepped
          split at stepped
          · next waiting =>
              cases stepped
              subst waiting
              exact ⟨_, _, rfl, .sleeps⟩
          · cases stepped
      | result rv =>
          simp only [waitStep] at stepped
          split at stepped
          · next returns =>
              cases stepped
              exact ⟨state, _, rfl, .returns (.inl rfl) returns⟩
          · cases stepped
      | go => cases stepped
      | clock => cases stepped
  | asleep deadline =>
      cases choice with
      | result rv =>
          simp only [waitStep] at stepped
          split at stepped
          · next returns =>
              cases stepped
              exact ⟨state, _, rfl, .returns (.inr rfl) returns⟩
          · cases stepped
      | go => cases stepped
      | clock => cases stepped
      | sleep => cases stepped
  | reload deadline =>
      cases choice with
      | go =>
          cases stepped
          refine ⟨state, _, rfl, ?_⟩
          cases state with
          | waiting => exact .spurious
          | lateDelivery => exact .delivered
          | init => exact .reloadFailed nofun nofun
          | earlyDelivery => exact .reloadFailed nofun nofun
          | timedOut => exact .reloadFailed nofun nofun
      | clock => cases stepped
      | result => cases stepped
      | sleep => cases stepped
  | expire =>
      cases choice with
      | go =>
          cases stepped
          exact ⟨_, _, rfl, .expires⟩
      | clock => cases stepped
      | result => cases stepped
      | sleep => cases stepped
  | returned => cases stepped
  | failed => cases stepped

theorem Wait.not_blocking {wait : Wait} (spinning : wait.spinning) : ¬wait.blocking := by
  cases wait <;> first | exact id | cases spinning

theorem Wait.not_step_returned {timing : Timing} {call : Call} {state after : State}
    {posted : Bool} {wait : Wait} :
    ¬Wait.Step timing call state (.returned posted) after wait := by
  intro moved
  cases moved with
  | spun spinning => cases spinning
  | elapsed spinning => cases spinning
  | spins spinning => cases spinning
  | returns waiting => rcases waiting with waiting | waiting <;> cases waiting

private theorem consistent_waitStep {timing : Timing} {call : Call} {choice : Choice}
    {handoff next : Handoff}
    (consistent : Consistent handoff.state handoff.delivered handoff.post handoff.wait)
    (stepped : waitStep timing call choice handoff = some next) :
    Consistent next.state next.delivered next.post next.wait := by
  obtain ⟨state, wait, rfl, moved⟩ := waitStep_step stepped
  obtain ⟨before, delivered, post, waited⟩ := handoff
  simp only at consistent moved ⊢
  cases consistent with
  | spinning early spinning =>
      cases moved with
      | notYet => exact .spinning early Wait.spinning_afterTryWait
      | tryFailed notInit => exact absurd rfl notInit
      | deadline => exact .spinning early Wait.spinning_slow
      | spun _ isReady => cases isReady
      | elapsed => exact .gaveUp early
      | spins _ still => exact .spinning early still
      | blocks => exact .waiting (.inl early) trivial
      | exchangeFailed notInit => exact absurd rfl notInit
      | returns waiting =>
          rcases waiting with rfl | rfl
          · cases spinning
          · cases spinning
      | reloadFailed => cases spinning
      | expires => cases spinning
  | gaveUp => exact (Wait.not_step_returned moved).elim
  | early spinning =>
      cases moved with
      | tried => exact .earlyEnd
      | tryFailed _ notEarly => exact absurd rfl notEarly
      | deadline => exact .early Wait.spinning_slow
      | spun => exact .earlyEnd
      | elapsed => exact .earlyEnd
      | spins _ still => exact .early still
      | posted => exact .earlyEnd
      | exchangeFailed _ notEarly => exact absurd rfl notEarly
      | returns waiting =>
          rcases waiting with rfl | rfl
          · cases spinning
          · cases spinning
      | reloadFailed => cases spinning
      | expires => cases spinning
  | earlyEnd => exact (Wait.not_step_returned moved).elim
  | waiting posting blocking =>
      cases moved with
      | tryFailed => cases blocking
      | deadline => cases blocking
      | spun spinning => exact (Wait.not_blocking spinning blocking).elim
      | elapsed spinning => exact (Wait.not_blocking spinning blocking).elim
      | spins spinning => exact (Wait.not_blocking spinning blocking).elim
      | exchangeFailed => cases blocking
      | sleeps => exact .waiting posting trivial
      | returns _ returned =>
          exact .waiting posting (Wait.blocking_afterFutex returned).1
      | spurious => exact .waiting posting trivial
      | reloadFailed notWaiting => exact absurd rfl notWaiting
      | expires =>
          refine .timedOut ?_
          rintro rfl
          rcases posting with (posting | posting) | posting <;> cases posting
  | waking blocking =>
      cases moved with
      | tryFailed => cases blocking
      | deadline => cases blocking
      | spun spinning => exact (Wait.not_blocking spinning blocking).elim
      | elapsed spinning => exact (Wait.not_blocking spinning blocking).elim
      | spins spinning => exact (Wait.not_blocking spinning blocking).elim
      | exchangeFailed => cases blocking
      | returns _ returned => exact .waking (Wait.blocking_afterFutex returned).1
      | delivered => exact .lateEnd (.inl rfl)
      | reloadFailed _ notLate => exact absurd rfl notLate
      | expires => exact .timedOut nofun
  | late blocking awake =>
      cases moved with
      | tryFailed => cases blocking
      | deadline => cases blocking
      | spun spinning => exact (Wait.not_blocking spinning blocking).elim
      | elapsed spinning => exact (Wait.not_blocking spinning blocking).elim
      | spins spinning => exact (Wait.not_blocking spinning blocking).elim
      | exchangeFailed => cases blocking
      | returns _ returned =>
          obtain ⟨still, awake⟩ := Wait.blocking_afterFutex returned
          exact .late still awake
      | delivered => exact .lateEnd (.inr rfl)
      | reloadFailed _ notLate => exact absurd rfl notLate
      | expires => exact .timedOut nofun
  | lateEnd posting => exact (Wait.not_step_returned moved).elim
  | timedOut running => exact (Wait.not_step_returned moved).elim

theorem reachable_consistent {timing : Timing} {call : Call} {handoff : Handoff}
    (reached : Reachable timing call handoff) :
    Consistent handoff.state handoff.delivered handoff.post handoff.wait := by
  induction reached with
  | init => exact .spinning (.inl rfl) trivial
  | @step _ _ move _ stepped ih =>
      cases move with
      | post => exact consistent_postStep ih stepped
      | wait choice => exact consistent_waitStep ih stepped

/-! ## A wait without a deadline -/

/-- The wait runs against the last time point of the clock, so it does not
give up. -/
structure Wait.Untimed (timing : Timing) (wait : Wait) : Prop where
  deadline : ∀ deadline, wait.deadline = some deadline → deadline = timing.max
  computed : ∀ timeout, wait ≠ .now timeout
  unexpired : wait ≠ .expire
  passed : wait ≠ .returned false

theorem Wait.untimed_returned {timing : Timing} : (Wait.returned true).Untimed timing :=
  ⟨nofun, nofun, nofun, nofun⟩

theorem Wait.untimed_failed {timing : Timing} : Wait.failed.Untimed timing :=
  ⟨nofun, nofun, nofun, nofun⟩

theorem Wait.untimed_slow {timing : Timing} : (Wait.slow timing timing.max).Untimed timing := by
  unfold Wait.slow
  split
  · exact ⟨fun _ same => (Option.some.inj same).symm, nofun, nofun, nofun⟩
  · exact ⟨fun _ same => (Option.some.inj same).symm, nofun, nofun, nofun⟩

private theorem untimed_step {timing : Timing} {state after : State} {wait next : Wait}
    (untimed : wait.Untimed timing) (moved : Wait.Step timing .wait state wait after next) :
    next.Untimed timing := by
  have same {deadline : Int} (found : wait.deadline = some deadline) : deadline = timing.max :=
    untimed.deadline deadline found
  cases moved with
  | tried => exact Wait.untimed_returned
  | notYet => exact Wait.untimed_slow
  | tryFailed => exact Wait.untimed_failed
  | deadline => exact absurd rfl (untimed.computed _)
  | spun => exact Wait.untimed_returned
  | elapsed _ passed =>
      rcases passed with ⟨rfl, first⟩ | ⟨tbegin, tnow, rfl, expired, inside⟩
      · have last := same rfl
        have := timing.ordered
        omega
      · have last := same rfl
        omega
  | spins _ spinning found kept =>
      refine ⟨fun deadline other => ?_, ?_, ?_, ?_⟩
      · rw [kept] at other
        exact Option.some.inj other ▸ same found
      · rintro timeout rfl
        cases kept
      · rintro rfl
        cases kept
      · rintro rfl
        cases kept
  | blocks => exact ⟨fun _ other => Option.some.inj other ▸ same rfl, nofun, nofun, nofun⟩
  | posted => exact Wait.untimed_returned
  | exchangeFailed => exact Wait.untimed_failed
  | sleeps => exact ⟨fun _ other => Option.some.inj other ▸ same rfl, nofun, nofun, nofun⟩
  | @returns _ deadline _ rv waiting returned =>
      have last : deadline = timing.max := by
        rcases waiting with rfl | rfl
        · exact same rfl
        · exact same rfl
      cases rv with
      | timedOut => simp [mayReturn, last] at returned
      | valueChanged => exact ⟨fun _ other => Option.some.inj other ▸ last, nofun, nofun, nofun⟩
      | awoken => exact ⟨fun _ other => Option.some.inj other ▸ last, nofun, nofun, nofun⟩
      | interrupted => exact ⟨fun _ other => Option.some.inj other ▸ last, nofun, nofun, nofun⟩
  | delivered => exact Wait.untimed_returned
  | spurious => exact ⟨fun _ other => Option.some.inj other ▸ same rfl, nofun, nofun, nofun⟩
  | reloadFailed => exact Wait.untimed_failed
  | expires => exact absurd rfl untimed.unexpired

private theorem untimed_woken {timing : Timing} {wait : Wait} (untimed : wait.Untimed timing) :
    wait.woken.Untimed timing := by
  unfold Wait.woken
  split
  · exact ⟨untimed.deadline, nofun, nofun, nofun⟩
  · exact untimed

theorem postStep_wait {handoff next : Handoff} (stepped : postStep handoff = some next) :
    next.wait = handoff.wait ∨ next.wait = handoff.wait.woken := by
  unfold postStep at stepped
  split at stepped
  · cases stepped
    exact .inl rfl
  · split at stepped
    · cases stepped
      exact .inl rfl
    · cases stepped
      exact .inl rfl
  · cases stepped
    exact .inl rfl
  · cases stepped
    exact .inr rfl
  · cases stepped
  · cases stepped

theorem reachable_untimed {timing : Timing} {handoff : Handoff}
    (reached : Reachable timing .wait handoff) : handoff.wait.Untimed timing := by
  induction reached with
  | init => exact ⟨nofun, nofun, nofun, nofun⟩
  | @step _ _ move _ stepped ih =>
      cases move with
      | post =>
          rcases postStep_wait stepped with same | woken
          · exact same ▸ ih
          · exact woken ▸ untimed_woken ih
      | wait choice =>
          obtain ⟨state, wait, rfl, moved⟩ := waitStep_step stepped
          exact untimed_step ih moved

/-! ## The handoff -/

theorem Consistent.not_failed {state : State} {delivered : Bool} {post : Post} {wait : Wait}
    (consistent : Consistent state delivered post wait) : post ≠ .failed ∧ wait ≠ .failed := by
  refine ⟨?_, ?_⟩
  · rintro rfl
    cases consistent with
    | spinning early => rcases early with early | early <;> cases early
    | gaveUp early => rcases early with early | early <;> cases early
    | waiting posting => rcases posting with (early | early) | early <;> cases early
    | lateEnd posting => rcases posting with posting | posting <;> cases posting
    | timedOut running => exact running rfl
  · rintro rfl
    cases consistent <;> contradiction

theorem Consistent.delivered {state : State} {delivered : Bool} {post : Post}
    (consistent : Consistent state delivered post (.returned true)) : delivered = true := by
  cases consistent <;> trivial

theorem Consistent.awake {state : State} {delivered : Bool} {deadline : Int} :
    ¬ Consistent state delivered .returned (.asleep deadline) := by
  intro consistent
  cases consistent with
  | spinning early => rcases early with early | early <;> cases early
  | early spinning => exact spinning
  | waiting posting => rcases posting with (early | early) | early <;> cases early
  | late _ awake => exact awake deadline rfl

section Handoff

variable {timing : Timing} {call : Call} {handoff : Handoff}

/-- The waiter learns of a post only once it is written. -/
theorem Reachable.delivered (reached : Reachable timing call handoff)
    (passed : handoff.wait = .returned true) : handoff.delivered = true := by
  have consistent := reachable_consistent reached
  rw [passed] at consistent
  exact consistent.delivered

/-- A wait without a deadline ends only with the post. -/
theorem Reachable.delivered_of_untimed (reached : Reachable timing call handoff)
    (unbounded : call = .wait) (posted : Bool) (ended : handoff.wait = .returned posted) :
    handoff.delivered = true := by
  subst unbounded
  cases posted with
  | true => exact reached.delivered ended
  | false => exact absurd ended (reachable_untimed reached).passed

/-- A `post()` that has returned leaves no sleeper behind. -/
theorem Reachable.awake (reached : Reachable timing call handoff)
    (returned : handoff.post = .returned) (deadline : Int) :
    handoff.wait ≠ .asleep deadline := by
  intro asleep
  have consistent := reachable_consistent reached
  rw [returned, asleep] at consistent
  exact consistent.awake

end Handoff

/-- No assertion fails; the waiter learns of a post only once it is written; a
wait without a deadline ends only with the post; and a `post()` that has
returned leaves no sleeper behind. -/
theorem handoff_safe {timing : Timing} {call : Call} {handoff : Handoff}
    (reached : Reachable timing call handoff) :
    (handoff.post ≠ .failed ∧ handoff.wait ≠ .failed) ∧
      (handoff.wait = .returned true → handoff.delivered = true) ∧
      (call = .wait → ∀ posted, handoff.wait = .returned posted → handoff.delivered = true) ∧
      (handoff.post = .returned → ∀ deadline, handoff.wait ≠ .asleep deadline) :=
  ⟨(reachable_consistent reached).not_failed, reached.delivered, reached.delivered_of_untimed,
    reached.awake⟩

/-- Replay a schedule of the two sides. -/
def run (timing : Timing) (call : Call) (handoff : Handoff) : List Move → Option Handoff
  | [] => some handoff
  | move :: rest =>
      match step timing call handoff move with
      | none => none
      | some next => run timing call next rest

theorem Reachable.run {timing : Timing} {call : Call} {handoff last : Handoff} {moves : List Move}
    (reached : Reachable timing call handoff)
    (replayed : Baton.run timing call handoff moves = some last) :
    Reachable timing call last := by
  induction moves generalizing handoff with
  | nil =>
      cases replayed
      exact reached
  | cons move rest ih =>
      simp only [Baton.run] at replayed
      cases moved : Baton.step timing call handoff move with
      | none => simp [moved] at replayed
      | some next =>
          simp only [moved] at replayed
          exact ih (.step reached moved) replayed

/-- A clock past the deadline of 5 after the first sleep. -/
def late : Timing :=
  ⟨0, 9, 0, by decide⟩

/-- A timed wait whose deadline passes between the load of `post()` and its
store. -/
def expiring : List Move :=
  [.wait .go, .wait .go, .wait .sleep, .post, .wait (.result .timedOut), .wait .go, .post, .post]

theorem handoff_safe_expired :
    ∃ handoff, Reachable late (.tryWaitUntil 5) handoff ∧
      handoff.wait = .returned false ∧ handoff.post = .returned ∧ handoff.post ≠ .failed := by
  have replayed : run late (.tryWaitUntil 5) {} expiring =
      some ⟨.lateDelivery, true, .returned, .returned false⟩ := by
    decide
  have reached := Reachable.init.run replayed
  exact ⟨_, reached, rfl, rfl, (handoff_safe reached).1.1⟩

end ThreadPoolExec.Baton
