import ThreadPoolExec.Baton

/-!
# Lifetimes of a baton

`reset()`, or a new baton at the address of an old one, starts another
lifetime. The last step of a `post()` is a `futexWake` that the waiter does
not wait for, so it can come when the address is in use again, and then wakes
whoever sleeps there.
-/

set_option autoImplicit false

namespace ThreadPoolExec.Baton

/-- The lifetime that an address is in. `staleWakes` counts the posts of
earlier lifetimes that have not called `futexWake` yet. -/
structure Address where
  call : Call
  handoff : Handoff := {}
  staleWakes : Nat := 0
  resetFailed : Bool := false
deriving DecidableEq, Repr

/-- `wait()` and `post()` of the lifetime have returned, or were not called;
but a `post()` may still have its `futexWake` before it. -/
def Handoff.over (handoff : Handoff) : Bool :=
  match handoff.wait, handoff.post with
  | .tryWait, .load | .tryWait, .returned => true
  | .returned _, .load | .returned _, .wake | .returned _, .returned => true
  | _, _ => false

def Handoff.pendingWake (handoff : Handoff) : Nat :=
  if handoff.post = .wake then 1 else 0

/-- `reset()`, for a lifetime in which `call` is to be made. -/
def Address.reset (address : Address) (call : Call) : Address where
  call := call
  staleWakes := address.staleWakes + address.handoff.pendingWake
  resetFailed := address.resetFailed || address.handoff.state = .waiting

inductive AddressMove where
  | current (move : Move)
  | staleWake
  | reset (call : Call)
deriving DecidableEq, Repr

def Address.step (timing : Timing) (address : Address) : AddressMove → Option Address
  | .current move =>
      (Baton.step timing address.call address.handoff move).map
        fun handoff => { address with handoff := handoff }
  | .staleWake =>
      match address.staleWakes with
      | 0 => none
      | wakes + 1 =>
          some { address with
            staleWakes := wakes
            handoff := { address.handoff with wait := address.handoff.wait.woken } }
  | .reset call => if address.handoff.over then some (address.reset call) else none

inductive Address.Reachable (timing : Timing) : Address → Prop where
  | init (call : Call) : Reachable timing { call := call }
  | step {address next : Address} {move : AddressMove} : Reachable timing address →
      address.step timing move = some next → Reachable timing next

section Lifetimes

variable {timing : Timing} {address next : Address}

/-- A wake that was not meant for it looks to the waiter like one that was. -/
theorem reachable_woken {call : Call} {handoff : Handoff}
    (reached : Baton.Reachable timing call handoff) :
    Baton.Reachable timing call { handoff with wait := handoff.wait.woken } := by
  obtain ⟨state, delivered, post, wait⟩ := handoff
  cases wait with
  | asleep deadline =>
      have returns : mayReturn timing deadline .awoken = true := by simp [mayReturn]
      have stepped : Baton.step timing call ⟨state, delivered, post, .asleep deadline⟩
          (.wait (.result .awoken)) = some ⟨state, delivered, post, .reload deadline⟩ := by
        simp only [Baton.step, waitStep, returns, if_true, Wait.afterFutex]
      exact .step reached stepped
  | _ => exact reached

/-- Every lifetime is a run of one `post()` with one waiting call. -/
theorem Address.Reachable.handoff (reached : Address.Reachable timing address) :
    Baton.Reachable timing address.call address.handoff := by
  induction reached with
  | init call => exact .init
  | @step address next move _ stepped ih =>
      cases move with
      | current move =>
          obtain ⟨handoff, moved, rfl⟩ := Option.map_eq_some_iff.mp stepped
          exact .step ih moved
      | staleWake =>
          simp only [Address.step] at stepped
          split at stepped
          · cases stepped
          · cases stepped
            exact reachable_woken ih
      | reset call =>
          simp only [Address.step] at stepped
          split at stepped
          · cases stepped
            exact .init
          · cases stepped

/-- A lifetime that is over has not left a waiter announced. -/
theorem not_waiting_of_over {call : Call} {handoff : Handoff}
    (reached : Baton.Reachable timing call handoff) (ended : handoff.over = true) :
    handoff.state ≠ .waiting := by
  have consistent := reachable_consistent reached
  obtain ⟨state, delivered, post, wait⟩ := handoff
  rintro rfl
  cases consistent with
  | waiting posting blocking =>
      cases wait with
      | tryWait => exact blocking
      | returned posted => exact blocking
      | _ => cases ended

theorem Address.Reachable.resetFailed (reached : Address.Reachable timing address) :
    address.resetFailed = false := by
  induction reached with
  | init call => rfl
  | @step address next move before stepped ih =>
      cases move with
      | current move =>
          obtain ⟨handoff, -, rfl⟩ := Option.map_eq_some_iff.mp stepped
          exact ih
      | staleWake =>
          simp only [Address.step] at stepped
          split at stepped
          · cases stepped
          · cases stepped
            exact ih
      | reset call =>
          simp only [Address.step] at stepped
          split at stepped
          · next ended =>
              cases stepped
              simp [Address.reset, ih, not_waiting_of_over before.handoff ended]
          · cases stepped

/-- What holds of the lifetime an address is in, whatever wakes the lifetimes
before it have left. -/
structure LifetimeSafe (address : Address) : Prop where
  asserts : address.resetFailed = false ∧ address.handoff.post ≠ .failed ∧
    address.handoff.wait ≠ .failed
  /-- The waiter is not released by the post of another lifetime. -/
  posted : address.handoff.wait = .returned true → address.handoff.delivered = true
  untimed : address.call = .wait → ∀ posted, address.handoff.wait = .returned posted →
    address.handoff.delivered = true
  /-- A stale wake does not use up the one that the waiter needs. -/
  awake : address.handoff.post = .returned → ∀ deadline, address.handoff.wait ≠ .asleep deadline

theorem lifetimes_safe (reached : Address.Reachable timing address) : LifetimeSafe address where
  asserts := ⟨reached.resetFailed, (reachable_consistent reached.handoff).not_failed⟩
  posted := reached.handoff.delivered
  untimed unbounded := reached.handoff.delivered_of_untimed unbounded
  awake := reached.handoff.awake

def Address.run (timing : Timing) (address : Address) : List AddressMove → Option Address
  | [] => some address
  | move :: rest =>
      match address.step timing move with
      | none => none
      | some next => next.run timing rest

theorem Address.Reachable.run {last : Address} {moves : List AddressMove}
    (reached : Address.Reachable timing address)
    (replayed : address.run timing moves = some last) : Address.Reachable timing last := by
  induction moves generalizing address with
  | nil =>
      cases replayed
      exact reached
  | cons move rest ih =>
      simp only [Address.run] at replayed
      cases moved : address.step timing move with
      | none => simp [moved] at replayed
      | some next =>
          simp only [moved] at replayed
          exact ih (.step reached moved) replayed

end Lifetimes

/-- A waiter leaves without the wake of its post, and the next one at the
address is woken by it. -/
def wokenByStale : List AddressMove :=
  [.current (.wait .go), .current (.wait .go), .current .post, .current .post,
    .current (.wait (.result .valueChanged)), .current (.wait .go), .reset .wait,
    .current (.wait .go), .current (.wait .go), .current (.wait .sleep), .staleWake]

theorem lifetimes_safe_wokenByStale :
    ∃ address, Address.Reachable ⟨0, 9, 0, by decide⟩ address ∧
      address.handoff = ⟨.waiting, false, .load, .reload 9⟩ ∧ LifetimeSafe address := by
  have replayed : Address.run ⟨0, 9, 0, by decide⟩ { call := .wait } wokenByStale =
      some ⟨.wait, ⟨.waiting, false, .load, .reload 9⟩, 0, false⟩ := by
    decide
  have reached := (Address.Reachable.init .wait).run replayed
  exact ⟨_, reached, rfl, lifetimes_safe reached⟩

end ThreadPoolExec.Baton
