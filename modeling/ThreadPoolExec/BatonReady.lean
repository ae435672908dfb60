import ThreadPoolExec.Baton

/-!
# `ready()` of a baton

`ready()` is to tell whether the baton has been posted. A timed wait that gives
up in the futex stores `TIMED_OUT`, which `ready()` does not tell from a baton
that was never posted.
-/

set_option autoImplicit false

namespace ThreadPoolExec.Baton

/-- `ready()` is false until `post()` begins, and true from its return on. -/
structure ReadyTruthful (handoff : Handoff) : Prop where
  before : handoff.post = .load → ready handoff.state = false
  after : handoff.post = .returned → ready handoff.state = true

/-- The waiter stores `TIMED_OUT`, and it is not about to be overwritten:
`post()` stores `LATE_DELIVERY` only once it has seen `WAITING`. -/
def conceals (handoff : Handoff) : Move → Bool
  | .wait .go => handoff.wait = .expire ∧ handoff.post ≠ .store
  | _ => false

/-- Some move of a schedule conceals the post. -/
def Conceals (timing : Timing) (call : Call) (handoff : Handoff) : List Move → Prop
  | [] => False
  | move :: rest =>
      conceals handoff move = true ∨
        match step timing call handoff move with
        | none => False
        | some next => Conceals timing call next rest

/-- `TIMED_OUT` has come to stay. -/
def Handoff.Concealed (handoff : Handoff) : Prop :=
  handoff.state = .timedOut ∧ handoff.post ≠ .store

section Steps

variable {timing : Timing} {call : Call} {handoff next last : Handoff} {move : Move}

private theorem postStep_concealed (stepped : postStep handoff = some next) :
    next.Concealed ↔ handoff.Concealed := by
  obtain ⟨state, delivered, post, wait⟩ := handoff
  cases post with
  | load =>
      cases stepped
      cases state <;> simp [Handoff.Concealed, Post.afterInit]
  | exchange => cases state <;> cases stepped <;> simp [Handoff.Concealed, Post.afterInit]
  | store =>
      cases stepped
      simp [Handoff.Concealed]
  | wake =>
      cases stepped
      simp [Handoff.Concealed]
  | returned => cases stepped
  | failed => cases stepped

/-- Only the end of a wait in the futex stores `TIMED_OUT`. -/
private theorem step_timedOut {state after : State} {wait later : Wait}
    (moved : Wait.Step timing call state wait after later) (running : wait ≠ .expire) :
    after = .timedOut ↔ state = .timedOut := by
  cases moved with
  | blocks => exact ⟨nofun, nofun⟩
  | expires => exact absurd rfl running
  | _ => exact Iff.rfl

private theorem waitStep_concealed {choice : Choice}
    (stepped : waitStep timing call choice handoff = some next) :
    next.Concealed ↔ handoff.Concealed ∨ conceals handoff (.wait choice) = true := by
  by_cases expiring : handoff.wait = .expire
  · obtain ⟨state, delivered, post, wait⟩ := handoff
    subst expiring
    cases choice with
    | go =>
        cases stepped
        simp only [Handoff.Concealed, conceals, decide_eq_true_eq, true_and]
        exact ⟨.inr, fun hidden => hidden.elim And.right id⟩
    | clock tnow => cases stepped
    | result rv => cases stepped
    | sleep => cases stepped
  · obtain ⟨state, wait, rfl, moved⟩ := waitStep_step stepped
    have silent : conceals handoff (.wait choice) = false := by
      cases choice <;> simp [conceals, expiring]
    rw [silent, Handoff.Concealed, Handoff.Concealed, step_timedOut moved expiring]
    simp

private theorem step_concealed (stepped : step timing call handoff move = some next) :
    next.Concealed ↔ handoff.Concealed ∨ conceals handoff move = true := by
  cases move with
  | post =>
      rw [postStep_concealed stepped]
      exact ⟨.inl, fun hidden => hidden.elim id nofun⟩
  | wait choice => exact waitStep_concealed stepped

theorem run_concealed {moves : List Move}
    (replayed : run timing call handoff moves = some last) :
    last.Concealed ↔ handoff.Concealed ∨ Conceals timing call handoff moves := by
  induction moves generalizing handoff with
  | nil =>
      cases replayed
      exact ⟨.inl, fun hidden => hidden.elim id False.elim⟩
  | cons move rest ih =>
      simp only [Baton.run] at replayed
      cases moved : step timing call handoff move with
      | none => simp [moved] at replayed
      | some middle =>
          simp only [moved] at replayed
          rw [ih replayed, step_concealed moved]
          simp only [Conceals, moved]
          exact or_assoc

/-- After the return of `post()` only a stored `TIMED_OUT` makes `ready()` false. -/
theorem ready_iff_of_returned (reached : Reachable timing call handoff)
    (returned : handoff.post = .returned) : ready handoff.state = true ↔ ¬handoff.Concealed := by
  have consistent := reachable_consistent reached
  obtain ⟨state, delivered, post, wait⟩ := handoff
  simp only at consistent returned
  subst returned
  cases consistent with
  | spinning early => rcases early with early | early <;> cases early
  | gaveUp early => rcases early with early | early <;> cases early
  | waiting posting => rcases posting with (early | early) | early <;> cases early
  | early | earlyEnd | late | lateEnd | timedOut => simp [ready, Handoff.Concealed]

/-- Before `post()` nothing is delivered. -/
theorem ready_of_load (reached : Reachable timing call handoff) (fresh : handoff.post = .load) :
    ready handoff.state = false := by
  have consistent := reachable_consistent reached
  obtain ⟨state, delivered, post, wait⟩ := handoff
  simp only at consistent fresh
  subst fresh
  cases consistent with
  | lateEnd posting => rcases posting with posting | posting <;> cases posting
  | spinning | gaveUp | waiting | timedOut => rfl

end Steps

/-- In every state of a run, `ready()` is truthful exactly if no move so far has
concealed the post. -/
theorem ready_truthful (timing : Timing) (call : Call) (moves : List Move) (handoff : Handoff)
    (replayed : run timing call {} moves = some handoff) :
    (¬Conceals timing call {} moves → ReadyTruthful handoff) ∧
      (Conceals timing call {} moves → handoff.post = .returned → ready handoff.state = false) := by
  have reached : Reachable timing call handoff := Reachable.init.run replayed
  have concealed : handoff.Concealed ↔ Conceals timing call {} moves := by
    rw [run_concealed replayed]
    exact ⟨fun hidden => hidden.elim (fun first => nomatch first.1) id, .inr⟩
  refine ⟨fun shown => ⟨ready_of_load reached, fun returned => ?_⟩, fun hidden returned => ?_⟩
  · exact (ready_iff_of_returned reached returned).mpr (mt concealed.mp shown)
  · rw [← Bool.not_eq_true, ready_iff_of_returned reached returned, not_not]
    exact concealed.mpr hidden

/-- A wait that is blocked when its deadline passes, and a post after it. -/
private def expireThenPost : List Move :=
  [.wait .go, .wait .go, .wait .sleep, .wait (.result .timedOut), .wait .go, .post]

/-- The post has returned and `ready()` is false. -/
theorem not_ready_truthful :
    ¬∀ timing call moves handoff, run timing call {} moves = some handoff →
      ReadyTruthful handoff := by
  intro truthful
  have replayed : run ⟨0, 9, 0, by decide⟩ (.tryWaitUntil 5) {} expireThenPost =
      some ⟨.timedOut, false, .returned, .returned false⟩ := by
    decide
  exact absurd ((truthful _ _ _ _ replayed).after rfl) (by decide)

/-- The deadline passes, and `TIMED_OUT` is stored, between the load of `post()`
and its store. -/
theorem ready_truthful_overwritten :
    ∃ handoff, run ⟨0, 9, 0, by decide⟩ (.tryWaitUntil 5) {}
        [.wait .go, .wait .go, .wait .sleep, .post, .wait (.result .timedOut), .wait .go, .post,
          .post] = some handoff ∧
      handoff.wait = .returned false ∧ handoff.post = .returned ∧ ReadyTruthful handoff := by
  have replayed : run ⟨0, 9, 0, by decide⟩ (.tryWaitUntil 5) {}
      [.wait .go, .wait .go, .wait .sleep, .post, .wait (.result .timedOut), .wait .go, .post,
        .post] = some ⟨.lateDelivery, true, .returned, .returned false⟩ := by
    decide
  refine ⟨_, replayed, rfl, rfl, (ready_truthful _ _ _ _ replayed).1 ?_⟩
  simp [Conceals, step, waitStep, postStep, conceals, Wait.afterTryWait, Wait.slow, mayReturn,
    Wait.afterFutex, Post.afterInit, Wait.woken]

end ThreadPoolExec.Baton
