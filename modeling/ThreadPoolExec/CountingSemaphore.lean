import Mathlib.Tactic.Common

/-!
# Counting semaphores

Waiters are counted, not named: which sleeping waiter a post has woken is only
decided when one of them resumes.
-/

set_option autoImplicit false

/-- `sleeping` counts the waiters no post has woken, `woken` those handed a
post that have not resumed yet. -/
structure CountingSemaphore where
  value : Nat := 0
  sleeping : Nat := 0
  woken : Nat := 0
deriving DecidableEq, Repr

namespace CountingSemaphore

/-- A post wakes a sleeping waiter, if it is to and there is one, or else
raises the value. It reports whether it woke one. -/
def post (semaphore : CountingSemaphore) (wake : Bool) : CountingSemaphore × Bool :=
  if wake ∧ 0 < semaphore.sleeping then
    ({ semaphore with sleeping := semaphore.sleeping - 1, woken := semaphore.woken + 1 }, true)
  else
    ({ semaphore with value := semaphore.value + 1 }, false)

/-- Pass without sleeping. -/
def tryWait (semaphore : CountingSemaphore) : Option CountingSemaphore :=
  if 0 < semaphore.value then some { semaphore with value := semaphore.value - 1 } else none

/-- Go to sleep. -/
def sleep (semaphore : CountingSemaphore) : CountingSemaphore :=
  { semaphore with sleeping := semaphore.sleeping + 1 }

/-- A waiter that a post has woken resumes. -/
def resume (semaphore : CountingSemaphore) : Option CountingSemaphore :=
  if 0 < semaphore.woken then some { semaphore with woken := semaphore.woken - 1 } else none

/-- A sleeping waiter passes on a raised value. -/
def claim (semaphore : CountingSemaphore) : Option CountingSemaphore :=
  if 0 < semaphore.value ∧ 0 < semaphore.sleeping then
    some { semaphore with
      value := semaphore.value - 1, sleeping := semaphore.sleeping - 1 }
  else none

/-- A sleeping waiter gives up. -/
def timeout (semaphore : CountingSemaphore) : Option CountingSemaphore :=
  if 0 < semaphore.sleeping then
    some { semaphore with sleeping := semaphore.sleeping - 1 }
  else none

/-- How a sleeping waiter's wait ends. -/
inductive Ending where
  | handoff
  | value
  | timeout
deriving DecidableEq, Repr

/-- End a sleeping waiter's wait, and say whether it passed. Only a timed
wait times out. -/
def endWait (semaphore : CountingSemaphore) (timed : Bool) :
    Ending → Option (CountingSemaphore × Bool)
  | .handoff => semaphore.resume.map (·, true)
  | .value => semaphore.claim.map (·, true)
  | .timeout => if timed then semaphore.timeout.map (·, false) else none

/-- The waits that the posts so far still allow: the value, and the waiters a
post has already let through. -/
def permits (semaphore : CountingSemaphore) : Nat :=
  semaphore.value + semaphore.woken

variable {semaphore next : CountingSemaphore}

theorem post_permits (wake : Bool) :
    (semaphore.post wake).1.permits = semaphore.permits + 1 := by
  unfold post permits
  split <;> simp only <;> omega

theorem post_waiting (wake : Bool) :
    (semaphore.post wake).1.sleeping + (semaphore.post wake).1.woken =
      semaphore.sleeping + semaphore.woken := by
  unfold post
  split
  · next enabled =>
      have := enabled.2
      simp only
      omega
  · rfl

theorem tryWait_eq_some (passed : semaphore.tryWait = some next) :
    0 < semaphore.value ∧ next = { semaphore with value := semaphore.value - 1 } := by
  unfold tryWait at passed
  split at passed
  · next positive => exact ⟨positive, (Option.some.inj passed).symm⟩
  · cases passed

theorem resume_eq_some (resumed : semaphore.resume = some next) :
    0 < semaphore.woken ∧ next = { semaphore with woken := semaphore.woken - 1 } := by
  unfold resume at resumed
  split at resumed
  · next positive => exact ⟨positive, (Option.some.inj resumed).symm⟩
  · cases resumed

theorem claim_eq_some (claimed : semaphore.claim = some next) :
    (0 < semaphore.value ∧ 0 < semaphore.sleeping) ∧
      next = { semaphore with
        value := semaphore.value - 1, sleeping := semaphore.sleeping - 1 } := by
  unfold claim at claimed
  split at claimed
  · next enabled => exact ⟨enabled, (Option.some.inj claimed).symm⟩
  · cases claimed

theorem timeout_eq_some (expired : semaphore.timeout = some next) :
    0 < semaphore.sleeping ∧
      next = { semaphore with sleeping := semaphore.sleeping - 1 } := by
  unfold timeout at expired
  split at expired
  · next positive => exact ⟨positive, (Option.some.inj expired).symm⟩
  · cases expired

theorem tryWait_permits (passed : semaphore.tryWait = some next) :
    semaphore.permits = next.permits + 1 := by
  obtain ⟨positive, rfl⟩ := tryWait_eq_some passed
  simp only [permits]
  omega

theorem resume_permits (resumed : semaphore.resume = some next) :
    semaphore.permits = next.permits + 1 := by
  obtain ⟨positive, rfl⟩ := resume_eq_some resumed
  simp only [permits]
  omega

theorem claim_permits (claimed : semaphore.claim = some next) :
    semaphore.permits = next.permits + 1 := by
  obtain ⟨⟨positive, -⟩, rfl⟩ := claim_eq_some claimed
  simp only [permits]
  omega

@[simp] theorem sleep_permits : semaphore.sleep.permits = semaphore.permits := rfl

theorem timeout_permits (expired : semaphore.timeout = some next) :
    next.permits = semaphore.permits := by
  obtain ⟨-, rfl⟩ := timeout_eq_some expired
  rfl

theorem endWait_permits {timed passed : Bool} {ending : Ending}
    (ended : semaphore.endWait timed ending = some (next, passed)) :
    semaphore.permits = next.permits + if passed then 1 else 0 := by
  cases ending with
  | handoff =>
      obtain ⟨_, resumed, same⟩ := Option.map_eq_some_iff.mp ended
      cases same
      exact resume_permits resumed
  | value =>
      obtain ⟨_, claimed, same⟩ := Option.map_eq_some_iff.mp ended
      cases same
      exact claim_permits claimed
  | timeout =>
      simp only [endWait] at ended
      split at ended
      · obtain ⟨_, expired, same⟩ := Option.map_eq_some_iff.mp ended
        cases same
        exact (timeout_permits expired).symm
      · cases ended

/-- Whoever ends its wait is no longer counted among the waiters. -/
theorem endWait_waiting {timed passed : Bool} {ending : Ending}
    (ended : semaphore.endWait timed ending = some (next, passed)) :
    semaphore.sleeping + semaphore.woken = next.sleeping + next.woken + 1 := by
  cases ending with
  | handoff =>
      obtain ⟨_, resumed, same⟩ := Option.map_eq_some_iff.mp ended
      cases same
      obtain ⟨positive, rfl⟩ := resume_eq_some resumed
      simp only
      omega
  | value =>
      obtain ⟨_, claimed, same⟩ := Option.map_eq_some_iff.mp ended
      cases same
      obtain ⟨⟨-, positive⟩, rfl⟩ := claim_eq_some claimed
      simp only
      omega
  | timeout =>
      simp only [endWait] at ended
      split at ended
      · obtain ⟨_, expired, same⟩ := Option.map_eq_some_iff.mp ended
        cases same
        obtain ⟨positive, rfl⟩ := timeout_eq_some expired
        simp only
        omega
      · cases ended

/-- A post that wakes a waiter finds one asleep. -/
theorem sleeping_of_post {wake : Bool} (woke : (semaphore.post wake).2 = true) :
    0 < semaphore.sleeping := by
  unfold post at woke
  split at woke
  · next enabled => exact enabled.2
  · cases woke

end CountingSemaphore
