import Mathlib.Algebra.BigOperators.Group.List.Basic
import Mathlib.Algebra.GroupWithZero.Nat
import Mathlib.Data.List.Induction
import Mathlib.Data.List.Perm.Basic
import Mathlib.Tactic.Common

/-!
# Interleaved agents over one shared memory

A system runs any number of agents over one shared memory. An agent's step is
a guarded, executable function of the shared memory and its own local state;
it may change both, end the agent, or start further agents. The environment
moves on its own: it starts agents, or advances what the shared memory owns.
Nothing here fixes the number of agents or the order in which they step.
-/

set_option autoImplicit false

namespace Interleaving

universe u v w x

variable {σ : Type u} {α : Type v} {ι : Type w} {ε : Type x}

/-- The shared memory and the local states of the agents that are running. -/
structure Global (σ : Type u) (α : Type v) where
  shared : σ
  agents : List α

/-- Who moves: the agent at a position with a choice, or the environment. -/
inductive Label (ι : Type w) (ε : Type x) where
  | act (index : Nat) (choice : ι)
  | env (choice : ε)

structure System (σ : Type u) (α : Type v) (ι : Type w) (ε : Type x) where
  init : Global σ α
  act : ι → σ → α → Option (σ × List α)
  env : ε → σ → Option (σ × List α)

/-- One move. The agents that a step leaves behind replace the one that moved. -/
def System.step (system : System σ α ι ε) (state : Global σ α) :
    Label ι ε → Option (Global σ α)
  | .act index choice =>
      match state.agents[index]? with
      | none => none
      | some agent =>
          match system.act choice state.shared agent with
          | none => none
          | some (shared, next) => some ⟨shared, next ++ state.agents.eraseIdx index⟩
  | .env choice =>
      match system.env choice state.shared with
      | none => none
      | some (shared, next) => some ⟨shared, next ++ state.agents⟩

/-- Replay a schedule; `none` if one of its moves is not enabled. -/
def System.run (system : System σ α ι ε) (state : Global σ α) :
    List (Label ι ε) → Option (Global σ α)
  | [] => some state
  | label :: rest =>
      match system.step state label with
      | none => none
      | some next => system.run next rest

/-- Every move of a schedule is `allowed` where it is made. -/
def System.Permits (system : System σ α ι ε) (allowed : Global σ α → Label ι ε → Prop)
    (state : Global σ α) : List (Label ι ε) → Prop
  | [] => True
  | label :: rest =>
      allowed state label ∧
        match system.step state label with
        | none => True
        | some next => system.Permits allowed next rest

instance System.decidablePermits (system : System σ α ι ε)
    (allowed : Global σ α → Label ι ε → Prop) [∀ state label, Decidable (allowed state label)]
    (state : Global σ α) (labels : List (Label ι ε)) :
    Decidable (system.Permits allowed state labels) :=
  match labels with
  | [] => .isTrue trivial
  | label :: rest =>
      match moved : system.step state label with
      | none =>
          decidable_of_iff (allowed state label) (by simp only [Permits, moved, and_true])
      | some next =>
          have := decidablePermits system allowed next rest
          decidable_of_iff (allowed state label ∧ system.Permits allowed next rest)
            (by simp only [Permits, moved])

/-- States reached from a given one by schedules all of whose moves are
`allowed`. -/
inductive Reaches (system : System σ α ι ε)
    (allowed : Global σ α → Label ι ε → Prop) (first : Global σ α) : Global σ α → Prop where
  | refl : Reaches system allowed first first
  | step {state next : Global σ α} {label : Label ι ε} :
      Reaches system allowed first state → allowed state label →
      system.step state label = some next → Reaches system allowed first next

abbrev Reachable (system : System σ α ι ε)
    (allowed : Global σ α → Label ι ε → Prop) (state : Global σ α) : Prop :=
  Reaches system allowed system.init state

/-- No restriction on the schedule. -/
def anySchedule (_ : Global σ α) (_ : Label ι ε) : Prop := True

section Steps

variable {system : System σ α ι ε} {allowed : Global σ α → Label ι ε → Prop}

theorem perm_of_getElem? {agents : List α} {index : Nat} {agent : α}
    (found : agents[index]? = some agent) : agents.Perm (agent :: agents.eraseIdx index) := by
  obtain ⟨inside, rfl⟩ := List.getElem?_eq_some_iff.mp found
  exact (List.getElem_cons_eraseIdx_perm inside).symm

theorem step_act {state next : Global σ α} {index : Nat} {choice : ι}
    (moved : system.step state (.act index choice) = some next) :
    ∃ agent shared left, state.agents[index]? = some agent ∧
      system.act choice state.shared agent = some (shared, left) ∧
      next = ⟨shared, left ++ state.agents.eraseIdx index⟩ := by
  simp only [System.step] at moved
  cases found : state.agents[index]? with
  | none => simp [found] at moved
  | some agent =>
      obtain ⟨inside, rfl⟩ := List.getElem?_eq_some_iff.mp found
      cases acted : system.act choice state.shared state.agents[index] with
      | none => simp [found, acted] at moved
      | some result =>
          obtain ⟨shared, left⟩ := result
          simp only [found, acted, Option.some.injEq] at moved
          exact ⟨_, shared, left, rfl, acted, moved.symm⟩

theorem step_env {state next : Global σ α} {choice : ε}
    (moved : system.step state (.env choice) = some next) :
    ∃ shared left, system.env choice state.shared = some (shared, left) ∧
      next = ⟨shared, left ++ state.agents⟩ := by
  simp only [System.step] at moved
  cases acted : system.env choice state.shared with
  | none => simp [acted] at moved
  | some result =>
      simp only [acted, Option.some.injEq] at moved
      exact ⟨result.1, result.2, rfl, moved.symm⟩

theorem Reachable.init : Reachable system allowed system.init := .refl

theorem Reaches.trans {first state last : Global σ α} (reached : Reaches system allowed first state)
    (later : Reaches system allowed state last) : Reaches system allowed first last := by
  induction later with
  | refl => exact reached
  | step _ permitted moved ih => exact .step ih permitted moved

theorem Reaches.mono {weaker : Global σ α → Label ι ε → Prop} {first state : Global σ α}
    (reached : Reaches system allowed first state)
    (weaken : ∀ state label, allowed state label → weaker state label) :
    Reaches system weaker first state := by
  induction reached with
  | refl => exact .refl
  | step _ permitted moved ih => exact .step ih (weaken _ _ permitted) moved

theorem Reaches.any {first state : Global σ α} (reached : Reaches system allowed first state) :
    Reaches system anySchedule first state :=
  reached.mono fun _ _ _ => trivial

theorem System.Permits.snoc {first state : Global σ α} {front : List (Label ι ε)}
    {label : Label ι ε} (replayed : system.run first front = some state)
    (permitted : system.Permits allowed first (front ++ [label])) :
    system.Permits allowed first front ∧ allowed state label := by
  induction front generalizing first with
  | nil =>
      cases replayed
      exact ⟨trivial, permitted.1⟩
  | cons head rest ih =>
      simp only [System.run] at replayed
      cases moved : system.step first head with
      | none => simp [moved] at replayed
      | some next =>
          simp only [moved] at replayed
          simp only [List.cons_append, System.Permits, moved] at permitted ⊢
          obtain ⟨after, last⟩ := ih replayed permitted.2
          exact ⟨⟨permitted.1, after⟩, last⟩

/-- What every move finds, and the last state shows, every state on the way
shows. -/
theorem System.Permits.of_prefix {p : Global σ α → Prop} {first last : Global σ α}
    {labels : List (Label ι ε)} (replayed : system.run first labels = some last)
    (permitted : system.Permits (fun state _ => p state) first labels) (atLast : p last)
    {front back : List (Label ι ε)} {state : Global σ α} (split : labels = front ++ back)
    (before : system.run first front = some state) : p state := by
  subst split
  induction front generalizing first with
  | nil =>
      cases before
      cases back with
      | nil =>
          cases replayed
          exact atLast
      | cons label rest => exact permitted.1
  | cons head rest ih =>
      simp only [List.cons_append, System.run] at replayed before
      cases moved : system.step first head with
      | none => simp [moved] at before
      | some next =>
          simp only [moved] at replayed before
          simp only [List.cons_append, System.Permits, moved] at permitted
          exact ih before replayed permitted.2

/-- Where a move keeps `p` exactly when it is `allowed`, the schedules that pass
only states with `p` are those all of whose moves are. -/
theorem System.permits_iff {p : Global σ α → Prop} {first last : Global σ α}
    {labels : List (Label ι ε)}
    (kept : ∀ {state next label}, Reachable system anySchedule state → p state →
      system.step state label = some next → (p next ↔ allowed state label))
    (reached : Reachable system anySchedule first) (holds : p first)
    (replayed : system.run first labels = some last) :
    (∀ front back state, labels = front ++ back → system.run first front = some state → p state) ↔
      system.Permits allowed first labels := by
  induction labels generalizing first with
  | nil =>
      refine ⟨fun _ => trivial, fun _ front back state split before => ?_⟩
      obtain ⟨rfl, rfl⟩ := List.nil_eq_append_iff.mp split
      cases before
      exact holds
  | cons label rest ih =>
      simp only [System.run] at replayed
      cases moved : system.step first label with
      | none => simp [moved] at replayed
      | some next =>
          simp only [moved] at replayed
          simp only [System.Permits, moved]
          have after : Reachable system anySchedule next := .step reached trivial moved
          constructor
          · intro all
            have atNext := all [label] rest next rfl (by simp only [System.run, moved])
            refine ⟨(kept reached holds moved).mp atNext, (ih after atNext replayed).mp ?_⟩
            intro front back state split before
            refine all (label :: front) back state (congrArg (label :: ·) split) ?_
            simp only [System.run, moved]
            exact before
          · rintro ⟨permitted, later⟩ front back state split before
            cases front with
            | nil =>
                cases before
                exact holds
            | cons head front =>
                obtain ⟨rfl, tail⟩ := List.cons.inj split
                simp only [System.run, moved] at before
                have atNext := (kept reached holds moved).mpr permitted
                exact (ih after atNext replayed).mpr later front back state tail before

/-- A permitted schedule that replays from a reached state ends in a reached
state. -/
theorem Reaches.replay {first state last : Global σ α} {labels : List (Label ι ε)}
    (reached : Reaches system allowed first state)
    (permitted : system.Permits allowed state labels)
    (replayed : system.run state labels = some last) : Reaches system allowed first last := by
  induction labels generalizing state with
  | nil =>
      simp only [System.run, Option.some.injEq] at replayed
      exact replayed ▸ reached
  | cons label rest ih =>
      simp only [System.run] at replayed
      cases moved : system.step state label with
      | none => simp [moved] at replayed
      | some next =>
          simp only [moved] at replayed
          simp only [System.Permits, moved] at permitted
          exact ih (.step reached permitted.1 moved) permitted.2 replayed

theorem System.permits_any (state : Global σ α) (labels : List (Label ι ε)) :
    system.Permits anySchedule state labels := by
  induction labels generalizing state with
  | nil => trivial
  | cons label rest ih =>
      refine ⟨trivial, ?_⟩
      split
      · trivial
      · exact ih _

theorem Reaches.run {first state last : Global σ α} {labels : List (Label ι ε)}
    (reached : Reaches system anySchedule first state)
    (replayed : system.run state labels = some last) :
    Reaches system anySchedule first last :=
  reached.replay (system.permits_any state labels) replayed

/-- Any of the agents that has a step may take it. -/
theorem Reaches.act {first state : Global σ α} {choice : ι} {agent : α} {shared : σ}
    {left : List α} (reached : Reaches system anySchedule first state)
    (member : agent ∈ state.agents)
    (acted : system.act choice state.shared agent = some (shared, left)) :
    ∃ rest, state.agents.Perm (agent :: rest) ∧
      Reaches system anySchedule first ⟨shared, left ++ rest⟩ := by
  obtain ⟨index, found⟩ := List.getElem?_of_mem member
  have moved : system.step state (.act index choice) =
      some ⟨shared, left ++ state.agents.eraseIdx index⟩ := by
    simp only [System.step, found, acted]
  exact ⟨_, perm_of_getElem? found, .step reached trivial moved⟩

/-- The invariant rule. What an agent's step must keep is stated with that
agent in front: an invariant may not depend on the order of the agents. -/
theorem Reaches.invariant (Inv : σ → List α → Prop) {first : Global σ α}
    (reorder : ∀ {shared agents others}, agents.Perm others → Inv shared agents →
      Inv shared others)
    (start : Inv first.shared first.agents)
    (act : ∀ {state : Global σ α} {index choice agent shared left},
      Reaches system allowed first state → allowed state (.act index choice) →
      state.agents[index]? = some agent →
      system.act choice state.shared agent = some (shared, left) →
      Inv state.shared (agent :: state.agents.eraseIdx index) →
      Inv shared (left ++ state.agents.eraseIdx index))
    (env : ∀ {state : Global σ α} {choice shared left},
      Reaches system allowed first state → allowed state (.env choice) →
      system.env choice state.shared = some (shared, left) →
      Inv state.shared state.agents → Inv shared (left ++ state.agents))
    {state : Global σ α} (reached : Reaches system allowed first state) :
    Inv state.shared state.agents := by
  induction reached with
  | refl => exact start
  | @step state next label before permitted moved ih =>
      cases label with
      | act index choice =>
          obtain ⟨agent, shared, left, found, acted, rfl⟩ := step_act moved
          exact act before permitted found acted (reorder (perm_of_getElem? found) ih)
      | env choice =>
          obtain ⟨shared, left, acted, rfl⟩ := step_env moved
          exact env before permitted acted ih

/-! ## What a schedule has passed

A statement about an instant of a run names a state that the schedule passed. -/

theorem System.run_append (state : Global σ α) (front back : List (Label ι ε)) :
    system.run state (front ++ back) =
      (system.run state front).bind fun middle => system.run middle back := by
  induction front generalizing state with
  | nil => rfl
  | cons label rest ih =>
      simp only [List.cons_append, System.run]
      cases system.step state label with
      | none => rfl
      | some next => exact ih next

/-- The schedule passes a state with a property, which may be its first or
its last. -/
def System.Passes (system : System σ α ι ε) (p : Global σ α → Prop) (first : Global σ α)
    (labels : List (Label ι ε)) : Prop :=
  ∃ front back middle, labels = front ++ back ∧ system.run first front = some middle ∧ p middle

theorem System.Passes.last {p : Global σ α → Prop} {first last : Global σ α}
    {labels : List (Label ι ε)} (replayed : system.run first labels = some last)
    (holds : p last) : system.Passes p first labels :=
  ⟨labels, [], last, (List.append_nil labels).symm, replayed, holds⟩

theorem System.Passes.append {p : Global σ α → Prop} {first : Global σ α}
    {labels : List (Label ι ε)} (passed : system.Passes p first labels)
    (more : List (Label ι ε)) : system.Passes p first (labels ++ more) := by
  obtain ⟨front, back, middle, rfl, replayed, holds⟩ := passed
  exact ⟨front, back ++ more, middle, List.append_assoc front back more, replayed, holds⟩

/-- At some instant of the schedule one of the agents is active and `p` holds. -/
def System.During (system : System σ α ι ε) (active : α → Prop) (p : Global σ α → Prop)
    (first : Global σ α) (labels : List (Label ι ε)) : Prop :=
  system.Passes (fun state => (∃ agent ∈ state.agents, active agent) ∧ p state) first labels

/-- At every instant at which one of the agents is active, `p` holds. -/
def System.Throughout (system : System σ α ι ε) (active : α → Prop) (p : Global σ α → Prop)
    (first : Global σ α) (labels : List (Label ι ε)) : Prop :=
  ∀ front back state, labels = front ++ back → system.run first front = some state →
    (∃ agent ∈ state.agents, active agent) → p state

theorem System.During.not_throughout {active : α → Prop} {p q : Global σ α → Prop}
    {first : Global σ α} {labels : List (Label ι ε)}
    (during : system.During active p first labels)
    (excludes : ∀ front state, system.run first front = some state → p state → ¬ q state) :
    ¬ system.Throughout active q first labels := by
  obtain ⟨front, back, state, split, replayed, activeAgent, holds⟩ := during
  intro throughout
  exact excludes front state replayed holds (throughout front back state split replayed activeAgent)

/-- The invariant rule along one schedule, for what depends on its past. -/
theorem System.run_invariant (Inv : List (Label ι ε) → σ → List α → Prop)
    {first last : Global σ α} {labels : List (Label ι ε)}
    (reorder : ∀ {labels shared agents others}, agents.Perm others → Inv labels shared agents →
      Inv labels shared others)
    (start : Inv [] first.shared first.agents)
    (act : ∀ {front : List (Label ι ε)} {state : Global σ α} {index choice agent shared left},
      system.run first front = some state → state.agents[index]? = some agent →
      system.act choice state.shared agent = some (shared, left) →
      Inv front state.shared (agent :: state.agents.eraseIdx index) →
      Inv (front ++ [.act index choice]) shared (left ++ state.agents.eraseIdx index))
    (env : ∀ {front : List (Label ι ε)} {state : Global σ α} {choice shared left},
      system.run first front = some state → system.env choice state.shared = some (shared, left) →
      Inv front state.shared state.agents →
      Inv (front ++ [.env choice]) shared (left ++ state.agents))
    (replayed : system.run first labels = some last) : Inv labels last.shared last.agents := by
  induction labels using List.reverseRecOn generalizing last with
  | nil =>
      cases replayed
      exact start
  | append_singleton front label ih =>
      rw [System.run_append] at replayed
      obtain ⟨state, before, after⟩ := Option.bind_eq_some_iff.mp replayed
      simp only [System.run] at after
      cases moved : system.step state label with
      | none => simp [moved] at after
      | some next =>
          simp only [moved, Option.some.injEq] at after
          subst after
          cases label with
          | act index choice =>
              obtain ⟨agent, shared, left, found, acted, rfl⟩ := step_act moved
              exact act before found acted (reorder (perm_of_getElem? found) (ih before))
          | env choice =>
              obtain ⟨shared, left, acted, rfl⟩ := step_env moved
              exact env before acted (ih before)

/-! ## Numbered agents

The environment numbers the agents that it starts, and an agent keeps its
number, so one agent can be followed through a run. -/

structure System.Numbered (system : System σ α ι ε) (number : α → Nat) (count : σ → Nat) :
    Prop where
  init : ∀ agent ∈ system.init.agents, number agent < count system.init.shared
  act : ∀ {choice shared agent after left}, system.act choice shared agent = some (after, left) →
    count after = count shared ∧ ∀ next ∈ left, number next = number agent
  env : ∀ {choice shared after left}, system.env choice shared = some (after, left) →
    count after = count shared + 1 ∧ ∀ next ∈ left, number next = count shared

section Numbered

variable {number : α → Nat} {count : σ → Nat}

theorem System.Numbered.lt (numbered : system.Numbered number count) {state : Global σ α}
    (reached : Reachable system allowed state) :
    ∀ agent ∈ state.agents, number agent < count state.shared := by
  refine Reaches.invariant (fun shared agents => ∀ agent ∈ agents, number agent < count shared)
    ?_ numbered.init ?_ ?_ reached
  · intro shared agents others same bounded agent member
    exact bounded agent (same.mem_iff.mpr member)
  · intro before index choice agent shared left _ _ _ acted bounded other member
    obtain ⟨same, kept⟩ := numbered.act acted
    rw [same]
    rcases List.mem_append.mp member with left | rest
    · rw [kept other left]
      exact bounded agent List.mem_cons_self
    · exact bounded other (List.mem_cons_of_mem _ rest)
  · intro before choice shared left _ _ acted bounded agent member
    obtain ⟨more, numbers⟩ := numbered.env acted
    rw [more]
    rcases List.mem_append.mp member with left | rest
    · rw [numbers agent left]
      exact Nat.lt_succ_self _
    · exact Nat.lt_succ_of_lt (bounded agent rest)

/-- Follow the agent with a number: what its own steps, the steps of the other
agents and the environment keep holds of it to the end. -/
theorem System.Numbered.follow (numbered : system.Numbered number count)
    (P : List (Label ι ε) → σ → α → Prop) {own : Nat} {first last : Global σ α}
    {labels : List (Label ι ε)} (given : own < count first.shared)
    (start : ∀ agent ∈ first.agents, number agent = own → P [] first.shared agent)
    (moves : ∀ {front state index choice agent shared left},
      system.run first front = some state → state.agents[index]? = some agent →
      system.act choice state.shared agent = some (shared, left) → number agent = own →
      P front state.shared agent → ∀ next ∈ left, P (front ++ [.act index choice]) shared next)
    (others : ∀ {front state index choice other shared left agent},
      system.run first front = some state → state.agents[index]? = some other →
      agent ∈ state.agents.eraseIdx index →
      system.act choice state.shared other = some (shared, left) →
      P front state.shared agent → P (front ++ [.act index choice]) shared agent)
    (env : ∀ {front state choice shared left agent},
      system.run first front = some state → agent ∈ state.agents →
      system.env choice state.shared = some (shared, left) →
      P front state.shared agent → P (front ++ [.env choice]) shared agent)
    (replayed : system.run first labels = some last) :
    ∀ agent ∈ last.agents, number agent = own → P labels last.shared agent := by
  refine (System.run_invariant (fun labels shared agents => own < count shared ∧
    ∀ agent ∈ agents, number agent = own → P labels shared agent) ?_ ?_ ?_ ?_ replayed).2
  · rintro labels shared agents reordered same ⟨given, holds⟩
    exact ⟨given, fun agent member => holds agent (same.mem_iff.mpr member)⟩
  · exact ⟨given, start⟩
  · rintro front state index choice agent shared left before found acted ⟨given, holds⟩
    obtain ⟨same, kept⟩ := numbered.act acted
    refine ⟨same ▸ given, ?_⟩
    intro next member isOwn
    rcases List.mem_append.mp member with left | rest
    · have ownMoved : number agent = own := kept next left ▸ isOwn
      exact moves before found acted ownMoved
        (holds agent List.mem_cons_self ownMoved) next left
    · exact others before found rest acted (holds next (List.mem_cons_of_mem _ rest) isOwn)
  · rintro front state choice shared left before acted ⟨given, holds⟩
    obtain ⟨more, numbers⟩ := numbered.env acted
    refine ⟨more ▸ Nat.lt_succ_of_lt given, ?_⟩
    intro agent member isOwn
    rcases List.mem_append.mp member with left | rest
    · exact absurd (numbers agent left ▸ isOwn) (Nat.ne_of_gt given)
    · exact env before rest acted (holds agent rest isOwn)

/-- An agent that the environment has just started is the only one with its
number. -/
theorem System.Numbered.begun (numbered : system.Numbered number count)
    {state begun : Global σ α} {choice : ε} (reached : Reachable system allowed state)
    (begins : system.step state (.env choice) = some begun) :
    count state.shared < count begun.shared ∧ ∃ shared left,
      system.env choice state.shared = some (shared, left) ∧ begun.shared = shared ∧
      ∀ agent ∈ begun.agents, number agent = count state.shared → agent ∈ left := by
  obtain ⟨shared, left, acted, rfl⟩ := step_env begins
  obtain ⟨more, numbers⟩ := numbered.env acted
  refine ⟨more ▸ Nat.lt_succ_self _, shared, left, acted, rfl, ?_⟩
  intro agent member isNew
  rcases List.mem_append.mp member with left | rest
  · exact left
  · exact absurd isNew (Nat.ne_of_lt (numbered.lt reached agent rest))

end Numbered

/-! ## An agent alone

While no other agent moves, an agent's steps are a computation. -/

/-- An agent moves alone, with one choice, until it has no step. -/
def System.alone (system : System σ α ι ε) (choice : ι) : Nat → σ → α → σ × α
  | 0, shared, agent => (shared, agent)
  | fuel + 1, shared, agent =>
      match system.act choice shared agent with
      | some (after, [next]) => system.alone choice fuel after next
      | _ => (shared, agent)

theorem System.alone_ended {choice : ι} {shared : σ} {agent : α}
    (ended : system.act choice shared agent = none) (fuel : Nat) :
    system.alone choice fuel shared agent = (shared, agent) := by
  cases fuel with
  | zero => rfl
  | succ fuel => simp only [System.alone, ended]

theorem System.alone_step {choice : ι} {shared after : σ} {agent next : α}
    (acted : system.act choice shared agent = some (after, [next])) (fuel : Nat) :
    system.alone choice (fuel + 1) shared agent = system.alone choice fuel after next := by
  simp only [System.alone, acted]

/-- It is a schedule of the system, whoever else there is. -/
theorem System.run_alone (system : System σ α ι ε) (choice : ι) (fuel : Nat) (shared : σ)
    (agent : α) (others : List α) :
    ∃ steps, system.run ⟨shared, agent :: others⟩ (List.replicate steps (.act 0 choice)) =
      some ⟨(system.alone choice fuel shared agent).1,
        (system.alone choice fuel shared agent).2 :: others⟩ := by
  induction fuel generalizing shared agent with
  | zero => exact ⟨0, rfl⟩
  | succ fuel ih =>
      simp only [System.alone]
      split
      · next after next acted =>
          obtain ⟨steps, ran⟩ := ih after next
          refine ⟨steps + 1, ?_⟩
          simpa [List.replicate_succ, System.run, System.step, acted] using ran
      · exact ⟨0, rfl⟩

end Steps

/-! ## History variables

A log beside the shared memory is written by the steps, and no step reads it. -/

section Recording

universe y

variable {lam : Type y}

structure Recorded (σ : Type u) (lam : Type y) where
  memory : σ
  log : lam

/-- What is written when an agent or the environment has moved: the memory
before, the agent or the choice, and the memory and the agents after. -/
structure Recorder (σ : Type u) (α : Type v) (ε : Type x) (lam : Type y) where
  act : σ → α → σ → List α → lam → lam
  env : σ → ε → σ → List α → lam → lam

def System.recorded (system : System σ α ι ε) (recorder : Recorder σ α ε lam) (log : lam) :
    System (Recorded σ lam) α ι ε where
  init := ⟨⟨system.init.shared, log⟩, system.init.agents⟩
  act choice shared agent :=
    (system.act choice shared.memory agent).map fun moved =>
      (⟨moved.1, recorder.act shared.memory agent moved.1 moved.2 shared.log⟩, moved.2)
  env choice shared :=
    (system.env choice shared.memory).map fun moved =>
      (⟨moved.1, recorder.env shared.memory choice moved.1 moved.2 shared.log⟩, moved.2)

variable {system : System σ α ι ε} {recorder : Recorder σ α ε lam} {log : lam}

theorem recorded_act {choice : ι} {shared after : Recorded σ lam} {agent : α} {left : List α}
    (acted : (system.recorded recorder log).act choice shared agent = some (after, left)) :
    system.act choice shared.memory agent = some (after.memory, left) ∧
      after.log = recorder.act shared.memory agent after.memory left shared.log := by
  obtain ⟨⟨memory, moved⟩, stepped, same⟩ := Option.map_eq_some_iff.mp acted
  cases same
  exact ⟨stepped, rfl⟩

theorem recorded_env {choice : ε} {shared after : Recorded σ lam} {left : List α}
    (acted : (system.recorded recorder log).env choice shared = some (after, left)) :
    system.env choice shared.memory = some (after.memory, left) ∧
      after.log = recorder.env shared.memory choice after.memory left shared.log := by
  obtain ⟨⟨memory, moved⟩, stepped, same⟩ := Option.map_eq_some_iff.mp acted
  cases same
  exact ⟨stepped, rfl⟩

/-- Without its log, a recorded run is a run. -/
theorem Reaches.unrecorded
    {allowed : Global (Recorded σ lam) α → Label ι ε → Prop} {state : Global (Recorded σ lam) α}
    (reached : Reachable (system.recorded recorder log) allowed state) :
    Reachable system anySchedule ⟨state.shared.memory, state.agents⟩ := by
  induction reached with
  | refl => exact .refl
  | @step state next label _ _ moved ih =>
      refine @Reaches.step _ _ _ _ _ _ _ _ _ label ih trivial ?_
      cases label with
      | act index choice =>
          obtain ⟨agent, shared, left, found, acted, rfl⟩ := step_act moved
          simp only [System.step, found, (recorded_act acted).1]
      | env choice =>
          obtain ⟨shared, left, acted, rfl⟩ := step_env moved
          simp only [System.step, (recorded_env acted).1]

end Recording

/-! ## A system inside a larger one

Agents of another kind may run beside those of a system, on more memory. They
may hold its agents up, but what these do is a run of the system. -/

section Hosting

universe u' v' w' x'

variable {σ' : Type u'} {α' : Type v'} {ι' : Type w'} {ε' : Type x'}

/-- A step of the larger system, seen through `view` and `agent?`, is one of the
smaller system or leaves it as it is. -/
structure System.Hosts (host : System σ' α' ι' ε') (guest : System σ α ι ε) (view : σ' → σ)
    (agent? : α' → Option α) : Prop where
  init : guest.init = ⟨view host.init.shared, host.init.agents.filterMap agent?⟩
  act : ∀ {choice : ι'} {shared after : σ'} {agent : α'} {left : List α'},
    host.act choice shared agent = some (after, left) →
      agent? agent = none ∧ view after = view shared ∧ left.filterMap agent? = [] ∨
      ∃ own choice, agent? agent = some own ∧
        guest.act choice (view shared) own = some (view after, left.filterMap agent?)
  env : ∀ {choice : ε'} {shared after : σ'} {left : List α'},
    host.env choice shared = some (after, left) →
      view after = view shared ∧ left.filterMap agent? = [] ∨
      ∃ choice, guest.env choice (view shared) = some (view after, left.filterMap agent?)

variable {host : System σ' α' ι' ε'} {guest : System σ α ι ε} {view : σ' → σ}
  {agent? : α' → Option α}

theorem System.Hosts.reachable (hosts : host.Hosts guest view agent?)
    {allowed : Global σ' α' → Label ι' ε' → Prop} {state : Global σ' α'}
    (reached : Reachable host allowed state) :
    Reachable guest anySchedule ⟨view state.shared, state.agents.filterMap agent?⟩ := by
  induction reached with
  | refl => exact hosts.init ▸ .init
  | @step state next label _ _ moved ih =>
      cases label with
      | act index choice =>
          obtain ⟨agent, shared, left, found, acted, rfl⟩ := step_act moved
          obtain ⟨inside, here⟩ := List.getElem?_eq_some_iff.mp found
          -- the agents before and after the one that moves
          have split : state.agents =
              state.agents.take index ++ agent :: state.agents.drop (index + 1) := by
            rw [← here, List.getElem_cons_drop, List.take_append_drop]
          simp only [List.filterMap_append, List.eraseIdx_eq_take_drop_succ]
          rw [split, List.filterMap_append] at ih
          rcases hosts.act acted with ⟨other, same, none⟩ | ⟨own, guestChoice, isOwn, acts⟩
          · rw [List.filterMap_cons_none other] at ih
            rw [same, none, List.nil_append]
            exact ih
          · rw [List.filterMap_cons_some isOwn] at ih
            refine @Reaches.step _ _ _ _ _ _ _ _ _
              (.act ((state.agents.take index).filterMap agent?).length guestChoice) ih trivial ?_
            simp only [System.step, List.getElem?_append_right (Nat.le_refl _), Nat.sub_self,
              List.getElem?_cons_zero, acts, List.eraseIdx_append_of_length_le (Nat.le_refl _),
              List.eraseIdx_cons_zero]
      | env choice =>
          obtain ⟨shared, left, acted, rfl⟩ := step_env moved
          simp only [List.filterMap_append]
          rcases hosts.env acted with ⟨same, none⟩ | ⟨guestChoice, acts⟩
          · rw [same, none, List.nil_append]
            exact ih
          · refine @Reaches.step _ _ _ _ _ _ _ _ _ (.env guestChoice) ih trivial ?_
            simp only [System.step, acts]

end Hosting

/-! ## Counting agents

A count over the agents is a sum of weights, so a step changes it by the
weights of the agent that moved and of the agents it left behind. -/

/-- The sum of the agents' weights. -/
def total (weight : α → Nat) (agents : List α) : Nat :=
  (agents.map weight).sum

section Counting

variable {weight : α → Nat} {agents others : List α} {agent : α}

@[simp] theorem total_nil : total weight [] = 0 := rfl

@[simp] theorem total_cons :
    total weight (agent :: agents) = weight agent + total weight agents := by
  simp [total]

@[simp] theorem total_append :
    total weight (agents ++ others) = total weight agents + total weight others := by
  simp [total]

theorem total_perm (same : agents.Perm others) : total weight agents = total weight others :=
  (same.map weight).sum_eq

theorem weight_le_total (weight : α → Nat) (member : agent ∈ agents) :
    weight agent ≤ total weight agents := by
  induction member with
  | head => exact Nat.le_add_right _ _
  | tail _ _ ih =>
      rw [total_cons]
      omega

theorem weight_add_weight_le_total (weight : α → Nat) {other : α} (member : agent ∈ agents)
    (otherMember : other ∈ agents) (different : other ≠ agent) :
    weight agent + weight other ≤ total weight agents := by
  obtain ⟨front, back, rfl⟩ := List.append_of_mem member
  have same : (front ++ agent :: back).Perm (agent :: (front ++ back)) := List.perm_middle
  have inRest : other ∈ front ++ back := by
    rcases List.mem_cons.mp (same.mem_iff.mp otherMember) with equal | inRest
    · exact absurd equal different
    · exact inRest
  have rest := weight_le_total weight inRest
  rw [total_perm same, total_cons]
  omega

theorem total_le_total {heavier : α → Nat}
    (le : ∀ agent ∈ agents, weight agent ≤ heavier agent) :
    total weight agents ≤ total heavier agents := by
  induction agents with
  | nil => simp
  | cons head tail ih =>
      have first := le head List.mem_cons_self
      have rest := ih fun agent member => le agent (List.mem_cons_of_mem _ member)
      simp only [total_cons]
      omega

theorem total_add {other : α → Nat} :
    total (fun agent => weight agent + other agent) agents =
      total weight agents + total other agents := by
  simp [total]

theorem total_indicator (p : α → Bool) (agents : List α) :
    total (fun agent => if p agent then 1 else 0) agents = agents.countP p := by
  induction agents with
  | nil => rfl
  | cons head tail ih =>
      rw [total_cons, List.countP_cons, ih]
      exact Nat.add_comm _ _

theorem total_eq_zero_iff : total weight agents = 0 ↔ ∀ agent ∈ agents, weight agent = 0 := by
  induction agents with
  | nil => simp
  | cons head tail ih => simp [ih]

theorem total_pos_iff : 0 < total weight agents ↔ ∃ agent ∈ agents, 0 < weight agent := by
  rw [Nat.pos_iff_ne_zero, ne_eq, total_eq_zero_iff]
  simp only [not_forall, Nat.pos_iff_ne_zero, exists_prop, ne_eq]

end Counting

end Interleaving
