import ThreadPoolExec.Interleaving

/-!
# Coming to rest

Where every move of a kind does some of a finite amount of work, a schedule of
such moves is bounded, and one that cannot be continued exists from every
state. What a state can be in which no such move is enabled is then all that
is left to say of how a system ends.
-/

set_option autoImplicit false

namespace Interleaving

universe u v w x

variable {σ : Type u} {α : Type v} {ι : Type w} {ε : Type x}

/-- A move of an agent, not of the environment. -/
def Label.acts : Label ι ε → Prop
  | .act _ _ => True
  | .env _ => False

/-- None of the moves of a kind is enabled. -/
def System.AtRest (system : System σ α ι ε) (own : Label ι ε → Prop) (state : Global σ α) :
    Prop :=
  ∀ label, own label → system.step state label = none

/-- Every move of a kind does some of the work that is left. -/
def System.Spends (system : System σ α ι ε) (own : Label ι ε → Prop)
    (work : Global σ α → Nat) : Prop :=
  ∀ {state next : Global σ α} {label : Label ι ε},
    own label → system.step state label = some next → work next < work state

/-- While something holds, every move of a kind keeps it and does some of the
work that is left. -/
def System.SpendsWhile (system : System σ α ι ε) (own : Label ι ε → Prop)
    (holds : Global σ α → Prop) (work : Global σ α → Nat) : Prop :=
  ∀ {state next : Global σ α} {label : Label ι ε},
    holds state → own label → system.step state label = some next →
      holds next ∧ work next < work state

section Rest

variable {system : System σ α ι ε} {own : Label ι ε → Prop} {holds : Global σ α → Prop}
  {work : Global σ α → Nat}

theorem System.SpendsWhile.kept (spends : system.SpendsWhile own holds work)
    {state last : Global σ α} (start : holds state) {labels : List (Label ι ε)}
    (owned : ∀ label ∈ labels, own label) (replayed : system.run state labels = some last) :
    holds last := by
  induction labels generalizing state with
  | nil =>
      cases replayed
      exact start
  | cons label rest ih =>
      simp only [System.run] at replayed
      cases moved : system.step state label with
      | none => simp [moved] at replayed
      | some next =>
          simp only [moved] at replayed
          exact ih (spends start (owned label List.mem_cons_self) moved).1
            (fun other member => owned other (List.mem_cons_of_mem _ member)) replayed

/-- The work that is left bounds the schedule. -/
theorem System.SpendsWhile.length_le (spends : system.SpendsWhile own holds work)
    {state last : Global σ α} (start : holds state) {labels : List (Label ι ε)}
    (owned : ∀ label ∈ labels, own label) (replayed : system.run state labels = some last) :
    labels.length + work last ≤ work state := by
  induction labels generalizing state with
  | nil =>
      cases replayed
      exact Nat.le_of_eq (Nat.zero_add _)
  | cons label rest ih =>
      simp only [System.run] at replayed
      cases moved : system.step state label with
      | none => simp [moved] at replayed
      | some next =>
          simp only [moved] at replayed
          obtain ⟨still, spent⟩ := spends start (owned label List.mem_cons_self) moved
          have later :=
            ih still (fun other member => owned other (List.mem_cons_of_mem _ member)) replayed
          simp only [List.length_cons]
          omega

/-- Left to itself, the system comes to rest. -/
theorem System.SpendsWhile.exists_atRest (spends : system.SpendsWhile own holds work)
    (state : Global σ α) (start : holds state) :
    ∃ labels last, (∀ label ∈ labels, own label) ∧ system.run state labels = some last ∧
      system.AtRest own last := by
  induction left : work state using Nat.strongRecOn generalizing state with
  | ind amount ih =>
      by_cases rests : system.AtRest own state
      · exact ⟨[], state, List.forall_mem_nil _, rfl, rests⟩
      · simp only [System.AtRest, not_forall] at rests
        obtain ⟨label, owned, enabled⟩ := rests
        obtain ⟨next, moved⟩ := Option.ne_none_iff_exists'.mp enabled
        obtain ⟨still, spent⟩ := spends start owned moved
        obtain ⟨labels, last, all, replayed, atRest⟩ := ih (work next) (left ▸ spent) next still rfl
        refine ⟨label :: labels, last, List.forall_mem_cons.mpr ⟨owned, all⟩, ?_, atRest⟩
        simp only [System.run, moved, replayed]

theorem System.SpendsWhile.restrict {only : Global σ α → Prop}
    (spends : system.SpendsWhile own holds work) (sound : ∀ state, only state → holds state)
    (kept : ∀ {state next : Global σ α} {label : Label ι ε},
      only state → own label → system.step state label = some next → only next) :
    system.SpendsWhile own only work :=
  fun held owned moved => ⟨kept held owned moved, (spends (sound _ held) owned moved).2⟩

/-- The rule for work that comes in rounds: a move that does none of it ends
something of the round, and any other may start the round anew. -/
theorem System.SpendsWhile.of_rounds {round size : Global σ α → Nat}
    (bounded : ∀ state, round state ≤ size state)
    (spends : ∀ {state next : Global σ α} {label : Label ι ε},
      holds state → own label → system.step state label = some next →
        holds next ∧ size next ≤ size state ∧
          (work next < work state ∨ work next ≤ work state ∧ round next < round state)) :
    system.SpendsWhile own holds fun state => work state * (size state + 1) + round state := by
  intro state next label held owned moved
  obtain ⟨still, smaller, spent⟩ := spends held owned moved
  refine ⟨still, ?_⟩
  rcases spent with less | ⟨same, less⟩
  · have factor : (work next + 1) * (size next + 1) ≤ work state * (size state + 1) :=
      Nat.mul_le_mul less (Nat.succ_le_succ smaller)
    have inRound := bounded next
    rw [Nat.add_mul, Nat.one_mul] at factor
    simp only
    omega
  · have factor : work next * (size next + 1) ≤ work state * (size state + 1) :=
      Nat.mul_le_mul same (Nat.succ_le_succ smaller)
    simp only
    omega

theorem System.Spends.always (spends : system.Spends own work) :
    system.SpendsWhile own (fun _ => True) work :=
  fun _ owned moved => ⟨trivial, spends owned moved⟩

theorem System.Spends.length_le (spends : system.Spends own work) {state last : Global σ α}
    {labels : List (Label ι ε)} (owned : ∀ label ∈ labels, own label)
    (replayed : system.run state labels = some last) :
    labels.length + work last ≤ work state :=
  System.SpendsWhile.length_le spends.always trivial owned replayed

theorem System.Spends.exists_atRest (spends : system.Spends own work) (state : Global σ α) :
    ∃ labels last, (∀ label ∈ labels, own label) ∧ system.run state labels = some last ∧
      system.AtRest own last :=
  System.SpendsWhile.exists_atRest spends.always state trivial

theorem System.AtRest.act_of_own {state : Global σ α} (rests : system.AtRest own state)
    {index : Nat} {choice : ι} (owned : own (.act index choice)) {agent : α}
    (found : state.agents[index]? = some agent) :
    system.act choice state.shared agent = none := by
  have still := rests (.act index choice) owned
  simp only [System.step, found] at still
  cases acted : system.act choice state.shared agent with
  | none => rfl
  | some moved => simp [acted] at still

theorem System.AtRest.env_of_own {state : Global σ α} (rests : system.AtRest own state)
    {choice : ε} (owned : own (.env choice)) : system.env choice state.shared = none := by
  have still := rests (.env choice) owned
  simp only [System.step] at still
  cases moved : system.env choice state.shared with
  | none => rfl
  | some after => simp [moved] at still

/-- An agent has no step where the agents' moves are at rest. -/
theorem System.AtRest.act_eq_none {state : Global σ α} (rests : system.AtRest Label.acts state)
    {agent : α} (member : agent ∈ state.agents) (choice : ι) :
    system.act choice state.shared agent = none := by
  obtain ⟨index, found⟩ := List.mem_iff_getElem?.mp member
  exact @System.AtRest.act_of_own _ _ _ _ _ _ _ rests index choice trivial _ found

/-- The rule for the moves of agents: work that does not depend on the order of
the agents is stated with the one that moves in front. -/
theorem System.Spends.of_act {work : σ → List α → Nat}
    (reorder : ∀ {shared agents others}, agents.Perm others →
      work shared agents = work shared others)
    (act : ∀ {choice shared agent after left rest},
      system.act choice shared agent = some (after, left) →
      work after (left ++ rest) < work shared (agent :: rest)) :
    system.Spends Label.acts fun state => work state.shared state.agents := by
  intro state next label acts moved
  cases label with
  | env choice => cases acts
  | act index choice =>
      obtain ⟨agent, shared, left, found, acted, rfl⟩ := step_act moved
      have spent := @act _ _ _ _ _ (state.agents.eraseIdx index) acted
      rwa [← reorder (perm_of_getElem? found)] at spent

end Rest

end Interleaving
