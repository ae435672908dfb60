import ThreadPoolExec.Interleaving

/-!
# Snapshots of two growing counters

A reader loads two counters in turn until one of them has the value that it had
before. As both only grow, it then holds what both had at one instant.
-/

set_option autoImplicit false

namespace CounterSnapshot

open Interleaving

universe u v w x

variable {σ : Type u} {α : Type v} {ι : Type w} {ε : Type x}

/-- A reader, with what it has loaded last of the two counters. -/
inductive Reader where
  | begin
  | loadRight (left : Nat)
  | againLeft (left right : Nat)
  | againRight (left right : Nat)
  | done (left right : Nat)
deriving DecidableEq, Repr

def Reader.next (left right : Nat) : Reader → Option Reader
  | .begin => some (.loadRight left)
  | .loadRight loaded => some (.againLeft loaded right)
  | .againLeft loaded other =>
      if loaded = left then some (.done loaded other) else some (.againRight left other)
  | .againRight other loaded =>
      if loaded = right then some (.done other loaded) else some (.againLeft other right)
  | .done _ _ => none

def Reader.running : Reader → Bool
  | .done _ _ => false
  | _ => true

/-- What a reader has loaded was there, at instants whose counters were `seen`. -/
def Reader.Tracks (seen : Nat → Nat → Prop) (left right : Nat) : Reader → Prop
  | .begin => True
  | .loadRight loaded => loaded ≤ left
  | .againLeft loaded other =>
      other ≤ right ∧ ∃ instant, seen instant other ∧ loaded ≤ instant ∧ instant ≤ left
  | .againRight other loaded =>
      other ≤ left ∧ ∃ instant, seen other instant ∧ loaded ≤ instant ∧ instant ≤ right
  | .done loaded other => seen loaded other

section Tracks

variable {seen others : Nat → Nat → Prop} {left right later laterRight : Nat}
  {reader next : Reader}

theorem Reader.Tracks.step (tracks : reader.Tracks seen left right) (now : seen left right)
    (stepped : reader.next left right = some next) : next.Tracks seen left right := by
  cases reader with
  | begin =>
      cases stepped
      exact Nat.le_refl left
  | loadRight loaded =>
      cases stepped
      exact ⟨Nat.le_refl right, left, now, tracks, Nat.le_refl left⟩
  | againLeft loaded other =>
      obtain ⟨behind, instant, was, before, after⟩ := tracks
      simp only [Reader.next] at stepped
      split at stepped
      · next same =>
          cases stepped
          subst same
          exact Nat.le_antisymm after before ▸ was
      · cases stepped
        exact ⟨Nat.le_refl left, right, now, behind, Nat.le_refl right⟩
  | againRight other loaded =>
      obtain ⟨behind, instant, was, before, after⟩ := tracks
      simp only [Reader.next] at stepped
      split at stepped
      · next same =>
          cases stepped
          subst same
          exact Nat.le_antisymm after before ▸ was
      · cases stepped
        exact ⟨Nat.le_refl right, left, now, behind, Nat.le_refl left⟩
  | done loaded other => cases stepped

theorem Reader.Tracks.mono (tracks : reader.Tracks seen left right) (grows : left ≤ later)
    (growsRight : right ≤ laterRight) (weaken : ∀ left right, seen left right → others left right) :
    reader.Tracks others later laterRight := by
  cases reader with
  | begin => trivial
  | loadRight loaded => exact Nat.le_trans tracks grows
  | againLeft loaded other =>
      obtain ⟨behind, instant, was, before, after⟩ := tracks
      exact ⟨Nat.le_trans behind growsRight, instant, weaken _ _ was, before,
        Nat.le_trans after grows⟩
  | againRight other loaded =>
      obtain ⟨behind, instant, was, before, after⟩ := tracks
      exact ⟨Nat.le_trans behind grows, instant, weaken _ _ was, before,
        Nat.le_trans after growsRight⟩
  | done loaded other => exact weaken _ _ tracks

end Tracks

/-! ## Readers in a system -/

/-- An agent of the system, or a numbered reader. -/
inductive Agent (α : Type v) where
  | own (agent : α)
  | reader (number : Nat) (state : Reader)

/-- A system with any number of readers of two counters of its memory. -/
def observed (system : System σ α ι ε) (left right : σ → Nat) :
    System (σ × Nat) (Agent α) ι (Option ε) where
  init := ⟨(system.init.shared, 0), system.init.agents.map .own⟩
  act choice memory agent :=
    match agent with
    | .own agent =>
        (system.act choice memory.1 agent).map fun moved =>
          ((moved.1, memory.2), moved.2.map .own)
    | .reader number reader =>
        (reader.next (left memory.1) (right memory.1)).map fun next =>
          (memory, [.reader number next])
  env choice memory :=
    match choice with
    | some choice =>
        (system.env choice memory.1).map fun moved => ((moved.1, memory.2), moved.2.map .own)
    | none => some ((memory.1, memory.2 + 1), [.reader memory.2 .begin])

/-- No step lowers a counter. -/
structure Grows (system : System σ α ι ε) (counter : σ → Nat) : Prop where
  act : ∀ {choice memory agent after left}, system.act choice memory agent = some (after, left) →
    counter memory ≤ counter after
  env : ∀ {choice memory after left}, system.env choice memory = some (after, left) →
    counter memory ≤ counter after

/-- The agent is the reader with a number, and has not returned. -/
def Agent.Reads (number : Nat) : Agent α → Prop
  | .own _ => False
  | .reader other state => other = number ∧ state.running = true

/-- Each reader returns what both counters had at one instant of its call. -/
def Linearizable (system : System σ α ι ε) (left right : σ → Nat) : Prop :=
  ∀ state begun later : Global (σ × Nat) (Agent α), ∀ labels : List (Label ι (Option ε)),
    Reachable (observed system left right) anySchedule state →
    (observed system left right).step state (.env none) = some begun →
    (observed system left right).run begun labels = some later →
    ∀ loaded other, .reader state.shared.2 (.done loaded other) ∈ later.agents →
      (observed system left right).During (Agent.Reads state.shared.2)
        (fun instant => left instant.shared.1 = loaded ∧ right instant.shared.1 = other)
        begun labels

section Readers

variable {system : System σ α ι ε} {left right : σ → Nat}

theorem number_lt {state : Global (σ × Nat) (Agent α)}
    (reached : Reachable (observed system left right) anySchedule state) :
    ∀ number reader, .reader number reader ∈ state.agents → number < state.shared.2 := by
  apply Reaches.invariant (fun memory agents => ∀ number reader,
    .reader number reader ∈ agents → number < memory.2) _ _ _ _ reached
  · intro memory agents others same bounded number reader member
    exact bounded number reader (same.mem_iff.mpr member)
  · intro number reader member
    obtain ⟨agent, _, same⟩ := List.mem_map.mp member
    cases same
  · intro state index choice agent memory next _ _ _ acted bounded number reader member
    cases agent with
    | own agent =>
        obtain ⟨moved, _, same⟩ := Option.map_eq_some_iff.mp acted
        cases same
        rcases List.mem_append.mp member with own | rest
        · obtain ⟨_, _, same⟩ := List.mem_map.mp own
          cases same
        · exact bounded number reader (List.mem_cons_of_mem _ rest)
    | reader other otherReader =>
        obtain ⟨moved, _, same⟩ := Option.map_eq_some_iff.mp acted
        cases same
        rcases List.mem_cons.mp member with head | rest
        · cases head
          exact bounded _ otherReader List.mem_cons_self
        · exact bounded number reader (List.mem_cons_of_mem _ rest)
  · intro state choice memory next _ _ acted bounded number reader member
    cases choice with
    | some choice =>
        obtain ⟨moved, _, same⟩ := Option.map_eq_some_iff.mp acted
        cases same
        rcases List.mem_append.mp member with own | rest
        · obtain ⟨_, _, same⟩ := List.mem_map.mp own
          cases same
        · exact bounded number reader rest
    | none =>
        cases acted
        rcases List.mem_cons.mp member with head | rest
        · cases head
          exact Nat.lt_succ_self _
        · exact Nat.lt_succ_of_lt (bounded number reader rest)

/-- At some instant of the schedule the reader was running and the counters had
these values. -/
def Seen (system : System σ α ι ε) (left right : σ → Nat) (number : Nat)
    (begun : Global (σ × Nat) (Agent α)) (labels : List (Label ι (Option ε)))
    (loaded other : Nat) : Prop :=
  (observed system left right).During (Agent.Reads number)
    (fun instant => left instant.shared.1 = loaded ∧ right instant.shared.1 = other) begun labels

/-- What the reader with a number has loaded, after a schedule. -/
structure Followed (system : System σ α ι ε) (left right : σ → Nat) (number : Nat)
    (begun : Global (σ × Nat) (Agent α)) (labels : List (Label ι (Option ε)))
    (memory : σ × Nat) (agents : List (Agent α)) : Prop where
  given : number < memory.2
  tracks : ∀ reader, .reader number reader ∈ agents →
    reader.Tracks (Seen system left right number begun labels) (left memory.1) (right memory.1)

section Followed

variable {number : Nat} {begun instant : Global (σ × Nat) (Agent α)}
  {front : List (Label ι (Option ε))} {label : Label ι (Option ε)} {reader next : Reader}

theorem tracks_later {after : σ} {memory : σ} (grows : left memory ≤ left after)
    (growsRight : right memory ≤ right after)
    (tracks : reader.Tracks (Seen system left right number begun front) (left memory)
      (right memory)) :
    reader.Tracks (Seen system left right number begun (front ++ [label])) (left after)
      (right after) :=
  tracks.mono grows growsRight fun _ _ seen => System.Passes.append seen [label]

/-- A running reader sees the counters of the instant at which it steps. -/
theorem tracks_own (before : (observed system left right).run begun front = some instant)
    (member : .reader number reader ∈ instant.agents)
    (stepped : reader.next (left instant.shared.1) (right instant.shared.1) = some next)
    (tracks : reader.Tracks (Seen system left right number begun front) (left instant.shared.1)
      (right instant.shared.1)) :
    next.Tracks (Seen system left right number begun (front ++ [label])) (left instant.shared.1)
      (right instant.shared.1) := by
  have running : reader.running = true := by
    cases reader with
    | done loaded other => cases stepped
    | _ => rfl
  have now : Seen system left right number begun front (left instant.shared.1)
      (right instant.shared.1) :=
    System.Passes.last before ⟨⟨_, member, rfl, running⟩, rfl, rfl⟩
  exact tracks_later (Nat.le_refl _) (Nat.le_refl _) (tracks.step now stepped)

theorem followed_act (growsLeft : Grows system left) (growsRight : Grows system right)
    {index : Nat} {choice : ι} {agent : Agent α} {memory : σ × Nat} {added : List (Agent α)}
    (before : (observed system left right).run begun front = some instant)
    (found : instant.agents[index]? = some agent)
    (acted : (observed system left right).act choice instant.shared agent = some (memory, added))
    (followed : Followed system left right number begun front instant.shared
      (agent :: instant.agents.eraseIdx index)) :
    Followed system left right number begun (front ++ [.act index choice]) memory
      (added ++ instant.agents.eraseIdx index) := by
  cases agent with
  | own agent =>
      obtain ⟨moved, stepped, same⟩ := Option.map_eq_some_iff.mp acted
      cases same
      refine ⟨followed.given, fun reader member => ?_⟩
      rcases List.mem_append.mp member with own | rest
      · obtain ⟨_, _, same⟩ := List.mem_map.mp own
        cases same
      · exact tracks_later (growsLeft.act stepped) (growsRight.act stepped)
          (followed.tracks reader (List.mem_cons_of_mem _ rest))
  | reader other state =>
      obtain ⟨moved, stepped, same⟩ := Option.map_eq_some_iff.mp acted
      cases same
      refine ⟨followed.given, fun reader member => ?_⟩
      rcases List.mem_cons.mp member with head | rest
      · cases head
        exact tracks_own before (List.mem_of_getElem? found) stepped
          (followed.tracks state List.mem_cons_self)
      · exact tracks_later (Nat.le_refl _) (Nat.le_refl _)
          (followed.tracks reader (List.mem_cons_of_mem _ rest))

theorem followed_env (growsLeft : Grows system left) (growsRight : Grows system right)
    {choice : Option ε} {memory : σ × Nat} {added : List (Agent α)}
    (acted : (observed system left right).env choice instant.shared = some (memory, added))
    (followed : Followed system left right number begun front instant.shared instant.agents) :
    Followed system left right number begun (front ++ [.env choice]) memory
      (added ++ instant.agents) := by
  cases choice with
  | some choice =>
      obtain ⟨moved, stepped, same⟩ := Option.map_eq_some_iff.mp acted
      cases same
      refine ⟨followed.given, fun reader member => ?_⟩
      rcases List.mem_append.mp member with own | rest
      · obtain ⟨_, _, same⟩ := List.mem_map.mp own
        cases same
      · exact tracks_later (growsLeft.env stepped) (growsRight.env stepped)
          (followed.tracks reader rest)
  | none =>
      cases acted
      refine ⟨Nat.lt_succ_of_lt followed.given, fun reader member => ?_⟩
      rcases List.mem_cons.mp member with head | rest
      · cases head
        exact absurd followed.given (Nat.lt_irrefl _)
      · exact tracks_later (Nat.le_refl _) (Nat.le_refl _) (followed.tracks reader rest)

end Followed

theorem linearizable (growsLeft : Grows system left) (growsRight : Grows system right) :
    Linearizable system left right := by
  intro state begun later labels reached begins replayed loaded other returned
  have followed : Followed system left right state.shared.2 begun labels later.shared
      later.agents := by
    apply System.run_invariant
      (Followed system left right state.shared.2 begun) _ _ _ _ replayed
    · intro labels memory agents others same followed
      exact ⟨followed.given, fun reader member => followed.tracks reader (same.mem_iff.mpr member)⟩
    · obtain ⟨memory, agents, acted, rfl⟩ := step_env begins
      cases acted
      refine ⟨Nat.lt_succ_self _, fun reader member => ?_⟩
      rcases List.mem_cons.mp member with head | rest
      · cases head
        trivial
      · exact absurd (number_lt reached _ _ rest) (Nat.lt_irrefl _)
    · intro front instant index choice agent memory next before found acted followed
      exact followed_act growsLeft growsRight before found acted followed
    · intro front instant choice memory next before acted followed
      exact followed_env growsLeft growsRight acted followed
  exact followed.tracks _ returned

end Readers

end CounterSnapshot
