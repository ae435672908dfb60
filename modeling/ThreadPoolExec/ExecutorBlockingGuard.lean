import ThreadPoolExec.IntrusiveStack

/-!
# Guards against blocking

The guards of a thread are linked through the objects themselves. A program
that uses them as scopes is given its meaning twice: by the pointers, as the
code has it, and by the scopes that enclose a place in the program.
-/

set_option autoImplicit false

namespace ThreadPoolExec.ExecutorBlocking

open IntrusiveStack

structure ExecutorBlockingContext where
  forbid : Bool
  allowTerminationOnBlocking : Bool
  ex : Option Nat
  tag : String
deriving DecidableEq, Repr

/-- The address of `emptyList`, or of the `list_` of a guard. -/
inductive Address where
  | emptyList
  | guard (frame : Nat)
deriving DecidableEq, Repr

/-- What a guard is constructed with. -/
inductive Tag where
  | permit
  | track (ex : Nat) (tag : String)
  | prohibit (ex : Nat) (tag : String)
deriving DecidableEq, Repr

/-- `prev` and `curr` of an `ExecutorBlockingList`. -/
abbrev ExecutorBlockingList :=
  Node Address ExecutorBlockingContext

/-- The thread-local pointer, and the lists it can point to. -/
structure Thread where
  executorBlockingList : Option Address := some .emptyList
  lists : Address → ExecutorBlockingList := fun _ => ⟨none, ⟨false, false, none, ""⟩⟩

/-- What the constructors write to the copy of the current context. -/
def Tag.write (context : ExecutorBlockingContext) : Tag → ExecutorBlockingContext
  | .permit => { context with forbid := false }
  | .track ex tag =>
      { context with
        forbid := true, ex := some ex, tag := if tag.isEmpty then context.tag else tag }
  | .prohibit ex tag =>
      { context with
        forbid := true, ex := some ex, allowTerminationOnBlocking := true
        tag := if tag.isEmpty then context.tag else tag }

section Code

variable (kIsMobile : Bool)

/-- Nothing if the code dereferences a null pointer. -/
def getExecutorBlockingContext (thread : Thread) : Option (Option ExecutorBlockingContext) :=
  match thread.executorBlockingList with
  | none => if kIsMobile then some none else none
  | some current =>
      if kIsMobile ∨ (thread.lists current).value.forbid = false then some none
      else some (some (thread.lists current).value)

/-- The constructor of the guard in a frame. -/
def construct (frame : Nat) (tag : Tag) (thread : Thread) : Option Thread :=
  if kIsMobile then some thread
  else
    match thread.executorBlockingList with
    | none => none
    | some current =>
        some {
          executorBlockingList := some (.guard frame)
          lists := Function.update thread.lists (.guard frame)
            ⟨some current, tag.write (thread.lists current).value⟩ }

/-- The destructor of the guard in a frame; nothing if it terminates with
"dtor mismatch". -/
def destruct (frame : Nat) (thread : Thread) : Option Thread :=
  if kIsMobile then some thread
  else if thread.executorBlockingList ≠ some (.guard frame) then none
  else some { thread with executorBlockingList := (thread.lists (.guard frame)).prev }

end Code

/-! ## Programs with scopes -/

/-- What a thread does with guards that are locals: `guard` declares one for
the body, and `throw` leaves it too. -/
inductive Program where
  | skip
  | getContext
  | throw
  | seq (first second : Program)
  | guard (tag : Tag) (body : Program)
  | attempt (body handler : Program)
deriving Repr

/-- The contexts that were asked for, and whether an exception is left. -/
structure Outcome where
  seen : List (Option ExecutorBlockingContext) := []
  threw : Bool := false
deriving DecidableEq, Repr

def Outcome.andThen (first second : Outcome) : Outcome :=
  ⟨first.seen ++ second.seen, second.threw⟩

/-- The guard of a scope is in the frame with the scope's depth, also after
another scope has had it. -/
def execute (kIsMobile : Bool) : Program → Nat → Thread → Option (Thread × Outcome)
  | .skip, _, thread => some (thread, {})
  | .getContext, _, thread => do
      let context ← getExecutorBlockingContext kIsMobile thread
      some (thread, { seen := [context] })
  | .throw, _, thread => some (thread, { threw := true })
  | .seq first second, depth, thread => do
      let (thread, outcome) ← execute kIsMobile first depth thread
      if outcome.threw then some (thread, outcome)
      else
        let (thread, later) ← execute kIsMobile second depth thread
        some (thread, outcome.andThen later)
  | .guard tag body, depth, thread => do
      let thread ← construct kIsMobile depth tag thread
      let (thread, outcome) ← execute kIsMobile body (depth + 1) thread
      let thread ← destruct kIsMobile depth thread
      some (thread, outcome)
  | .attempt body handler, depth, thread => do
      let (thread, outcome) ← execute kIsMobile body depth thread
      if outcome.threw then
        let (thread, later) ← execute kIsMobile handler depth thread
        some (thread, outcome.andThen later)
      else some (thread, outcome)

def Tag.permits : Tag → Bool
  | .permit => true
  | .track _ _ | .prohibit _ _ => false

def Tag.prohibits : Tag → Bool
  | .prohibit _ _ => true
  | .permit | .track _ _ => false

def Tag.ex? : Tag → Option Nat
  | .permit => none
  | .track ex _ | .prohibit ex _ => some ex

def Tag.name? : Tag → Option String
  | .permit => none
  | .track _ tag | .prohibit _ tag => if tag.isEmpty then none else some tag

/-- What a place is told with the guards that enclose it, the innermost first.
Whether blocking is forbidden is up to the innermost one, termination to any
of them; executor and tag are those of the innermost guard that has one. -/
def described (enclosing : List Tag) : Option ExecutorBlockingContext :=
  if enclosing.head?.all Tag.permits then none
  else
    some {
      forbid := true
      allowTerminationOnBlocking := enclosing.any Tag.prohibits
      ex := enclosing.findSome? Tag.ex?
      tag := (enclosing.findSome? Tag.name?).getD "" }

/-- The same program, with no memory at all. -/
def observe (kIsMobile : Bool) : Program → List Tag → Outcome
  | .skip, _ => {}
  | .getContext, enclosing => { seen := [if kIsMobile then none else described enclosing] }
  | .throw, _ => { threw := true }
  | .seq first second, enclosing =>
      let outcome := observe kIsMobile first enclosing
      if outcome.threw then outcome else outcome.andThen (observe kIsMobile second enclosing)
  | .guard tag body, enclosing => observe kIsMobile body (tag :: enclosing)
  | .attempt body handler, enclosing =>
      let outcome := observe kIsMobile body enclosing
      if outcome.threw then outcome.andThen (observe kIsMobile handler enclosing) else outcome

/-! ## Scopes and pointers -/

/-- What the guards of a thread hold, the innermost first. -/
def contextOf : List Tag → ExecutorBlockingContext
  | [] => ⟨false, false, none, ""⟩
  | tag :: outer => tag.write (contextOf outer)

theorem contextOf_eq (enclosing : List Tag) :
    contextOf enclosing = {
      forbid := !enclosing.head?.all Tag.permits
      allowTerminationOnBlocking := enclosing.any Tag.prohibits
      ex := enclosing.findSome? Tag.ex?
      tag := (enclosing.findSome? Tag.name?).getD "" } := by
  induction enclosing with
  | nil => rfl
  | cons tag outer ih =>
      rw [contextOf, ih]
      cases tag with
      | permit => rfl
      | track ex name =>
          cases empty : name.isEmpty <;>
            simp [Tag.write, Tag.permits, Tag.prohibits, List.findSome?_cons, Tag.ex?, Tag.name?, empty]
      | prohibit ex name =>
          cases empty : name.isEmpty <;>
            simp [Tag.write, Tag.permits, Tag.prohibits, List.findSome?_cons, Tag.ex?, Tag.name?, empty]

theorem described_eq (enclosing : List Tag) :
    described enclosing =
      if (contextOf enclosing).forbid = false then none else some (contextOf enclosing) := by
  rw [contextOf_eq, described]
  cases permitted : enclosing.head?.all Tag.permits <;> simp

/-- The lists of the living guards, each with its frame. -/
def stackOf : List (Nat × Tag) → List (Address × ExecutorBlockingContext)
  | [] => [(.emptyList, contextOf [])]
  | (frame, tag) :: outer =>
      (.guard frame, contextOf (tag :: outer.map Prod.snd)) :: stackOf outer

/-- The pointers are those of the living guards; on mobile platforms guards do
nothing. -/
def Linked (kIsMobile : Bool) (thread : Thread) (guards : List (Nat × Tag)) : Prop :=
  Chain thread.lists thread.executorBlockingList (stackOf (if kIsMobile then [] else guards))

section Linked

variable {kIsMobile : Bool} {thread after : Thread} {guards : List (Nat × Tag)} {frame : Nat}
  {tag : Tag}

theorem linked_start : Linked kIsMobile {} [] := by
  cases kIsMobile <;> exact ⟨rfl, rfl, rfl⟩

theorem mem_stackOf : .guard frame ∈ (stackOf guards).map Prod.fst ↔ frame ∈ guards.map Prod.fst := by
  induction guards with
  | nil => simp [stackOf]
  | cons head outer ih => simp [stackOf, ih]

theorem exists_stackOf (guards : List (Nat × Tag)) :
    ∃ address rest, stackOf guards = (address, contextOf (guards.map Prod.snd)) :: rest := by
  cases guards with
  | nil => exact ⟨_, _, rfl⟩
  | cons head outer => exact ⟨_, _, rfl⟩

theorem Linked.context (linked : Linked kIsMobile thread guards) :
    getExecutorBlockingContext kIsMobile thread =
      some (if kIsMobile then none else described (guards.map Prod.snd)) := by
  cases kIsMobile with
  | true =>
      obtain ⟨top, -, -⟩ := linked
      simp [getExecutorBlockingContext, top]
  | false =>
      obtain ⟨address, rest, stackIs⟩ := exists_stackOf guards
      have chain : Chain thread.lists thread.executorBlockingList (stackOf guards) := linked
      rw [stackIs] at chain
      obtain ⟨top, value, -⟩ := chain
      simp only [getExecutorBlockingContext, top, value, Bool.false_eq_true, false_or, if_false,
        described_eq]
      split <;> rfl

theorem Linked.construct (linked : Linked kIsMobile thread guards) (tag : Tag)
    (fresh : frame ∉ guards.map Prod.fst) :
    ∃ after, construct kIsMobile frame tag thread = some after ∧
      Linked kIsMobile after ((frame, tag) :: guards) := by
  cases kIsMobile with
  | true => exact ⟨thread, rfl, linked⟩
  | false =>
      have chain : Chain thread.lists thread.executorBlockingList (stackOf guards) := linked
      obtain ⟨address, rest, stackIs⟩ := exists_stackOf guards
      have top := chain
      rw [stackIs] at top
      obtain ⟨topIs, value, -⟩ := top
      refine ⟨{ executorBlockingList := some (.guard frame)
                lists := Function.update thread.lists (.guard frame)
                  ⟨some address, tag.write (thread.lists address).value⟩ }, ?_, ?_⟩
      · simp only [ExecutorBlocking.construct, topIs, Bool.false_eq_true, if_false]
      · rw [topIs] at chain
        have pushed := chain.push (contextOf (tag :: guards.map Prod.snd))
          (fun inside => fresh (mem_stackOf.mp inside))
        rw [value]
        exact pushed

theorem Linked.destruct (linked : Linked kIsMobile thread ((frame, tag) :: guards)) :
    ∃ after, destruct kIsMobile frame thread = some after ∧ Linked kIsMobile after guards := by
  cases kIsMobile with
  | true => exact ⟨thread, rfl, linked⟩
  | false =>
      obtain ⟨topIs, value, below⟩ := linked
      refine ⟨{ thread with executorBlockingList := (thread.lists (.guard frame)).prev }, ?_, below⟩
      simp [ExecutorBlocking.destruct, topIs]

/-- Another guard than the innermost one. -/
theorem Linked.mismatch (linked : Linked false thread guards)
    (other : guards.head?.map Prod.fst ≠ some frame) : ExecutorBlocking.destruct false frame thread = none := by
  have topIs : thread.executorBlockingList = (stackOf guards).head?.map Prod.fst := linked.top_eq
  cases guards with
  | nil => simp [ExecutorBlocking.destruct, topIs, stackOf]
  | cons head outer =>
      have different : head.1 ≠ frame := fun same => other (congrArg some same)
      simp [ExecutorBlocking.destruct, topIs, stackOf, different]

end Linked

/-- The pointers give every program the meaning that its scopes give it. -/
theorem Linked.execute {kIsMobile : Bool} (program : Program) {depth : Nat} {thread : Thread}
    {guards : List (Nat × Tag)} (linked : Linked kIsMobile thread guards)
    (outer : ∀ frame ∈ guards.map Prod.fst, frame < depth) :
    ∃ after, execute kIsMobile program depth thread =
        some (after, observe kIsMobile program (guards.map Prod.snd)) ∧
      Linked kIsMobile after guards := by
  induction program generalizing depth thread guards with
  | skip => exact ⟨thread, rfl, linked⟩
  | getContext =>
      refine ⟨thread, ?_, linked⟩
      simp [ExecutorBlocking.execute, linked.context, observe]
  | throw => exact ⟨thread, rfl, linked⟩
  | seq first second firstIh secondIh =>
      obtain ⟨between, ran, still⟩ := firstIh linked outer
      cases threw : (observe kIsMobile first (guards.map Prod.snd)).threw with
      | true =>
          refine ⟨between, ?_, still⟩
          simp [ExecutorBlocking.execute, ran, threw, observe]
      | false =>
          obtain ⟨after, ranOn, last⟩ := secondIh still outer
          refine ⟨after, ?_, last⟩
          simp [ExecutorBlocking.execute, ran, ranOn, threw, observe]
  | guard tag body bodyIh =>
      have fresh : depth ∉ guards.map Prod.fst := fun inside => Nat.lt_irrefl _ (outer _ inside)
      obtain ⟨inner, constructed, entered⟩ := linked.construct tag fresh
      have deeper : ∀ frame ∈ ((depth, tag) :: guards).map Prod.fst, frame < depth + 1 := by
        intro frame inside
        rcases List.mem_cons.mp inside with rfl | inside
        · exact Nat.lt_succ_self _
        · exact Nat.lt_succ_of_lt (outer frame inside)
      obtain ⟨left, ran, still⟩ := bodyIh entered deeper
      obtain ⟨after, destructed, last⟩ := still.destruct
      refine ⟨after, ?_, last⟩
      simp only [List.map_cons] at ran
      simp [ExecutorBlocking.execute, constructed, ran, destructed, observe]
  | attempt body handler bodyIh handlerIh =>
      obtain ⟨between, ran, still⟩ := bodyIh linked outer
      cases threw : (observe kIsMobile body (guards.map Prod.snd)).threw with
      | true =>
          obtain ⟨after, handled, last⟩ := handlerIh still outer
          refine ⟨after, ?_, last⟩
          simp [ExecutorBlocking.execute, ran, handled, threw, observe]
      | false =>
          refine ⟨between, ?_, still⟩
          simp [ExecutorBlocking.execute, ran, threw, observe]

/-- A program that uses guards as scopes never terminates with "dtor mismatch",
whatever it throws; it is told what the enclosing scopes say, and leaves the
thread's pointer where it was. -/
theorem scopes_respected (kIsMobile : Bool) (program : Program) :
    ∃ after, execute kIsMobile program 0 {} = some (after, observe kIsMobile program []) ∧
      after.executorBlockingList = some .emptyList := by
  obtain ⟨after, ran, linked⟩ := Linked.execute program linked_start (List.forall_mem_nil _)
  refine ⟨after, ran, ?_⟩
  have top := Chain.top_eq linked
  cases kIsMobile <;> exact top

/-- Tracking does not take back the termination that an outer guard allows. -/
example : observe false (.guard (.prohibit 1 "pool") (.guard (.track 2 "") .getContext)) [] =
    { seen := [some ⟨true, true, some 2, "pool"⟩] } := by
  decide

/-! ## Guards that are not locals -/

inductive Use where
  | construct (frame : Nat) (tag : Tag)
  | destruct (frame : Nat)
deriving DecidableEq, Repr

def perform (kIsMobile : Bool) : List Use → Thread → Option Thread
  | [], thread => some thread
  | .construct frame tag :: rest, thread =>
      (construct kIsMobile frame tag thread).bind (perform kIsMobile rest)
  | .destruct frame :: rest, thread =>
      (destruct kIsMobile frame thread).bind (perform kIsMobile rest)

/-- Only living guards are destroyed, and none is constructed over another. -/
def LivesOnce : List Nat → List Use → Prop
  | _, [] => True
  | living, .construct frame _ :: rest => frame ∉ living ∧ LivesOnce (frame :: living) rest
  | living, .destruct frame :: rest => frame ∈ living ∧ LivesOnce (living.erase frame) rest

/-- The guard that is destroyed is always the one constructed last. -/
def LastFirst : List Nat → List Use → Prop
  | _, [] => True
  | living, .construct frame _ :: rest => LastFirst (frame :: living) rest
  | living, .destruct frame :: rest => living.head? = some frame ∧ LastFirst living.tail rest

theorem Linked.perform_iff {thread : Thread} {guards : List (Nat × Tag)} {uses : List Use}
    (linked : Linked false thread guards) (once : LivesOnce (guards.map Prod.fst) uses) :
    (perform false uses thread).isSome = true ↔ LastFirst (guards.map Prod.fst) uses := by
  induction uses generalizing thread guards with
  | nil => exact ⟨fun _ => trivial, fun _ => rfl⟩
  | cons use rest ih =>
      cases use with
      | construct frame tag =>
          obtain ⟨after, constructed, still⟩ := linked.construct tag once.1
          simp only [perform, constructed, Option.bind_some]
          exact ih still once.2
      | destruct frame =>
          by_cases last : guards.head?.map Prod.fst = some frame
          · cases guards with
            | nil => cases last
            | cons head outer =>
                obtain ⟨own, tag⟩ := head
                cases last
                obtain ⟨after, destructed, still⟩ := linked.destruct
                have later : LivesOnce (outer.map Prod.fst) rest := by
                  have kept := once.2
                  rwa [List.map_cons, List.erase_cons_head] at kept
                simp only [perform, destructed, Option.bind_some, LastFirst, List.map_cons,
                  List.head?_cons, List.tail_cons, true_and]
                exact ih still later
          · simp only [perform, linked.mismatch last, Option.bind_none, Option.isSome_none,
              Bool.false_eq_true, LastFirst, List.head?_map, last, false_and]

/-- Guards that each live once terminate the process exactly when one is
destroyed before another that was constructed after it. -/
theorem dtor_mismatch_iff (uses : List Use) (once : LivesOnce [] uses) :
    perform false uses {} = none ↔ ¬ LastFirst [] uses := by
  rw [← Option.not_isSome_iff_eq_none]
  exact not_congr (Linked.perform_iff linked_start once)

theorem dtor_mismatch_iff_crossed :
    perform false [.construct 0 (.track 7 "a"), .construct 1 .permit, .destruct 0] {} = none := by
  refine (dtor_mismatch_iff _ ?_).mpr ?_
  · simp [LivesOnce]
  · simp [LastFirst]

end ThreadPoolExec.ExecutorBlocking
