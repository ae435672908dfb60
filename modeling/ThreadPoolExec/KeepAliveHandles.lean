import ThreadPoolExec.KeepAlive

/-!
# Words of keep-alive handles

Programs that make, copy, move and convert `KeepAlive` handles, to any number of
executors, with the assertions of the constructor. Pointer and flags share a
word: `operator bool` tests all of it, `get()` only the pointer.
-/

set_option autoImplicit false

namespace ThreadPoolExec.KeepAlive

/-- `operator bool`. -/
def Handle.bool (handle : Handle) : Bool :=
  handle.storage ≠ 0#64

/-- A conversion of pointers from one class to a base class of it. -/
structure Upcast where
  cast : Pointer → Pointer
  null : ∀ pointer, cast pointer = .null ↔ pointer = .null

/-- The variables of a program; `asserted` tells that no assertion has failed. -/
structure Handles where
  handles : List Handle := []
  asserted : Bool := true

namespace Handles

/-- `KeepAlive(executor, flags)`, and whether its assertions hold. -/
def construct (executor : Pointer) (flags : Word) : Handle × Bool :=
  (.make executor flags,
    executor ≠ .null ∧ executor.address &&& ~~~kExecutorMask = 0#64 ∧ flags &&& kExecutorMask = 0#64)

/-- `acquired` is what the executor's `keepAliveAcquire` returns. -/
def getKeepAliveToken (executor : Pointer) (acquired : Bool) : Handle × Bool :=
  if executor = .null then ({}, true)
  else if acquired then construct executor 0#64
  else construct executor kDummyFlag

/-- `copy()`. -/
def copy (handle : Handle) (acquired : Bool) : Handle × Bool :=
  if handle.isKeepAliveDummy then construct handle.get kDummyFlag
  else getKeepAliveToken handle.get acquired

/-- The converting move constructor. -/
def convert (handle : Handle) (upcast : Upcast) : Handle × Bool :=
  construct (upcast.cast handle.get) handle.flags

/-- The converting copy constructor: a token of the other class is converted. -/
def convertCopy (handle : Handle) (upcast : Upcast) (acquired : Bool) : Handle × Bool :=
  let token := getKeepAliveToken handle.get acquired
  let converted := convert token.1 upcast
  (converted.1, token.2 && converted.2)

/-- The operations on handles; `target` and `source` are positions of variables.
A new handle is a new variable. -/
inductive Operation where
  | default
  | fromExecutor (executor : Pointer) (acquired : Bool)
  | copyConstruct (source : Nat) (acquired : Bool)
  | moveConstruct (source : Nat)
  | convertingCopy (source : Nat) (upcast : Upcast) (acquired : Bool)
  | convertingMove (source : Nat) (upcast : Upcast)
  | copyAssign (target source : Nat) (acquired : Bool)
  | moveAssign (target source : Nat)
  | convertingCopyAssign (target source : Nat) (upcast : Upcast) (acquired : Bool)
  | convertingMoveAssign (target source : Nat) (upcast : Upcast)
  | copy (source : Nat) (acquired : Bool)
  | getAlias (source : Nat)
  | reset (target : Nat)

/-- A new variable. -/
def new (state : Handles) (made : Handle × Bool) : Handles where
  handles := state.handles ++ [made.1]
  asserted := state.asserted && made.2

/-- Assign to a variable from a temporary, whose word is taken over. -/
def assign (state : Handles) (target : Nat) (made : Handle × Bool) : Option Handles :=
  if target < state.handles.length then
    some ⟨state.handles.set target made.1, state.asserted && made.2⟩
  else none

/-- Leave a variable empty. -/
def clear (state : Handles) (source : Nat) : Handles :=
  { state with handles := state.handles.set source {} }

def step (state : Handles) : Operation → Option Handles
  | .default => some (state.new ({}, true))
  | .fromExecutor executor acquired => some (state.new (getKeepAliveToken executor acquired))
  | .copyConstruct source acquired =>
      state.handles[source]?.map fun other => state.new (getKeepAliveToken other.get acquired)
  | .moveConstruct source =>
      state.handles[source]?.map fun other => (state.clear source).new (other, true)
  | .convertingCopy source upcast acquired =>
      state.handles[source]?.map fun other => state.new (convertCopy other upcast acquired)
  | .convertingMove source upcast =>
      state.handles[source]?.map fun other => (state.clear source).new (convert other upcast)
  | .copyAssign target source acquired =>
      state.handles[source]?.bind fun other =>
        state.assign target (getKeepAliveToken other.get acquired)
  | .moveAssign target source =>
      if target = source then
        -- the exchange reads the word that `reset()` has left
        state.handles[source]?.bind fun other => state.assign target (other.reset, true)
      else
        state.handles[source]?.bind fun other => (state.clear source).assign target (other, true)
  | .convertingCopyAssign target source upcast acquired =>
      state.handles[source]?.bind fun other =>
        state.assign target (convertCopy other upcast acquired)
  | .convertingMoveAssign target source upcast =>
      state.handles[source]?.bind fun other =>
        (state.clear source).assign target (convert other upcast)
  | .copy source acquired =>
      state.handles[source]?.map fun other => state.new (Handles.copy other acquired)
  | .getAlias source => state.handles[source]?.map fun other => state.new (other.getAlias, true)
  | .reset target =>
      state.handles[target]?.bind fun handle => state.assign target (handle.reset, true)

def run (state : Handles) : List Operation → Option Handles
  | [] => some state
  | operation :: rest => (state.step operation).bind fun next => next.run rest

/-- The handle that is aliased or converted. -/
def Operation.alters : Operation → Option Nat
  | .convertingCopy source _ _ | .convertingMove source _ | .convertingCopyAssign _ source _ _
  | .convertingMoveAssign _ source _ | .getAlias source => some source
  | _ => none

/-- No empty handle is aliased or converted. -/
def Operation.SparesEmpty (operation : Operation) (state : Handles) : Prop :=
  ∀ source ∈ operation.alters, ∀ handle ∈ state.handles[source]?, handle.get ≠ .null

end Handles

/-- What a handle's word may be. -/
structure Handle.WellFormed (handle : Handle) : Prop where
  bool : handle.bool = true ↔ handle.get ≠ .null
  empty : handle.get = .null → handle.storage = 0#64

structure Handles.WellFormed (state : Handles) : Prop where
  handles : ∀ handle ∈ state.handles, handle.WellFormed
  asserted : state.asserted = true

/-! ## Words -/

namespace Handle

variable {handle : Handle} {executor : Pointer} {flags : Word}

theorem get_of_storage_eq_zero (zero : handle.storage = 0#64) : handle.get = .null := by
  simp only [get, Pointer.null, zero, BitVec.zero_and]

theorem wellFormed_iff : handle.WellFormed ↔ (handle.get = .null → handle.storage = 0#64) := by
  refine ⟨WellFormed.empty, fun empty => ⟨?_, empty⟩⟩
  rw [bool, decide_eq_true_eq]
  exact ⟨fun storage absent => storage (empty absent), fun present zero =>
    present (get_of_storage_eq_zero zero)⟩

theorem wellFormed_default : ({} : Handle).WellFormed :=
  wellFormed_iff.mpr fun _ => rfl

theorem wellFormed_of_get (present : handle.get ≠ .null) : handle.WellFormed :=
  wellFormed_iff.mpr fun absent => absurd absent present

theorem wellFormed_reset (wellFormed : handle.WellFormed) : handle.reset.WellFormed := by
  unfold reset
  split
  · exact wellFormed
  · exact wellFormed_default

theorem flags_and_kExecutorMask (handle : Handle) : handle.flags &&& kExecutorMask = 0#64 := by
  rw [Handle.flags, BitVec.and_assoc, show kFlagMask &&& kExecutorMask = 0#64 from by decide]
  exact BitVec.and_zero

theorem get_getAlias (handle : Handle) : handle.getAlias.get = handle.get := by
  simp only [getAlias, get, Pointer.mk.injEq]
  rw [BitVec.and_or_distrib_right, show kAliasFlag &&& kExecutorMask = 0#64 from by decide]
  exact BitVec.or_zero

/-- An alias of an empty handle is not empty by its word. -/
theorem wellFormed_getAlias_iff : handle.getAlias.WellFormed ↔ handle.get ≠ .null := by
  rw [wellFormed_iff, get_getAlias]
  refine ⟨fun empty absent => ?_, fun present absent => absurd absent present⟩
  have zero : handle.storage ||| kAliasFlag = 0#64 := empty absent
  rw [BitVec.or_eq_zero_iff] at zero
  exact absurd zero.2 (by decide)

theorem get_ne_null_of_isKeepAliveDummy (wellFormed : handle.WellFormed)
    (dummy : handle.isKeepAliveDummy = true) : handle.get ≠ .null := by
  intro absent
  rw [isKeepAliveDummy, wellFormed.empty absent] at dummy
  exact absurd dummy (by decide)

end Handle

/-! ## Steps -/

namespace Handles

section Made

variable {handle : Handle} {executor : Pointer} {flags : Word} {upcast : Upcast} {acquired : Bool}

/-- A handle that a step makes, with its assertions. -/
def Sound (made : Handle × Bool) : Prop :=
  made.1.WellFormed ∧ made.2 = true

theorem sound_iff : Sound (handle, true) ↔ handle.WellFormed :=
  and_iff_left rfl

/-- The constructor's assertions ask for a pointer and leave the flags to it. -/
theorem sound_construct_iff (low : flags &&& kExecutorMask = 0#64) :
    Sound (construct executor flags) ↔ executor ≠ .null := by
  have aligned : executor.address &&& ~~~kExecutorMask = 0#64 := by
    rw [show ~~~kExecutorMask = kFlagMask from by decide]
    exact executor.aligned
  have asserts : (construct executor flags).2 = true ↔ executor ≠ .null := by
    simp [construct, aligned, low]
  refine ⟨fun sound => asserts.mp sound.2, fun present => ⟨?_, asserts.mpr present⟩⟩
  apply Handle.wellFormed_of_get
  rw [construct, Handle.get_make low]
  exact present

theorem sound_getKeepAliveToken : Sound (getKeepAliveToken executor acquired) := by
  unfold getKeepAliveToken
  split
  · exact sound_iff.mpr Handle.wellFormed_default
  · next present =>
      split
      · exact (sound_construct_iff (by decide)).mpr present
      · exact (sound_construct_iff (by decide)).mpr present

theorem get_getKeepAliveToken : (getKeepAliveToken executor acquired).1.get = executor := by
  unfold getKeepAliveToken
  split
  · next absent =>
      rw [absent]
      decide
  · split
    · exact Handle.get_make (by decide)
    · exact Handle.get_make (by decide)

theorem sound_copy (wellFormed : handle.WellFormed) : Sound (copy handle acquired) := by
  unfold copy
  split
  · next dummy =>
      apply (sound_construct_iff (by decide)).mpr
      exact Handle.get_ne_null_of_isKeepAliveDummy wellFormed dummy
  · exact sound_getKeepAliveToken

theorem sound_convert_iff : Sound (convert handle upcast) ↔ handle.get ≠ .null := by
  rw [convert, sound_construct_iff handle.flags_and_kExecutorMask, ne_eq, upcast.null]

theorem sound_convertCopy_iff :
    Sound (convertCopy handle upcast acquired) ↔ handle.get ≠ .null := by
  have token : Sound (getKeepAliveToken handle.get acquired) := sound_getKeepAliveToken
  have converted :
      Sound (convert (getKeepAliveToken handle.get acquired).1 upcast) ↔
        (getKeepAliveToken handle.get acquired).1.get ≠ .null := sound_convert_iff
  rw [get_getKeepAliveToken] at converted
  rw [← converted, Sound, Sound, convertCopy, token.2, Bool.true_and]

end Made

section Steps

variable {state next last : Handles} {made : Handle × Bool} {target source : Nat}
  {operation : Operation}

theorem wellFormed_clear (wellFormed : state.WellFormed) : (state.clear source).WellFormed := by
  refine ⟨fun handle member => ?_, wellFormed.asserted⟩
  rcases List.mem_or_eq_of_mem_set member with before | rfl
  · exact wellFormed.handles handle before
  · exact Handle.wellFormed_default

theorem wellFormed_new_iff (wellFormed : state.WellFormed) :
    (state.new made).WellFormed ↔ Sound made := by
  constructor
  · rintro ⟨handles, asserted⟩
    rw [new, Bool.and_eq_true] at asserted
    exact ⟨handles made.1 (by simp [new]), asserted.2⟩
  · rintro ⟨sound, asserts⟩
    refine ⟨fun handle member => ?_, by rw [new, wellFormed.asserted, asserts]; rfl⟩
    rcases List.mem_append.mp member with before | last
    · exact wellFormed.handles handle before
    · rw [List.mem_singleton.mp last]
      exact sound

theorem wellFormed_assign_iff (wellFormed : state.WellFormed)
    (assigned : state.assign target made = some next) : next.WellFormed ↔ Sound made := by
  unfold assign at assigned
  split at assigned
  · next inside =>
      cases assigned
      constructor
      · rintro ⟨handles, asserted⟩
        rw [Bool.and_eq_true] at asserted
        exact ⟨handles made.1 (List.mem_set inside made.1), asserted.2⟩
      · rintro ⟨sound, asserts⟩
        refine ⟨fun handle member => ?_, by rw [wellFormed.asserted, asserts]; rfl⟩
        rcases List.mem_or_eq_of_mem_set member with before | rfl
        · exact wellFormed.handles handle before
        · exact sound
  · cases assigned

/-- Every operation but aliasing and converting an empty handle keeps the handles
well formed. -/
theorem wellFormed_step_iff (wellFormed : state.WellFormed)
    (stepped : state.step operation = some next) :
    next.WellFormed ↔ operation.SparesEmpty state := by
  have harmless (unaltered : operation.alters = none) : operation.SparesEmpty state := by
    rw [Operation.SparesEmpty, unaltered]
    exact nofun
  have altered {source : Nat} {handle : Handle} (alters : operation.alters = some source)
      (found : state.handles[source]? = some handle) :
      operation.SparesEmpty state ↔ handle.get ≠ .null := by
    simp [Operation.SparesEmpty, alters, found]
  have known {source : Nat} {handle : Handle} (found : state.handles[source]? = some handle) :
      handle.WellFormed := wellFormed.handles handle (List.mem_of_getElem? found)
  cases operation with
  | default =>
      cases stepped
      rw [wellFormed_new_iff wellFormed]
      exact iff_of_true (sound_iff.mpr Handle.wellFormed_default) (harmless rfl)
  | fromExecutor executor acquired =>
      cases stepped
      rw [wellFormed_new_iff wellFormed]
      exact iff_of_true sound_getKeepAliveToken (harmless rfl)
  | copyConstruct source acquired =>
      obtain ⟨other, found, rfl⟩ := Option.map_eq_some_iff.mp stepped
      rw [wellFormed_new_iff wellFormed]
      exact iff_of_true sound_getKeepAliveToken (harmless rfl)
  | moveConstruct source =>
      obtain ⟨other, found, rfl⟩ := Option.map_eq_some_iff.mp stepped
      rw [wellFormed_new_iff (wellFormed_clear wellFormed)]
      exact iff_of_true (sound_iff.mpr (known found)) (harmless rfl)
  | convertingCopy source upcast acquired =>
      obtain ⟨other, found, rfl⟩ := Option.map_eq_some_iff.mp stepped
      rw [wellFormed_new_iff wellFormed, altered rfl found]
      exact sound_convertCopy_iff
  | convertingMove source upcast =>
      obtain ⟨other, found, rfl⟩ := Option.map_eq_some_iff.mp stepped
      rw [wellFormed_new_iff (wellFormed_clear wellFormed), altered rfl found]
      exact sound_convert_iff
  | copyAssign target source acquired =>
      obtain ⟨other, found, assigned⟩ := Option.bind_eq_some_iff.mp stepped
      rw [wellFormed_assign_iff wellFormed assigned]
      exact iff_of_true sound_getKeepAliveToken (harmless rfl)
  | moveAssign target source =>
      simp only [step] at stepped
      split at stepped
      · obtain ⟨other, found, assigned⟩ := Option.bind_eq_some_iff.mp stepped
        rw [wellFormed_assign_iff wellFormed assigned]
        exact iff_of_true (sound_iff.mpr (Handle.wellFormed_reset (known found))) (harmless rfl)
      · obtain ⟨other, found, assigned⟩ := Option.bind_eq_some_iff.mp stepped
        rw [wellFormed_assign_iff (wellFormed_clear wellFormed) assigned]
        exact iff_of_true (sound_iff.mpr (known found)) (harmless rfl)
  | convertingCopyAssign target source upcast acquired =>
      obtain ⟨other, found, assigned⟩ := Option.bind_eq_some_iff.mp stepped
      rw [wellFormed_assign_iff wellFormed assigned, altered rfl found]
      exact sound_convertCopy_iff
  | convertingMoveAssign target source upcast =>
      obtain ⟨other, found, assigned⟩ := Option.bind_eq_some_iff.mp stepped
      rw [wellFormed_assign_iff (wellFormed_clear wellFormed) assigned, altered rfl found]
      exact sound_convert_iff
  | copy source acquired =>
      obtain ⟨other, found, rfl⟩ := Option.map_eq_some_iff.mp stepped
      rw [wellFormed_new_iff wellFormed]
      exact iff_of_true (sound_copy (known found)) (harmless rfl)
  | getAlias source =>
      obtain ⟨other, found, rfl⟩ := Option.map_eq_some_iff.mp stepped
      rw [wellFormed_new_iff wellFormed, altered rfl found, sound_iff]
      exact Handle.wellFormed_getAlias_iff
  | reset target =>
      obtain ⟨handle, found, assigned⟩ := Option.bind_eq_some_iff.mp stepped
      rw [wellFormed_assign_iff wellFormed assigned]
      exact iff_of_true (sound_iff.mpr (Handle.wellFormed_reset (known found))) (harmless rfl)

/-! ## Programs -/

/-- No operation of a program aliases or converts an empty handle. -/
def SparesEmpty (state : Handles) : List Operation → Prop
  | [] => True
  | operation :: rest =>
      operation.SparesEmpty state ∧ ∀ next ∈ state.step operation, next.SparesEmpty rest

/-- The handles are well formed after each operation of a program. -/
def AlwaysWellFormed (state : Handles) : List Operation → Prop
  | [] => state.WellFormed
  | operation :: rest =>
      state.WellFormed ∧ ∀ next ∈ state.step operation, next.AlwaysWellFormed rest

theorem AlwaysWellFormed.first {operations : List Operation}
    (always : state.AlwaysWellFormed operations) : state.WellFormed := by
  cases operations with
  | nil => exact always
  | cons operation rest => exact always.1

theorem alwaysWellFormed_iff (wellFormed : state.WellFormed) {operations : List Operation}
    (replayed : state.run operations = some last) :
    state.AlwaysWellFormed operations ↔ state.SparesEmpty operations := by
  induction operations generalizing state with
  | nil => exact iff_of_true wellFormed trivial
  | cons operation rest ih =>
      obtain ⟨next, stepped, replayed⟩ := Option.bind_eq_some_iff.mp replayed
      have step := wellFormed_step_iff wellFormed stepped
      simp only [AlwaysWellFormed, SparesEmpty, stepped, Option.mem_some, forall_eq', wellFormed,
        true_and]
      constructor
      · intro always
        exact ⟨step.mp always.first, (ih always.first replayed).mp always⟩
      · rintro ⟨spares, sparesRest⟩
        exact (ih (step.mpr spares) replayed).mpr sparesRest

end Steps

theorem wellFormed_start : ({} : Handles).WellFormed :=
  ⟨nofun, rfl⟩

/-- The handles of a program are well formed all along, and all assertions hold,
exactly if it never aliases or converts an empty handle. -/
theorem handles_wellFormed (operations : List Operation) (last : Handles)
    (replayed : ({} : Handles).run operations = some last) :
    ({} : Handles).AlwaysWellFormed operations ↔ ({} : Handles).SparesEmpty operations :=
  alwaysWellFormed_iff wellFormed_start replayed

private def sameClass : Upcast := ⟨id, fun _ => Iff.rfl⟩

/-- A handle to an executor is aliased, and the alias moved to another class. -/
theorem handles_wellFormed_alias :
    ({} : Handles).AlwaysWellFormed [.fromExecutor ⟨8#64, by decide⟩ true, .getAlias 0,
      .convertingMove 1 sameClass] := by
  have replayed : (({} : Handles).run [.fromExecutor ⟨8#64, by decide⟩ true, .getAlias 0,
      .convertingMove 1 sameClass]).isSome := by decide
  obtain ⟨last, replayed⟩ := Option.isSome_iff_exists.mp replayed
  apply (handles_wellFormed _ last replayed).mpr
  refine ⟨nofun, ?_⟩
  rintro _ ⟨⟩
  refine ⟨?_, ?_⟩
  · rintro _ ⟨⟩ _ ⟨⟩
    decide
  · rintro _ ⟨⟩
    refine ⟨?_, fun _ _ => trivial⟩
    rintro _ ⟨⟩ _ ⟨⟩
    decide

/-- An alias of an empty handle converts to true and has no executor, and the
conversion of an empty handle fails an assertion. -/
theorem not_handles_wellFormed :
    (∃ last, ({} : Handles).run [.default, .getAlias 0] = some last ∧
      ∃ handle ∈ last.handles, handle.bool = true ∧ handle.get = .null) ∧
    (∃ last, ({} : Handles).run [.default, .convertingMove 0 sameClass] = some last ∧
      last.asserted = false) ∧
    ¬∀ operations last, ({} : Handles).run operations = some last →
      ({} : Handles).AlwaysWellFormed operations := by
  refine ⟨⟨_, rfl, ⟨2#64⟩, by decide, by decide, by decide⟩, ⟨_, rfl, by decide⟩, fun always => ?_⟩
  have wellFormed := always [.default, .getAlias 0] _ rfl
  have last := (wellFormed.2 _ rfl).2 _ rfl
  exact absurd (last.handles ⟨2#64⟩ (by decide)).bool (by decide)

end Handles

end ThreadPoolExec.KeepAlive
