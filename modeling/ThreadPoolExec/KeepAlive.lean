import ThreadPoolExec.Interleaving

/-!
# Keep-alive handles

`Executor::KeepAlive` handles to one `DefaultKeepAliveExecutor`, its
`WeakRef`s and one call of `joinKeepAlive()`. A handle is its word of storage.
A step of a call is one access to `keepAliveCount_` or to the baton; what a
call does to handles that only it may touch is part of the step before.
-/

set_option autoImplicit false

open Interleaving

namespace ThreadPoolExec.KeepAlive

/-- `uintptr_t`. -/
abbrev Word := BitVec 64

def kDummyFlag : Word := 1#64
def kAliasFlag : Word := 2#64
def kFlagMask : Word := kDummyFlag ||| kAliasFlag
def kExecutorMask : Word := ~~~kFlagMask

/-- A pointer to an executor, null or aligned, so that the flags fit below it. -/
structure Pointer where
  address : Word
  aligned : address &&& kFlagMask = 0#64
deriving DecidableEq

namespace Pointer

def null : Pointer := ⟨0#64, by decide⟩

end Pointer

/-- A `KeepAlive` object. -/
structure Handle where
  storage : Word := 0#64
deriving DecidableEq

namespace Handle

/-- `KeepAlive(executor, flags)`. -/
def make (executor : Pointer) (flags : Word) : Handle :=
  ⟨executor.address ||| flags⟩

def get (handle : Handle) : Pointer :=
  ⟨handle.storage &&& kExecutorMask, by
    rw [BitVec.and_assoc, show kExecutorMask &&& kFlagMask = 0#64 from by decide]
    exact BitVec.and_zero⟩

def flags (handle : Handle) : Word :=
  handle.storage &&& kFlagMask

def makeKeepAlive (executor : Pointer) : Handle :=
  make executor 0#64

def makeKeepAliveDummy (executor : Pointer) : Handle :=
  make executor kDummyFlag

def isKeepAliveDummy (handle : Handle) : Bool :=
  handle.storage &&& kDummyFlag ≠ 0#64

def getAlias (handle : Handle) : Handle :=
  ⟨handle.storage ||| kAliasFlag⟩

/-- Moved into a handle to another class of the same executor, at which it has
the address `pointer`. -/
def convert (handle : Handle) (pointer : Pointer) : Handle :=
  make pointer handle.flags

/-- What `reset()` leaves of the word: it is only cleared where there is a
pointer. -/
def reset (handle : Handle) : Handle :=
  if handle.get = .null then handle else {}

/-- The executor that `reset()` releases, if it does. -/
def releases (handle : Handle) : Option Pointer :=
  if handle.get = .null then none
  else if handle.flags &&& (kDummyFlag ||| kAliasFlag) = 0#64 then some handle.get
  else none

variable {executor : Pointer} {flags : Word}

theorem get_make (low : flags &&& kExecutorMask = 0#64) : (make executor flags).get = executor := by
  obtain ⟨address, aligned⟩ := executor
  have high : address &&& kExecutorMask = address := by
    have split : address &&& (kFlagMask ||| kExecutorMask) = address := by
      rw [show kFlagMask ||| kExecutorMask = BitVec.allOnes 64 from by decide]
      exact BitVec.and_allOnes
    rw [BitVec.and_or_distrib_left, aligned, BitVec.zero_or] at split
    exact split
  simp only [make, get, Pointer.mk.injEq]
  rw [BitVec.and_or_distrib_right, high, low, BitVec.or_zero]

theorem flags_make (low : flags &&& kFlagMask = flags) : (make executor flags).flags = flags := by
  simp only [make, Handle.flags]
  rw [BitVec.and_or_distrib_right, executor.aligned, low, BitVec.zero_or]

theorem releases_makeKeepAlive (present : executor ≠ .null) :
    (makeKeepAlive executor).releases = some executor := by
  have got : (makeKeepAlive executor).get = executor := get_make (by decide)
  have plain : (makeKeepAlive executor).flags = 0#64 := flags_make (by decide)
  unfold releases
  rw [got, if_neg present, plain, if_pos (by decide)]

theorem releases_makeKeepAliveDummy : (makeKeepAliveDummy executor).releases = none := by
  have dummy : (makeKeepAliveDummy executor).flags = kDummyFlag := flags_make (by decide)
  unfold releases
  rw [dummy]
  split
  · rfl
  · exact if_neg (by decide)

theorem releases_getAlias (handle : Handle) : handle.getAlias.releases = none := by
  have aliased : handle.getAlias.flags &&& (kDummyFlag ||| kAliasFlag) ≠ 0#64 := by
    intro plain
    have kept : (handle.getAlias.flags &&& (kDummyFlag ||| kAliasFlag)) &&& kAliasFlag = 0#64 := by
      rw [plain, BitVec.zero_and]
    have set : (handle.getAlias.flags &&& (kDummyFlag ||| kAliasFlag)) &&& kAliasFlag =
        (handle.storage ||| kAliasFlag) &&& kAliasFlag := by
      simp only [getAlias, Handle.flags, BitVec.and_assoc]
      congr 1
    rw [set, BitVec.and_or_distrib_right, BitVec.and_self, BitVec.or_eq_zero_iff] at kept
    exact absurd kept.2 (by decide)
  unfold releases
  rw [if_neg aliased, ite_self]

theorem releases_convert (handle : Handle) {pointer : Pointer}
    (same : pointer = .null ↔ handle.get = .null) :
    (handle.convert pointer).releases = handle.releases.map fun _ => pointer := by
  have low : handle.flags &&& kFlagMask = handle.flags := by
    simp only [Handle.flags, BitVec.and_assoc, BitVec.and_self]
  have outside : handle.flags &&& kExecutorMask = 0#64 := by
    rw [Handle.flags, BitVec.and_assoc, show kFlagMask &&& kExecutorMask = 0#64 from by decide]
    exact BitVec.and_zero
  unfold releases
  rw [convert, get_make outside, flags_make low]
  by_cases absent : handle.get = .null
  · rw [if_pos (same.mpr absent), if_pos absent]
    rfl
  · rw [if_neg fun present => absent (same.mp present), if_neg absent]
    split <;> rfl

theorem releases_default : ({} : Handle).releases = none := by decide

theorem releases_reset (handle : Handle) : handle.reset.releases = none := by
  unfold reset
  split
  · next empty => exact if_pos empty
  · exact releases_default

end Handle

/-! ## The calls -/

/-- The addresses of the executor, one for each of its classes. -/
structure Layout where
  this : Pointer
  isThis : Pointer → Bool
  isThis_this : isThis this = true
  isThis_null : isThis .null = false

structure Memory where
  /-- The handles that no call is at work on. -/
  handles : List Handle := []
  /-- The executor's own `keepAlive_`. -/
  keepAlive : Handle
  keepAliveCount : Int := 1
  /-- The posts of `keepAliveReleaseBaton_`. -/
  posts : Nat := 0
  joining : Bool := false
  joined : Bool := false
  /-- How many calls of `lock()` have succeeded. -/
  locked : Nat := 0
  /-- How many calls of a `WeakRef` have reached the executor. -/
  called : Nat := 0
  /-- Every `DCHECK` so far has held. -/
  checked : Bool := true
deriving DecidableEq

/-- What a call does once its `reset()` is through. -/
inductive After where
  | store (handle : Handle)
  | destroy
  | wait
deriving DecidableEq

/-- Where a call is. -/
inductive Agent where
  /-- In `getKeepAliveToken`, for a new handle or to assign to `target`. -/
  | acquire (executor : Pointer) (target : Option Handle)
  | release (executor : Pointer) (after : After)
  | post (after : After)
  /-- In `lock()`, called from `add` or for a handle. -/
  | lock (executor : Pointer) (add : Bool)
  | exchange (executor : Pointer) (controlBlock : Int) (add : Bool)
  /-- In the executor's own `add`. -/
  | call (handle : Handle)
  /-- Before `keepAliveReleaseBaton_.wait()`. -/
  | wait
deriving DecidableEq

def finish (memory : Memory) : After → Memory × List Agent
  | .store handle => ({ memory with handles := handle :: memory.handles }, [])
  | .destroy => (memory, [])
  | .wait => (memory, [.wait])

/-- `handle.reset()`. -/
def reset (memory : Memory) (handle : Handle) (after : After) : Memory × List Agent :=
  match handle.releases with
  | some executor => (memory, [.release executor after])
  | none => finish memory after

/-- A new token is stored in a new handle, or moved into `target`. -/
def deliver (memory : Memory) (token : Handle) : Option Handle → Memory × List Agent
  | none => finish memory (.store token)
  | some target => reset memory target (.store token)

/-- The end of `lock()`. -/
def lockEnd (memory : Memory) (token : Option Handle) (add : Bool) : Memory × List Agent :=
  match token with
  | some handle => if add then (memory, [.call handle]) else finish memory (.store handle)
  | none => if add then (memory, []) else finish memory (.store {})

/-- `choice` is what the `keepAliveAcquire` of another executor returns, and
whether a weak exchange that may succeed does. -/
def act (layout : Layout) (choice : Bool) (memory : Memory) :
    Agent → Option (Memory × List Agent)
  | .acquire executor target =>
      if layout.isThis executor then
        some (deliver
          { memory with
            keepAliveCount := memory.keepAliveCount + 1
            checked := memory.checked && decide (memory.keepAliveCount > 0) }
          (.makeKeepAlive executor) target)
      else if choice then some (deliver memory (.makeKeepAlive executor) target)
      else some (deliver memory (.makeKeepAliveDummy executor) target)
  | .release executor after =>
      if layout.isThis executor then
        let released := { memory with
          keepAliveCount := memory.keepAliveCount - 1
          checked := memory.checked && decide (memory.keepAliveCount ≥ 1) }
        if memory.keepAliveCount = 1 then some (released, [.post after])
        else some (finish released after)
      else some (finish memory after)
  | .post after => some (finish { memory with posts := memory.posts + 1 } after)
  | .lock executor add =>
      if memory.keepAliveCount = 0 then some (lockEnd memory none add)
      else some (memory, [.exchange executor memory.keepAliveCount add])
  | .exchange executor controlBlock add =>
      if memory.keepAliveCount = controlBlock ∧ choice then
        some (lockEnd
          { memory with keepAliveCount := controlBlock + 1, locked := memory.locked + 1 }
          (some (.makeKeepAlive executor)) add)
      else if memory.keepAliveCount = 0 then some (lockEnd memory none add)
      else some (memory, [.exchange executor memory.keepAliveCount add])
  | .call handle => some (reset { memory with called := memory.called + 1 } handle .destroy)
  | .wait => if 0 < memory.posts then some ({ memory with joined := true }, []) else none

/-- What a program can do with handles; `source` and `target` are positions. -/
inductive Operation where
  | construct
  | getKeepAliveToken (executor : Pointer)
  | copyConstruct (source : Nat)
  | copy (source : Nat)
  | moveConstruct (source : Nat)
  | convert (source : Nat) (pointer : Pointer)
  | getAlias (source : Nat)
  | copyAssign (target source : Nat)
  | moveAssign (target source : Nat)
  | selfMove (target : Nat)
  | reset (target : Nat)
  | destroy (target : Nat)
  | lock (executor : Pointer)
  | add (executor : Pointer)
  | joinKeepAlive
deriving DecidableEq

/-- Take the handle at a position out of the memory. -/
def take (memory : Memory) (index : Nat) : Option (Handle × Memory) :=
  memory.handles[index]?.map fun handle =>
    (handle, { memory with handles := memory.handles.eraseIdx index })

/-- `getKeepAliveToken(executor)`, before the handle is stored. -/
def getKeepAliveToken (memory : Memory) (executor : Pointer) (target : Option Handle) :
    Memory × List Agent :=
  if executor = .null then deliver memory {} target else (memory, [.acquire executor target])

/-- The executor pointers of two handles to one object: a conversion keeps
null, and which executor it is. -/
def Layout.sameObject (layout : Layout) (pointer other : Pointer) : Bool :=
  (pointer = .null ↔ other = .null) ∧ layout.isThis pointer = layout.isThis other

def env (layout : Layout) : Operation → Memory → Option (Memory × List Agent)
  | .construct, memory => some (finish memory (.store {}))
  | .getKeepAliveToken executor, memory => some (getKeepAliveToken memory executor none)
  | .copyConstruct source, memory =>
      memory.handles[source]?.map fun other => getKeepAliveToken memory other.get none
  | .copy source, memory =>
      memory.handles[source]?.map fun other =>
        if other.isKeepAliveDummy then
          finish memory (.store (.makeKeepAliveDummy other.get))
        else getKeepAliveToken memory other.get none
  | .moveConstruct source, memory =>
      (take memory source).map fun (other, memory) =>
        ({ memory with handles := other :: {} :: memory.handles }, [])
  | .convert source pointer, memory =>
      match take memory source with
      | some (other, memory) =>
          if layout.sameObject pointer other.get then
            some ({ memory with handles := other.convert pointer :: {} :: memory.handles }, [])
          else none
      | none => none
  | .getAlias source, memory =>
      memory.handles[source]?.map fun other => finish memory (.store other.getAlias)
  | .copyAssign target source, memory =>
      match memory.handles[source]?, take memory target with
      | some other, some (handle, memory) =>
          some (getKeepAliveToken memory other.get (some handle))
      | _, _ => none
  | .moveAssign target source, memory =>
      match take memory target with
      | some (handle, memory) =>
          (take memory source).map fun (other, memory) =>
            reset { memory with handles := {} :: memory.handles } handle (.store other)
      | none => none
  | .selfMove target, memory =>
      -- the exchange reads the word that `reset()` has left
      (take memory target).map fun (handle, memory) => reset memory handle (.store handle.reset)
  | .reset target, memory =>
      (take memory target).map fun (handle, memory) => reset memory handle (.store handle.reset)
  | .destroy target, memory =>
      (take memory target).map fun (handle, memory) => reset memory handle .destroy
  | .lock executor, memory =>
      if layout.isThis executor then some (memory, [.lock executor false]) else none
  | .add executor, memory =>
      if layout.isThis executor then some (memory, [.lock executor true]) else none
  | .joinKeepAlive, memory =>
      if memory.joining then none
      else
        some (reset
          { memory with
            keepAlive := {}
            joining := true
            checked := memory.checked && decide (memory.keepAlive.storage ≠ 0#64) }
          memory.keepAlive .wait)

def system (layout : Layout) : System Memory Agent Bool Operation where
  init := ⟨{ keepAlive := .makeKeepAlive layout.this }, []⟩
  act := act layout
  env := env layout

/-! ## Handles that own a count -/

section Owners

variable (layout : Layout)

/-- The handle is to the executor, and neither dummy nor alias. -/
def Handle.owns (handle : Handle) : Nat :=
  if handle.releases.any layout.isThis then 1 else 0

def After.owned : After → Nat
  | .store handle => handle.owns layout
  | _ => 0

/-- The owning handles that a call has in its hands. -/
def Agent.holds : Agent → Nat
  | .acquire _ (some target) => target.owns layout
  | .release _ after | .post after => after.owned layout
  | .call handle => handle.owns layout
  | _ => 0

/-- An owning handle lives until its release is through. -/
def Agent.lives : Agent → Nat
  | .release executor after => (if layout.isThis executor then 1 else 0) + after.owned layout
  | agent => agent.holds layout

/-- The calls about to post. -/
def Agent.posts : Agent → Nat
  | .post _ => 1
  | _ => 0

def idle (memory : Memory) : Nat :=
  total (Handle.owns layout) memory.handles + memory.keepAlive.owns layout

/-- The live handles to the executor that are neither dummy nor alias. -/
def live (state : Global Memory Agent) : Nat :=
  idle layout state.shared + total (Agent.lives layout) state.agents

/-- New tokens are made through a live owning handle, one not being released. -/
def throughLive (state : Global Memory Agent) : Label Bool Operation → Prop
  | .act index _ =>
      match state.agents[index]? with
      | some (.acquire executor _) =>
          layout.isThis executor →
            0 < idle layout state.shared + total (Agent.holds layout) state.agents
      | _ => True
  | .env _ => True

instance (state : Global Memory Agent) (label : Label Bool Operation) :
    Decidable (throughLive layout state label) := by
  unfold throughLive
  split
  · split <;> infer_instance
  · infer_instance

end Owners

section

variable {layout : Layout}

theorem Handle.owns_eq_zero {handle : Handle} (keeps : handle.releases = none) :
    handle.owns layout = 0 := by
  simp [owns, keeps]

theorem Handle.owns_makeKeepAlive {executor : Pointer} (this : layout.isThis executor = true) :
    (makeKeepAlive executor).owns layout = 1 := by
  have present : executor ≠ .null := by
    rintro rfl
    simp [layout.isThis_null] at this
  simp [owns, releases_makeKeepAlive present, this]

theorem Handle.owns_other {executor : Pointer} (other : layout.isThis executor = false) :
    (makeKeepAlive executor).owns layout = 0 := by
  by_cases present : executor = .null
  · subst present
    exact owns_eq_zero (by decide)
  · simp [owns, releases_makeKeepAlive present, other]

theorem Handle.owns_convert {handle : Handle} {pointer : Pointer}
    (same : layout.sameObject pointer handle.get = true) :
    (handle.convert pointer).owns layout = handle.owns layout := by
  simp only [Layout.sameObject, Bool.decide_and, Bool.and_eq_true, decide_eq_true_eq] at same
  unfold owns
  rw [releases_convert handle same.1]
  cases released : handle.releases with
  | none => rfl
  | some executor =>
      have got : executor = handle.get := by
        unfold Handle.releases at released
        split at released
        · cases released
        · split at released
          · exact (Option.some.inj released).symm
          · cases released
      simp [got, same.2]

theorem Layout.storage_ne_zero (layout : Layout) :
    (Handle.makeKeepAlive layout.this).storage ≠ 0#64 := by
  intro zero
  have address : layout.this.address = 0#64 := (BitVec.or_eq_zero_iff.mp zero).1
  have null : layout.this = .null := by
    cases same : layout.this
    simpa only [Pointer.null, Pointer.mk.injEq, same] using address
  have other := layout.isThis_null
  rw [← null, layout.isThis_this] at other
  cases other

/-! ## What a step leaves -/

def Agent.Sound (layout : Layout) : Agent → Prop
  | .lock executor _ => layout.isThis executor = true
  | .exchange executor controlBlock _ => layout.isThis executor = true ∧ controlBlock ≠ 0
  | .call handle => handle.owns layout = 1
  | _ => True

/-- What a part of a step leaves when `owned` handles that own a count are in
its hands and it neither counts nor posts. -/
structure Leaves (layout : Layout) (memory : Memory) (owned : Nat)
    (result : Memory × List Agent) : Prop where
  frame : result.1 = { memory with handles := result.1.handles }
  owners : total (Handle.owns layout) result.1.handles + total (Agent.lives layout) result.2 =
    total (Handle.owns layout) memory.handles + owned
  posts : total Agent.posts result.2 = 0
  sound : ∀ agent ∈ result.2, agent.Sound layout

theorem leaves_finish (layout : Layout) (memory : Memory) (after : After) :
    Leaves layout memory (after.owned layout) (finish memory after) := by
  cases after with
  | store handle =>
      refine ⟨rfl, ?_, rfl, nofun⟩
      simp only [finish, After.owned, total_cons, total_nil]
      omega
  | destroy => exact ⟨rfl, rfl, rfl, nofun⟩
  | wait =>
      refine ⟨rfl, rfl, rfl, fun agent member => ?_⟩
      rw [List.mem_singleton.mp member]
      trivial

theorem leaves_store {memory : Memory} {handle : Handle} (keeps : handle.releases = none) :
    Leaves layout memory 0 (finish memory (.store handle)) := by
  have finished := leaves_finish layout memory (.store handle)
  rwa [After.owned, Handle.owns_eq_zero keeps] at finished

theorem leaves_reset (layout : Layout) (memory : Memory) (handle : Handle) (after : After) :
    Leaves layout memory (handle.owns layout + after.owned layout)
      (reset memory handle after) := by
  unfold reset
  cases released : handle.releases with
  | none =>
      rw [Handle.owns_eq_zero released, Nat.zero_add]
      exact leaves_finish layout memory after
  | some executor =>
      refine ⟨rfl, ?_, rfl, fun agent member => ?_⟩
      · simp [Agent.lives, Handle.owns, released]
      · rw [List.mem_singleton.mp member]
        trivial

/-- A handle that is reset stays. -/
theorem leaves_emptied (layout : Layout) (memory : Memory) (handle : Handle) :
    Leaves layout memory (handle.owns layout) (reset memory handle (.store handle.reset)) := by
  have left := leaves_reset layout memory handle (.store handle.reset)
  rwa [After.owned, Handle.owns_eq_zero handle.releases_reset, Nat.add_zero] at left

theorem leaves_deliver (layout : Layout) (memory : Memory) (token : Handle)
    (target : Option Handle) :
    Leaves layout memory ((Agent.acquire .null target).holds layout + token.owns layout)
      (deliver memory token target) := by
  cases target with
  | none =>
      have finished := leaves_finish layout memory (.store token)
      rwa [show After.owned layout (.store token) = 0 + token.owns layout from
        (Nat.zero_add _).symm] at finished
  | some target => exact leaves_reset layout memory target (.store token)

/-! ## The count -/

/-- The count and the posts agree with handles that `lives` calls have in
their hands and `posts` calls about to post. -/
structure Balance (layout : Layout) (memory : Memory) (lives posts : Nat) : Prop where
  count : memory.keepAliveCount = (idle layout memory + lives : Nat)
  posted : memory.posts + posts = if memory.keepAliveCount = 0 then 1 else 0
  checked : memory.checked = true
  joining : memory.joining = false → memory.keepAlive = .makeKeepAlive layout.this
  joined : memory.joined = true → 0 < memory.posts

structure Counted (layout : Layout) (memory : Memory) (agents : List Agent) : Prop where
  balance : Balance layout memory (total (Agent.lives layout) agents) (total Agent.posts agents)
  sound : ∀ agent ∈ agents, agent.Sound layout

theorem Leaves.balance {memory : Memory} {owned lives posts : Nat} {result : Memory × List Agent}
    (leaves : Leaves layout memory owned result)
    (balance : Balance layout memory (owned + lives) posts) :
    Balance layout result.1 (total (Agent.lives layout) result.2 + lives)
      (total Agent.posts result.2 + posts) := by
  obtain ⟨changed, left⟩ := result
  obtain ⟨frame, owners, posting, sound⟩ := leaves
  obtain ⟨count, posted, checked, joining, joined⟩ := balance
  simp only at frame owners posting
  rw [frame]
  refine ⟨?_, ?_, checked, joining, joined⟩
  · simp only [idle] at count ⊢
    rw [count]
    congr 1
    omega
  · simpa only [posting, Nat.zero_add] using posted

theorem Counted.of_leaves {memory : Memory} {owned : Nat} {result : Memory × List Agent}
    {rest : List Agent} (leaves : Leaves layout memory owned result)
    (balance : Balance layout memory (owned + total (Agent.lives layout) rest)
      (total Agent.posts rest))
    (sound : ∀ agent ∈ rest, agent.Sound layout) :
    Counted layout result.1 (result.2 ++ rest) := by
  refine ⟨?_, fun agent member => ?_⟩
  · simp only [total_append]
    exact leaves.balance balance
  · rcases List.mem_append.mp member with left | other
    · exact leaves.sound agent left
    · exact sound agent other

/-- Nothing that counts has changed. -/
theorem Balance.same {memory changed : Memory} {lives other posts posting : Nat}
    (balance : Balance layout memory lives posts)
    (frame : changed = { memory with handles := changed.handles, called := changed.called })
    (owners : total (Handle.owns layout) changed.handles + other =
      total (Handle.owns layout) memory.handles + lives)
    (samePosts : posts = posting) :
    Balance layout changed other posting := by
  obtain ⟨count, posted, checked, joining, joined⟩ := balance
  subst samePosts
  rw [frame]
  refine ⟨?_, posted, checked, joining, joined⟩
  simp only [idle] at count ⊢
  rw [count]
  congr 1
  omega

theorem Balance.acquired {memory changed : Memory} {lives other posts posting : Nat}
    (balance : Balance layout memory lives posts) (positive : 0 < memory.keepAliveCount)
    (frame : changed = { memory with
      keepAliveCount := memory.keepAliveCount + 1
      locked := changed.locked
      checked := changed.checked })
    (checks : changed.checked = true) (more : other = lives + 1) (samePosts : posts = posting) :
    Balance layout changed other posting := by
  obtain ⟨count, posted, checked, joining, joined⟩ := balance
  subst more samePosts
  rw [frame]
  refine ⟨?_, ?_, checks, joining, joined⟩
  · simp only [idle] at count ⊢
    omega
  · simp only
    rw [posted, if_neg (by omega), if_neg (by omega)]

theorem Balance.released {memory : Memory} (changed : Memory) {lives other posts : Nat}
    (balance : Balance layout memory lives posts) (fewer : lives = other + 1)
    (frame : changed = { memory with
      keepAliveCount := memory.keepAliveCount - 1
      checked := changed.checked })
    (checks : 1 ≤ memory.keepAliveCount → changed.checked = true) :
    Balance layout changed other (posts + if memory.keepAliveCount = 1 then 1 else 0) := by
  obtain ⟨count, posted, checked, joining, joined⟩ := balance
  subst fewer
  have positive : 1 ≤ memory.keepAliveCount := by
    rw [count]
    omega
  rw [frame]
  refine ⟨?_, ?_, checks positive, joining, joined⟩
  · simp only [idle] at count ⊢
    omega
  · simp only
    rw [← Nat.add_assoc, posted, if_neg (by omega), Nat.zero_add]
    exact if_congr (by omega) rfl rfl

theorem leaves_lockEnd (memory : Memory) (executor : Pointer)
    (this : layout.isThis executor = true) (add : Bool) :
    Leaves layout memory 1 (lockEnd memory (some (.makeKeepAlive executor)) add) := by
  have owner := Handle.owns_makeKeepAlive this
  cases add with
  | false =>
      have finished := leaves_finish layout memory (.store (.makeKeepAlive executor))
      rwa [show After.owned layout (.store (.makeKeepAlive executor)) = 1 from owner] at finished
  | true =>
      refine ⟨rfl, ?_, rfl, fun agent member => ?_⟩
      · simp [lockEnd, Agent.lives, Agent.holds, owner]
      · rw [List.mem_singleton.mp member]
        exact owner

theorem leaves_lockEnd_none (layout : Layout) (memory : Memory) (add : Bool) :
    Leaves layout memory 0 (lockEnd memory none add) := by
  cases add with
  | false => exact leaves_finish layout memory (.store {})
  | true => exact ⟨rfl, rfl, rfl, nofun⟩

theorem lives_acquire (executor : Pointer) (target : Option Handle) :
    (Agent.acquire executor target).lives layout = (Agent.acquire .null target).holds layout := by
  cases target <;> rfl

private theorem counted_act {choice : Bool} {memory : Memory} {agent : Agent}
    {rest : List Agent} {result : Memory × List Agent}
    (counted : Counted layout memory (agent :: rest))
    (through : ∀ executor target, agent = .acquire executor target →
      layout.isThis executor = true → 0 < memory.keepAliveCount)
    (acted : act layout choice memory agent = some result) :
    Counted layout result.1 (result.2 ++ rest) := by
  obtain ⟨balance, sound⟩ := counted
  have others : ∀ other ∈ rest, other.Sound layout :=
    fun other member => sound other (List.mem_cons_of_mem _ member)
  have self := sound agent List.mem_cons_self
  simp only [total_cons] at balance
  cases agent with
  | acquire executor target =>
      simp only [act] at acted
      split at acted
      · next this =>
          obtain rfl := Option.some.inj acted
          have positive := through executor target rfl this
          refine Counted.of_leaves (leaves_deliver layout _ _ _) ?_ others
          rw [Handle.owns_makeKeepAlive this]
          refine balance.acquired positive rfl (by simp [balance.checked, positive]) ?_
            (Nat.zero_add _)
          rw [lives_acquire]
          omega
      · next other =>
          have plain := Bool.eq_false_iff.mpr other
          split at acted
          · obtain rfl := Option.some.inj acted
            refine Counted.of_leaves (leaves_deliver layout _ _ _) ?_ others
            rw [Handle.owns_other plain]
            exact balance.same rfl (by rw [lives_acquire]; rfl) (Nat.zero_add _)
          · obtain rfl := Option.some.inj acted
            refine Counted.of_leaves (leaves_deliver layout _ _ _) ?_ others
            rw [Handle.owns_eq_zero Handle.releases_makeKeepAliveDummy]
            exact balance.same rfl (by rw [lives_acquire]; rfl) (Nat.zero_add _)
  | release executor after =>
      simp only [act] at acted
      split at acted
      · next this =>
          have fewer : (Agent.release executor after).lives layout +
              total (Agent.lives layout) rest =
                after.owned layout + total (Agent.lives layout) rest + 1 := by
            simp only [Agent.lives, this, if_true]
            omega
          have checks (positive : 1 ≤ memory.keepAliveCount) :
              (memory.checked && decide (memory.keepAliveCount ≥ 1)) = true := by
            simp [balance.checked, positive]
          have released := balance.released
            { memory with
              keepAliveCount := memory.keepAliveCount - 1
              checked := memory.checked && decide (memory.keepAliveCount ≥ 1) }
            fewer rfl checks
          split at acted
          · next last =>
              obtain rfl := Option.some.inj acted
              rw [if_pos last] at released
              have onePost : Agent.posts (.release executor after) + total Agent.posts rest + 1 =
                  total Agent.posts (.post after :: rest) := by
                simp only [total_cons, Agent.posts]
                omega
              refine ⟨onePost ▸ released, fun agent member => ?_⟩
              rcases List.mem_cons.mp member with rfl | other
              · trivial
              · exact others agent other
          · next more =>
              obtain rfl := Option.some.inj acted
              rw [if_neg more] at released
              refine Counted.of_leaves (leaves_finish layout _ after) ?_ others
              exact released.same rfl rfl (Nat.zero_add _)
      · next other =>
          obtain rfl := Option.some.inj acted
          refine Counted.of_leaves (leaves_finish layout memory after) ?_ others
          refine balance.same (rfl : memory = _) ?_ (Nat.zero_add _)
          simp [Agent.lives, other]
  | post after =>
      obtain rfl := Option.some.inj acted
      refine Counted.of_leaves (leaves_finish layout _ after) ?_ others
      obtain ⟨count, posted, checked, joining, joined⟩ := balance
      refine ⟨count, ?_, checked, joining, fun _ => Nat.succ_pos _⟩
      rw [← posted]
      simp only [Agent.posts]
      omega
  | lock executor add =>
      simp only [act] at acted
      split at acted
      · obtain rfl := Option.some.inj acted
        refine Counted.of_leaves (leaves_lockEnd_none layout memory add) ?_ others
        exact balance.same rfl rfl (Nat.zero_add _)
      · next alive =>
          obtain rfl := Option.some.inj acted
          refine ⟨balance.same rfl rfl rfl, fun agent member => ?_⟩
          rcases List.mem_cons.mp member with rfl | other
          · exact ⟨self, alive⟩
          · exact others agent other
  | exchange executor controlBlock add =>
      simp only [act] at acted
      split at acted
      · next exchanged =>
          obtain rfl := Option.some.inj acted
          obtain ⟨rfl, _⟩ := exchanged
          have counted := balance.count
          refine Counted.of_leaves (leaves_lockEnd _ executor self.1 add) ?_ others
          refine balance.acquired (by have := self.2; omega) rfl balance.checked ?_ (Nat.zero_add _)
          simp only [Agent.lives, Agent.holds]
          omega
      · split at acted
        · obtain rfl := Option.some.inj acted
          refine Counted.of_leaves (leaves_lockEnd_none layout memory add) ?_ others
          exact balance.same rfl rfl (Nat.zero_add _)
        · next alive =>
            obtain rfl := Option.some.inj acted
            refine ⟨balance.same rfl rfl rfl, fun agent member => ?_⟩
            rcases List.mem_cons.mp member with rfl | other
            · exact ⟨self.1, alive⟩
            · exact others agent other
  | call handle =>
      obtain rfl := Option.some.inj acted
      refine Counted.of_leaves (leaves_reset layout _ handle .destroy) ?_ others
      exact balance.same rfl rfl (Nat.zero_add _)
  | wait =>
      simp only [act] at acted
      split at acted
      · next posted =>
          obtain rfl := Option.some.inj acted
          have holdsNone : Agent.lives layout .wait = 0 := rfl
          have postsNone : Agent.posts .wait = 0 := rfl
          rw [holdsNone, postsNone, Nat.zero_add, Nat.zero_add] at balance
          obtain ⟨count, posts, checked, joining, _⟩ := balance
          exact ⟨⟨count, posts, checked, joining, fun _ => posted⟩, others⟩
      · cases acted

theorem take_frame {memory smaller : Memory} {index : Nat} {handle : Handle}
    (taken : take memory index = some (handle, smaller)) :
    smaller = { memory with handles := smaller.handles } := by
  obtain ⟨found, present, same⟩ := Option.map_eq_some_iff.mp taken
  cases same
  rfl

theorem take_owners {memory smaller : Memory} {index : Nat} {handle : Handle}
    (taken : take memory index = some (handle, smaller)) :
    total (Handle.owns layout) smaller.handles + handle.owns layout =
      total (Handle.owns layout) memory.handles := by
  obtain ⟨found, present, same⟩ := Option.map_eq_some_iff.mp taken
  cases same
  rw [total_perm (perm_of_getElem? present), total_cons]
  exact Nat.add_comm _ _

theorem leaves_getKeepAliveToken (layout : Layout) (memory : Memory) (executor : Pointer)
    (target : Option Handle) :
    Leaves layout memory ((Agent.acquire .null target).holds layout)
      (getKeepAliveToken memory executor target) := by
  unfold getKeepAliveToken
  split
  · exact leaves_deliver layout memory {} target
  · refine ⟨rfl, ?_, rfl, fun agent member => ?_⟩
    · simp only [total_cons, total_nil]
      rw [lives_acquire]
      omega
    · rw [List.mem_singleton.mp member]
      trivial

theorem Counted.env {memory smaller : Memory} {agents : List Agent} {owned : Nat}
    {result : Memory × List Agent} (counted : Counted layout memory agents)
    (frame : smaller = { memory with handles := smaller.handles })
    (owners : total (Handle.owns layout) smaller.handles + owned =
      total (Handle.owns layout) memory.handles)
    (leaves : Leaves layout smaller owned result) :
    Counted layout result.1 (result.2 ++ agents) := by
  refine Counted.of_leaves leaves (counted.balance.same ?_ (by omega) rfl) counted.sound
  rw [frame]

private theorem counted_env {operation : Operation} {memory : Memory} {agents : List Agent}
    {result : Memory × List Agent} (counted : Counted layout memory agents)
    (moved : env layout operation memory = some result) :
    Counted layout result.1 (result.2 ++ agents) := by
  have plain : Handle.owns layout {} = 0 := Handle.owns_eq_zero Handle.releases_default
  cases operation with
  | construct =>
      obtain rfl := Option.some.inj moved
      exact counted.env rfl rfl (leaves_store Handle.releases_default)
  | getKeepAliveToken executor =>
      obtain rfl := Option.some.inj moved
      exact counted.env rfl rfl (leaves_getKeepAliveToken layout memory executor none)
  | copyConstruct source =>
      obtain ⟨other, _, rfl⟩ := Option.map_eq_some_iff.mp moved
      exact counted.env rfl rfl (leaves_getKeepAliveToken layout memory other.get none)
  | copy source =>
      obtain ⟨other, _, rfl⟩ := Option.map_eq_some_iff.mp moved
      split
      · exact counted.env rfl rfl (leaves_store Handle.releases_makeKeepAliveDummy)
      · exact counted.env rfl rfl (leaves_getKeepAliveToken layout memory other.get none)
  | moveConstruct source =>
      obtain ⟨⟨other, smaller⟩, taken, rfl⟩ := Option.map_eq_some_iff.mp moved
      have frame := take_frame taken
      have owners : _ = total (Handle.owns layout) _ := take_owners taken
      refine counted.env frame owners ⟨rfl, ?_, rfl, nofun⟩
      simp only [total_cons, total_nil, plain]
      omega
  | convert source pointer =>
      simp only [KeepAlive.env] at moved
      split at moved
      · next other smaller taken =>
          split at moved
          · next same =>
              obtain rfl := Option.some.inj moved
              have frame := take_frame taken
              have owners : _ = total (Handle.owns layout) _ := take_owners taken
              refine counted.env frame owners ⟨rfl, ?_, rfl, nofun⟩
              simp only [total_cons, total_nil, plain, Handle.owns_convert same]
              omega
          · cases moved
      · cases moved
  | getAlias source =>
      obtain ⟨other, _, rfl⟩ := Option.map_eq_some_iff.mp moved
      exact counted.env rfl rfl (leaves_store (Handle.releases_getAlias other))
  | copyAssign target source =>
      simp only [KeepAlive.env] at moved
      split at moved
      · next other handle smaller _ taken =>
          obtain rfl := Option.some.inj moved
          have frame := take_frame taken
          have owners : _ = total (Handle.owns layout) _ := take_owners taken
          exact counted.env frame owners
            (leaves_getKeepAliveToken layout smaller other.get (some handle))
      · cases moved
  | moveAssign target source =>
      simp only [KeepAlive.env] at moved
      split at moved
      · next handle smaller taken =>
          obtain ⟨⟨other, rest⟩, takenToo, rfl⟩ := Option.map_eq_some_iff.mp moved
          have frame := take_frame taken
          have owners : _ = total (Handle.owns layout) _ := take_owners taken
          have frameToo := take_frame takenToo
          have ownersToo : _ = total (Handle.owns layout) _ := take_owners takenToo
          refine counted.env (by rw [frameToo, frame]) ?_
            (leaves_reset layout _ handle (.store other))
          simp only [total_cons, plain, After.owned]
          omega
      · cases moved
  | selfMove target =>
      obtain ⟨⟨handle, smaller⟩, taken, rfl⟩ := Option.map_eq_some_iff.mp moved
      have frame := take_frame taken
      have owners : _ = total (Handle.owns layout) _ := take_owners taken
      exact counted.env frame owners (leaves_emptied layout smaller handle)
  | reset target =>
      obtain ⟨⟨handle, smaller⟩, taken, rfl⟩ := Option.map_eq_some_iff.mp moved
      have frame := take_frame taken
      have owners : _ = total (Handle.owns layout) _ := take_owners taken
      exact counted.env frame owners (leaves_emptied layout smaller handle)
  | destroy target =>
      obtain ⟨⟨handle, smaller⟩, taken, rfl⟩ := Option.map_eq_some_iff.mp moved
      have frame := take_frame taken
      have owners : _ = total (Handle.owns layout) _ := take_owners taken
      exact counted.env frame owners (leaves_reset layout smaller handle .destroy)
  | lock executor =>
      simp only [KeepAlive.env] at moved
      split at moved
      · next this =>
          obtain rfl := Option.some.inj moved
          refine counted.env rfl rfl ⟨rfl, rfl, rfl, fun agent member => ?_⟩
          rw [List.mem_singleton.mp member]
          exact this
      · cases moved
  | add executor =>
      simp only [KeepAlive.env] at moved
      split at moved
      · next this =>
          obtain rfl := Option.some.inj moved
          refine counted.env rfl rfl ⟨rfl, rfl, rfl, fun agent member => ?_⟩
          rw [List.mem_singleton.mp member]
          exact this
      · cases moved
  | joinKeepAlive =>
      simp only [KeepAlive.env] at moved
      split at moved
      · cases moved
      · next fresh =>
          obtain rfl := Option.some.inj moved
          obtain ⟨⟨count, posted, checked, joining, joined⟩, sound⟩ := counted
          have own := joining (Bool.eq_false_iff.mpr fresh)
          refine Counted.of_leaves (leaves_reset layout _ memory.keepAlive .wait) ?_ sound
          refine ⟨?_, posted, ?_, nofun, joined⟩
          · simp only [idle, After.owned, plain] at count ⊢
            omega
          · simp [checked, own, layout.storage_ne_zero]

theorem holds_le_lives (agent : Agent) : agent.holds layout ≤ agent.lives layout := by
  cases agent with
  | release executor after => exact Nat.le_add_left _ _
  | acquire => exact Nat.le_refl _
  | post => exact Nat.le_refl _
  | lock => exact Nat.le_refl _
  | exchange => exact Nat.le_refl _
  | call => exact Nat.le_refl _
  | wait => exact Nat.le_refl _

/-! ## The end of the count -/

/-- The count, and what calls of a `WeakRef` have achieved. -/
def Memory.ledger (memory : Memory) : Int × Nat × Nat :=
  (memory.keepAliveCount, memory.locked, memory.called)

theorem Leaves.ledger {memory : Memory} {owned : Nat} {result : Memory × List Agent}
    (leaves : Leaves layout memory owned result) : result.1.ledger = memory.ledger := by
  rw [leaves.frame]
  rfl

theorem Leaves.keepAliveCount {memory : Memory} {owned : Nat} {result : Memory × List Agent}
    (leaves : Leaves layout memory owned result) :
    result.1.keepAliveCount = memory.keepAliveCount :=
  congrArg Prod.fst leaves.ledger

theorem Counted.lives_le {memory : Memory} {agent : Agent} {rest : List Agent}
    (counted : Counted layout memory (agent :: rest)) :
    (agent.lives layout : Int) ≤ memory.keepAliveCount := by
  have count := counted.balance.count
  rw [total_cons] at count
  omega

/-- Once the count is zero, it stays so, `lock()` fails and no `WeakRef` is
about to call the executor. -/
private theorem act_zero {choice : Bool} {memory : Memory} {agent : Agent}
    {rest : List Agent} {result : Memory × List Agent}
    (counted : Counted layout memory (agent :: rest)) (ended : memory.keepAliveCount = 0)
    (through : ∀ executor target, agent = .acquire executor target →
      layout.isThis executor = true → 0 < memory.keepAliveCount)
    (acted : act layout choice memory agent = some result) :
    result.1.ledger = memory.ledger := by
  have self := counted.sound agent List.mem_cons_self
  have lives := counted.lives_le
  cases agent with
  | acquire executor target =>
      simp only [act] at acted
      split at acted
      · next this =>
          have positive := through executor target rfl this
          omega
      · split at acted
        · obtain rfl := Option.some.inj acted
          exact (leaves_deliver layout _ _ _).ledger
        · obtain rfl := Option.some.inj acted
          exact (leaves_deliver layout _ _ _).ledger
  | release executor after =>
      simp only [act] at acted
      split at acted
      · next this =>
          simp only [Agent.lives, this, if_true] at lives
          omega
      · obtain rfl := Option.some.inj acted
        exact (leaves_finish layout _ _).ledger
  | post after =>
      obtain rfl := Option.some.inj acted
      exact (leaves_finish layout _ after).ledger
  | lock executor add =>
      simp only [act, ended, if_true] at acted
      obtain rfl := Option.some.inj acted
      exact (leaves_lockEnd_none layout _ add).ledger
  | exchange executor controlBlock add =>
      have other : ¬(memory.keepAliveCount = controlBlock ∧ choice = true) :=
        fun same => self.2 (same.1 ▸ ended)
      simp only [act] at acted
      rw [if_neg other, if_pos ended] at acted
      obtain rfl := Option.some.inj acted
      exact (leaves_lockEnd_none layout _ add).ledger
  | call handle =>
      have owner : (Agent.call handle).lives layout = 1 := self
      omega
  | wait =>
      simp only [act] at acted
      split at acted
      · obtain rfl := Option.some.inj acted
        rfl
      · cases acted

/-- The step that ends the count is a release, which goes on to post. -/
private theorem act_last {choice : Bool} {memory : Memory} {agent : Agent}
    {rest : List Agent} {result : Memory × List Agent}
    (counted : Counted layout memory (agent :: rest)) (before : memory.keepAliveCount ≠ 0)
    (acted : act layout choice memory agent = some result)
    (ended : result.1.keepAliveCount = 0) :
    ∃ executor after, agent = .release executor after ∧ result.2 = [.post after] := by
  have lives := counted.lives_le
  cases agent with
  | acquire executor target =>
      simp only [act] at acted
      split at acted
      · obtain rfl := Option.some.inj acted
        rw [(leaves_deliver layout _ _ _).keepAliveCount] at ended
        simp only at ended
        omega
      · split at acted
        · obtain rfl := Option.some.inj acted
          rw [(leaves_deliver layout _ _ _).keepAliveCount] at ended
          exact absurd ended before
        · obtain rfl := Option.some.inj acted
          rw [(leaves_deliver layout _ _ _).keepAliveCount] at ended
          exact absurd ended before
  | release executor after =>
      simp only [act] at acted
      split at acted
      · split at acted
        · obtain rfl := Option.some.inj acted
          exact ⟨executor, after, rfl, rfl⟩
        · next more =>
            obtain rfl := Option.some.inj acted
            rw [(leaves_finish layout _ _).keepAliveCount] at ended
            simp only at ended
            omega
      · obtain rfl := Option.some.inj acted
        rw [(leaves_finish layout _ _).keepAliveCount] at ended
        exact absurd ended before
  | post after =>
      obtain rfl := Option.some.inj acted
      rw [(leaves_finish layout _ after).keepAliveCount] at ended
      exact absurd ended before
  | lock executor add =>
      simp only [act] at acted
      rw [if_neg before] at acted
      obtain rfl := Option.some.inj acted
      exact absurd ended before
  | exchange executor controlBlock add =>
      simp only [act] at acted
      split at acted
      · next exchanged =>
          have self := counted.sound _ List.mem_cons_self
          obtain rfl := Option.some.inj acted
          rw [(leaves_lockEnd _ executor self.1 add).keepAliveCount] at ended
          have same := exchanged.1
          simp only at ended
          omega
      · obtain rfl := Option.some.inj acted
        exact absurd ended before
  | call handle =>
      obtain rfl := Option.some.inj acted
      rw [(leaves_reset layout _ handle .destroy).keepAliveCount] at ended
      exact absurd ended before
  | wait =>
      simp only [act] at acted
      split at acted
      · obtain rfl := Option.some.inj acted
        exact absurd ended before
      · cases acted

theorem take_ledger {memory smaller : Memory} {index : Nat} {handle : Handle}
    (taken : take memory index = some (handle, smaller)) : smaller.ledger = memory.ledger := by
  rw [take_frame taken]
  rfl

private theorem env_ledger {operation : Operation} {memory : Memory}
    {result : Memory × List Agent} (moved : env layout operation memory = some result) :
    result.1.ledger = memory.ledger := by
  have token (memory : Memory) (executor : Pointer) (target : Option Handle) :=
    (leaves_getKeepAliveToken layout memory executor target).ledger
  have finished (memory : Memory) (after : After) :=
    (leaves_finish layout memory after).ledger
  have emptied (memory : Memory) (handle : Handle) (after : After) :=
    (leaves_reset layout memory handle after).ledger
  cases operation with
  | construct =>
      obtain rfl := Option.some.inj moved
      exact finished memory (.store {})
  | getKeepAliveToken executor =>
      obtain rfl := Option.some.inj moved
      exact token memory executor none
  | copyConstruct source =>
      obtain ⟨other, _, rfl⟩ := Option.map_eq_some_iff.mp moved
      exact token memory other.get none
  | copy source =>
      obtain ⟨other, _, rfl⟩ := Option.map_eq_some_iff.mp moved
      split
      · exact finished memory _
      · exact token memory other.get none
  | moveConstruct source =>
      obtain ⟨⟨other, smaller⟩, taken, rfl⟩ := Option.map_eq_some_iff.mp moved
      exact (rfl : _ = smaller.ledger).trans (take_ledger taken)
  | convert source pointer =>
      simp only [env] at moved
      split at moved
      · next other smaller taken =>
          split at moved
          · obtain rfl := Option.some.inj moved
            exact (rfl : _ = smaller.ledger).trans (take_ledger taken)
          · cases moved
      · cases moved
  | getAlias source =>
      obtain ⟨other, _, rfl⟩ := Option.map_eq_some_iff.mp moved
      exact finished memory _
  | copyAssign target source =>
      simp only [env] at moved
      split at moved
      · next other handle smaller _ taken =>
          obtain rfl := Option.some.inj moved
          rw [token, take_ledger taken]
      · cases moved
  | moveAssign target source =>
      simp only [env] at moved
      split at moved
      · next handle smaller taken =>
          obtain ⟨⟨other, rest⟩, takenToo, rfl⟩ := Option.map_eq_some_iff.mp moved
          rw [emptied, ← take_ledger taken,
            ← take_ledger takenToo]
          rfl
      · cases moved
  | selfMove target =>
      obtain ⟨⟨handle, smaller⟩, taken, rfl⟩ := Option.map_eq_some_iff.mp moved
      rw [emptied, take_ledger taken]
  | reset target =>
      obtain ⟨⟨handle, smaller⟩, taken, rfl⟩ := Option.map_eq_some_iff.mp moved
      rw [emptied, take_ledger taken]
  | destroy target =>
      obtain ⟨⟨handle, smaller⟩, taken, rfl⟩ := Option.map_eq_some_iff.mp moved
      rw [emptied, take_ledger taken]
  | lock executor =>
      simp only [env] at moved
      split at moved
      · obtain rfl := Option.some.inj moved
        rfl
      · cases moved
  | add executor =>
      simp only [env] at moved
      split at moved
      · obtain rfl := Option.some.inj moved
        rfl
      · cases moved
  | joinKeepAlive =>
      simp only [env] at moved
      split at moved
      · cases moved
      · obtain rfl := Option.some.inj moved
        rw [emptied]
        rfl

/-- A permitted acquire finds the count positive. -/
private theorem through_live {state : Global Memory Agent} {index : Nat} {choice : Bool}
    {agent : Agent} (counted : Counted layout state.shared state.agents)
    (permitted : throughLive layout state (.act index choice))
    (found : state.agents[index]? = some agent) (executor : Pointer) (target : Option Handle)
    (acquires : agent = .acquire executor target) (this : layout.isThis executor = true) :
    0 < state.shared.keepAliveCount := by
  simp only [throughLive, found, acquires] at permitted
  have positive := permitted this
  have fewer : total (Agent.holds layout) state.agents ≤ total (Agent.lives layout) state.agents :=
    total_le_total fun agent _ => holds_le_lives agent
  have count := counted.balance.count
  omega

theorem Counted.reorder {memory : Memory} {agents others : List Agent}
    (same : agents.Perm others) (counted : Counted layout memory agents) :
    Counted layout memory others := by
  obtain ⟨balance, sound⟩ := counted
  rw [total_perm same, total_perm same] at balance
  exact ⟨balance, fun agent member => sound agent (same.mem_iff.mpr member)⟩

theorem counted_init : Counted layout (system layout).init.shared (system layout).init.agents := by
  refine ⟨⟨?_, rfl, rfl, fun _ => rfl, nofun⟩, nofun⟩
  have owner := Handle.owns_makeKeepAlive layout.isThis_this
  simp [system, idle, owner]

theorem reaches_counted {first state : Global Memory Agent}
    (start : Counted layout first.shared first.agents)
    (reached : Reaches (system layout) (throughLive layout) first state) :
    Counted layout state.shared state.agents := by
  refine Reaches.invariant (Counted layout) ?_ start ?_ ?_ reached
  · exact fun same counted => counted.reorder same
  · intro before index choice agent shared left _ permitted found acted counted
    have whole := counted.reorder (perm_of_getElem? found).symm
    exact counted_act counted (through_live whole permitted found) acted
  · intro before operation shared left _ _ moved counted
    exact counted_env counted moved

theorem reachable_counted {state : Global Memory Agent}
    (reached : Reachable (system layout) (throughLive layout) state) :
    Counted layout state.shared state.agents :=
  reaches_counted counted_init reached

/-- Nothing happens to the ledger any more once the count is zero. -/
theorem reaches_ended {first state : Global Memory Agent}
    (start : Counted layout first.shared first.agents)
    (ended : first.shared.keepAliveCount = 0)
    (reached : Reaches (system layout) (throughLive layout) first state) :
    state.shared.ledger = first.shared.ledger := by
  have ended_of {memory : Memory} (same : memory.ledger = first.shared.ledger) :
      memory.keepAliveCount = 0 :=
    (congrArg Prod.fst same).trans ended
  refine Reaches.invariant (fun memory _ => memory.ledger = first.shared.ledger) ?_ rfl ?_ ?_
    reached
  · exact fun _ same => same
  · intro before index choice agent shared left earlier permitted found acted same
    have whole := reaches_counted start earlier
    exact (act_zero (whole.reorder (perm_of_getElem? found)) (ended_of same)
      (through_live whole permitted found) acted).trans same
  · intro before operation shared left _ _ moved same
    exact (env_ledger moved).trans same

/-- `keepAliveCount_` is the number of live owning handles; the baton is posted
once, by the release that ends the last of them; and after that no `lock()`
succeeds and no `WeakRef` reaches the executor. -/
theorem keepAlive_counted {state : Global Memory Agent}
    (reached : Reachable (system layout) (throughLive layout) state) :
    state.shared.keepAliveCount = live layout state ∧
      (state.shared.posts + total Agent.posts state.agents =
        if state.shared.keepAliveCount = 0 then 1 else 0) ∧
      (∀ label next, (system layout).step state label = some next →
        throughLive layout state label →
        state.shared.keepAliveCount ≠ 0 → next.shared.keepAliveCount = 0 →
        ∃ index choice executor after, label = .act index choice ∧
          state.agents[index]? = some (.release executor after) ∧
          .post after ∈ next.agents) ∧
      (state.shared.joined = true → state.shared.keepAliveCount = 0) ∧
      (state.shared.keepAliveCount = 0 →
        ∀ later, Reaches (system layout) (throughLive layout) state later →
          later.shared.keepAliveCount = 0 ∧ later.shared.locked = state.shared.locked ∧
          later.shared.called = state.shared.called) := by
  have counted := reachable_counted reached
  refine ⟨counted.balance.count, counted.balance.posted, ?_, ?_, ?_⟩
  · intro label next moved permitted before ended
    cases label with
    | act index choice =>
        obtain ⟨agent, shared, left, found, acted, rfl⟩ := step_act moved
        obtain ⟨executor, after, rfl, posts⟩ :=
          act_last (counted.reorder (perm_of_getElem? found)) before acted ended
        refine ⟨index, choice, executor, after, rfl, found, ?_⟩
        simp only at posts
        rw [posts]
        exact List.mem_cons_self
    | env operation =>
        obtain ⟨shared, left, acted, rfl⟩ := step_env moved
        have same : shared.keepAliveCount = state.shared.keepAliveCount :=
          congrArg Prod.fst (env_ledger acted)
        exact absurd (same.symm.trans ended) before
  · intro joined
    by_contra before
    have posted := counted.balance.posted
    have positive := counted.balance.joined joined
    rw [if_neg before] at posted
    omega
  · intro ended later further
    have same := reaches_ended counted ended further
    simp only [Memory.ledger, Prod.mk.injEq] at same
    exact ⟨same.1.trans ended, same.2.1, same.2.2⟩

end

/-- An executor with one address. -/
private def oneAddress : Layout where
  this := ⟨16#64, by decide⟩
  isThis pointer := pointer.address = 16#64
  isThis_this := rfl
  isThis_null := rfl

/-- `joinKeepAlive()` while a `WeakRef` calls the executor: its handle is the
last. -/
private def joinDuringAdd : List (Label Bool Operation) :=
  [.env (.add oneAddress.this), .act 0 true, .act 0 true, .env .joinKeepAlive, .act 0 true,
    .act 1 true, .act 0 true, .act 0 true, .act 0 true]

theorem keepAlive_counted_joined :
    ∃ state : Global Memory Agent, state.shared.joined = true ∧ state.shared.called = 1 ∧
      state.shared.keepAliveCount = live oneAddress state := by
  have runs : ((system oneAddress).run (system oneAddress).init joinDuringAdd).map
      (fun state => (state.shared.joined, state.shared.called)) = some (true, 1) := by
    decide +kernel
  obtain ⟨state, replayed, values⟩ := Option.map_eq_some_iff.mp runs
  obtain ⟨joined, called⟩ := Prod.mk.injEq .. ▸ values
  have reached : Reachable (system oneAddress) (throughLive oneAddress) state :=
    Reachable.init.replay (by decide +kernel) replayed
  exact ⟨state, joined, called, (keepAlive_counted reached).1⟩

end ThreadPoolExec.KeepAlive
