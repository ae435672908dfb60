import ThreadPoolExec.MPMCQueue.Sizing

/-!
# Expansions in machine arithmetic

The sizes that the queue passes through, the indices that it writes and the
words that it stores, in every run of any number of callers. What a caller has
read is of a level of expansion since then, and its tickets show that the next
expansion can be made.
-/

set_option autoImplicit false

namespace ThreadPoolExec.MPMCQueue.Dynamic.Sizing

open Interleaving

/-! ## Steps -/

/-- One more, once the capacity of an expansion is stored. -/
def Stage.stored : Stage → Nat
  | .storeStride _ _ | .release _ _ => 1
  | _ => 0

/-- How many expansions `dcapacity_` shows. -/
def Memory.level (memory : Memory) : Nat :=
  getNumClosed memory.dstate +
    match memory.expansion with
    | some expansion => Stage.stored expansion.stage
    | none => 0

/-- The capacity that `closed_` has at an index. -/
def Memory.closedCapacity (memory : Memory) (index : Nat) : Option Nat :=
  memory.closed[index]?.map ClosedArray.capacity

/-- A ticket that is the next offset. -/
structure Offsets (arguments : Arguments) (round ticket : Nat) : Prop where
  least : arguments.offset (round + 1) ≤ ticket
  fits : ticket < 2 ^ 58

/-- An expansion of the array after so many: its tickets, its allocation and
what it has written to `closed_`. -/
def StageFits (arguments : Arguments) (memory : Memory) (round : Nat) : Stage → Prop
  | .loadTicket => arguments.offset (round + 1) ≤ 1 + memory.pushTicket
  | .loadPop pushes => Offsets arguments round (1 + pushes)
  | .loadPush pops => arguments.offset (round + 1) ≤ 1 + memory.pushTicket ∧ 1 + pops < 2 ^ 58
  | .allocate ticket => Offsets arguments round ticket
  | .close ticket _ => Offsets arguments round ticket ∧ arguments.CanExpand round
  | .storeSlots ticket _ | .storeCapacity ticket _ | .storeStride ticket _ | .release ticket _ =>
      Offsets arguments round ticket ∧ arguments.CanExpand round ∧
        memory.closedCapacity round = some (arguments.size round)

structure Locked (arguments : Arguments) (memory : Memory) (expansion : Expansion) : Prop where
  state : memory.dstate = expansion.state + 1
  even : expansion.state % 2 = 0
  cap : expansion.cap = arguments.size (getNumClosed expansion.state)
  below : arguments.expanded (getNumClosed expansion.state) < arguments.queueCapacity
  stage : StageFits arguments memory (getNumClosed expansion.state) expansion.stage

/-- What holds of the words in memory. -/
structure Sized (arguments : Arguments) (memory : Memory) : Prop where
  unlocked : memory.expansion = none → memory.dstate % 2 = 0
  made : arguments.Made memory.level
  capacity : memory.dcapacity = arguments.size memory.level
  offset : arguments.offset (getNumClosed memory.dstate) ≤ getOffset memory.dstate
  closed : ∀ index < getNumClosed memory.dstate,
    memory.closedCapacity index = some (arguments.size index)
  locked : ∀ expansion ∈ memory.expansion, Locked arguments memory expansion

/-- A word that was read at some time. -/
structure Shown (arguments : Arguments) (memory : Memory) (state : Nat) : Prop where
  even : state % 2 = 0
  since : getNumClosed state ≤ getNumClosed memory.dstate
  offset : arguments.offset (getNumClosed state) ≤ getOffset state

/-- A read section that was validated. -/
structure Valid (arguments : Arguments) (memory : Memory) (snapshot : Snapshot) : Prop where
  shown : Shown arguments memory snapshot.state
  capacity : snapshot.capacity = arguments.size (getNumClosed snapshot.state)

/-- The array of a ticket: the current one, or one that was closed before it. -/
structure Located (arguments : Arguments) (snapshot : Snapshot) (ticket : Nat)
    (array : ClosedArray) (lagging : Bool) : Prop where
  offset : array.offset ≤ ticket
  current : lagging = false →
    array.offset = getOffset snapshot.state ∧ array.capacity = snapshot.capacity
  closed : lagging = true → ticket < getOffset snapshot.state ∧
    ∃ index < getNumClosed snapshot.state, array.capacity = arguments.size index

/-- The ticket that a caller has been given or has loaded. -/
def Pc.ticket? : Pc → Option Nat
  | .loadPops ticket => some ticket
  | .readState attempt | .readSlots attempt _ | .readCapacity attempt _ _
  | .readStride attempt _ _ _ | .validate attempt _ | .resolve attempt _
  | .located attempt _ _ _ | .checkPops attempt _ | .reload attempt _ _ | .cas attempt
  | .tryExpand attempt _ | .expanding attempt | .expanded attempt _ => some attempt.ticket
  | .loadPush _ | .ended | .assertFailed => none

/-- What a caller has read. -/
def Pc.Fits (arguments : Arguments) (memory : Memory) : Pc → Prop
  | .readSlots _ state | .readCapacity _ state _ => Shown arguments memory state
  | .readStride _ state _ capacity | .validate _ ⟨state, _, capacity, _⟩ =>
      Shown arguments memory state ∧ ∃ level, getNumClosed state ≤ level ∧
        level ≤ memory.level ∧ capacity = arguments.size level
  | .resolve _ snapshot => Valid arguments memory snapshot
  | .located attempt snapshot array lagging =>
      Valid arguments memory snapshot ∧ Located arguments snapshot attempt.ticket array lagging
  | .checkPops attempt snapshot =>
      Valid arguments memory snapshot ∧ getOffset snapshot.state ≤ attempt.ticket
  | .reload attempt snapshot offset =>
      Valid arguments memory snapshot ∧ (offset = getOffset snapshot.state →
        offset ≤ attempt.ticket ∧
          (memory.pushTicket ≤ attempt.ticket → snapshot.capacity ≤ attempt.ticket))
  | .tryExpand _ snapshot =>
      Valid arguments memory snapshot ∧
        arguments.offset (getNumClosed snapshot.state + 1) ≤ 1 + memory.pushTicket
  | .expanded _ record =>
      ∀ maxClosed, arguments.InitQueue maxClosed → record.Sound arguments maxClosed
  | _ => True

/-- What a step leaves of the memory to the callers. -/
structure Advances (memory after : Memory) : Prop where
  numClosed : getNumClosed memory.dstate ≤ getNumClosed after.dstate
  level : memory.level ≤ after.level
  pushTicket : memory.pushTicket ≤ after.pushTicket

section Steps

variable {arguments : Arguments} {memory after : Memory} {pc following : Pc} {attempt : Attempt}
  {expansion : Expansion} {snapshot : Snapshot} {array : ClosedArray} {choice : Choice}
  {state round : Nat}

theorem Advances.refl : Advances memory memory :=
  ⟨Nat.le_refl _, Nat.le_refl _, Nat.le_refl _⟩

theorem Shown.mono (advances : Advances memory after) (shown : Shown arguments memory state) :
    Shown arguments after state :=
  ⟨shown.even, Nat.le_trans shown.since advances.numClosed, shown.offset⟩

theorem Valid.mono (advances : Advances memory after) (valid : Valid arguments memory snapshot) :
    Valid arguments after snapshot :=
  ⟨valid.shown.mono advances, valid.capacity⟩

theorem Pc.Fits.mono (advances : Advances memory after) (fits : pc.Fits arguments memory) :
    pc.Fits arguments after := by
  cases pc with
  | readSlots attempt state => exact Shown.mono advances fits
  | readCapacity attempt state slots => exact Shown.mono advances fits
  | readStride attempt state slots capacity =>
      obtain ⟨shown, level, since, until_, same⟩ := fits
      exact ⟨shown.mono advances, level, since, Nat.le_trans until_ advances.level, same⟩
  | validate attempt snapshot =>
      obtain ⟨shown, level, since, until_, same⟩ := fits
      exact ⟨shown.mono advances, level, since, Nat.le_trans until_ advances.level, same⟩
  | resolve attempt snapshot => exact Valid.mono advances fits
  | located attempt snapshot array lagging => exact ⟨fits.1.mono advances, fits.2⟩
  | checkPops attempt snapshot => exact ⟨fits.1.mono advances, fits.2⟩
  | reload attempt snapshot offset =>
      refine ⟨fits.1.mono advances, fun current => ⟨(fits.2 current).1, fun last => ?_⟩⟩
      exact (fits.2 current).2 (Nat.le_trans advances.pushTicket last)
  | tryExpand attempt snapshot =>
      exact ⟨fits.1.mono advances,
        Nat.le_trans fits.2 (Nat.add_le_add_left advances.pushTicket 1)⟩
  | _ => exact fits

theorem level_of_none (free : memory.expansion = none) :
    memory.level = getNumClosed memory.dstate := by
  simp only [Memory.level, free, Nat.add_zero]

theorem level_of_some (taken : memory.expansion = some expansion)
    (locked : Locked arguments memory expansion) :
    memory.level = getNumClosed expansion.state + Stage.stored expansion.stage := by
  rw [Memory.level, taken, locked.state, getNumClosed_succ locked.even]

theorem Locked.numClosed (locked : Locked arguments memory expansion) :
    getNumClosed memory.dstate = getNumClosed expansion.state := by
  rw [locked.state, getNumClosed_succ locked.even]

/-- An even word is not locked. -/
theorem Sized.free (sized : Sized arguments memory) (even : memory.dstate % 2 = 0) :
    memory.expansion = none := by
  cases taken : memory.expansion with
  | none => rfl
  | some expansion =>
      have locked := sized.locked expansion taken
      have odd := locked.state
      have evenBefore := locked.even
      omega

theorem StageFits.grow {stage : Stage} (closed : after.closed = memory.closed)
    (pushTicket : memory.pushTicket ≤ after.pushTicket)
    (fits : StageFits arguments memory round stage) : StageFits arguments after round stage := by
  have same : after.closedCapacity round = memory.closedCapacity round := by
    rw [Memory.closedCapacity, closed, Memory.closedCapacity]
  cases stage with
  | loadTicket => exact Nat.le_trans fits (Nat.add_le_add_left pushTicket 1)
  | loadPush pops =>
      exact ⟨Nat.le_trans fits.1 (Nat.add_le_add_left pushTicket 1), fits.2⟩
  | storeSlots ticket newSlots => exact ⟨fits.1, fits.2.1, same.trans fits.2.2⟩
  | storeCapacity ticket newSlots => exact ⟨fits.1, fits.2.1, same.trans fits.2.2⟩
  | storeStride ticket newSlots => exact ⟨fits.1, fits.2.1, same.trans fits.2.2⟩
  | release ticket newSlots => exact ⟨fits.1, fits.2.1, same.trans fits.2.2⟩
  | _ => exact fits

/-- Tickets are taken. -/
theorem Sized.take {pushes pops : Nat} (more : memory.pushTicket ≤ pushes)
    (sized : Sized arguments memory) :
    Sized arguments { memory with pushTicket := pushes, popTicket := pops } ∧
      Advances memory { memory with pushTicket := pushes, popTicket := pops } := by
  refine ⟨⟨sized.unlocked, sized.made, sized.capacity, sized.offset, sized.closed, ?_⟩,
    Nat.le_refl _, Nat.le_refl _, more⟩
  intro expansion taken
  obtain ⟨state, even, cap, below, stage⟩ := sized.locked expansion taken
  exact ⟨state, even, cap, below, @StageFits.grow _ memory _ _ _ rfl more stage⟩

/-- The seqlock is taken while its word is the one that was read. -/
theorem Sized.lock (sized : Sized arguments memory) (current : memory.dstate = snapshot.state)
    (valid : Valid arguments memory snapshot)
    (below : arguments.expanded (getNumClosed snapshot.state) < arguments.queueCapacity)
    (enough : arguments.offset (getNumClosed snapshot.state + 1) ≤ 1 + memory.pushTicket) :
    Sized arguments { memory with
        dstate := snapshot.state + 1
        expansion := some ⟨snapshot.state, snapshot.capacity, .loadTicket⟩ } ∧
      Advances memory { memory with
        dstate := snapshot.state + 1
        expansion := some ⟨snapshot.state, snapshot.capacity, .loadTicket⟩ } := by
  have even := valid.shown.even
  have level := level_of_none (sized.free (current ▸ even))
  have made := sized.made
  have capacity := sized.capacity
  have offset := sized.offset
  rw [level, current] at made capacity
  rw [current] at offset
  have locked : Locked arguments { memory with
      dstate := snapshot.state + 1
      expansion := some ⟨snapshot.state, snapshot.capacity, .loadTicket⟩ }
      ⟨snapshot.state, snapshot.capacity, .loadTicket⟩ :=
    ⟨rfl, even, valid.capacity, below, enough⟩
  have count := locked.numClosed
  have levelAfter : Memory.level { memory with
      dstate := snapshot.state + 1
      expansion := some ⟨snapshot.state, snapshot.capacity, .loadTicket⟩ } =
      getNumClosed snapshot.state := (level_of_some rfl locked).trans (Nat.add_zero _)
  refine ⟨⟨nofun, levelAfter ▸ made, levelAfter ▸ capacity, ?_, ?_, ?_⟩, ?_, ?_, Nat.le_refl _⟩
  · rw [count, getOffset_succ even]
    exact offset
  · intro index inside
    rw [count, ← current] at inside
    exact sized.closed index inside
  · rintro _ ⟨⟩
    exact locked
  · rw [count, current]
  · rw [level, levelAfter, current]

/-- As many entries of `closed_` as the word counts are there. -/
theorem Sized.recorded (sized : Sized arguments memory) :
    getNumClosed memory.dstate ≤ memory.closed.length := by
  by_contra short
  have known := sized.closed memory.closed.length (Nat.lt_of_not_le short)
  rw [Memory.closedCapacity, List.getElem?_eq_none (Nat.le_refl _)] at known
  cases known

/-- An entry of `closed_` is written behind those of the earlier arrays. -/
theorem closedCapacity_write (recorded : round ≤ memory.closed.length)
    (written : after.closed = memory.closed.take round ++ [array]) :
    (∀ index < round, after.closedCapacity index = memory.closedCapacity index) ∧
      after.closedCapacity round = some array.capacity := by
  have length : (memory.closed.take round).length = round := List.length_take_of_le recorded
  constructor
  · intro index inside
    rw [Memory.closedCapacity, written, List.getElem?_append_left (length.symm ▸ inside),
      List.getElem?_take_of_lt inside, Memory.closedCapacity]
  · rw [Memory.closedCapacity, written, List.getElem?_append_right (Nat.le_of_eq length), length,
      Nat.sub_self]
    rfl

/-- The next stage of an expansion. -/
theorem Sized.advance (sized : Sized arguments memory) (taken : memory.expansion = some expansion)
    {stage : Stage} (same : after.dstate = memory.dstate)
    (pushTicket : after.pushTicket = memory.pushTicket)
    (moved : after.expansion = some { expansion with stage := stage })
    (closed : ∀ index < getNumClosed expansion.state,
      after.closedCapacity index = memory.closedCapacity index)
    (fits : StageFits arguments after (getNumClosed expansion.state) stage)
    (stores : Stage.stored stage = Stage.stored expansion.stage ∧
        after.dcapacity = memory.dcapacity ∨
      Stage.stored expansion.stage = 0 ∧ Stage.stored stage = 1 ∧
        arguments.CanExpand (getNumClosed expansion.state) ∧
        after.dcapacity = arguments.size (getNumClosed expansion.state + 1)) :
    Sized arguments after ∧ Advances memory after ∧
      (Pc.expanding attempt).Fits arguments after := by
  have locked := sized.locked expansion taken
  have count := locked.numClosed
  have lockedAfter : Locked arguments after { expansion with stage := stage } :=
    ⟨same ▸ locked.state, locked.even, locked.cap, locked.below, fits⟩
  have before := level_of_some taken locked
  have levelAfter := level_of_some moved lockedAfter
  simp only at levelAfter
  have made := sized.made
  have capacity := sized.capacity
  rw [before] at made capacity
  have rises : memory.level ≤ after.level ∧ arguments.Made after.level ∧
      after.dcapacity = arguments.size after.level := by
    rw [before, levelAfter]
    rcases stores with ⟨sameStored, sameCapacity⟩ | ⟨unstored, stored, canExpand, stores⟩
    · rw [sameStored, sameCapacity]
      exact ⟨Nat.le_refl _, made, capacity⟩
    · rw [unstored, stored]
      rw [unstored] at made
      exact ⟨Nat.le_succ _, Arguments.Made.succ made canExpand, stores⟩
  obtain ⟨level, madeAfter, capacityAfter⟩ := rises
  refine ⟨⟨?_, madeAfter, capacityAfter, same ▸ sized.offset, ?_, ?_⟩,
    ⟨Nat.le_of_eq (same ▸ rfl), level, Nat.le_of_eq pushTicket.symm⟩, trivial⟩
  · intro free
    rw [moved] at free
    cases free
  · intro index inside
    rw [same] at inside
    rw [closed index (count ▸ inside)]
    exact sized.closed index inside
  · intro other found
    rw [moved] at found
    cases found
    exact lockedAfter

/-- The end of an expansion that could not allocate its array. -/
theorem Sized.restore (sized : Sized arguments memory) (taken : memory.expansion = some expansion)
    (unstored : Stage.stored expansion.stage = 0) :
    Sized arguments { memory with dstate := expansion.state, expansion := none } ∧
      Advances memory { memory with dstate := expansion.state, expansion := none } ∧
      Pc.ended.Fits arguments { memory with dstate := expansion.state, expansion := none } := by
  have locked := sized.locked expansion taken
  have count := locked.numClosed
  have level := level_of_some taken locked
  rw [unstored, Nat.add_zero] at level
  have levelAfter : Memory.level { memory with dstate := expansion.state, expansion := none } =
      getNumClosed expansion.state := level_of_none rfl
  have made := sized.made
  have capacity := sized.capacity
  have offset := sized.offset
  rw [level] at made capacity
  rw [locked.state, getNumClosed_succ locked.even, getOffset_succ locked.even] at offset
  refine ⟨⟨fun _ => locked.even, levelAfter ▸ made, levelAfter ▸ capacity, offset, ?_, nofun⟩,
    ⟨Nat.le_of_eq count, Nat.le_of_eq (level.trans levelAfter.symm), Nat.le_refl _⟩, trivial⟩
  exact fun index inside => sized.closed index (count ▸ inside)

/-- The end of an expansion, with the word that it stores. -/
theorem Sized.release (few : getNumClosed expansion.state < 31) {ticket newSlots : Nat}
    (sized : Sized arguments memory) (taken : memory.expansion = some expansion)
    (stageIs : expansion.stage = .release ticket newSlots) :
    Sized arguments { memory with
        dstate := newState ticket (getNumClosed expansion.state), expansion := none } ∧
      Advances memory { memory with
        dstate := newState ticket (getNumClosed expansion.state), expansion := none } ∧
      getOffset (newState ticket (getNumClosed expansion.state)) = ticket ∧
      getNumClosed (newState ticket (getNumClosed expansion.state)) =
        getNumClosed expansion.state + 1 := by
  have locked := sized.locked expansion taken
  have stage := locked.stage
  have level := level_of_some taken locked
  rw [stageIs] at stage level
  obtain ⟨next, -, closed⟩ := stage
  have word := newState_eq next.fits few
  have count : getNumClosed (newState ticket (getNumClosed expansion.state)) =
      getNumClosed expansion.state + 1 := by
    rw [word, getNumClosed_seqlockWord (Nat.succ_lt_succ few)]
  have offset : getOffset (newState ticket (getNumClosed expansion.state)) = ticket := by
    rw [word, getOffset_seqlockWord (Nat.succ_lt_succ few)]
  have levelAfter : Memory.level { memory with
      dstate := newState ticket (getNumClosed expansion.state), expansion := none } =
      getNumClosed expansion.state + 1 := (level_of_none rfl).trans count
  have sameLevel : memory.level = getNumClosed expansion.state + 1 := level
  have made := sized.made
  have capacity := sized.capacity
  rw [sameLevel] at made capacity
  refine ⟨⟨fun _ => word ▸ seqlockWord_even, levelAfter ▸ made, levelAfter ▸ capacity, ?_, ?_,
    nofun⟩, ⟨?_, Nat.le_of_eq (sameLevel.trans levelAfter.symm), Nat.le_refl _⟩, offset, count⟩
  · simp only [count, offset]
    exact next.least
  · intro index inside
    simp only [count] at inside
    rcases Nat.lt_succ_iff_lt_or_eq.mp inside with before | rfl
    · exact sized.closed index (locked.numClosed ▸ before)
    · exact closed
  · rw [locked.numClosed]
    simp only [count]
    exact Nat.le_succ _

theorem sized_expand (growing : arguments.Grows)
    (tickets : 1 + max memory.pushTicket memory.popTicket < 2 ^ 58)
    (sized : Sized arguments memory) (taken : memory.expansion = some expansion)
    (moved : expand arguments memory attempt expansion choice = (after, following)) :
    Sized arguments after ∧ Advances memory after ∧ following.Fits arguments after := by
  have locked := sized.locked expansion taken
  have stage := locked.stage
  have newCapacity : arguments.newCapacity expansion.cap =
      arguments.size (getNumClosed expansion.state + 1) := by
    rw [locked.cap]
    exact newCapacity_size locked.below
  have pushFits : 1 + memory.pushTicket < 2 ^ 58 :=
    Nat.lt_of_le_of_lt (Nat.add_le_add_left (Nat.le_max_left _ _) 1) tickets
  have popFits : 1 + memory.popTicket < 2 ^ 58 :=
    Nat.lt_of_le_of_lt (Nat.add_le_add_left (Nat.le_max_right _ _) 1) tickets
  simp only [expand] at moved
  cases stageIs : expansion.stage with
  | loadTicket =>
      rw [stageIs] at stage
      simp only [stageIs] at moved
      cases moved
      have fits : StageFits arguments memory (getNumClosed expansion.state)
          (if choice.popFirst then .loadPush memory.popTicket else .loadPop memory.pushTicket) := by
        cases choice.popFirst
        · exact ⟨stage, pushFits⟩
        · exact ⟨stage, popFits⟩
      have unstored : Stage.stored (if choice.popFirst then .loadPush memory.popTicket
          else .loadPop memory.pushTicket) = 0 := by
        cases choice.popFirst <;> rfl
      exact sized.advance taken rfl rfl rfl (fun _ _ => rfl)
        (StageFits.grow rfl (Nat.le_refl _) fits) (.inl ⟨by rw [stageIs, unstored]; rfl, rfl⟩)
  | loadPop pushes =>
      rw [stageIs] at stage
      simp only [stageIs] at moved
      cases moved
      obtain ⟨least, loaded⟩ := stage
      have fits : Offsets arguments (getNumClosed expansion.state)
          (1 + max pushes memory.popTicket) := ⟨by omega, by omega⟩
      exact sized.advance taken rfl rfl rfl (fun _ _ => rfl)
        fits (.inl ⟨by rw [stageIs]; rfl, rfl⟩)
  | loadPush pops =>
      rw [stageIs] at stage
      simp only [stageIs] at moved
      cases moved
      obtain ⟨least, loaded⟩ := stage
      have fits : Offsets arguments (getNumClosed expansion.state)
          (1 + max memory.pushTicket pops) := ⟨by omega, by omega⟩
      exact sized.advance taken rfl rfl rfl (fun _ _ => rfl)
        fits (.inl ⟨by rw [stageIs]; rfl, rfl⟩)
  | allocate ticket =>
      rw [stageIs] at stage
      simp only [stageIs] at moved
      split at moved
      · next allocated =>
          cases moved
          have made := sized.made
          rw [level_of_some taken locked, stageIs] at made
          have canExpand := Arguments.Made.canExpand made locked.below
            (Nat.lt_of_le_of_lt stage.least stage.fits) (newCapacity ▸ allocated.2)
          exact sized.advance taken rfl rfl rfl (fun _ _ => rfl)
            ⟨stage, canExpand⟩ (.inl ⟨by rw [stageIs]; rfl, rfl⟩)
      · cases moved
        exact sized.restore taken (by rw [stageIs]; rfl)
  | close ticket newSlots =>
      rw [stageIs] at stage
      simp only [stageIs] at moved
      cases moved
      obtain ⟨next, canExpand⟩ := stage
      obtain ⟨below, last⟩ := @closedCapacity_write memory
        { memory with
          closed := memory.closed.take (getNumClosed expansion.state) ++
            [⟨getOffset expansion.state, memory.dslots, expansion.cap, memory.dstride⟩]
          expansion := some { expansion with stage := .storeSlots ticket newSlots } }
        _ _ (locked.numClosed ▸ sized.recorded) rfl
      exact sized.advance taken rfl rfl rfl below
        ⟨next, canExpand, last.trans (congrArg some locked.cap)⟩ (.inl ⟨by rw [stageIs]; rfl, rfl⟩)
  | storeSlots ticket newSlots =>
      rw [stageIs] at stage
      simp only [stageIs] at moved
      cases moved
      exact sized.advance taken rfl rfl rfl (fun _ _ => rfl)
        stage (.inl ⟨by rw [stageIs]; rfl, rfl⟩)
  | storeCapacity ticket newSlots =>
      rw [stageIs] at stage
      simp only [stageIs] at moved
      cases moved
      exact sized.advance taken rfl rfl rfl (fun _ _ => rfl)
        stage (.inr ⟨by rw [stageIs]; rfl, rfl, stage.2.1, newCapacity⟩)
  | storeStride ticket newSlots =>
      rw [stageIs] at stage
      simp only [stageIs] at moved
      cases moved
      exact sized.advance taken rfl rfl rfl (fun _ _ => rfl)
        stage (.inl ⟨by rw [stageIs]; rfl, rfl⟩)
  | release ticket newSlots =>
      rw [stageIs] at stage
      simp only [stageIs] at moved
      cases moved
      have canExpand := stage.2.1
      obtain ⟨sizedAfter, advances, offset, count⟩ :=
        sized.release (growing.few _ canExpand) taken stageIs
      refine ⟨sizedAfter, advances, fun maxClosed counted => ?_⟩
      constructor
      case index => exact canExpand.lt counted
      case grows =>
        calc expansion.cap = arguments.size (getNumClosed expansion.state) := locked.cap
          _ < arguments.size (getNumClosed expansion.state + 1) := size_lt_succ growing canExpand
          _ = arguments.newCapacity expansion.cap := newCapacity.symm
      case bounded => exact Nat.min_le_right _ _
      case offset => exact offset
      case numClosed => exact count

/-- The search ends at an entry under its count. -/
theorem exists_of_searchClosed {closed : List ClosedArray} {ticket count : Nat}
    (found : searchClosed closed ticket count = some array) :
    ∃ index < count, closed[index]? = some array ∧ array.offset ≤ ticket := by
  induction count with
  | zero => cases found
  | succ count ih =>
      simp only [searchClosed] at found
      split at found
      · cases found
      · next last entry =>
          split at found
          · next reached =>
              cases found
              exact ⟨count, Nat.lt_succ_self _, entry, reached⟩
          · obtain ⟨index, inside, rest⟩ := ih found
            exact ⟨index, Nat.lt_succ_of_lt inside, rest⟩

/-- The array that `maybeUpdateFromClosed` finds. -/
theorem located_of_update {ticket : Nat} {lagging : Bool} (sized : Sized arguments memory)
    (valid : Valid arguments memory snapshot)
    (found : maybeUpdateFromClosed memory.closed ticket snapshot = some (array, lagging)) :
    Located arguments snapshot ticket array lagging := by
  unfold maybeUpdateFromClosed at found
  split at found
  · next reached =>
      cases found
      exact ⟨reached, fun _ => ⟨rfl, rfl⟩, nofun⟩
  · next before =>
      obtain ⟨_, searched, same⟩ := Option.map_eq_some_iff.mp found
      cases same
      obtain ⟨index, inside, entry, reached⟩ := exists_of_searchClosed searched
      have recorded := sized.closed index (Nat.lt_of_lt_of_le inside valid.shown.since)
      rw [Memory.closedCapacity, entry, Option.map_some] at recorded
      exact ⟨reached, nofun, fun _ => ⟨Nat.lt_of_not_le before, index, inside,
        Option.some.inj recorded⟩⟩

/-- A caller that goes back has a ticket that it has had. -/
theorem retry_ticket {ticket : Nat} (has : attempt.retry.ticket? = some ticket) :
    attempt.ticket = ticket := by
  unfold Attempt.retry at has
  split at has
  · exact Option.some.inj has
  · cases has

theorem retry_fits : attempt.retry.Fits arguments memory := by
  unfold Attempt.retry
  split <;> trivial

/-- A caller keeps its ticket, or loads one. -/
theorem ticket_next {ticket : Nat}
    (stepped : next arguments choice memory pc = some (after, following))
    (has : following.ticket? = some ticket) :
    pc.ticket? = some ticket ∨ ticket = memory.pushTicket := by
  cases pc with
  | loadPush caller => cases caller <;> cases stepped <;> exact .inr (Option.some.inj has).symm
  | located attempt snapshot array lagging =>
      cases stepped
      refine .inl ?_
      unfold atArray at has
      split at has <;> split at has <;> first
        | exact has
        | cases has
        | (split at has <;> first | exact has | cases has)
  | expanding attempt =>
      obtain ⟨expansion, taken, moved⟩ := Option.map_eq_some_iff.mp stepped
      refine .inl ?_
      simp only [expand] at moved
      split at moved <;> first
        | (cases moved; exact has)
        | (split at moved <;> cases moved <;> first | exact has | cases has)
  | resolve attempt snapshot =>
      simp only [next] at stepped
      split at stepped <;> cases stepped
      · cases has
      · exact .inl has
  | reload attempt snapshot offset =>
      simp only [next] at stepped
      refine .inl ?_
      split at stepped
      · cases stepped
        exact congrArg some (retry_ticket has)
      · split at stepped <;> cases stepped
        · exact has
        · cases has
  | tryExpand attempt snapshot =>
      simp only [next] at stepped
      refine .inl ?_
      split at stepped
      · cases stepped
        cases has
      · split at stepped <;> cases stepped
        · exact has
        · exact congrArg some (retry_ticket has)
  | readState attempt | validate attempt snapshot | checkPops attempt snapshot | cas attempt =>
      simp only [next] at stepped
      refine .inl ?_
      split at stepped <;> cases stepped <;> first
        | exact has
        | cases has
        | exact congrArg some (retry_ticket has)
  | expanded attempt record =>
      cases stepped
      exact .inl (congrArg some (retry_ticket has))
  | ended => cases stepped
  | assertFailed => cases stepped
  | _ =>
      cases stepped
      exact .inl has

/-- A caller that comes to `tryExpand` has the tickets for it. -/
theorem fits_tryExpand (valid : Valid arguments memory snapshot)
    (issued : attempt.ticket ≤ memory.pushTicket)
    (reached : getOffset snapshot.state ≤ attempt.ticket)
    (enough : (ssize snapshot.capacity).toNat ≤ attempt.ticket) :
    (Pc.tryExpand attempt snapshot).Fits arguments memory := by
  refine ⟨valid, ?_⟩
  rw [valid.capacity] at enough
  have offset := valid.shown.offset
  rw [Arguments.offset]
  omega

theorem ssize_toNat_le (size : Nat) : (ssize size).toNat ≤ size := by
  have := ssize_le size
  omega

/-- What a caller does once it knows the array of its ticket. -/
theorem fits_atArray (growing : arguments.Grows) (sized : Sized arguments memory)
    (issued : attempt.ticket ≤ memory.pushTicket) (valid : Valid arguments memory snapshot)
    {lagging : Bool} (located : Located arguments snapshot attempt.ticket array lagging) :
    (atArray choice memory attempt snapshot array lagging).Fits arguments memory := by
  unfold atArray
  split
  · -- blockingWrite
    split
    · trivial
    · next neither =>
        rw [not_or] at neither
        have current := (located.current (Bool.eq_false_iff.mpr neither.1)).1
        exact ⟨valid, current ▸ located.offset⟩
  · -- tryObtainReadyPushTicket
    split
    · trivial
    · next unready =>
        refine ⟨valid, fun same => ⟨located.offset, fun last => ?_⟩⟩
        have notLagging : lagging = false := by
          by_contra lags
          have later := (located.closed (Bool.eq_true_of_not_eq_false lags)).1
          have reached := located.offset
          omega
        rw [← (located.current notLagging).2]
        simp only [mayEnqueue, decide_eq_true_eq, not_or, not_and] at unready
        have round : ¬attempt.ticket - array.offset < array.capacity := fun first =>
          unready.2 first (.inr last)
        omega
  · -- tryObtainPromisedPushTicket
    split
    · next isFull =>
        split
        · next same =>
            have enough : ssize snapshot.capacity ≤ (attempt.ticket : Int) - attempt.numPops :=
              of_decide_eq_true (same ▸ isFull)
            have notLagging : lagging = false := by
              by_contra lags
              -- a closed array is smaller than the one that was current
              obtain ⟨index, inside, size⟩ :=
                (located.closed (Bool.eq_true_of_not_eq_false lags)).2
              have made : arguments.Made (getNumClosed snapshot.state) := fun earlier before =>
                sized.made earlier (Nat.lt_of_lt_of_le before
                  (Nat.le_trans valid.shown.since (Nat.le_add_right _ _)))
              have smaller := size_lt growing made inside
              rw [← size, ← valid.capacity, same] at smaller
              exact Nat.lt_irrefl _ smaller
            have reached := (located.current notLagging).1 ▸ located.offset
            exact fits_tryExpand valid issued reached (by omega)
        · trivial
    · trivial

/-- A step of a caller keeps the words sized, and what it has read in order. -/
theorem sized_next (growing : arguments.Grows)
    (tickets : 1 + max memory.pushTicket memory.popTicket < 2 ^ 58)
    (stepped : next arguments choice memory pc = some (after, following))
    (sized : Sized arguments memory)
    (issued : ∀ ticket, pc.ticket? = some ticket → ticket ≤ memory.pushTicket)
    (fits : pc.Fits arguments memory) :
    Sized arguments after ∧ Advances memory after ∧ following.Fits arguments after := by
  cases pc with
  | loadPush caller => cases caller <;> cases stepped <;> exact ⟨sized, .refl, trivial⟩
  | readState attempt =>
      simp only [next] at stepped
      split at stepped <;> cases stepped
      · exact ⟨sized, .refl, retry_fits⟩
      · next even =>
          rw [← ne_eq, Nat.mod_two_ne_one] at even
          exact ⟨sized, .refl, even, Nat.le_refl _, sized.offset⟩
  | readCapacity attempt state slots =>
      cases stepped
      have shown : Shown arguments memory state := fits
      exact ⟨sized, .refl, fits, memory.level,
        Nat.le_trans shown.since (Nat.le_add_right _ _), Nat.le_refl _, sized.capacity⟩
  | readStride attempt state slots capacity =>
      cases stepped
      exact ⟨sized, .refl, fits⟩
  | validate attempt snapshot =>
      simp only [next] at stepped
      split at stepped <;> cases stepped
      · next current =>
          obtain ⟨shown, level, since, until_, same⟩ := fits
          -- the word has not changed, so neither has the capacity
          have free := sized.free (current ▸ shown.even)
          rw [level_of_none free, current] at until_
          refine ⟨sized, .refl, shown, ?_⟩
          rw [same, Nat.le_antisymm until_ since]
      · exact ⟨sized, .refl, retry_fits⟩
  | resolve attempt snapshot =>
      simp only [next] at stepped
      split at stepped <;> cases stepped
      · exact ⟨sized, .refl, trivial⟩
      · next array lagging found =>
          exact ⟨sized, .refl, fits, located_of_update sized fits found⟩
  | located attempt snapshot array lagging =>
      cases stepped
      exact ⟨sized, .refl, fits_atArray growing sized (issued _ rfl) fits.1 fits.2⟩
  | checkPops attempt snapshot =>
      simp only [next] at stepped
      split at stepped <;> cases stepped
      · exact ⟨sized, .refl, retry_fits⟩
      · next taken =>
          refine ⟨sized, .refl, fits_tryExpand fits.1 (issued _ rfl) fits.2 ?_⟩
          rcases Nat.lt_or_ge snapshot.capacity (2 ^ 63) with small | large
          · rw [Nat.mod_eq_of_lt (by omega)] at taken
            have := ssize_toNat_le snapshot.capacity
            omega
          · have := ssize_neg large (fits.1.capacity ▸ size_lt_word _)
            omega
  | reload attempt snapshot offset =>
      simp only [next] at stepped
      split at stepped
      · cases stepped
        exact ⟨sized, .refl, retry_fits⟩
      · next last =>
          split at stepped <;> cases stepped
          · next current =>
              obtain ⟨reached, enough⟩ := fits.2 current
              refine ⟨sized, .refl, fits_tryExpand fits.1 (issued _ rfl) (current ▸ reached) ?_⟩
              exact Nat.le_trans (ssize_toNat_le _)
                (enough (Nat.le_of_eq (Decidable.of_not_not last)))
          · exact ⟨sized, .refl, trivial⟩
  | cas attempt =>
      simp only [next] at stepped
      split at stepped <;> cases stepped
      · obtain ⟨taken, advances⟩ := @Sized.take _ _ _ memory.popTicket (Nat.le_succ _) sized
        exact ⟨taken, advances, trivial⟩
      · exact ⟨sized, .refl, retry_fits⟩
  | tryExpand attempt snapshot =>
      obtain ⟨valid, enough⟩ := fits
      simp only [next] at stepped
      split at stepped
      · cases stepped
        exact ⟨sized, .refl, trivial⟩
      · next short =>
          split at stepped
          · next current =>
              cases stepped
              obtain ⟨sizedAfter, advances⟩ :=
                sized.lock current valid (lt_of_size_ne (valid.capacity ▸ short)) enough
              exact ⟨sizedAfter, advances, trivial⟩
          · cases stepped
            exact ⟨sized, .refl, retry_fits⟩
  | expanding attempt =>
      obtain ⟨expansion, taken, moved⟩ := Option.map_eq_some_iff.mp stepped
      exact sized_expand growing tickets sized taken moved
  | expanded attempt record =>
      cases stepped
      exact ⟨sized, .refl, retry_fits⟩
  | ended => cases stepped
  | assertFailed => cases stepped
  | _ =>
      cases stepped
      exact ⟨sized, .refl, fits⟩

end Steps

/-! ## Runs -/

section Runs

variable {arguments : Arguments} {state : Global Memory Pc}

/-- The words and what the callers have read, in every state of a run. -/
structure Consistent (arguments : Arguments) (memory : Memory) (agents : List Pc) : Prop where
  sized : Sized arguments memory
  issued : ∀ pc ∈ agents, ∀ ticket, pc.ticket? = some ticket → ticket ≤ memory.pushTicket
  fits : ∀ pc ∈ agents, pc.Fits arguments memory

theorem getNumClosed_zero : getNumClosed 0 = 0 := getNumClosed_eq 0

theorem initQueue_level : arguments.initQueue.level = 0 :=
  (level_of_none rfl).trans getNumClosed_zero

theorem sized_initQueue : Sized arguments arguments.initQueue := by
  have count : getNumClosed arguments.initQueue.dstate = 0 := getNumClosed_zero
  constructor
  case unlocked => exact fun _ => rfl
  case made =>
    rw [initQueue_level]
    exact nofun
  case capacity =>
    rw [initQueue_level]
    exact size_zero.symm
  case offset =>
    rw [count]
    exact Nat.zero_le _
  case closed =>
    rw [count]
    exact nofun
  case locked => exact nofun

theorem Consistent.step {memory after : Memory} {left agents rest : List Pc}
    (consistent : Consistent arguments memory (agents ++ rest)) (sized : Sized arguments after)
    (advances : Advances memory after)
    (own : ∀ pc ∈ left, (∀ ticket, pc.ticket? = some ticket → ticket ≤ after.pushTicket) ∧
      pc.Fits arguments after) : Consistent arguments after (left ++ rest) := by
  refine ⟨sized, fun pc member => ?_, fun pc member => ?_⟩
  · rcases List.mem_append.mp member with mine | other
    · exact (own pc mine).1
    · intro ticket has
      exact Nat.le_trans (consistent.issued pc (List.mem_append_right _ other) ticket has)
        advances.pushTicket
  · rcases List.mem_append.mp member with mine | other
    · exact (own pc mine).2
    · exact (consistent.fits pc (List.mem_append_right _ other)).mono advances

theorem consistent (growing : arguments.Grows)
    (reached : Reachable (system arguments) ticketsFit state) :
    Consistent arguments state.shared state.agents := by
  refine Reaches.invariant (Consistent arguments) ?_ ?_ ?_ ?_ reached
  · intro memory agents others same consistent
    exact ⟨consistent.sized, fun pc member => consistent.issued pc (same.mem_iff.mpr member),
      fun pc member => consistent.fits pc (same.mem_iff.mpr member)⟩
  · exact ⟨sized_initQueue, nofun, nofun⟩
  · intro state index choice pc memory left _ tickets _ acted consistent
    obtain ⟨⟨after, following⟩, stepped, same⟩ := Option.map_eq_some_iff.mp acted
    cases same
    have issued := consistent.issued pc List.mem_cons_self
    obtain ⟨sized, advances, fits⟩ := sized_next growing tickets stepped consistent.sized issued
      (consistent.fits pc List.mem_cons_self)
    refine @Consistent.step _ _ _ _ [pc] _ consistent sized advances fun other member => ?_
    rw [List.mem_singleton.mp member]
    refine ⟨fun ticket has => Nat.le_trans ?_ advances.pushTicket, fits⟩
    rcases ticket_next stepped has with had | loaded
    · exact issued ticket had
    · exact Nat.le_of_eq loaded
  · intro state move memory left _ _ begun consistent
    cases move with
    | blockingWrite =>
        cases begun
        obtain ⟨sized, advances⟩ :=
          @Sized.take _ _ _ state.shared.popTicket (Nat.le_succ _) consistent.sized
        refine @Consistent.step _ _ _ _ [] _ consistent sized advances fun pc member => ?_
        rw [List.mem_singleton.mp member]
        refine ⟨fun ticket has => ?_, trivial⟩
        cases has
        exact Nat.le_succ _
    | pop =>
        cases begun
        obtain ⟨sized, advances⟩ := @Sized.take _ _ _ (state.shared.popTicket + 1)
          (Nat.le_refl _) consistent.sized
        exact @Consistent.step _ _ _ _ [] _ consistent sized advances (List.forall_mem_nil _)
    | write | writeIfNotFull =>
        cases begun
        refine @Consistent.step _ _ _ _ [] _ consistent consistent.sized .refl fun pc member => ?_
        rw [List.mem_singleton.mp member]
        exact ⟨nofun, trivial⟩

theorem lawful_of_grows (growing : arguments.Grows) : arguments.Lawful := by
  obtain ⟨maxClosed, counted⟩ := exists_initQueue growing.reaches
  refine ⟨maxClosed, counted, fun state reached attempt record member => ?_⟩
  exact (consistent growing reached).fits _ member maxClosed counted

end Runs

/-! ## What goes wrong otherwise -/

section Converse

variable {arguments : Arguments} {maxClosed round : Nat} {memory after : Memory} {agents : List Pc}
  {pc following : Pc}

theorem Reachable.moved (reached : Reachable (system arguments) ticketsFit ⟨memory, pc :: agents⟩)
    (tickets : 1 + max memory.pushTicket memory.popTicket < 2 ^ 58)
    (stepped : next arguments {} memory pc = some (after, following)) :
    Reachable (system arguments) ticketsFit ⟨after, following :: agents⟩ := by
  refine @Reaches.step _ _ _ _ _ _ _ _ _ (.act 0 {}) reached tickets ?_
  simp only [System.step, List.getElem?_cons_zero, system, stepped, Option.map_some,
    List.eraseIdx_cons_zero, List.cons_append, List.nil_append]

/-- Calls of `blockingWrite` take the tickets up to a given one. -/
theorem pushes (reached : Reachable (system arguments) ticketsFit ⟨memory, agents⟩) {ticket : Nat}
    (later : memory.pushTicket ≤ ticket) (fits : 1 + max ticket memory.popTicket < 2 ^ 58) :
    ∃ agents, Reachable (system arguments) ticketsFit
      ⟨{ memory with pushTicket := ticket }, agents⟩ := by
  induction later with
  | refl => exact ⟨agents, reached⟩
  | @step ticket _ ih =>
      obtain ⟨agents, before⟩ := ih (by omega)
      have tickets : ticketsFit ⟨{ memory with pushTicket := ticket }, agents⟩
          (.env .blockingWrite) := by
        change 1 + max ticket memory.popTicket < 2 ^ 58
        omega
      exact ⟨_, .step before tickets rfl⟩

/-- While no other caller moves, one that finds the array full expands the
queue. -/
theorem expands (reached : Reachable (system arguments) ticketsFit ⟨memory, agents⟩)
    (tickets : 1 + max memory.pushTicket memory.popTicket < 2 ^ 58)
    (free : memory.dstate % 2 = 0) (short : memory.dcapacity ≠ arguments.queueCapacity)
    (current : getOffset memory.dstate ≤ memory.pushTicket)
    (isFull : full memory.dcapacity memory.pushTicket memory.popTicket = true)
    (allocates : arguments.allocatable (arguments.newCapacity memory.dcapacity) = true) :
    ∃ attempt record after,
      Reachable (system arguments) ticketsFit ⟨after, .expanded attempt record :: agents⟩ ∧
      record = ⟨getNumClosed memory.dstate, memory.dcapacity,
        arguments.newCapacity memory.dcapacity, 1 + max memory.pushTicket memory.popTicket,
        newState (1 + max memory.pushTicket memory.popTicket) (getNumClosed memory.dstate)⟩ ∧
      after.dstate = record.word ∧ after.dcapacity = record.after ∧
      after.pushTicket = memory.pushTicket ∧ after.popTicket = memory.popTicket := by
  have even : memory.dstate % 2 ≠ 1 := by rw [free]; exact Nat.zero_ne_one
  have called : Reachable (system arguments) ticketsFit
      ⟨memory, .loadPush .tryObtainPromisedPushTicket :: agents⟩ :=
    @Reaches.step _ _ _ _ _ _ _ _ _ (.env .writeIfNotFull) reached tickets rfl
  have loadedTicket := Reachable.moved called tickets rfl
  have loadedPops := Reachable.moved loadedTicket tickets rfl
  have readState := Reachable.moved loadedPops tickets (if_neg even)
  have readSlots := Reachable.moved readState tickets rfl
  have readCapacity := Reachable.moved readSlots tickets rfl
  have readStride := Reachable.moved readCapacity tickets rfl
  have validated := Reachable.moved readStride tickets (if_pos rfl)
  have located : next arguments {} memory (.resolve
      ⟨.tryObtainPromisedPushTicket, memory.pushTicket, memory.popTicket⟩
      ⟨memory.dstate, memory.dslots, memory.dcapacity, memory.dstride⟩) = some (memory, .located
      ⟨.tryObtainPromisedPushTicket, memory.pushTicket, memory.popTicket⟩
      ⟨memory.dstate, memory.dslots, memory.dcapacity, memory.dstride⟩
      ⟨getOffset memory.dstate, memory.dslots, memory.dcapacity, memory.dstride⟩ false) := by
    simp only [next, maybeUpdateFromClosed, if_pos current]
  have resolved := Reachable.moved validated tickets located
  have tries : next arguments {} memory (.located
      ⟨.tryObtainPromisedPushTicket, memory.pushTicket, memory.popTicket⟩
      ⟨memory.dstate, memory.dslots, memory.dcapacity, memory.dstride⟩
      ⟨getOffset memory.dstate, memory.dslots, memory.dcapacity, memory.dstride⟩ false) =
      some (memory, .tryExpand
        ⟨.tryObtainPromisedPushTicket, memory.pushTicket, memory.popTicket⟩
        ⟨memory.dstate, memory.dslots, memory.dcapacity, memory.dstride⟩) := by
    simp only [next, atArray, isFull, if_true]
  have found := Reachable.moved resolved tickets tries
  have locked := Reachable.moved found tickets ((if_neg short).trans (if_pos rfl))
  have loadedPush := Reachable.moved locked tickets rfl
  have loadedPop := Reachable.moved loadedPush tickets rfl
  have allocated := Reachable.moved loadedPop tickets
    (congrArg some (if_pos ⟨rfl, allocates⟩))
  have closed := Reachable.moved allocated tickets rfl
  have storedSlots := Reachable.moved closed tickets rfl
  have storedCapacity := Reachable.moved storedSlots tickets rfl
  have storedStride := Reachable.moved storedCapacity tickets rfl
  have released := Reachable.moved storedStride tickets rfl
  exact ⟨_, _, _, released, rfl, rfl, rfl, rfl, rfl⟩

/-- A state of a run in which so many expansions have been made, with as few
tickets as that needs. -/
def Expansions (arguments : Arguments) (round : Nat) : Prop :=
  ∃ memory agents, Reachable (system arguments) ticketsFit ⟨memory, agents⟩ ∧
    memory.dstate = seqlockWord (arguments.offset round) round ∧
    memory.dcapacity = arguments.size round ∧
    memory.pushTicket ≤ arguments.offset round ∧ memory.popTicket = 0

/-- One more expansion, whatever becomes of the word. -/
theorem Expansions.expand (expansions : Expansions arguments round) (few : round ≤ 31)
    (canExpand : arguments.CanExpand round) :
    ∃ attempt record after agents,
      Reachable (system arguments) ticketsFit ⟨after, .expanded attempt record :: agents⟩ ∧
      record = ⟨round, arguments.size round, arguments.size (round + 1),
        arguments.offset (round + 1), newState (arguments.offset (round + 1)) round⟩ ∧
      after.dstate = record.word ∧ after.dcapacity = record.after ∧
      after.pushTicket ≤ arguments.offset (round + 1) ∧ after.popTicket = 0 := by
  obtain ⟨memory, agents, reached, word, capacity, pushed, pops⟩ := expansions
  have inWord : round < 32 := Nat.lt_succ_of_le few
  have below := canExpand.short round (Nat.le_refl _)
  have count : getNumClosed memory.dstate = round := by
    rw [word, getNumClosed_seqlockWord inWord]
  have offset : getOffset memory.dstate = arguments.offset round := by
    rw [word, getOffset_seqlockWord inWord]
  -- the ticket with which the array is full, and current
  obtain ⟨ticket, ticketIs⟩ : ∃ ticket, ticket =
      max (ssize (arguments.size round)).toNat (arguments.offset round) := ⟨_, rfl⟩
  have next : 1 + ticket = arguments.offset (round + 1) := by
    rw [ticketIs]
    rfl
  have fits : 1 + ticket < 2 ^ 58 := next ▸ canExpand.tickets
  have tickets : 1 + max ticket memory.popTicket < 2 ^ 58 := by
    rw [pops, Nat.max_zero]
    exact fits
  obtain ⟨more, raised⟩ := @pushes _ _ _ reached ticket (by omega) tickets
  have isFull : full memory.dcapacity ticket memory.popTicket = true := by
    rw [capacity, pops]
    exact decide_eq_true (by omega)
  have newCapacity := newCapacity_size below
  obtain ⟨attempt, record, after, released, same, wordAfter, stored, pushesAfter, popsAfter⟩ :=
    expands raised tickets (word ▸ seqlockWord_even)
      (by
        change memory.dcapacity ≠ _
        rw [capacity, size_of_below below]
        exact Nat.ne_of_lt below)
      (by
        change getOffset memory.dstate ≤ ticket
        omega)
      isFull (by
        rw [capacity, newCapacity]
        exact canExpand.slots round (Nat.le_refl _))
  simp only [count, capacity, newCapacity, pops, Nat.max_zero, next] at same
  refine ⟨attempt, record, after, more, released, same, wordAfter, stored, ?_,
    popsAfter.trans pops⟩
  rw [pushesAfter, ← next]
  exact Nat.le_add_left _ _

/-- As long as the word has room, all the expansions that can be made are made
in one run. -/
theorem exists_expansions (few : round ≤ 31) (made : arguments.Made round) :
    Expansions arguments round := by
  induction round with
  | zero =>
      exact ⟨arguments.initQueue, [], Reachable.init, rfl, size_zero.symm, Nat.le_refl _, rfl⟩
  | succ round ih =>
      have inside : round < 31 := few
      have last := made round (Nat.lt_succ_self _)
      obtain ⟨attempt, record, after, agents, reached, same, word, capacity, pushed, pops⟩ :=
        (ih (Nat.le_of_lt inside) fun earlier before =>
          made earlier (Nat.lt_succ_of_lt before)).expand (Nat.le_of_lt inside) last
      refine ⟨after, _, reached, ?_, ?_, pushed, pops⟩
      · rw [word, same]
        exact newState_eq last.tickets inside
      · rw [capacity, same]

/-- The first expansion that the word or the products spoil is made in some
run. -/
theorem grows_of_lawful (lawful : arguments.Lawful) : arguments.Grows := by
  obtain ⟨maxClosed, counted, sound⟩ := lawful
  have made : ∀ round ≤ 31, arguments.CanExpand round → Expanded.Sound arguments maxClosed
      ⟨round, arguments.size round, arguments.size (round + 1), arguments.offset (round + 1),
        newState (arguments.offset (round + 1)) round⟩ := by
    intro round few canExpand
    obtain ⟨attempt, record, after, agents, reached, rfl, _⟩ :=
      (exists_expansions few fun earlier before =>
        canExpand.mono (Nat.le_of_lt before)).expand few canExpand
    exact sound _ reached attempt _ List.mem_cons_self
  have few : ∀ round, arguments.CanExpand round → round < 31 := by
    intro round canExpand
    by_contra many
    have numClosed := (made 31 (Nat.le_refl 31) (canExpand.mono (Nat.le_of_not_lt many))).numClosed
    rw [getNumClosed_newState_31] at numClosed
    cases numClosed
  refine ⟨⟨maxClosed, (initQueue_iff.mp counted).1⟩, few, fun round canExpand => ?_⟩
  have grows := (made round (Nat.le_of_lt (few round canExpand)) canExpand).grows
  calc arguments.expanded round = arguments.size round :=
        (size_of_below (canExpand.short round (Nat.le_refl _))).symm
    _ < arguments.size (round + 1) := grows
    _ ≤ arguments.expanded (round + 1) := Nat.min_le_left _ _

end Converse

/-- The constructor's loop ends and every expansion is sound exactly if the
products come to the capacity and the expansions that can be made are few
enough, each to a larger size. -/
theorem lawful_iff_grows (arguments : Arguments) : arguments.Lawful ↔ arguments.Grows :=
  ⟨grows_of_lawful, lawful_of_grows⟩

/-- The sizes 1 and `2^32`, and then the product is zero for ever. -/
def wrapping : Arguments where
  queueCapacity := 2 ^ 32 + 1
  minCapacity := 1
  expansionMultiplier := 2 ^ 32
  kSlotPadding := 16
  positive := by decide
  fits := by decide
  array := by decide

theorem wrapping_expanded (round : Nat) : wrapping.expanded (round + 2) = 0 := by
  have split : wrapping.cap * wrapping.mult ^ (round + 2) =
      2 ^ 64 * (2 ^ 32) ^ round := by
    have cap : wrapping.cap = 1 := by decide
    have mult : wrapping.mult = 2 ^ 32 := by decide
    rw [cap, mult, Nat.one_mul, pow_add, Nat.mul_comm]
    rfl
  rw [Arguments.expanded, split, Nat.mul_mod_right]

theorem wrapping_expanded_lt (round : Nat) : wrapping.expanded round < wrapping.queueCapacity := by
  match round with
  | 0 => decide
  | 1 => decide
  | round + 2 =>
      rw [wrapping_expanded]
      decide

theorem not_forall_lawful : ¬ ∀ arguments : Arguments, arguments.Lawful := by
  intro lawful
  obtain ⟨maxClosed, counted, _⟩ := lawful wrapping
  exact Nat.not_lt.mpr (initQueue_iff.mp counted).1 (wrapping_expanded_lt maxClosed)

end ThreadPoolExec.MPMCQueue.Dynamic.Sizing
