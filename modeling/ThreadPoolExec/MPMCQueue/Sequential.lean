import ThreadPoolExec.MPMCQueue.Static

/-!
# The static MPMC queue, one call at a time

A call that no other call interrupts runs to its end or to the wait for its
slot. Between such calls the slots hold a window of consecutive tickets, and
the calls are those of a bounded queue.
-/

set_option autoImplicit false

namespace ThreadPoolExec.MPMCQueue

open Interleaving TurnCells

universe u

variable {V : Type u} {layout : Layout}

/-- Every call ends within so many steps, if it ends. -/
def soloSteps : Nat := 6

/-- A call from its start to its end, or to its wait. -/
def solo (layout : Layout) (memory : Memory V) (operation : Operation V) : Memory V × Pc V :=
  let ended := (system layout).alone () soloSteps memory ⟨memory.nextCall, operation.start⟩
  (ended.1, ended.2.pc)

/-- `size()`: alone, two loads of the push ticket agree. -/
def Memory.size (memory : Memory V) : Int :=
  (memory.pushTicket : Int) - memory.popTicket

/-- Tickets less than the capacity apart have different slots. -/
theorem Layout.place_ne {ticket other : Nat} (different : ticket ≠ other)
    (near : ticket < other + layout.capacity) (nearToo : other < ticket + layout.capacity) :
    (layout.place ticket).1 ≠ (layout.place other).1 := fun same =>
  different (idx_injOn (coprime_computeStride layout.capacity) near nearToo same)

/-- Between calls, the tickets from the next pop to the next push are those of
the items, and the slots of the tickets after them are free. -/
structure Window (layout : Layout) (memory : Memory V) (items : List V) : Prop where
  tickets : memory.pushTicket = memory.popTicket + items.length
  bounded : items.length ≤ layout.capacity
  filled : ∀ position value, items[position]? = some value →
    memory.slots (layout.place (memory.popTicket + position)).1 =
      ⟨(layout.place (memory.popTicket + position)).2 * 2 + 1, some value⟩
  free : ∀ ticket, memory.pushTicket ≤ ticket → ticket < memory.popTicket + layout.capacity →
    (memory.slots (layout.place ticket).1).turn = (layout.place ticket).2 * 2

theorem Window.size {memory : Memory V} {items : List V} (window : Window layout memory items) :
    memory.size = items.length := by
  have tickets := window.tickets
  unfold Memory.size
  omega

/-- A write with the next push ticket, carried out. -/
def Memory.written (layout : Layout) (memory : Memory V) (value : V) : Memory V :=
  { memory with
    pushTicket := memory.pushTicket + 1
    pushed := memory.pushed ++ [value]
    slots := Function.update memory.slots (layout.place memory.pushTicket).1
      ⟨(layout.place memory.pushTicket).2 * 2 + 1, some value⟩ }

/-- A read with the next pop ticket, carried out. -/
def Memory.readOut (layout : Layout) (memory : Memory V) : Memory V :=
  { memory with
    popTicket := memory.popTicket + 1
    slots := Function.update memory.slots (layout.place memory.popTicket).1
      ⟨(layout.place memory.popTicket).2 * 2 + 2, none⟩ }

theorem Window.written {memory : Memory V} {items : List V} (window : Window layout memory items)
    (room : items.length < layout.capacity) (value : V) :
    Window layout (memory.written layout value) (items ++ [value]) where
  tickets := by
    have tickets := window.tickets
    simp only [Memory.written, List.length_append, List.length_singleton]
    omega
  bounded := by
    rw [List.length_append, List.length_singleton]
    omega
  filled position stored found := by
    have tickets := window.tickets
    simp only [Memory.written]
    rcases Nat.lt_trichotomy position items.length with inside | rfl | outside
    · rw [List.getElem?_append_left inside] at found
      have distinct : (layout.place (memory.popTicket + position)).1 ≠
          (layout.place memory.pushTicket).1 :=
        layout.place_ne (by omega) (by omega) (by omega)
      rw [Function.update_of_ne distinct]
      exact window.filled position stored found
    · rw [List.getElem?_append_right (Nat.le_refl _), Nat.sub_self, List.getElem?_cons_zero,
        Option.some.injEq] at found
      rw [← tickets, Function.update_self, found]
    · rw [List.getElem?_eq_none (by simp; omega)] at found
      cases found
  free ticket later inside := by
    have tickets := window.tickets
    simp only [Memory.written] at later inside ⊢
    have distinct : (layout.place ticket).1 ≠ (layout.place memory.pushTicket).1 :=
      layout.place_ne (by omega) (by omega) (by omega)
    rw [Function.update_of_ne distinct]
    exact window.free ticket (by omega) inside

theorem Window.readOut {memory : Memory V} {value : V} {items : List V}
    (window : Window layout memory (value :: items)) :
    Window layout (memory.readOut layout) items := by
  have tickets : memory.pushTicket = memory.popTicket + (items.length + 1) := window.tickets
  have bounded : items.length + 1 ≤ layout.capacity := window.bounded
  refine ⟨?_, by omega, fun position stored found => ?_, fun ticket later inside => ?_⟩
  · simp only [Memory.readOut]
    omega
  · have short : position < items.length := (List.getElem?_eq_some_iff.mp found).1
    have same : memory.popTicket + 1 + position = memory.popTicket + (position + 1) := by omega
    have distinct : (layout.place (memory.popTicket + (position + 1))).1 ≠
        (layout.place memory.popTicket).1 :=
      layout.place_ne (by omega) (by omega) (by omega)
    simp only [Memory.readOut]
    rw [same, Function.update_of_ne distinct]
    exact window.filled (position + 1) stored found
  · simp only [Memory.readOut] at later inside ⊢
    rcases Nat.lt_or_eq_of_le (Nat.le_of_lt_succ (show ticket < (memory.popTicket +
        layout.capacity) + 1 by omega)) with before | rfl
    · have distinct : (layout.place ticket).1 ≠ (layout.place memory.popTicket).1 :=
        layout.place_ne (by omega) (by omega) (by omega)
      rw [Function.update_of_ne distinct]
      exact window.free ticket later before
    · -- the freed slot waits for the ticket one round later
      rw [Layout.place_add_capacity (by omega), Function.update_self]
      exact (Nat.succ_mul _ 2).symm

theorem Window.slot_free {memory : Memory V} {items : List V} (window : Window layout memory items)
    (room : items.length < layout.capacity) :
    (memory.slots (layout.place memory.pushTicket).1).turn =
      (layout.place memory.pushTicket).2 * 2 := by
  have tickets := window.tickets
  exact window.free _ (Nat.le_refl _) (by omega)

theorem Window.slot_filled {memory : Memory V} {value : V} {items : List V}
    (window : Window layout memory (value :: items)) :
    memory.slots (layout.place memory.popTicket).1 =
      ⟨(layout.place memory.popTicket).2 * 2 + 1, some value⟩ :=
  window.filled 0 value rfl

/-! ## The calls -/

section Calls

variable {memory : Memory V} {items : List V}

theorem solo_writeIfNotFull (window : Window layout memory items)
    (small : layout.capacity < 2 ^ 63) (room : items.length < layout.capacity) (value : V) :
    solo layout memory (.writeIfNotFull value) =
      (memory.written layout value, .wrote memory.pushTicket value) := by
  have tickets := window.tickets
  have free := window.slot_free room
  have promised : ¬ full layout.capacity memory.pushTicket memory.popTicket = true := by
    rw [full_iff small]
    omega
  simp [solo, soloSteps, System.alone, system, act, Operation.start, Pc.next, Memory.dispenser,
    Memory.other, unpromised, promised, Memory.grant, Memory.slotAt, Cell.advance, free,
    Pc.advanced, Phase.storing, Memory.written]

theorem solo_writeIfNotFull_full
    (test : full layout.capacity memory.pushTicket memory.popTicket = true) (value : V) :
    solo layout memory (.writeIfNotFull value) = (memory, .refused (.push value)) := by
  simp [solo, soloSteps, System.alone, system, act, Operation.start, Pc.next, Memory.dispenser,
    Memory.other, unpromised, test]

/-- The test is true of a queue that holds its capacity. -/
theorem Window.full (window : Window layout memory items)
    (exhausted : items.length = layout.capacity) :
    full layout.capacity memory.pushTicket memory.popTicket = true := by
  have tickets := window.tickets
  have := ssize_le layout.capacity
  exact decide_eq_true (by omega)

theorem solo_blockingWrite (window : Window layout memory items)
    (room : items.length < layout.capacity) (value : V) :
    solo layout memory (.blockingWrite value) =
      (memory.written layout value, .wrote memory.pushTicket value) := by
  have free := window.slot_free room
  simp [solo, soloSteps, System.alone, system, act, Operation.start, Pc.next, Memory.grant,
    Memory.slotAt, Cell.advance, free, Pc.advanced, Phase.storing, Memory.written]

theorem solo_readIfNotEmpty {value : V} (window : Window layout memory (value :: items)) :
    solo layout memory .readIfNotEmpty =
      (memory.readOut layout, .read memory.popTicket value) := by
  have tickets := window.tickets
  have filled := window.slot_filled
  have promised : ¬(memory.pushTicket ≤ memory.popTicket) := by
    rw [tickets, List.length_cons]
    omega
  simp [solo, soloSteps, System.alone, system, act, Operation.start, Pc.next, Memory.dispenser,
    Memory.other, unpromised, promised, Memory.grant, Memory.slotAt, Cell.advance, filled,
    Pc.advanced, Phase.storing, Memory.readOut]

theorem solo_readIfNotEmpty_empty (window : Window layout memory []) :
    solo layout memory .readIfNotEmpty = (memory, .refused .pop) := by
  have tickets : memory.pushTicket = memory.popTicket := window.tickets
  simp [solo, soloSteps, System.alone, system, act, Operation.start, Pc.next, Memory.dispenser,
    Memory.other, unpromised, tickets]

end Calls

end ThreadPoolExec.MPMCQueue
