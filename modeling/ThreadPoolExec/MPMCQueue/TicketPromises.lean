import ThreadPoolExec.MPMCQueue.DynamicPromises
import ThreadPoolExec.MPMCQueue.StaticPromises

/-!
# Ticket promises

What the static and the dynamic queue promise with a ticket, in every run that
a call takes part in.
-/

set_option autoImplicit false

namespace ThreadPoolExec.MPMCQueue

open Interleaving TurnCells

universe u

variable {V : Type u}

/-- A write to an empty static queue has begun. -/
def writing : Global (Memory Nat) (Call Nat) :=
  ⟨{ nextCall := 1 }, [⟨0, .readyLoad (.push 7)⟩]⟩

/-- A write to an empty dynamic queue has begun. -/
def Dynamic.writing : Global (Dynamic.Memory Nat) (Dynamic.Call Nat) :=
  ⟨{ Dynamic.Layout.initQueue ⟨4, 1, 2, 1⟩ with nextCall := 1 },
    [⟨0, .begin .ready (.push 7)⟩]⟩

end ThreadPoolExec.MPMCQueue
