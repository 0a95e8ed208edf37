import DeclFront.Completion.Slot

/-!
# Cells, and what may be computed for them

Any number of slots over one completion state, with a count of the computations that were begun.
What is computed for a slot is written down as work: it may fill the slot ahead of its own result,
have other slots computed, stop with a fault, and answer with a value.
-/

set_option autoImplicit false

namespace DeclFront

/-- Slots by number, and how many computations were begun. -/
structure Cells (α : Type) where
  slots : Nat → Option α
  calls : Nat

/-- No slot filled and nothing begun. -/
def Cells.empty {α : Type} : Cells α := ⟨fun _ => none, 0⟩

/-- One slot by its number. -/
def Cells.slot {α : Type} (display : α → String) (i : Nat) : Slot (Cells α) α where
  get c := c.slots i
  fill v c := { c with slots := fun j => if j = i then some v else c.slots j }
  display := display

/-- What is computed for a slot. -/
inductive Work (α : Type) where
  /-- The value. -/
  | answer (v : α)
  /-- Stops with a fault. -/
  | stop (message : String)
  /-- Fills the slot with a value, as another computation of the same fact would. -/
  | rival (v : α) (next : Work α)
  /-- Has another slot computed, with work of its own. -/
  | nested (part : Parts) (slot : Nat) (work next : Work α)

namespace Work

/-- Does the work for the slot numbered `slot`. -/
def run {α : Type} [DecidableEq α] (display : α → String) (slot : Nat) : Work α → Action (Cells α) α
  | .answer v => pure v
  | .stop message => throw (.computation message)
  | .rival v next => do
    Action.publish (Cells.slot display slot) v
    next.run display slot
  | .nested part other work next => do
    let _ ← Action.ensureComplete part (Cells.slot display other) do
      modify fun s => { s with facts := { s.facts with calls := s.facts.calls + 1 } }
      work.run display other
    next.run display slot

/-- The value of a slot, computed by the given work if the slot is empty. -/
def ensure {α : Type} [DecidableEq α] (display : α → String) (part : Parts) (slot : Nat) (work : Work α) : Action (Cells α) α :=
  Action.ensureComplete part (Cells.slot display slot) do
    modify fun s => { s with facts := { s.facts with calls := s.facts.calls + 1 } }
    work.run display slot

end Work

end DeclFront
