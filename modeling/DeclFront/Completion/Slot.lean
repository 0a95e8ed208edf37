import DeclFront.Completion.State

/-!
# Facts computed once

A store holds a completion state and slots, each empty or with the value of one fact. The value of
an empty slot is computed when it is first asked for, with nothing locked: the computation may use
the store itself, fill other slots, and even find its own slot filled when it is done. A slot once
filled is never changed. A computation that disagrees with what is already in its slot is a fault.

An action keeps what it did to the store even when it ends in a fault.
-/

set_option autoImplicit false

namespace DeclFront

/-- A completion state with the slots that it belongs to. -/
structure Store (β : Type) where
  state : CompletionState
  facts : β

/-- A computation on a store, which may end in a fault. -/
abbrev Action (β α : Type) := ExceptT Fault (StateM (Store β)) α

/-- A place for at most one value, and how a value of it is shown. -/
structure Slot (β α : Type) where
  get : β → Option α
  fill : α → β → β
  display : α → String

namespace Action

/-- What an action answers, and the store it leaves. -/
def runOn {β α : Type} (a : Action β α) (s : Store β) : Except Fault α × Store β :=
  (ExceptT.run a).run s

/-- Marks a part complete, and says whether that changed anything. -/
def notePart {β : Type} (part : Parts) : Action β Bool := do
  let s ← get
  match s.state.note part with
  | .error f => throw f
  | .ok (changed, next) =>
    set { s with state := next }
    return changed

/-- The value in a slot, if it is filled. -/
def peek {β α : Type} (slot : Slot β α) : Action β (Option α) := do
  return slot.get (← get).facts

/-- Puts a value into a slot, unless it is filled. -/
def publish {β α : Type} (slot : Slot β α) (v : α) : Action β Unit := do
  match ← peek slot with
  | some _ => pure ()
  | none => modify fun s => { s with facts := slot.fill v s.facts }

/-- The value of a slot, computed if the slot is empty, with its part marked complete. -/
def ensureComplete {β α : Type} [DecidableEq α] (part : Parts) (slot : Slot β α) (compute : Action β α) : Action β α := do
  match ← peek slot with
  | some v =>
    let _ ← notePart part
    return v
  | none =>
    let computed ← compute
    match ← peek slot with
    | some winner =>
      if computed ≠ winner then
        throw (.impureComputation part (slot.display winner) (slot.display computed))
    | none => publish slot computed
    let _ ← notePart part
    match ← peek slot with
    | some v => return v
    | none => throw .unreachable

end Action

end DeclFront
