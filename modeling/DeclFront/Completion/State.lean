import DeclFront.Completion.Fault

/-!
# Completion states

Which parts of what can be known about a symbol are known. A completion state has the parts that
matter to its symbol and those of them that are complete; a part once complete stays so.
-/

set_option autoImplicit false

namespace DeclFront

/-- The parts that matter to a symbol, and those that are complete. -/
structure CompletionState where
  done : Parts
  relevant : Parts
  deriving DecidableEq

namespace CompletionState

/-- Nothing is complete. -/
def new (relevant : Parts) : CompletionState := ⟨.none, relevant⟩

/-- Everything that matters is complete. -/
def completed (relevant : Parts) : CompletionState := ⟨relevant, relevant⟩

/-- Is every part of the set complete? -/
def hasComplete (s : CompletionState) (part : Parts) : Bool :=
  s.done.contains part

/-- The parts that matter and are not complete. -/
def incomplete (s : CompletionState) : Parts :=
  s.relevant.diff s.done

/-- How many parts are not complete. -/
def incompleteCount (s : CompletionState) : Nat :=
  s.incomplete.count

/-- Is everything that matters complete? -/
def isFullyComplete (s : CompletionState) : Bool :=
  s.incomplete = .none

/-- The state with a part marked, whether it matters or not. -/
def marked (s : CompletionState) (part : Parts) : CompletionState :=
  { s with done := s.done.union part }

/-- Marks a part complete, and says whether that changed anything. Only parts that matter may be
marked. -/
def note (s : CompletionState) (part : Parts) : Except Fault (Bool × CompletionState) :=
  if s.relevant.contains part then
    let next := s.marked part
    .ok (next.done ≠ s.done, next)
  else .error (.irrelevantPart part s.relevant)

end CompletionState

end DeclFront
