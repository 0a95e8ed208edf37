import DeclFront.Compilation
import DeclFront.Symbol.Knowledge

/-!
# Snapshots and what is known about them

A snapshot is a compilation with a number of its own. Two snapshots with the same files are still
two: each has its own table of symbols, bound when it is first asked for, and its own record of what
has been found out. The archive gives out the numbers and keeps the records.
-/

set_option autoImplicit false

namespace DeclFront

/-- A compilation with a number of its own. -/
structure Snapshot where
  id : Nat
  compilation : Compilation

/-- What is known about each snapshot, by number; nothing about one that is not bound. -/
structure Archive where
  known : Array (Option Knowledge) := #[]

namespace Archive

/-- A new snapshot of a compilation. -/
def snapshot (a : Archive) (c : Compilation) : Snapshot × Archive :=
  (⟨a.known.size, c⟩, ⟨a.known.push none⟩)

/-- A snapshot without generated files: the same one, if it has none. -/
def withoutGenerated (a : Archive) (s : Snapshot) : Snapshot × Archive :=
  if s.compilation.generated.isEmpty then (s, a) else a.snapshot s.compilation.withoutGenerated

/-- What is known about a snapshot, if it is bound. -/
def known? (a : Archive) (s : Snapshot) : Option Knowledge :=
  (a.known[s.id]?).join

/-- Have the symbols of a snapshot been bound? -/
def isBound (a : Archive) (s : Snapshot) : Bool :=
  (a.known? s).isSome

/-- The archive with other knowledge about a snapshot. -/
def learn (a : Archive) (s : Snapshot) (k : Knowledge) : Archive :=
  ⟨a.known.setIfInBounds s.id (some k)⟩

/-- What is known about a snapshot, whose symbols are bound if they are not yet. -/
def bind (a : Archive) (s : Snapshot) : Knowledge × Archive :=
  match a.known? s with
  | some k => (k, a)
  | none =>
    let k := Knowledge.ofFiles s.compilation.files
    (k, a.learn s k)

/-- The errors of the parse, and then, if the snapshot is bound, what binding and everything found
out so far reported. -/
def diagnostics (a : Archive) (s : Snapshot) : List Diagnostic :=
  s.compilation.parseDiagnostics ++ (a.known? s).elim [] Knowledge.diagnostics

end Archive

end DeclFront
