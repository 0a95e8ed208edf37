import DeclFront.Completion.Part

/-!
# Broken promises

What stops a computation that its caller was promised would not stop: a part marked for a symbol
that has no such part, a computation that is not a function, and the places that cannot be reached.
-/

set_option autoImplicit false

namespace DeclFront

/-- Why a computation stopped. -/
inductive Fault where
  /-- A part was marked complete for a symbol that has no such part. -/
  | irrelevantPart (part relevant : Parts)
  /-- A fact was computed twice with different results. -/
  | impureComputation (part : Parts) (published computed : String)
  /-- The computation of a fact stopped by itself. -/
  | computation (message : String)
  /-- A string literal without room for its quotes. -/
  | missingQuotes
  /-- An attribute without the argument that its kind promises. -/
  | missingArgument
  /-- A symbol without a location. -/
  | missingLocation
  /-- An index that is not one of the table. -/
  | noSuchSymbol
  /-- A place that cannot be reached. -/
  | unreachable
  deriving DecidableEq

/-- The wording of a fault. -/
def Fault.message : Fault → String
  | irrelevantPart part relevant =>
    "completion part " ++ part.text ++ " is not relevant to this symbol (relevant: " ++ relevant.text ++ ")"
  | impureComputation part published computed =>
    "impure computation for " ++ part.text ++ ": published " ++ published ++ ", then computed " ++ computed
  | computation message => message
  | missingQuotes => "a string literal has no quotes"
  | missingArgument => "an attribute has no argument"
  | missingLocation => "a symbol has no location"
  | noSuchSymbol => "no such symbol"
  | unreachable => "internal error: entered unreachable code"

end DeclFront
