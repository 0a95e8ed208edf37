import DeclFront.Syntax.Tree

/-!
# Diagnostics

What a user is told about the files of a compilation: a code, how bad it is, a message, what it
comes from, and a place if it has one.
-/

set_option autoImplicit false

namespace DeclFront

/-- How bad a diagnostic is, mildest first. -/
inductive Severity where
  | hidden
  | info
  | warning
  | error
  deriving DecidableEq

namespace Severity

/-- The word for a severity. -/
def text : Severity → String
  | hidden => "hidden"
  | info => "info"
  | warning => "warning"
  | error => "error"

/-- The place of a severity in the order of severities. -/
def rank : Severity → Nat
  | hidden => 0
  | info => 1
  | warning => 2
  | error => 3

/-- The worse of two severities. -/
def worse (a b : Severity) : Severity :=
  if a.rank < b.rank then b else a

/-- The worst of some severities. -/
def worst : List Severity → Option Severity
  | [] => none
  | s :: ss => some (ss.foldl worse s)

end Severity

/-- What a diagnostic comes from. -/
inductive DiagnosticSource where
  /-- Reading a file. -/
  | tree
  /-- A symbol, by its qualified name. -/
  | symbol (name : String)
  /-- A generator, by the name it is registered under. -/
  | generator (name : String)
  /-- The driver of the generators itself. -/
  | driver
  deriving DecidableEq

/-- A range of bytes in a named file. -/
structure Location where
  file : String
  range : Range
  deriving DecidableEq

/-- One thing that a user is told. -/
structure Diagnostic where
  code : String
  severity : Severity
  message : String
  source : DiagnosticSource := .driver
  location : Option Location := none
  deriving DecidableEq

namespace Diagnostic

/-- Only errors are errors. -/
def isError (d : Diagnostic) : Bool :=
  d.severity = .error

/-- The generator that a diagnostic comes from. -/
def generator? (d : Diagnostic) : Option String :=
  match d.source with
  | .generator name => some name
  | _ => none

/-- The place in words, as it stands before a diagnostic. -/
def placeText : Option Location → String
  | none => ""
  | some l => l.file ++ "@" ++ toString l.range.start ++ ".." ++ toString l.range.stop ++ ": "

/-- A diagnostic in words. -/
def text (d : Diagnostic) : String :=
  placeText d.location ++ d.severity.text ++ "[" ++ d.code ++ "]: " ++ d.message

end Diagnostic

end DeclFront
