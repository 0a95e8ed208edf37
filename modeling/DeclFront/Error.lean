import DeclFront.Json.Value

/-!
# Errors

What can go wrong for the caller of this library, as causes. An error may have been caused by
another one.
-/

set_option autoImplicit false

namespace DeclFront

/-- Why a hint name cannot be used. -/
inductive HintProblem where
  | empty
  | invalidCharacter
  /-- Given in words. -/
  | other (reason : String)
  deriving DecidableEq

/-- The wording of the reason. -/
def HintProblem.message : HintProblem → String
  | empty => "must not be empty"
  | invalidCharacter => "contains a character which is invalid in a file path"
  | other reason => reason

/-- What went wrong. -/
inductive Error where
  /-- A generator tried to add a source with an unusable hint name. -/
  | invalidHintName (hint : String) (reason : HintProblem)
  /-- A generator added two sources whose hint names differ at most by case. -/
  | duplicateHintName (hint : String)
  /-- The token of an execution was cancelled. -/
  | cancelled
  /-- Two generators were registered under one name. -/
  | duplicateGenerator (name : String)
  /-- No input file has the given name. -/
  | unknownSource (name : String)
  /-- A text is not a JSON document. -/
  | invalidJson (problem : JsonProblem)
  /-- A JSON value is not of the shape that was asked for. -/
  | unexpectedShape
  /-- Something went wrong in the course of something else, for a reason or for none. -/
  | process (context : String) (source : Option Error)

namespace Error

/-- The wording of an error. A cause is named behind its context. -/
def message : Error → String
  | invalidHintName hint reason => "invalid hint name `" ++ hint ++ "`: " ++ reason.message
  | duplicateHintName hint => "a source with hint name `" ++ hint ++ "` was already added"
  | cancelled => "operation was cancelled"
  | duplicateGenerator name => "a generator named `" ++ name ++ "` is already registered"
  | unknownSource name => "no input file named `" ++ name ++ "`"
  | invalidJson problem => problem.message
  | unexpectedShape => "a value has an unexpected shape"
  | process context none => context
  | process context (some source) => context ++ ": " ++ source.message

/-- The error that caused this one. -/
def source? : Error → Option Error
  | process _ source => source
  | _ => none

/-- The wordings of an error, of its cause, of the cause of that, and so on. -/
def chain : Error → List String
  | process context (some source) => (process context (some source)).message :: source.chain
  | e => [e.message]

end Error

end DeclFront
