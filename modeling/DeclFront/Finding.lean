import DeclFront.Diagnostic
import DeclFront.Symbol.Constant
import DeclFront.Syntax.Complaint

/-!
# What this library reports

Every diagnostic that this library raises, as a cause with what it is about. A finding knows its
code, its severity and its wording.
-/

set_option autoImplicit false

namespace DeclFront

/-- The cause of a diagnostic. -/
inductive Finding where
  /-- A file does not fit the grammar. -/
  | malformed (complaint : Complaint)
  | duplicateType (name : String)
  | duplicateParameter (name : String)
  | argumentCount (name : String) (expected given : Nat)
  | invalidArgument (name : String)
  | duplicateAttribute (name : String)
  /-- An attribute for parameters on something else. -/
  | misplacedAttribute (name : String)
  | badLiteral (problem : LiteralProblem)
  /-- A default value that the type does not take. -/
  | unconvertible (value : Constant) (type : ParamType)
  | defaultOnReference
  | defaultOnVariadic
  | defaultGivenTwice
  | variadicNotArray (type : ParamType)
  | callerInfoWithoutDefault
  | callerInfoType (name : String) (type : ParamType)
  | callerInfoOverridden (name : String)
  | generatorFailed (name reason : String)
  | generatorNotPrepared (name reason : String)
  | generatorTimedOut (name : String) (timeoutMs : Nat)
  | generatorBusy (name : String)
  deriving DecidableEq

namespace Finding

/-- The stable code of a finding. -/
def code : Finding → String
  | malformed _ => "SG0001"
  | duplicateType _ => "SG0101"
  | duplicateParameter _ => "SG0102"
  | argumentCount .. | invalidArgument _ => "SG0201"
  | duplicateAttribute _ => "SG0202"
  | misplacedAttribute _ => "SG0203"
  | badLiteral _ => "SG0204"
  | unconvertible .. => "SG0301"
  | defaultOnReference => "SG0302"
  | defaultOnVariadic => "SG0303"
  | defaultGivenTwice => "SG0304"
  | variadicNotArray _ => "SG0305"
  | callerInfoWithoutDefault => "SG0306"
  | callerInfoType .. => "SG0307"
  | callerInfoOverridden _ => "SG0308"
  | generatorFailed .. => "SG0401"
  | generatorNotPrepared .. => "SG0402"
  | generatorTimedOut .. => "SG0403"
  | generatorBusy _ => "SG0404"

/-- Findings are errors, but for three that have no further effect. -/
def severity : Finding → Severity
  | misplacedAttribute _ | callerInfoOverridden _ | generatorBusy _ => .warning
  | _ => .error

/-- The wording of a finding. -/
def message : Finding → String
  | malformed complaint => complaint.message
  | duplicateType name => "type `" ++ name ++ "` is declared more than once"
  | duplicateParameter name => "parameter `" ++ name ++ "` is declared more than once"
  | argumentCount name expected given =>
    "`" ++ name ++ "` takes " ++ toString expected ++ " argument(s), but " ++ toString given ++ " were given"
  | invalidArgument name => "invalid argument to `" ++ name ++ "`"
  | duplicateAttribute name => "duplicate `" ++ name ++ "` attribute"
  | misplacedAttribute name => "`" ++ name ++ "` is only valid on parameters and will be ignored"
  | badLiteral problem => problem.message
  | unconvertible value type => "cannot convert `" ++ value.text ++ "` to `" ++ type.text ++ "`"
  | defaultOnReference => "a `ref` or `out` parameter cannot have a default value"
  | defaultOnVariadic => "a `params` parameter cannot have a default value"
  | defaultGivenTwice => "cannot specify a default value both with `=` and `DefaultParameterValue`"
  | variadicNotArray type => "a `params` parameter must be an array, not `" ++ type.text ++ "`"
  | callerInfoWithoutDefault =>
    "caller info attributes may only be applied to parameters with default values"
  | callerInfoType name type =>
    "`" ++ name ++ "` cannot be applied to a parameter of type `" ++ type.text ++ "`"
  | callerInfoOverridden name =>
    "`" ++ name ++ "` has no effect; it is overridden by another caller info attribute"
  | generatorFailed name reason => "generator `" ++ name ++ "` failed: " ++ reason
  | generatorNotPrepared name reason => "generator `" ++ name ++ "` failed to initialize: " ++ reason
  | generatorTimedOut name timeoutMs =>
    "generator `" ++ name ++ "` did not finish within " ++ toString timeoutMs ++ "ms and was cancelled"
  | generatorBusy name =>
    "generator `" ++ name ++ "` was skipped; an earlier execution has not finished"

/-- A finding as a diagnostic. -/
def report (f : Finding) (source : DiagnosticSource) (location : Option Location) : Diagnostic :=
  ⟨f.code, f.severity, f.message, source, location⟩

end Finding

end DeclFront
