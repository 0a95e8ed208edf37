import DeclFront.Syntax.Tree

/-!
# What a parse may complain about

A complaint says what was expected where something else stood. Its wording is in one function.
-/

set_option autoImplicit false

namespace DeclFront

/-- What a parse expected and did not find. -/
inductive Complaint where
  | expected (kind : TokenKind)
  | expectedTypeDecl
  | expectedMethod
  | expectedParameter
  | expectedParameterType
  | expectedLiteral
  | secondModifier
  deriving DecidableEq

/-- The wording of a complaint. -/
def Complaint.message : Complaint → String
  | .expected kind => "expected " ++ kind.describe
  | .expectedTypeDecl => "expected a type declaration"
  | .expectedMethod => "expected a method declaration or `\x7d`"
  | .expectedParameter => "expected a parameter"
  | .expectedParameterType => "expected a parameter type"
  | .expectedLiteral => "expected a literal"
  | .secondModifier => "a parameter can only have one of `ref`, `out`, `in`, `params`"

/-- A complaint with the bytes it is about: those of one token, or none at the end of the text. -/
structure SyntaxError where
  range : Range
  complaint : Complaint
  deriving DecidableEq

/-- The wording of an error. -/
def SyntaxError.message (e : SyntaxError) : String :=
  e.complaint.message

end DeclFront
