import DeclFront.Decimal.Binary64

/-!
# JSON values

A JSON document as a value. Integers that fit a 64-bit word are kept; of any other number, only
that it is one.
-/

set_option autoImplicit false

namespace DeclFront

/-- The numbers that can be told apart. -/
inductive JsonNumber where
  /-- An integer from zero up that fits 64 bits without a sign. -/
  | natural (n : Nat)
  /-- A negative integer that fits 64 bits with a sign. -/
  | negative (n : Int)
  /-- Any other number. -/
  | real
  deriving DecidableEq

/-- A JSON value. The fields of an object are in the order in which they were written. -/
inductive JsonValue where
  | null
  | bool (b : Bool)
  | number (n : JsonNumber)
  | string (s : String)
  | array (items : List JsonValue)
  | object (fields : List (String × JsonValue))

/-- The value of a field: of fields with one name, the last. -/
def JsonValue.lookup (fields : List (String × JsonValue)) (name : String) : Option JsonValue :=
  (fields.reverse.find? (·.1 = name)).map Prod.snd

/-- Why a text is not a JSON document. -/
inductive JsonProblem where
  | unexpectedEnd
  | unexpectedCharacter
  | invalidNumber
  | numberOutOfRange
  | controlCharacter
  | invalidEscape
  | loneSurrogate
  | tooDeep
  | trailingText
  deriving DecidableEq

/-- The wording of a problem. -/
def JsonProblem.message : JsonProblem → String
  | unexpectedEnd => "the document ends too early"
  | unexpectedCharacter => "unexpected character"
  | invalidNumber => "invalid number"
  | numberOutOfRange => "number out of range"
  | controlCharacter => "control character inside a string"
  | invalidEscape => "invalid escape sequence"
  | loneSurrogate => "lone surrogate in an escape sequence"
  | tooDeep => "nested too deeply"
  | trailingText => "text after the document"

end DeclFront
