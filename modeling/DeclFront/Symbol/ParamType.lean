/-!
# Written types

The type of a parameter as it is written: a name, and whether it is an array and may be null. Six
names are types that constants are checked against.
-/

set_option autoImplicit false

namespace DeclFront

/-- The types that constants are checked against. -/
inductive SpecialType where
  | int
  | long
  | double
  | bool
  | string
  | object
  | other
  deriving DecidableEq

/-- The names of integers, floating-point numbers and truth values stand for values; all others
refer to objects. -/
def SpecialType.isValue : SpecialType → Bool
  | int | long | double | bool => true
  | _ => false

/-- A type as it is written. -/
structure ParamType where
  name : String
  isArray : Bool
  isNullable : Bool
  deriving DecidableEq

namespace ParamType

/-- What the name stands for; of an array, what its elements are. -/
def special (t : ParamType) : SpecialType :=
  match t.name with
  | "int" => .int
  | "long" => .long
  | "double" => .double
  | "bool" => .bool
  | "string" => .string
  | "object" => .object
  | _ => .other

/-- Arrays, nullable types and types that refer to objects admit null. -/
def admitsNull (t : ParamType) : Bool :=
  t.isArray || t.isNullable || !t.special.isValue

/-- The type as it is written. -/
def text (t : ParamType) : String :=
  t.name ++ (if t.isArray then "[]" else "") ++ (if t.isNullable then "?" else "")

end ParamType

end DeclFront
