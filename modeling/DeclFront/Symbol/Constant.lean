import DeclFront.Completion.Fault
import DeclFront.Decimal.Shortest
import DeclFront.Symbol.ParamType
import DeclFront.Syntax.Token
import DeclFront.Text.Quoted

/-!
# Constants

The values that literals stand for, how a token is decoded to one, and which constants a type takes.
-/

set_option autoImplicit false

namespace DeclFront

/-- A value known when it is written. -/
inductive Constant where
  | null
  | bool (b : Bool)
  /-- An integer of 32 bits. -/
  | int (n : Int)
  /-- An integer of 64 bits that does not fit 32. -/
  | long (n : Int)
  | double (x : Binary64)
  | string (s : String)
  /-- A bare name. -/
  | name (s : String)
  deriving DecidableEq

/-- Why a token stands for no constant. -/
inductive LiteralProblem where
  | outOfRange (text : String)
  | malformedFloat (text : String)
  | unknownEscape (c : Char)
  | loneBackslash
  | notLiteral (kind : TokenKind)
  deriving DecidableEq

/-- The wording of a problem. -/
def LiteralProblem.message : LiteralProblem → String
  | outOfRange text => "integer literal `" ++ text ++ "` is out of range"
  | malformedFloat text => "malformed floating-point literal `" ++ text ++ "`"
  | unknownEscape c => "unknown escape sequence `\\" ++ c.toString ++ "`"
  | loneBackslash => "string ends with a lone `\\`"
  | notLiteral kind => "expected a literal, found " ++ kind.describe

namespace Constant

/-- The value of a row of digits; `none` if there are none, or something else is among them. -/
def digits? (cs : List Char) : Option Nat :=
  if cs.isEmpty || !cs.all Char.isDigit then none
  else some (cs.foldl (fun n c => n * 10 + (c.toNat - '0'.toNat)) 0)

/-- A text without its leading minus sign, and whether it had one. -/
def unsigned : List Char → Bool × List Char
  | '-' :: cs => (true, cs)
  | cs => (false, cs)

/-- The value of an integer literal. -/
def integer? (cs : List Char) : Option Int :=
  let (negative, magnitude) := unsigned cs
  (digits? magnitude).map fun n => if negative then -(n : Int) else n

/-- The value of a floating-point literal: digits, a point, digits. -/
def float? (cs : List Char) : Option Binary64 :=
  let (negative, magnitude) := unsigned cs
  let whole := magnitude.takeWhile (· != '.')
  let fraction := (magnitude.dropWhile (· != '.')).drop 1
  match digits? whole, digits? fraction, digits? (whole ++ fraction) with
  | some _, some _, some n => some (Binary64.ofDecimal negative n (-(fraction.length : Int)))
  | _, _, _ => none

/-- The constant for an integer, as small as it can be; `none` if it does not fit 64 bits. -/
def ofInteger (n : Int) : Option Constant :=
  if -0x80000000 ≤ n ∧ n < 0x80000000 then some (.int n)
  else if -0x8000000000000000 ≤ n ∧ n < 0x8000000000000000 then some (.long n)
  else none

/-- The character that an escape sequence stands for, from the character behind its backslash. -/
def escaped? : Char → Option Char
  | 'n' => some '\n'
  | 't' => some '\t'
  | '\\' => some '\\'
  | '"' => some '"'
  | '0' => some '\x00'
  | _ => none

/-- The text of a string literal without its quotes. -/
def unescape : List Char → Except LiteralProblem (List Char)
  | [] => .ok []
  | ['\\'] => .error .loneBackslash
  | '\\' :: c :: cs =>
    match escaped? c with
    | none => .error (.unknownEscape c)
    | some e => (unescape cs).map (e :: ·)
  | c :: cs => (unescape cs).map (c :: ·)

/-- A text without its first and last byte. There must be two bytes, and neither may be part of a
longer character. -/
def stripQuotes (cs : List Char) : Except Fault (List Char) :=
  match cs with
  | first :: rest@(_ :: _) =>
    if first.utf8Size = 1 ∧ (rest.getLast?.all fun last => last.utf8Size = 1) = true then .ok rest.dropLast
    else .error .missingQuotes
  | _ => .error .missingQuotes

/-- The constant that a token stands for, or why it stands for none. -/
def ofToken (t : Token) : Except Fault (Except LiteralProblem Constant) :=
  match t.kind with
  | .kwNull => .ok (.ok .null)
  | .kwTrue => .ok (.ok (.bool true))
  | .kwFalse => .ok (.ok (.bool false))
  | .identifier => .ok (.ok (.name t.text))
  | .integer =>
    match (integer? t.chars).bind ofInteger with
    | some c => .ok (.ok c)
    | none => .ok (.error (.outOfRange t.text))
  | .float =>
    match float? t.chars with
    | some x => .ok (.ok (.double x))
    | none => .ok (.error (.malformedFloat t.text))
  | .string => (stripQuotes t.chars).map fun inner => (unescape inner).map fun cs => .string (String.ofList cs)
  | kind => .ok (.error (.notLiteral kind))

/-- A constant as text. -/
def text : Constant → String
  | null => "null"
  | bool b => if b then "true" else "false"
  | int n => toString n
  | long n => toString n
  | double x => x.text
  | string s => Text.quote s
  | name s => s

/-- The constant that a default value of the given type is, if the type takes it. An array type
takes only null. -/
def convertTo (c : Constant) (t : ParamType) : Option Constant :=
  if t.isArray then
    match c with
    | null => some null
    | _ => none
  else
    match c, t.special with
    | null, _ => if t.admitsNull then some null else none
    | int n, .int => some (int n)
    | int n, .long => some (long n)
    | long n, .long => some (long n)
    | int n, .double => some (double (Binary64.ofInt n))
    | double x, .double => some (double x)
    | bool b, .bool => some (bool b)
    | string s, .string => some (string s)
    | string s, .object => some (string s)
    | int n, .object => some (int n)
    | long n, .object => some (long n)
    | double x, .object => some (double x)
    | bool b, .object => some (bool b)
    | _, _ => none

end Constant

end DeclFront
