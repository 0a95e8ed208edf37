import DeclFront.Json.Value

/-!
# The tokens of a JSON text

Punctuation, and scalars with their values. Reading is strict: strings hold no raw control
characters and no lone surrogates, numbers have no leading zeros and are within the range of the
64-bit binary format.
-/

set_option autoImplicit false

namespace DeclFront

/-- A token of a JSON text. -/
inductive JsonToken where
  | openArray
  | closeArray
  | openObject
  | closeObject
  | comma
  | colon
  | string (s : String)
  /-- A number or one of the three words. -/
  | scalar (v : JsonValue)

namespace JsonToken

/-- The characters that may stand between tokens. -/
def isSpace (c : Char) : Bool :=
  c == ' ' || c == '\t' || c == '\n' || c == '\r'

/-- The value of a hexadecimal digit. -/
def hexDigit? (c : Char) : Option Nat :=
  if '0' ≤ c ∧ c ≤ '9' then some (c.toNat - '0'.toNat)
  else if 'a' ≤ c ∧ c ≤ 'f' then some (c.toNat - 'a'.toNat + 10)
  else if 'A' ≤ c ∧ c ≤ 'F' then some (c.toNat - 'A'.toNat + 10)
  else none

/-- The number that four hexadecimal digits stand for. -/
def hexWord? (a b c d : Char) : Option Nat := do
  let a ← hexDigit? a
  let b ← hexDigit? b
  let c ← hexDigit? c
  let d ← hexDigit? d
  pure (((a * 16 + b) * 16 + c) * 16 + d)

/-- A piece of a string: a character, or a 16-bit unit written as a number. -/
inductive Piece where
  | char (c : Char)
  | unit (n : Nat)

/-- The character that a backslash and a letter stand for. -/
def escaped? : Char → Option Char
  | '"' => some '"'
  | '\\' => some '\\'
  | '/' => some '/'
  | 'b' => some '\x08'
  | 'f' => some '\x0c'
  | 'n' => some '\n'
  | 'r' => some '\r'
  | 't' => some '\t'
  | _ => none

/-- The pieces of a string behind its opening quote, and what follows its closing quote. -/
def pieces : List Char → Except JsonProblem (List Piece × List Char)
  | [] => .error .unexpectedEnd
  | '"' :: rest => .ok ([], rest)
  | ['\\'] => .error .unexpectedEnd
  | '\\' :: 'u' :: a :: b :: c :: d :: rest =>
    match hexWord? a b c d with
    | none => .error .invalidEscape
    | some n => (pieces rest).map fun r => (.unit n :: r.1, r.2)
  | '\\' :: c :: rest =>
    match escaped? c with
    | none => .error .invalidEscape
    | some e => (pieces rest).map fun r => (.char e :: r.1, r.2)
  | c :: rest =>
    if c.toNat < 0x20 then .error .controlCharacter
    else (pieces rest).map fun r => (.char c :: r.1, r.2)

/-- The characters that pieces stand for. A high surrogate and the low one behind it are one
character; no other surrogate is allowed. -/
def join : List Piece → Except JsonProblem (List Char)
  | [] => .ok []
  | .char c :: rest => (join rest).map (c :: ·)
  | .unit n :: .unit m :: rest =>
    if 0xD800 ≤ n ∧ n < 0xDC00 then
      if 0xDC00 ≤ m ∧ m < 0xE000 then
        (join rest).map (Char.ofNat (0x10000 + (n - 0xD800) * 0x400 + (m - 0xDC00)) :: ·)
      else .error .loneSurrogate
    else if 0xDC00 ≤ n ∧ n < 0xE000 then .error .loneSurrogate
    else (join (.unit m :: rest)).map (Char.ofNat n :: ·)
  | .unit n :: rest =>
    if 0xD800 ≤ n ∧ n < 0xE000 then .error .loneSurrogate
    else (join rest).map (Char.ofNat n :: ·)

/-- The characters of a number that may follow its first one. -/
def isNumberPart (c : Char) : Bool :=
  c.isDigit || c == '.' || c == 'e' || c == 'E' || c == '+' || c == '-'

/-- Digits as a number. -/
def digitsValue (cs : List Char) : Nat :=
  cs.foldl (fun n c => n * 10 + (c.toNat - '0'.toNat)) 0

/-- The digits that fit 64 bits together with those read before them, and how many are left. -/
def fitting (n : Nat) : List Char → Nat × Nat
  | [] => (n, 0)
  | c :: cs =>
    let next := n * 10 + (c.toNat - '0'.toNat)
    if next < 0x10000000000000000 then fitting next cs else (n, cs.length + 1)

/-- Is `significand * 10 ^ exponent`, both factors rounded, beyond the 64-bit binary format? -/
def isOutOfRange (significand : Nat) (exponent : Int) : Bool :=
  if significand = 0 ∨ exponent < 0 then false
  else if 308 < exponent then true
  else
    let a := (Binary64.ofRatio false significand 1).parts
    let b := (Binary64.ofRatio false (Nat.pow 10 exponent.toNat) 1).parts
    let q := a.2 + b.2
    Binary64.magnitude (a.1 * b.1 * Nat.pow 2 q.toNat) (Nat.pow 2 (-q).toNat) = Binary64.infinityBits

/-- The largest exponent that is kept as it is written. -/
def greatestExponent : Nat := 0x7FFFFFFF

/-- The exponent of a number: the text behind its `e`. -/
def exponent? (cs : List Char) : Option Int :=
  let (negative, digits) := match cs with
    | '+' :: rest => (false, rest)
    | '-' :: rest => (true, rest)
    | rest => (false, rest)
  if digits.isEmpty || !digits.all Char.isDigit then none
  else
    let n : Int := min (digitsValue digits) greatestExponent
    some (if negative then -n else n)

/-- A number that is not an integer of 64 bits. Digits of the significand count only as far as they
fit 64 bits. -/
def real (whole fraction : List Char) (exponent : Int) : Except JsonProblem JsonNumber :=
  let (n, dropped) := fitting 0 whole
  let (m, unread) := fitting n fraction
  let scale : Int := dropped - (fraction.length - unread : Nat)
  if isOutOfRange m (scale + exponent) then .error .numberOutOfRange else .ok .real

/-- An integer. -/
def integer (negative : Bool) (digits : List Char) : Except JsonProblem JsonNumber :=
  let n := digitsValue digits
  if negative then
    if 0 < n ∧ n ≤ 0x8000000000000000 then .ok (.negative (-(n : Int))) else real digits [] 0
  else if n < 0x10000000000000000 then .ok (.natural n)
  else real digits [] 0

/-- The number that is written as `cs`, a sign aside. -/
def number (negative : Bool) (cs : List Char) : Except JsonProblem JsonNumber :=
  let whole := cs.takeWhile Char.isDigit
  let behind := cs.dropWhile Char.isDigit
  if whole.isEmpty || (whole.head? = some '0' && 1 < whole.length) then .error .invalidNumber
  else
    let fraction := match behind with
      | '.' :: rest => rest.takeWhile Char.isDigit
      | _ => []
    let tail := match behind with
      | '.' :: rest => rest.dropWhile Char.isDigit
      | rest => rest
    if behind.head? = some '.' ∧ fraction = [] then .error .invalidNumber
    else match tail with
      | [] => if behind.isEmpty then integer negative whole else real whole fraction 0
      | c :: rest =>
        if c = 'e' ∨ c = 'E' then
          match exponent? rest with
          | none => .error .invalidNumber
          | some e => real whole fraction e
        else .error .invalidNumber

/-- A word or a number, from its characters. -/
def scalar? (cs : List Char) : Except JsonProblem JsonValue :=
  match cs with
  | ['n', 'u', 'l', 'l'] => .ok .null
  | ['t', 'r', 'u', 'e'] => .ok (.bool true)
  | ['f', 'a', 'l', 's', 'e'] => .ok (.bool false)
  | '-' :: rest => (number true rest).map .number
  | c :: rest => if c.isDigit then (number false (c :: rest)).map .number else .error .unexpectedCharacter
  | [] => .error .unexpectedEnd

/-- The characters of a word or number. -/
def isScalarPart (c : Char) : Bool :=
  c.isAlpha || isNumberPart c

/-- The first token of `c :: cs`, and what follows it. -/
def next (c : Char) (cs : List Char) : Except JsonProblem (JsonToken × List Char) :=
  match c with
  | '[' => .ok (openArray, cs)
  | ']' => .ok (closeArray, cs)
  | '\x7b' => .ok (openObject, cs)
  | '\x7d' => .ok (closeObject, cs)
  | ',' => .ok (comma, cs)
  | ':' => .ok (colon, cs)
  | '"' => do
    let (ps, rest) ← pieces cs
    let chars ← join ps
    pure (string (String.ofList chars), rest)
  | c => do
    let v ← scalar? (c :: cs.takeWhile isScalarPart)
    pure (scalar v, cs.dropWhile isScalarPart)

/-- The tokens of a text, read in at most `budget` steps; a text never needs more steps than it has
characters. -/
def readAll : Nat → List Char → Except JsonProblem (List JsonToken)
  | _, [] => .ok []
  | 0, _ :: _ => .error .trailingText
  | budget + 1, c :: cs =>
    if isSpace c then readAll budget cs
    else do
      let (t, rest) ← next c cs
      let ts ← readAll budget rest
      pure (t :: ts)

/-- The tokens of a text. -/
def ofText (cs : List Char) : Except JsonProblem (List JsonToken) :=
  readAll cs.length cs

end JsonToken

end DeclFront
