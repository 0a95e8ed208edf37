import DeclFront.Syntax.Lexer
import DeclFront.Proofs.Syntax.Lexing

/-!
# Programs of the declaration language

A program is what its author means, before anything is written down: types with their methods,
parameters, attributes and default values. Its names and literals carry the proof that they can be
written. `tokens` is how a program is written, by the grammar

```text
type       = attr* "type" name generics? "{" method* "}"
method     = attr* "fn" name generics? "(" (param ("," param)*)? ")" ";"
generics   = "<" name ("," name)* ">"
param      = attr* modifier? typeref name ("=" literal)?
typeref    = name ("[" "]")? "?"?
attr       = "[" name ("(" (literal ("," literal)*)? ")")? "]"
literal    = integer | float | string | "true" | "false" | "null" | name
```
-/

set_option autoImplicit false

namespace DeclFront

namespace Token

/-- A character that is a token by itself. -/
def sign (c : Char) : Token :=
  ⟨Lexer.punctuation c, [c]⟩

def kwType : Token := ⟨.kwType, "type".toList⟩

def kwFn : Token := ⟨.kwFn, "fn".toList⟩

end Token

namespace Program

/-- The words that are not names. -/
def keywords : List String :=
  ["type", "fn", "ref", "out", "in", "params", "true", "false", "null"]

/-- A word that is not a keyword. -/
structure Name where
  first : Char
  others : List Char
  first_isWordStart : Lexer.isWordStart first = true
  others_isWordPart : ∀ c ∈ others, Lexer.isWordPart c = true
  not_keyword : String.ofList (first :: others) ∉ keywords

def Name.token (n : Name) : Token :=
  ⟨.identifier, n.first :: n.others⟩

/-- Decimal digits, one at least. -/
structure Digits where
  first : Char
  others : List Char
  first_isDigit : first.isDigit = true
  others_isDigit : ∀ c ∈ others, c.isDigit = true

def Digits.chars (d : Digits) : List Char :=
  d.first :: d.others

/-- What may stand for a value. The escapes of a string are in it as they are written. -/
inductive Value where
  | null
  | truth (value : Bool)
  | name (n : Name)
  | integer (negative : Bool) (whole : Digits)
  | float (negative : Bool) (whole fraction : Digits)
  | string (inner : List Char) (inside : Lexer.Inside inner)

/-- The sign in front of a number. -/
def minus (negative : Bool) : List Char :=
  if negative then ['-'] else []

def Value.token : Value → Token
  | null => ⟨.kwNull, "null".toList⟩
  | truth true => ⟨.kwTrue, "true".toList⟩
  | truth false => ⟨.kwFalse, "false".toList⟩
  | name n => n.token
  | integer negative whole => ⟨.integer, minus negative ++ whole.chars⟩
  | float negative whole fraction =>
    ⟨.float, minus negative ++ (whole.chars ++ '.' :: fraction.chars)⟩
  | string inner _ => ⟨.string, '"' :: (inner ++ ['"'])⟩

/-- An attribute without parentheses has no arguments to speak of; between parentheses there may be
none. -/
structure Attribute where
  name : Name
  arguments : Option (List Value)

inductive Modifier where
  | ref
  | out
  | in
  | params

def Modifier.token : Modifier → Token
  | ref => ⟨.kwRef, "ref".toList⟩
  | out => ⟨.kwOut, "out".toList⟩
  | .in => ⟨.kwIn, "in".toList⟩
  | params => ⟨.kwParams, "params".toList⟩

/-- A type as it is written behind a parameter's modifier. -/
structure TypeRef where
  name : Name
  isArray : Bool
  isNullable : Bool

structure Param where
  attributes : List Attribute
  modifier : Option Modifier
  type : TypeRef
  name : Name
  default : Option Value

/-- A method. Without names of its own it has no generic list. -/
structure Method where
  attributes : List Attribute
  name : Name
  generics : List Name
  params : List Param

/-- A type. Without names of its own it has no generic list. -/
structure TypeDecl where
  attributes : List Attribute
  name : Name
  generics : List Name
  methods : List Method

/-! ### How a program is written -/

/-- Tokens with a comma between each two groups of them. -/
def commaSeparated (groups : List (List Token)) : List Token :=
  [Token.sign ','].intercalate groups

def argumentTokens : Option (List Value) → List Token
  | none => []
  | some values =>
    Token.sign '(' :: (commaSeparated (values.map fun v => [v.token]) ++ [Token.sign ')'])

def Attribute.tokens (a : Attribute) : List Token :=
  Token.sign '[' :: a.name.token :: (argumentTokens a.arguments ++ [Token.sign ']'])

def genericTokens : List Name → List Token
  | [] => []
  | n :: ns =>
    Token.sign '<' :: (commaSeparated ((n :: ns).map fun m => [m.token]) ++ [Token.sign '>'])

def TypeRef.tokens (t : TypeRef) : List Token :=
  t.name.token :: ((if t.isArray then [Token.sign '[', Token.sign ']'] else []) ++
    if t.isNullable then [Token.sign '?'] else [])

def defaultTokens : Option Value → List Token
  | none => []
  | some value => [Token.sign '=', value.token]

def Param.tokens (p : Param) : List Token :=
  p.attributes.flatMap Attribute.tokens ++ ((p.modifier.map Modifier.token).toList ++
    (p.type.tokens ++ p.name.token :: defaultTokens p.default))

def paramTokens (params : List Param) : List Token :=
  Token.sign '(' :: (commaSeparated (params.map Param.tokens) ++ [Token.sign ')'])

def Method.tokens (m : Method) : List Token :=
  m.attributes.flatMap Attribute.tokens ++ Token.kwFn :: m.name.token ::
    (genericTokens m.generics ++ (paramTokens m.params ++ [Token.sign ';']))

def TypeDecl.tokens (t : TypeDecl) : List Token :=
  t.attributes.flatMap Attribute.tokens ++ Token.kwType :: t.name.token ::
    (genericTokens t.generics ++ Token.sign '\x7b' ::
      (t.methods.flatMap Method.tokens ++ [Token.sign '\x7d']))

end Program

end DeclFront
