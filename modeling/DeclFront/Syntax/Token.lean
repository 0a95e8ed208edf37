/-!
# Tokens

The kinds of token of the declaration language, and tokens as a kind with the characters that were
read. Blanks and line comments are tokens too, called trivia: they are kept, so that the tokens of
a text are the text.
-/

set_option autoImplicit false

namespace DeclFront

/-- The kinds of token, in the order of their numbers. -/
inductive TokenKind where
  | whitespace
  | comment
  | identifier
  | integer
  | float
  | string
  | kwType
  | kwFn
  | kwRef
  | kwOut
  | kwIn
  | kwParams
  | kwTrue
  | kwFalse
  | kwNull
  | leftBrace
  | rightBrace
  | leftParen
  | rightParen
  | leftBracket
  | rightBracket
  | leftAngle
  | rightAngle
  | comma
  | semicolon
  | equals
  | question
  | unknown
  deriving DecidableEq

namespace TokenKind

/-- Trivia separates tokens and has no other meaning. -/
def isTrivia : TokenKind → Bool
  | whitespace | comment => true
  | _ => false

/-- The keywords that may stand before the type of a parameter. -/
def isParameterModifier : TokenKind → Bool
  | kwRef | kwOut | kwIn | kwParams => true
  | _ => false

/-- The kinds that stand for a value: the literals, the value keywords and a bare name. -/
def isLiteral : TokenKind → Bool
  | integer | float | string | kwTrue | kwFalse | kwNull | identifier => true
  | _ => false

/-- How a message names a kind that was expected. -/
def describe : TokenKind → String
  | identifier => "an identifier"
  | integer | float | string => "a literal"
  | kwType => "`type`"
  | kwFn => "`fn`"
  | leftBrace => "`\x7b`"
  | rightBrace => "`\x7d`"
  | leftParen => "`(`"
  | rightParen => "`)`"
  | leftBracket => "`[`"
  | rightBracket => "`]`"
  | leftAngle => "`<`"
  | rightAngle => "`>`"
  | comma => "`,`"
  | semicolon => "`;`"
  | equals => "`=`"
  | question => "`?`"
  | _ => "a token"

/-- Every kind of token, in the order of their numbers. -/
def all : List TokenKind :=
  [whitespace, comment, identifier, integer, float, string, kwType, kwFn, kwRef, kwOut, kwIn,
    kwParams, kwTrue, kwFalse, kwNull, leftBrace, rightBrace, leftParen, rightParen, leftBracket,
    rightBracket, leftAngle, rightAngle, comma, semicolon, equals, question, unknown]

end TokenKind

/-- A kind with the characters that were read. -/
structure Token where
  kind : TokenKind
  chars : List Char
  deriving DecidableEq

/-- The characters of a token as a string. -/
def Token.text (t : Token) : String :=
  String.ofList t.chars

/-- A token is trivia when its kind is. -/
def Token.isTrivia (t : Token) : Bool :=
  t.kind.isTrivia

end DeclFront
