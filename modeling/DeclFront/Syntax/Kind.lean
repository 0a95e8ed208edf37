import DeclFront.Syntax.Tree

/-!
# The numbers of the kinds

Kinds of token and kinds of node share one numbering: tokens first, then nodes.
-/

set_option autoImplicit false

namespace DeclFront

/-- A kind of token or a kind of node. -/
inductive Kind where
  | token (kind : TokenKind)
  | node (kind : NodeKind)
  deriving DecidableEq

namespace Kind

/-- Every kind, in the order of their numbers. -/
def all : List Kind :=
  TokenKind.all.map token ++ NodeKind.all.map node

/-- The kind with the given number. -/
def ofNumber? (n : Nat) : Option Kind :=
  all[n]?

/-- Only kinds of token can be trivia. -/
def isTrivia : Kind → Bool
  | token kind => kind.isTrivia
  | node _ => false

/-- Only kinds of token can be modifiers. -/
def isParameterModifier : Kind → Bool
  | token kind => kind.isParameterModifier
  | node _ => false

/-- How a message names a kind that was expected. -/
def describe : Kind → String
  | token kind => kind.describe
  | node _ => "a token"

end Kind

end DeclFront
