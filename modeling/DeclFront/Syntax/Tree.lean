import DeclFront.Syntax.Range
import DeclFront.Syntax.Token
import DeclFront.Text.Blank

/-!
# Syntax trees

A tree is made of tokens and of nodes over trees; it holds every token of the text it was read
from, trivia included. A tree has no positions of its own. A `Node` is a tree at a place: the node
with the byte offset at which it starts, from which the places of all its parts follow. The same
tree can so be looked at in its file, or rooted at zero.
-/

set_option autoImplicit false

namespace DeclFront

/-- The kinds of node, in the order of their numbers. -/
inductive NodeKind where
  | root
  | typeDecl
  | methodDecl
  | genericList
  | paramList
  | param
  | attributeItem
  | attributeArgs
  | typeRef
  | defaultValue
  | literal
  | error
  deriving DecidableEq

/-- Every kind of node, in the order of their numbers. -/
def NodeKind.all : List NodeKind :=
  [.root, .typeDecl, .methodDecl, .genericList, .paramList, .param, .attributeItem, .attributeArgs,
    .typeRef, .defaultValue, .literal, .error]

/-- A token, or a node with its parts in order. -/
inductive Element where
  | token (t : Token)
  | node (kind : NodeKind) (children : List Element)

namespace Element

mutual

/-- The tokens of a tree, read left to right. -/
def tokens : Element → List Token
  | .token t => [t]
  | .node _ children => tokensOf children

/-- The tokens of a list of trees, read left to right. -/
def tokensOf : List Element → List Token
  | [] => []
  | e :: es => e.tokens ++ tokensOf es

end

mutual

/-- The number of bytes of the text of a tree. -/
def byteLength : Element → Nat
  | .token t => Text.byteLength t.chars
  | .node _ children => byteLengthOf children

/-- The number of bytes of the text of a list of trees. -/
def byteLengthOf : List Element → Nat
  | [] => 0
  | e :: es => e.byteLength + byteLengthOf es

end

end Element

/-- A token at the byte offset at which it starts. -/
structure PlacedToken where
  token : Token
  start : Nat
  deriving DecidableEq

/-- The bytes that a token takes. -/
def PlacedToken.range (t : PlacedToken) : Range :=
  ⟨t.start, t.start + Text.byteLength t.token.chars⟩

/-- A node at the byte offset at which it starts. -/
structure Node where
  kind : NodeKind
  children : List Element
  start : Nat

namespace Node

/-- The tree of a node, without its place. -/
def element (n : Node) : Element :=
  .node n.kind n.children

/-- The bytes that a node takes. -/
def range (n : Node) : Range :=
  ⟨n.start, n.start + Element.byteLengthOf n.children⟩

/-- The same tree rooted at zero. -/
def reroot (n : Node) : Node :=
  { n with start := 0 }

/-- The characters of a node, trivia included. -/
def chars (n : Node) : List Char :=
  (Element.tokensOf n.children).flatMap Token.chars

/-- The tokens among trees that stand next to each other from `start` on. -/
def tokensFrom (start : Nat) : List Element → List PlacedToken
  | [] => []
  | .token t :: es => ⟨t, start⟩ :: tokensFrom (start + Text.byteLength t.chars) es
  | .node _ children :: es => tokensFrom (start + Element.byteLengthOf children) es

/-- The nodes among trees that stand next to each other from `start` on. -/
def nodesFrom (start : Nat) : List Element → List Node
  | [] => []
  | .token t :: es => nodesFrom (start + Text.byteLength t.chars) es
  | .node kind children :: es => ⟨kind, children, start⟩ :: nodesFrom (start + Element.byteLengthOf children) es

/-- The tokens that are direct parts of a node. -/
def childTokens (n : Node) : List PlacedToken :=
  tokensFrom n.start n.children

/-- The nodes that are direct parts of a node. -/
def childNodes (n : Node) : List Node :=
  nodesFrom n.start n.children

/-- The direct child nodes of one kind, in order. -/
def childrenOf (n : Node) (kind : NodeKind) : List Node :=
  n.childNodes.filter (·.kind = kind)

/-- The first direct child node of one kind. -/
def childOf? (n : Node) (kind : NodeKind) : Option Node :=
  n.childNodes.find? (·.kind = kind)

/-- The first direct token of one kind. -/
def tokenOf? (n : Node) (kind : TokenKind) : Option PlacedToken :=
  n.childTokens.find? (·.token.kind = kind)

end Node

end DeclFront
