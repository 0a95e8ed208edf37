import DeclFront.Syntax.Tree

/-!
# Looking at declarations

What a node of a given kind says: the name of a type, the parameters of a method, the literal of a
default value. Each function looks only at the direct parts of its node and answers for every
tree, however malformed; what is missing is `none`.
-/

set_option autoImplicit false

namespace DeclFront.Node

/-- The types of a file. -/
def typeDecls (n : Node) : List Node :=
  n.childrenOf .typeDecl

/-- The attributes in front of a type, method or parameter. -/
def attributes (n : Node) : List Node :=
  n.childrenOf .attributeItem

/-- The name of a type, method, parameter, attribute or written type. -/
def nameToken? (n : Node) : Option PlacedToken :=
  n.tokenOf? .identifier

/-- The generic list of a type or method. -/
def generics? (n : Node) : Option Node :=
  n.childOf? .genericList

/-- The names in a generic list. -/
def genericNames (n : Node) : List PlacedToken :=
  n.childTokens.filter (·.token.kind = .identifier)

/-- The methods of a type. -/
def methods (n : Node) : List Node :=
  n.childrenOf .methodDecl

/-- The parameter list of a method. -/
def paramList? (n : Node) : Option Node :=
  n.childOf? .paramList

/-- The parameters of a parameter list. -/
def params (n : Node) : List Node :=
  n.childrenOf .param

/-- The modifier of a parameter: `ref`, `out`, `in` or `params`. -/
def modifier? (n : Node) : Option PlacedToken :=
  n.childTokens.find? (·.token.kind.isParameterModifier)

/-- The written type of a parameter. -/
def typeRef? (n : Node) : Option Node :=
  n.childOf? .typeRef

/-- The default value of a parameter, from the equals sign on. -/
def defaultValue? (n : Node) : Option Node :=
  n.childOf? .defaultValue

/-- Is a written type an array type? -/
def isArray (n : Node) : Bool :=
  (n.tokenOf? .leftBracket).isSome

/-- Is a written type marked as nullable? -/
def isNullable (n : Node) : Bool :=
  (n.tokenOf? .question).isSome

/-- The literal of a default value. -/
def literal? (n : Node) : Option Node :=
  n.childOf? .literal

/-- The token of a literal. -/
def literalToken? (n : Node) : Option PlacedToken :=
  n.childTokens.find? (!·.token.isTrivia)

/-- The argument lists of an attribute; there is at most one. -/
def argumentLists (n : Node) : List Node :=
  n.childrenOf .attributeArgs

/-- The arguments of an attribute. -/
def arguments (n : Node) : List Node :=
  n.argumentLists.flatMap (·.childrenOf .literal)

/-- Does the argument list of an attribute hold an error? -/
def hasMalformedArguments (n : Node) : Bool :=
  n.argumentLists.any fun list => list.childNodes.any (·.kind = .error)

end DeclFront.Node
