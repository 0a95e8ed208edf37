import DeclFront.Syntax.View

/-!
# Views without places

What a node says depends on its tree, not on where the tree is. Each view of a node is tied here to
its children alone, so that the same tree can be looked at anywhere with the same result.
-/

set_option autoImplicit false

namespace DeclFront

namespace Element

/-- The token that a tree is, if it is one. -/
def token? : Element → Option Token
  | .token t => some t
  | .node .. => none

/-- Is a tree a node? -/
def isNode : Element → Bool
  | .token _ => false
  | .node .. => true

/-- Is a tree a node of the given kind? -/
def isNodeOf (kind : NodeKind) : Element → Bool
  | .token _ => false
  | .node k _ => k = kind

end Element

namespace Node

/-- Whatever offset trees start at, the nodes that are placed are the nodes among them. -/
theorem nodesFrom_elements (start : Nat) (es : List Element) :
    (nodesFrom start es).map element = es.filter Element.isNode := by
  induction es generalizing start with
  | nil => rfl
  | cons e es ih =>
    cases e with
    | token t => exact ih _
    | node kind children => exact congrArg (Element.node kind children :: ·) (ih _)

/-- Whatever offset trees start at, the tokens that are placed are the tokens among them. -/
theorem tokensFrom_tokens (start : Nat) (es : List Element) :
    (tokensFrom start es).map PlacedToken.token = es.filterMap Element.token? := by
  induction es generalizing start with
  | nil => rfl
  | cons e es ih =>
    cases e with
    | token t => exact congrArg (t :: ·) (ih _)
    | node kind children => exact ih _

variable (n : Node) (kind : NodeKind)

/-- The child nodes of a node are the nodes among its parts. -/
theorem childNodes_elements : n.childNodes.map element = n.children.filter Element.isNode :=
  nodesFrom_elements _ _

/-- The child tokens of a node are the tokens among its parts. -/
theorem childTokens_tokens :
    n.childTokens.map PlacedToken.token = n.children.filterMap Element.token? :=
  tokensFrom_tokens _ _

/-- The children of a kind are the nodes of that kind among the parts. -/
theorem childrenOf_elements :
    (n.childrenOf kind).map element = n.children.filter (Element.isNodeOf kind) := by
  have nodes : ∀ e : Element, (e.isNode && e.isNodeOf kind) = e.isNodeOf kind := by
    intro e
    cases e <;> simp [Element.isNode, Element.isNodeOf]
  have filtered : (n.childrenOf kind).map element =
      (n.childNodes.map element).filter (Element.isNodeOf kind) := by
    rw [List.filter_map]
    rfl
  rw [filtered, childNodes_elements, List.filter_filter]
  refine List.filter_congr fun e _ => ?_
  rw [Bool.and_comm, nodes]

/-- The child of a kind is the first of the children of that kind. -/
theorem childOf?_eq_head? : n.childOf? kind = (n.childrenOf kind).head? := by
  unfold childOf? childrenOf
  rw [List.head?_filter]

/-- The child of a kind is one of the children of that kind. -/
theorem mem_childrenOf_of_childOf? {m : Node} (h : n.childOf? kind = some m) :
    m ∈ n.childrenOf kind := by
  rw [childOf?_eq_head?] at h
  exact List.mem_of_head? h

/-- The child of a kind is the first node of that kind among the parts. -/
theorem childOf?_element :
    (n.childOf? kind).map element = n.children.find? (Element.isNodeOf kind) := by
  rw [childOf?_eq_head?, ← List.head?_map, childrenOf_elements, List.head?_filter]

/-! ### The same tree rooted at zero -/

/-- A node that is taken out of its tree has the same children of every kind, at other offsets. -/
theorem childrenOf_reroot_elements :
    (n.reroot.childrenOf kind).map element = (n.childrenOf kind).map element := by
  rw [childrenOf_elements, childrenOf_elements]
  rfl

/-- So it also has the same first child of every kind. -/
theorem childOf?_reroot_element :
    (n.reroot.childOf? kind).map element = (n.childOf? kind).map element := by
  rw [childOf?_element, childOf?_element]
  rfl

/-- A node without attributes still has none when it is taken out of its tree. -/
theorem attributes_reroot_eq_nil (h : n.attributes = []) : n.reroot.attributes = [] := by
  have shape := n.childrenOf_reroot_elements .attributeItem
  unfold attributes at h ⊢
  rw [h] at shape
  exact List.map_eq_nil_iff.mp shape

/-- A node without a default value still has none when it is taken out of its tree. -/
theorem defaultValue?_reroot_eq_none (h : n.defaultValue? = none) :
    n.reroot.defaultValue? = none := by
  have shape := n.childOf?_reroot_element .defaultValue
  unfold defaultValue? at h ⊢
  rw [h] at shape
  exact Option.map_eq_none_iff.mp shape

end Node

end DeclFront
