import DeclFront.Proofs.Syntax.Lossless

/-!
# Nodes at their places

A tree has no places of its own; each node gets one from the node that it is a part of. Parts stand
one behind another inside their node, and what a node says is what its text says at the node's
bytes, at every depth.
-/

set_option autoImplicit false

namespace DeclFront

namespace Element

mutual

/-- The kinds of the nodes of a tree, each before those inside it. -/
def nodeKinds : Element → List NodeKind
  | .token _ => []
  | .node kind children => kind :: nodeKindsOf children

/-- The kinds of the nodes of trees. -/
def nodeKindsOf : List Element → List NodeKind
  | [] => []
  | e :: es => e.nodeKinds ++ nodeKindsOf es

end

/-- The kinds of the nodes of trees are those of the first, and then those of the others. -/
theorem nodeKindsOf_append (es fs : List Element) :
    nodeKindsOf (es ++ fs) = nodeKindsOf es ++ nodeKindsOf fs := by
  induction es with
  | nil => rfl
  | cons e es ih => rw [List.cons_append, nodeKindsOf, nodeKindsOf, ih, List.append_assoc]

/-- Tokens have no nodes. -/
theorem nodeKindsOf_map_token (ts : List Token) : nodeKindsOf (ts.map .token) = [] := by
  induction ts with
  | nil => rfl
  | cons t ts ih =>
    rw [List.map_cons, nodeKindsOf, ih]
    rfl

/-- A node comes before the nodes inside it. -/
theorem nodeKindsOf_node (kind : NodeKind) (es : List Element) :
    nodeKindsOf [.node kind es] = kind :: nodeKindsOf es := by
  rw [nodeKindsOf, nodeKinds, nodeKindsOf, List.append_nil]

mutual

/-- A tree takes the bytes of its tokens. -/
theorem byteLength_eq (e : Element) :
    e.byteLength = Text.byteLength (e.tokens.flatMap Token.chars) := by
  cases e with
  | token t => simp [byteLength, tokens]
  | node kind children =>
    rw [byteLength, tokens]
    exact byteLengthOf_eq children

/-- Trees take the bytes of their tokens. -/
theorem byteLengthOf_eq (es : List Element) :
    byteLengthOf es = Text.byteLength ((tokensOf es).flatMap Token.chars) := by
  cases es with
  | nil => rfl
  | cons e es =>
    rw [byteLengthOf, tokensOf, List.flatMap_append, Text.byteLength_append, byteLength_eq e,
      byteLengthOf_eq es]

end

/-- Trees next to each other take the bytes of both. -/
theorem byteLengthOf_append (es fs : List Element) :
    byteLengthOf (es ++ fs) = byteLengthOf es + byteLengthOf fs := by
  rw [byteLengthOf_eq, tokensOf_append, List.flatMap_append, Text.byteLength_append,
    ← byteLengthOf_eq, ← byteLengthOf_eq]

end Element

namespace Node

/-- The node itself, its direct parts, the parts of those, and so on. -/
inductive Holds (n : Node) : Node → Prop where
  | self : Holds n n
  | child {k m : Node} : Holds n k → m ∈ k.childNodes → Holds n m

/-- The direct parts lie inside the node, one behind another. -/
structure Nested (n : Node) : Prop where
  inside : ∀ m ∈ n.childNodes, n.start ≤ m.start ∧ m.range.stop ≤ n.range.stop
  apart : n.childNodes.Pairwise fun a b => a.range.stop ≤ b.start

/-- What the node says stands in the text at the bytes that the node takes. -/
def SpelledIn (text : List Char) (n : Node) : Prop :=
  ∃ before after, text = before ++ n.chars ++ after ∧ n.start = Text.byteLength before ∧
    n.range.stop = Text.byteLength (before ++ n.chars)

/-- A node ends as many bytes behind its start as it has. -/
theorem stop_eq (n : Node) : n.range.stop = n.start + Text.byteLength n.chars :=
  congrArg (n.start + ·) (Element.byteLengthOf_eq n.children)

/-- A part of a node stands behind the parts before it. -/
theorem exists_split_of_mem_nodesFrom {start : Nat} {es : List Element} {m : Node}
    (h : m ∈ nodesFrom start es) : ∃ before after, es = before ++ m.element :: after ∧
      m.start = start + Element.byteLengthOf before := by
  induction es generalizing start with
  | nil => simp [nodesFrom] at h
  | cons e es ih =>
    cases e with
    | token t =>
      obtain ⟨before, after, split, place⟩ := ih h
      refine ⟨.token t :: before, after, by rw [split, List.cons_append], ?_⟩
      rw [place, Element.byteLengthOf, Element.byteLength]
      omega
    | node kind children =>
      rcases List.mem_cons.mp h with rfl | h
      · exact ⟨[], es, rfl, rfl⟩
      · obtain ⟨before, after, split, place⟩ := ih h
        refine ⟨.node kind children :: before, after, by rw [split, List.cons_append], ?_⟩
        rw [place, Element.byteLengthOf, Element.byteLength]
        omega

/-- Nodes next to each other do not overlap. -/
theorem nodesFrom_apart (start : Nat) (es : List Element) :
    (nodesFrom start es).Pairwise fun a b => a.range.stop ≤ b.start := by
  induction es generalizing start with
  | nil => exact List.Pairwise.nil
  | cons e es ih =>
    cases e with
    | token t => exact ih _
    | node kind children =>
      refine List.pairwise_cons.mpr ⟨fun m hm => ?_, ih _⟩
      obtain ⟨before, after, -, place⟩ := exists_split_of_mem_nodesFrom hm
      rw [place]
      exact Nat.le_add_right _ _

/-- Every node is nested. -/
theorem nested (n : Node) : n.Nested := by
  refine ⟨fun m hm => ?_, nodesFrom_apart _ _⟩
  obtain ⟨before, after, split, place⟩ := exists_split_of_mem_nodesFrom hm
  have length : Element.byteLengthOf n.children = Element.byteLengthOf before +
      (Element.byteLengthOf m.children + Element.byteLengthOf after) := by
    rw [split, Element.byteLengthOf_append, Element.byteLengthOf, element, Element.byteLength]
  have nodeStop : n.range.stop = n.start + Element.byteLengthOf n.children := rfl
  have partStop : m.range.stop = m.start + Element.byteLengthOf m.children := rfl
  omega

/-- The parts of a node that is spelled in a text are spelled in it too. -/
theorem SpelledIn.child {text : List Char} {n m : Node} (h : n.SpelledIn text)
    (hm : m ∈ n.childNodes) : m.SpelledIn text := by
  obtain ⟨front, back, whole, start, -⟩ := h
  obtain ⟨before, after, split, place⟩ := exists_split_of_mem_nodesFrom hm
  have chars : n.chars = (Element.tokensOf before).flatMap Token.chars ++ m.chars ++
      (Element.tokensOf after).flatMap Token.chars := by
    unfold chars
    rw [split, Element.tokensOf_append, Element.tokensOf, element, Element.tokens]
    simp only [List.flatMap_append, List.append_assoc]
  have left : m.start = Text.byteLength (front ++ (Element.tokensOf before).flatMap Token.chars) := by
    rw [place, start, Element.byteLengthOf_eq, Text.byteLength_append]
  refine ⟨_, (Element.tokensOf after).flatMap Token.chars ++ back, ?_, left, ?_⟩
  · rw [whole, chars]
    simp only [List.append_assoc]
  · rw [stop_eq, left, ← Text.byteLength_append]

/-- If a node is spelled at its place, so is everything inside it. -/
theorem Holds.spelledIn {text : List Char} {n m : Node} (h : n.Holds m) (hn : n.SpelledIn text) :
    m.SpelledIn text := by
  induction h with
  | self => exact hn
  | child _ hm ih => exact ih.child hm

end Node

end DeclFront
