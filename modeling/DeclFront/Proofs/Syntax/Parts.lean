import DeclFront.Proofs.Syntax.Provenance

/-!
# What stands directly inside what

A node of each kind has parts of certain kinds alone, in every tree, however malformed its text is.
So types stand in a file only as parts of its root, methods as parts of types, and parameters as
parts of the one parameter list that each method has.
-/

set_option autoImplicit false

namespace DeclFront

/-- The kinds of the nodes that can stand directly in a node of a kind. -/
def NodeKind.parts : NodeKind → List NodeKind
  | .root => [.typeDecl, .error]
  | .typeDecl => [.attributeItem, .genericList, .methodDecl, .error]
  | .methodDecl => [.attributeItem, .genericList, .paramList]
  | .paramList => [.param, .error]
  | .param => [.attributeItem, .error, .typeRef, .defaultValue]
  | .attributeItem => [.attributeArgs]
  | .attributeArgs | .defaultValue => [.literal, .error]
  | .genericList | .typeRef | .literal | .error => []

namespace Element

/-- The kinds of the nodes among trees, without those inside them. -/
def heads (es : List Element) : List NodeKind :=
  es.filterMap fun
    | .token _ => none
    | .node kind _ => some kind

/-- Without trees there are no nodes. -/
@[simp]
theorem heads_nil : heads [] = [] := rfl

/-- The nodes among trees are those among the first, and then those among the others. -/
@[simp]
theorem heads_append (es fs : List Element) : heads (es ++ fs) = heads es ++ heads fs :=
  List.filterMap_append

/-- A token is no node. -/
@[simp]
theorem heads_token (t : Token) (es : List Element) : heads (.token t :: es) = heads es := rfl

/-- A node comes before those behind it. -/
@[simp]
theorem heads_node (kind : NodeKind) (children es : List Element) :
    heads (.node kind children :: es) = kind :: heads es := rfl

/-- There are no nodes among tokens. -/
@[simp]
theorem heads_map_token (ts : List Token) : heads (ts.map .token) = [] := by
  rw [heads, List.filterMap_map]
  exact List.filterMap_eq_nil_iff.mpr fun _ _ => rfl

/-- A kind is among those of the nodes if one of the trees is a node of the kind. -/
theorem mem_heads {es : List Element} {kind : NodeKind} :
    kind ∈ heads es ↔ ∃ children, .node kind children ∈ es := by
  rw [heads, List.mem_filterMap]
  constructor
  · rintro ⟨e, he, hk⟩
    cases e with
    | token t => simp at hk
    | node k children => exact ⟨children, Option.some.inj hk ▸ he⟩
  · rintro ⟨children, he⟩
    exact ⟨_, he, rfl⟩

end Element

/-- The nodes among trees have the kinds that are listed. -/
theorem Node.map_kind_nodesFrom (start : Nat) (es : List Element) :
    (nodesFrom start es).map Node.kind = Element.heads es := by
  induction es generalizing start with
  | nil => rfl
  | cons e es ih =>
    cases e with
    | token t => exact ih _
    | node kind children => exact congrArg (kind :: ·) (ih _)

namespace Rule

open Element (heads)

/-- The rule builds no nodes but of the given kinds, apart from those inside them. -/
def Only (ks : List NodeKind) (p : Rule) : Prop :=
  ∀ i, ∀ k ∈ heads (p i).elements, k ∈ ks

section Steps

variable {ks : List NodeKind} {p q : Rule} {kind : TokenKind} {c : Complaint}

/-- A rule that builds nodes of some kinds only builds nodes of more kinds only. -/
theorem Only.mono {ls : List NodeKind} (h : Only ks p) (le : ∀ k ∈ ks, k ∈ ls) : Only ls p :=
  fun i k hk => le k (h i k hk)

/-- Placing a gap builds no node. -/
theorem heads_settle (i : Input) : heads (settle i).elements = [] :=
  Element.heads_map_token i.gap

/-- Taking a lexeme builds no node. -/
theorem heads_bump (i : Input) : heads (bump i).elements = [] := by
  unfold bump
  split
  · exact heads_settle i
  · rw [Reading.append_elements, Element.heads_append, heads_settle]
    rfl

/-- Complaining builds no node. -/
theorem heads_complain (c : Complaint) (i : Input) : heads (complain c i).elements = [] := by
  rw [complain, Reading.append_elements, Element.heads_append, heads_settle]
  rfl

/-- Expecting a lexeme builds no node. -/
theorem heads_expect (kind : TokenKind) (i : Input) : heads (expect kind i).elements = [] := by
  unfold expect
  split
  · exact heads_bump i
  · exact heads_complain _ i

/-- Rejecting a lexeme builds an error and nothing else. -/
theorem heads_reject (c : Complaint) (i : Input) : heads (reject c i).elements = [.error] := by
  rw [reject, Reading.append_elements, Element.heads_append, heads_complain]
  rfl

/-- Taking a lexeme builds no node, whatever kinds are allowed. -/
theorem only_bump : Only ks bump := by
  intro i
  rw [heads_bump]
  exact nofun

/-- Complaining builds no node, whatever kinds are allowed. -/
theorem only_complain : Only ks (complain c) := by
  intro i
  rw [heads_complain]
  exact nofun

/-- Expecting a lexeme builds no node, whatever kinds are allowed. -/
theorem only_expect : Only ks (expect kind) := by
  intro i
  rw [heads_expect]
  exact nofun

/-- Rejecting a lexeme builds errors only. -/
theorem only_reject (h : .error ∈ ks) : Only ks (reject c) := by
  intro i k hk
  rw [heads_reject, List.mem_singleton] at hk
  rwa [hk]

/-- A node is of its kind only, whatever is inside it. -/
theorem only_node {kind : NodeKind} (h : kind ∈ ks) : Only ks (node kind p) := by
  intro i k hk
  rwa [List.mem_singleton.mp hk]

/-- Rules one after another build what each of them builds. -/
theorem only_inOrder {ps : List Rule} (h : ∀ p ∈ ps, Only ks p) : Only ks (inOrder ps) := by
  induction ps with
  | nil => exact fun _ => nofun
  | cons p ps ih =>
    intro i k hk
    rw [inOrder, Reading.append_elements, Element.heads_append, List.mem_append] at hk
    rcases hk with first | others
    · exact h p List.mem_cons_self i k first
    · exact ih (fun q hq => h q (List.mem_cons_of_mem p hq)) _ k others

/-- A rule that may not be used builds what it builds, or nothing. -/
theorem only_optional (h : Only ks p) : Only ks (optional kind p) := by
  intro i
  unfold optional
  dsimp only
  split
  · rw [Reading.append_elements, Element.heads_append, heads_settle]
    exact h _
  · rw [heads_settle]
    exact nofun

/-- A loop builds what its turns build, by induction on what is left to read. -/
theorem only_loop {turn : Input → Turn} {advances : Advances turn}
    (h : ∀ i, ∀ k ∈ heads (turn i).reading.elements, k ∈ ks) : Only ks (loop turn advances) := by
  apply loop_induction (motive := fun _ r => ∀ k ∈ heads r.elements, k ∈ ks)
  · intro i a turned
    have step := h i
    rw [turned] at step
    exact step
  · intro i a b turned others
    have step := h i
    rw [turned] at step
    rw [Reading.append_elements, Element.heads_append]
    exact fun k hk => (List.mem_append.mp hk).elim (step k) (others k)

end Steps

end Rule

namespace Grammar

open Rule
open Element (heads)

/-! ### What the rules build -/

/-- In the place of a literal stands a literal or an error. -/
theorem only_literal : Only [.literal, .error] literal := by
  intro i
  unfold literal
  split
  · exact only_reject (by decide) i
  · split
    · simp [heads_settle, node]
    · exact only_complain i
  · exact only_complain i

/-- In the place of an argument stands a literal or an error. -/
theorem heads_argumentTurn (i : Input) :
    ∀ k ∈ heads (argumentTurn i).reading.elements, k ∈ [NodeKind.literal, .error] := by
  have behind : ∀ (b : Reading), heads b.elements = [] →
      ∀ k ∈ heads (literal i ++ b).elements, k ∈ [NodeKind.literal, .error] := by
    intro b none
    rw [Reading.append_elements, Element.heads_append, none, List.append_nil]
    exact only_literal i
  unfold argumentTurn
  split
  · simp [Turn.reading, heads_settle]
  · simp [Turn.reading, heads_settle]
  · simp [Turn.reading, heads_settle]
  · dsimp only
    split
    · exact behind _ (heads_bump _)
    · exact behind _ (heads_settle _)

/-- In front of a declaration stand attributes only. -/
theorem only_attributes : Only [.attributeItem] attributes := by
  refine only_loop fun i => ?_
  unfold attributeTurn
  dsimp only
  split <;> simp [Turn.reading, heads_settle, attributeItem, node]

/-- A second modifier is an error. -/
theorem only_modifier : Only [.error] modifier := by
  intro i
  unfold modifier
  dsimp only
  split
  · split <;> simp [heads_settle, heads_bump, heads_reject]
  · simp [heads_settle]

/-- Type, name and default value of a parameter make a written type and a default value. -/
theorem only_typedName : Only [.typeRef, .defaultValue] typedName := by
  have named : Only [.typeRef, .defaultValue] (inOrder
      [typeRef, expect .identifier,
        optional .equals (node .defaultValue (inOrder [bump, literal]))]) := by
    refine only_inOrder ?_
    intro p hp
    simp only [List.mem_cons, List.not_mem_nil, or_false] at hp
    rcases hp with rfl | rfl | rfl
    · exact only_node (by decide)
    · exact only_expect
    · exact only_optional (only_node (by decide))
  intro i
  unfold typedName
  dsimp only
  split
  · rw [Reading.append_elements, Element.heads_append, heads_settle]
    exact named _
  · simp [heads_settle, heads_complain]

/-- In the place of a parameter stands a parameter or an error. -/
theorem heads_paramTurn (i : Input) :
    ∀ k ∈ heads (paramTurn i).reading.elements, k ∈ [NodeKind.param, .error] := by
  unfold paramTurn
  split
  · simp [Turn.reading, heads_settle]
  · simp [Turn.reading, heads_settle]
  · dsimp only
    split
    · simp [Turn.reading, heads_settle, heads_bump, param, node]
    split
    · simp [Turn.reading, heads_settle, heads_reject, param, node]
    split <;> simp [Turn.reading, heads_settle, param, node]

/-- The names of a generic list are tokens. -/
theorem heads_genericTurn (i : Input) : heads (genericTurn i).reading.elements = [] := by
  unfold genericTurn
  dsimp only
  split <;> simp [Turn.reading, heads_settle, heads_expect, heads_bump]

/-- In the place of a member stands a method or an error. -/
theorem heads_memberTurn (i : Input) :
    ∀ k ∈ heads (memberTurn i).reading.elements, k ∈ [NodeKind.methodDecl, .error] := by
  unfold memberTurn
  dsimp only
  split <;> simp [Turn.reading, heads_settle, heads_bump, heads_complain, heads_reject, methodDecl,
    node]

/-- In the body of a type stand methods and errors. -/
theorem only_typeBody : Only [.methodDecl, .error] typeBody := by
  intro i
  unfold typeBody
  dsimp only
  split
  · rw [Reading.append_elements, Element.heads_append, heads_expect]
    exact only_loop heads_memberTurn _
  · rw [heads_expect]
    exact List.forall_mem_nil _

/-- In a file stand types and errors. -/
theorem heads_fileTurn (i : Input) :
    ∀ k ∈ heads (fileTurn i).reading.elements, k ∈ NodeKind.root.parts := by
  unfold fileTurn
  dsimp only
  split <;> simp [Turn.reading, heads_settle, heads_reject, typeDecl, node, NodeKind.parts]

/-- What stands in front of the parameter list of a method. -/
theorem only_methodHead : Only [.attributeItem, .genericList]
    (inOrder [attributes, expect .kwFn, expect .identifier, optional .leftAngle genericList]) := by
  refine only_inOrder ?_
  intro p hp
  simp only [List.mem_cons, List.not_mem_nil, or_false] at hp
  rcases hp with rfl | rfl | rfl | rfl
  · exact only_attributes.mono (by decide)
  · exact only_expect
  · exact only_expect
  · exact only_optional (only_node (by decide))

/-- A method has one parameter list, behind attributes and generic lists. -/
theorem heads_methodDecl {j : Input} {children : List Element}
    (h : (methodDecl j).elements = [.node .methodDecl children]) :
    ∃ ks, heads children = ks ++ [.paramList] ∧
      ∀ k ∈ ks, k ∈ [NodeKind.attributeItem, .genericList] := by
  cases h
  have head := only_methodHead j
  rw [show ∀ i, inOrder [attributes, expect .kwFn, expect .identifier,
      optional .leftAngle genericList, paramList, expect .semicolon] i =
      inOrder [attributes, expect .kwFn, expect .identifier, optional .leftAngle genericList] i ++
        inOrder [paramList, expect .semicolon]
          (inOrder [attributes, expect .kwFn, expect .identifier,
            optional .leftAngle genericList] i).rest from ?_]
  · refine ⟨_, ?_, head⟩
    simp [inOrder, heads_expect, paramList, node]
  · intro i
    simp only [inOrder, Reading.append_assoc]
    rfl

/-- A node that a rule makes has no parts but of the kinds that its own kind allows. -/
theorem heads_of_makes {q : Rule} (makes : Makes q) {j : Input} {kind : NodeKind}
    {children : List Element} (h : (q j).elements = [.node kind children]) :
    ∀ k ∈ heads children, k ∈ kind.parts := by
  cases makes with
  | error =>
    cases h
    exact only_bump j
  | literal =>
    cases h
    exact only_bump j
  | typeRef =>
    cases h
    refine only_inOrder ?_ j
    intro p hp
    simp only [List.mem_cons, List.not_mem_nil, or_false] at hp
    rcases hp with rfl | rfl | rfl
    · exact only_bump
    · refine only_optional (only_inOrder ?_)
      intro q hq
      simp only [List.mem_cons, List.not_mem_nil, or_false] at hq
      rcases hq with rfl | rfl
      · exact only_bump
      · exact only_expect
    · exact only_optional only_bump
  | attributeArgs =>
    cases h
    refine only_inOrder ?_ j
    intro p hp
    simp only [List.mem_cons, List.not_mem_nil, or_false] at hp
    rcases hp with rfl | rfl | rfl
    · exact only_bump
    · exact only_loop heads_argumentTurn
    · exact only_expect
  | attributeItem =>
    cases h
    refine only_inOrder ?_ j
    intro p hp
    simp only [List.mem_cons, List.not_mem_nil, or_false] at hp
    rcases hp with rfl | rfl | rfl | rfl
    · exact only_bump
    · exact only_expect
    · exact only_optional (only_node (by decide))
    · exact only_expect
  | defaultValue =>
    cases h
    refine only_inOrder ?_ j
    intro p hp
    simp only [List.mem_cons, List.not_mem_nil, or_false] at hp
    rcases hp with rfl | rfl
    · exact only_bump
    · exact only_literal
  | param =>
    cases h
    refine only_inOrder ?_ j
    intro p hp
    simp only [List.mem_cons, List.not_mem_nil, or_false] at hp
    rcases hp with rfl | rfl | rfl
    · exact only_attributes.mono (by decide)
    · exact only_modifier.mono (by decide)
    · exact only_typedName.mono (by decide)
  | paramList =>
    cases h
    dsimp only
    split
    · rw [Reading.append_elements, Element.heads_append, heads_expect, List.nil_append]
      refine only_inOrder ?_ _
      intro p hp
      simp only [List.mem_cons, List.not_mem_nil, or_false] at hp
      rcases hp with rfl | rfl
      · exact only_loop heads_paramTurn
      · exact only_expect
    · exact only_expect j
  | genericList =>
    cases h
    refine only_inOrder ?_ j
    intro p hp
    simp only [List.mem_cons, List.not_mem_nil, or_false] at hp
    rcases hp with rfl | rfl | rfl
    · exact only_bump
    · refine only_loop fun i => ?_
      rw [heads_genericTurn]
      exact List.forall_mem_nil _
    · exact only_expect
  | methodDecl =>
    obtain ⟨ks, split, head⟩ : ∃ ks, heads children = ks ++ [.paramList] ∧
        ∀ k ∈ ks, k ∈ [NodeKind.attributeItem, .genericList] := by
      cases h
      exact heads_methodDecl rfl
    cases h
    rw [split]
    intro k hk
    rcases List.mem_append.mp hk with hk | hk
    · exact List.mem_append_left [.paramList] (head k hk)
    · rw [List.mem_singleton.mp hk]
      decide
  | typeDecl =>
    cases h
    refine only_inOrder ?_ j
    intro p hp
    simp only [List.mem_cons, List.not_mem_nil, or_false] at hp
    rcases hp with rfl | rfl | rfl | rfl | rfl
    · exact only_attributes.mono (by decide)
    · exact only_expect
    · exact only_expect
    · exact only_optional (only_node (by decide))
    · exact only_typeBody.mono (by decide)

/-- Only the rule for methods makes methods. -/
theorem kind_of_methodDecl {q : Rule} (makes : Makes q) {j : Input} {children : List Element}
    (h : (q j).elements = [.node .methodDecl children]) : q = methodDecl := by
  cases makes <;> first | rfl | cases h

end Grammar

/-! ### Trees that were read from texts -/

namespace Node

/-- Everything that a node holds has the parts that its kind allows, and each method has one
parameter list, behind its other parts. -/
structure Orderly (n : Node) : Prop where
  parts : ∀ m, n.Holds m → ∀ c ∈ m.childNodes, c.kind ∈ m.kind.parts
  list : ∀ m, n.Holds m → m.kind = .methodDecl →
    ∃ front list, m.childNodes = front ++ [list] ∧ list.kind = .paramList ∧
      ∀ c ∈ front, c.kind ∈ [NodeKind.attributeItem, .genericList]

/-- What a node holds holds what that holds. -/
theorem Holds.trans {k m n : Node} (h : n.Holds k) (h' : k.Holds m) : n.Holds m := by
  induction h' with
  | self => exact h
  | child _ hm ih => exact ih.child hm

/-- Everything in an orderly node is orderly. -/
theorem Orderly.of_holds {n m : Node} (h : n.Orderly) (hm : n.Holds m) : m.Orderly :=
  ⟨fun k hk => h.parts k (hm.trans hk), fun k hk => h.list k (hm.trans hk)⟩

/-- The parts of a node are of the kinds among its trees. -/
theorem mem_heads_of_mem_childNodes {n c : Node} (h : c ∈ n.childNodes) :
    c.kind ∈ Element.heads n.children := by
  rw [← map_kind_nodesFrom n.start]
  exact List.mem_map_of_mem h

end Node

/-- The tree of any text is orderly. -/
theorem root_orderly (text : List Char) : (parse text).root.Orderly := by
  constructor
  · intro m hm c hc
    have head := Node.mem_heads_of_mem_childNodes hc
    by_cases root : m.kind = .root
    · rcases hm.occurs with rfl | ⟨before, occurs, -⟩
      · exact Rule.only_loop Grammar.heads_fileTurn _ _ head
      · have traced := Grammar.fileLoop_kept Rule.rootless_chains.kept (.ofTokens (lex text))
        exact absurd (root ▸ Element.mem_nodeKindsOf_of_occurs occurs) traced
    · obtain ⟨-, -, -, -, q, j, makes, -, made, -⟩ := made_of_holds hm root
      exact Grammar.heads_of_makes makes made _ head
  · intro m hm method
    obtain ⟨-, -, -, -, q, j, makes, -, made, -⟩ := made_of_holds hm (by rw [method]; decide)
    rw [method] at made
    cases Grammar.kind_of_methodDecl makes made
    obtain ⟨ks, heads, front⟩ := Grammar.heads_methodDecl made
    rw [← Node.map_kind_nodesFrom m.start] at heads
    obtain ⟨nodes, last, split, firsts, lasts⟩ := List.map_eq_append_iff.mp heads
    obtain ⟨list, rfl, kind⟩ := List.map_eq_singleton_iff.mp lasts
    refine ⟨nodes, list, split, kind, ?_⟩
    intro c hc
    refine front _ ?_
    rw [← firsts]
    exact List.mem_map_of_mem hc

end DeclFront
