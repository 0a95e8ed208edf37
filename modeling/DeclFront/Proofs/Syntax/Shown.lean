import DeclFront.Proofs.Syntax.Completeness
import DeclFront.Proofs.Syntax.Spelling
import DeclFront.Proofs.Syntax.Views
import Mathlib.Data.List.Forall2

/-!
# Programs are shown as they are written

A tree shows a program when every view of it answers with what the program says there. Views pass
trivia over, so what they answer is read off the tree without its trivia; and a text that spells a
program has the tree of the program, once its trivia is left out.
-/

set_option autoImplicit false

namespace DeclFront

/-! ### Views pass trivia over -/

namespace Element

/-- To leave out trivia and to choose the nodes of a kind may be done in either order. -/
theorem filter_bareOf (kind : NodeKind) (es : List Element) :
    (bareOf es).filter (isNodeOf kind) = bareOf (es.filter (isNodeOf kind)) := by
  induction es with
  | nil => rfl
  | cons e es ih =>
    rw [bareOf, List.filter_append, ih]
    cases e with
    | token t =>
      have other : (Element.token t).isNodeOf kind = false := rfl
      rw [List.filter_cons_of_neg (by simp [other])]
      cases trivia : t.isTrivia <;> simp [bare, trivia, other]
    | node k children =>
      by_cases same : k = kind
      · have found : (Element.node k children).isNodeOf kind = true := by simp [isNodeOf, same]
        have bareFound : (Element.node k (bareOf children)).isNodeOf kind = true := found
        rw [List.filter_cons_of_pos found, bareOf, bare, List.filter_cons_of_pos bareFound]
        rfl
      · have other : (Element.node k children).isNodeOf kind = false := by simp [isNodeOf, same]
        have bareOther : (Element.node k (bareOf children)).isNodeOf kind = false := other
        rw [List.filter_cons_of_neg (by simp [other]), bare,
          List.filter_cons_of_neg (by simp [bareOther])]
        rfl

/-- The tokens that are left without trivia are the tokens that are not trivia. -/
theorem filterMap_bareOf (es : List Element) :
    (bareOf es).filterMap token? = (es.filterMap token?).filter fun t => !t.isTrivia := by
  induction es with
  | nil => rfl
  | cons e es ih =>
    rw [bareOf, List.filterMap_append, ih]
    cases e with
    | token t =>
      cases trivia : t.isTrivia <;> simp [bare, token?, trivia]
    | node k children =>
      rw [bare]
      rfl

end Element

namespace Node

/-- The tree of a node without its trivia. -/
def bare (n : Node) : Element :=
  .node n.kind (Element.bareOf n.children)

/-- Nodes next to each other lose their trivia one by one. -/
theorem bareOf_map_element (ns : List Node) : Element.bareOf (ns.map element) = ns.map bare := by
  induction ns with
  | nil => rfl
  | cons n ns ih =>
    rw [List.map_cons, Element.bareOf, ih]
    rfl

variable (n : Node)

/-- The children of a kind, without trivia, are the nodes of that kind among the bare parts. -/
theorem childrenOf_bare (kind : NodeKind) :
    (n.childrenOf kind).map bare = (Element.bareOf n.children).filter (Element.isNodeOf kind) := by
  rw [Element.filter_bareOf, ← childrenOf_elements, bareOf_map_element]

/-- The first child of a kind, without trivia, is the first node of that kind among the
bare parts. -/
theorem childOf?_bare (kind : NodeKind) :
    (n.childOf? kind).map bare =
      ((Element.bareOf n.children).filter (Element.isNodeOf kind)).head? := by
  rw [← childrenOf_bare, List.head?_map, childOf?_eq_head?]

/-- Tokens that are not trivia can be chosen from the bare parts of a node as well as from all of
its parts. -/
theorem childTokens_bare {p : Token → Bool} (h : ∀ t, p t = true → t.isTrivia = false) :
    (n.childTokens.map PlacedToken.token).filter p =
      ((Element.bareOf n.children).filterMap Element.token?).filter p := by
  rw [Element.filterMap_bareOf, ← childTokens_tokens, List.filter_filter]
  refine List.filter_congr fun t _ => ?_
  cases hp : p t with
  | false => rfl
  | true => simp [h t hp]

/-- So the first such token is also found among the bare parts. -/
theorem find?_childTokens_bare {p : Token → Bool} (h : ∀ t, p t = true → t.isTrivia = false) :
    (n.childTokens.find? fun t => p t.token).map PlacedToken.token =
      ((Element.bareOf n.children).filterMap Element.token?).find? p := by
  have tokens := congrArg List.head? (n.childTokens_bare h)
  rw [List.head?_filter, List.head?_filter, List.find?_map] at tokens
  exact tokens

end Node

namespace Program

/-! ### What it is to show a program -/

/-- A literal shows a value by its token. -/
def Value.ShownBy (v : Value) (n : Node) : Prop :=
  n.literalToken?.map PlacedToken.token = some v.token

/-- The name of an attribute and the values of its arguments, in their order. -/
structure Attribute.ShownBy (a : Attribute) (n : Node) : Prop where
  name : n.nameToken?.map PlacedToken.token = some a.name.token
  arguments : List.Forall₂ Value.ShownBy (a.arguments.getD []) n.arguments

/-- No names, no list. -/
def GenericsShownBy (names : List Name) (list : Option Node) : Prop :=
  (list.map fun n => n.genericNames.map PlacedToken.token) =
    if names = [] then none else some (names.map Name.token)

/-- The name of a type and the suffixes behind it. -/
structure TypeRef.ShownBy (t : TypeRef) (n : Node) : Prop where
  name : n.nameToken?.map PlacedToken.token = some t.name.token
  isArray : n.isArray = t.isArray
  isNullable : n.isNullable = t.isNullable

/-- A default value shows a value by its literal. -/
def Value.DefaultShownBy (v : Value) (n : Node) : Prop :=
  ∃ literal, n.literal? = some literal ∧ v.ShownBy literal

/-- All that a parameter is made of; what was not written is not there. -/
structure Param.ShownBy (p : Param) (n : Node) : Prop where
  attributes : List.Forall₂ Attribute.ShownBy p.attributes n.attributes
  modifier : n.modifier?.map PlacedToken.token = p.modifier.map Modifier.token
  type : ∃ written, n.typeRef? = some written ∧ p.type.ShownBy written
  name : n.nameToken?.map PlacedToken.token = some p.name.token
  default : Option.Rel Value.DefaultShownBy p.default n.defaultValue?

/-- All that a method is made of; its parameter list is there even if it is empty. -/
structure Method.ShownBy (m : Method) (n : Node) : Prop where
  attributes : List.Forall₂ Attribute.ShownBy m.attributes n.attributes
  name : n.nameToken?.map PlacedToken.token = some m.name.token
  generics : GenericsShownBy m.generics n.generics?
  params : ∃ list, n.paramList? = some list ∧ List.Forall₂ Param.ShownBy m.params list.params

/-- All that a type declaration is made of. -/
structure TypeDecl.ShownBy (d : TypeDecl) (n : Node) : Prop where
  attributes : List.Forall₂ Attribute.ShownBy d.attributes n.attributes
  name : n.nameToken?.map PlacedToken.token = some d.name.token
  generics : GenericsShownBy d.generics n.generics?
  methods : List.Forall₂ Method.ShownBy d.methods n.methods

/-! ### The tree of a program shows it -/

section Shown

variable {n : Node}

/-- If nodes without their trivia are the trees of some things, and each tree shows its thing, the
nodes show the things one by one. -/
theorem forall₂_shown {α : Type} {element : α → Element} {ShownBy : α → Node → Prop}
    (each : ∀ x m, Node.bare m = element x → ShownBy x m) {xs : List α} {ms : List Node}
    (h : ms.map Node.bare = xs.map element) : List.Forall₂ ShownBy xs ms := by
  have same : List.Forall₂ (· = ·) (xs.map element) (ms.map Node.bare) := by
    rw [List.forall₂_eq_eq_eq]
    exact h.symm
  rw [List.forall₂_map_left_iff, List.forall₂_map_right_iff] at same
  exact same.imp fun x m hm => each x m hm.symm

/-- The bare parts of a node are read off its tree without trivia. -/
theorem children_of_bare {kind : NodeKind} {es : List Element} (h : n.bare = .node kind es) :
    Element.bareOf n.children = es :=
  (Element.node.inj h).2

/-- The token of a kind in a node is the first of that kind among the bare parts. -/
theorem token_of_bare {es : List Element} (h : Element.bareOf n.children = es)
    (kind : TokenKind) (plain : kind.isTrivia = false) :
    (n.tokenOf? kind).map PlacedToken.token =
      (es.filterMap Element.token?).find? fun t => t.kind = kind := by
  have bare := n.find?_childTokens_bare (p := fun t => t.kind = kind) fun t ht => by
    rw [Token.isTrivia, of_decide_eq_true ht, plain]
  rw [h] at bare
  exact bare

/-- A literal with the tree of a value shows the value. -/
theorem Value.shown {v : Value} (h : n.bare = v.element) : v.ShownBy n := by
  have bare := n.find?_childTokens_bare (p := fun t => !t.isTrivia) fun t ht => by simpa using ht
  have plain := v.legible.isTrivia_eq_false
  rw [children_of_bare h] at bare
  have first : ([Element.token v.token].filterMap Element.token?).find? (fun t => !t.isTrivia) =
      some v.token := by simp [Element.token?, plain]
  exact bare.trans first

/-- The children of a kind, without trivia, are the nodes of the kind among parts that are known. -/
theorem childrenOf_of_bare {es : List Element} (h : Element.bareOf n.children = es)
    (kind : NodeKind) :
    (n.childrenOf kind).map Node.bare = es.filter (Element.isNodeOf kind) := by
  rw [n.childrenOf_bare, h]

/-- The first child of a kind, without trivia, is the first node of the kind among parts that
are known. -/
theorem childOf?_of_bare {es : List Element} (h : Element.bareOf n.children = es)
    (kind : NodeKind) :
    (n.childOf? kind).map Node.bare = (es.filter (Element.isNodeOf kind)).head? := by
  rw [n.childOf?_bare, h]

/-- The only child of its kind is found. -/
theorem exists_childOf? {es : List Element} {e : Element} (h : Element.bareOf n.children = es)
    (kind : NodeKind) (only : es.filter (Element.isNodeOf kind) = [e]) :
    ∃ m, n.childOf? kind = some m ∧ m.bare = e := by
  have found := childOf?_of_bare h kind
  rw [only] at found
  exact Option.map_eq_some_iff.mp found

/-- What takes nothing from a comma takes the same from groups with commas between
them as without. -/
theorem filterMap_commaBetween {β : Type} {f : Element → Option β}
    (comma : f (.token (Token.sign ',')) = none) (groups : List (List Element)) :
    (commaBetween groups).filterMap f = groups.flatten.filterMap f := by
  unfold commaBetween
  induction groups with
  | nil => rfl
  | cons g gs ih =>
    cases gs with
    | nil => simp
    | cons e es =>
      rw [List.intercalate_cons_cons, List.filterMap_append, List.filterMap_append, ih,
        List.filterMap_cons_none comma, List.flatten_cons, List.filterMap_append]
      simp

/-- Among trees of one kind, all are of that kind. -/
theorem filter_map_node {α : Type} {element : α → Element} {kind : NodeKind}
    (each : ∀ x, (element x).isNodeOf kind = true) (xs : List α) :
    (xs.map element).filter (Element.isNodeOf kind) = xs.map element := by
  rw [List.filter_eq_self]
  intro e he
  obtain ⟨x, -, rfl⟩ := List.mem_map.mp he
  exact each x

/-- Among trees that are not of a kind, none is. -/
theorem filter_map_other {α : Type} {element : α → Element} {kind : NodeKind}
    (each : ∀ x, (element x).isNodeOf kind = false) (xs : List α) :
    (xs.map element).filter (Element.isNodeOf kind) = [] := by
  rw [List.filter_eq_nil_iff]
  intro e he
  obtain ⟨x, -, rfl⟩ := List.mem_map.mp he
  simp [each x]

/-- Nodes next to each other have no tokens between them. -/
theorem filterMap_map_node {α : Type} {element : α → Element}
    (each : ∀ x, (element x).token? = none) (xs : List α) :
    (xs.map element).filterMap Element.token? = [] := by
  rw [List.filterMap_eq_nil_iff]
  intro e he
  obtain ⟨x, -, rfl⟩ := List.mem_map.mp he
  exact each x

/-- The nodes of a list with commas are what the commas stand between. -/
theorem filter_commaBetween {α : Type} {element : α → Element} {kind : NodeKind}
    (each : ∀ x, (element x).isNodeOf kind = true) (xs : List α) :
    (commaBetween (xs.map fun x => [element x])).filter (Element.isNodeOf kind) =
      xs.map element := by
  have flat : (xs.map fun x => [element x]).flatten = xs.map element := by
    rw [← List.flatMap_def, ← List.map_eq_flatMap]
  rw [← List.filterMap_eq_filter, filterMap_commaBetween rfl, flat, List.filterMap_eq_filter,
    filter_map_node each]

/-- A node with the tree of an attribute shows its name and its arguments. -/
theorem Attribute.shown {a : Attribute} (h : n.bare = a.element) : a.ShownBy n := by
  have children := children_of_bare h
  constructor
  · have name := token_of_bare children .identifier rfl
    exact name
  · cases given : a.arguments with
    | none =>
      have lists := childrenOf_of_bare children .attributeArgs
      rw [given] at lists
      have none : n.argumentLists = [] := List.map_eq_nil_iff.mp lists
      unfold Node.arguments
      rw [none]
      exact .nil
    | some values =>
      have lists := childrenOf_of_bare children .attributeArgs
      rw [given] at lists
      obtain ⟨list, only, bare⟩ := List.map_eq_singleton_iff.mp lists
      have literals := childrenOf_of_bare (children_of_bare bare) .literal
      rw [List.filter_cons_of_neg (by simp [Element.isNodeOf]), List.filter_append,
        filter_commaBetween fun _ => rfl] at literals
      have all : (list.childrenOf .literal).map Node.bare = values.map Value.element :=
        literals.trans (List.append_nil _)
      have arguments : n.arguments = list.childrenOf .literal := by
        have lists : n.argumentLists = [list] := only
        unfold Node.arguments
        rw [lists]
        exact List.append_nil _
      rw [arguments]
      exact forall₂_shown (fun _ _ => Value.shown) all

/-- Nodes with the trees of some attributes show these in their order. -/
theorem attributes_shown {as : List Attribute} (h : n.attributes.map Node.bare =
    as.map Attribute.element) : List.Forall₂ Attribute.ShownBy as n.attributes :=
  forall₂_shown (fun _ _ => Attribute.shown) h

/-- A list of generic parameters shows the names that it was written for, and its absence shows that
there are none. -/
theorem generics_shown {names : List Name} {list : Option Node}
    (h : list.map Node.bare = (genericElements names).head?) : GenericsShownBy names list := by
  unfold GenericsShownBy
  cases names with
  | nil =>
    rw [Option.map_eq_none_iff.mp h]
    rfl
  | cons m ms =>
    obtain ⟨g, rfl, bare⟩ := Option.map_eq_some_iff.mp h
    have name : ∀ t : Token, decide (t.kind = .identifier) = true → t.isTrivia = false := by
      intro t ht
      rw [Token.isTrivia, of_decide_eq_true ht]
      rfl
    have tokens := g.childTokens_bare name
    rw [children_of_bare bare, List.filter_filterMap, List.filterMap_cons_none rfl,
      List.filterMap_append, filterMap_commaBetween rfl, ← List.flatMap_def,
      ← List.map_eq_flatMap, List.filterMap_map, List.filter_map] at tokens
    have all : (fun e => (Element.token? e).filter fun t => decide (t.kind = .identifier)) ∘
        (fun m : Name => Element.token m.token) = some ∘ Name.token := rfl
    rw [all, List.filterMap_eq_map] at tokens
    rw [Option.map_some, if_neg (List.cons_ne_nil m ms)]
    exact congrArg some (tokens.trans (List.append_nil _))

/-- A node with the tree of a type shows its name, whether it is an array and whether it
is nullable. -/
theorem TypeRef.shown {t : TypeRef} (h : n.bare = t.element) : t.ShownBy n := by
  have children := children_of_bare h
  have bracket := congrArg Option.isSome (token_of_bare children .leftBracket rfl)
  have question := congrArg Option.isSome (token_of_bare children .question rfl)
  rw [Option.isSome_map] at bracket question
  refine ⟨token_of_bare children .identifier rfl, bracket.trans ?_, question.trans ?_⟩
  · cases t.isArray <;> cases t.isNullable <;> rfl
  · cases t.isArray <;> cases t.isNullable <;> rfl

/-- A default value shows the value that it was written for, and its absence shows that there
is none. -/
theorem default_shown {default : Option Value} {child : Option Node}
    (h : child.map Node.bare = (defaultElements default).head?) :
    Option.Rel Value.DefaultShownBy default child := by
  cases default with
  | none =>
    rw [Option.map_eq_none_iff.mp h]
    exact .none
  | some value =>
    obtain ⟨m, rfl, bare⟩ := Option.map_eq_some_iff.mp h
    obtain ⟨literal, found, shape⟩ := exists_childOf? (children_of_bare bare) .literal rfl
    exact .some ⟨literal, found, Value.shown shape⟩

/-- A node with the tree of a parameter shows all that the parameter consists of. -/
theorem Param.shown {p : Param} (h : n.bare = p.element) : p.ShownBy n := by
  have children := children_of_bare h
  have tokens : (Element.bareOf n.children).filterMap Element.token? =
      (p.modifier.map Modifier.token).toList ++ [p.name.token] := by
    rw [children, List.filterMap_append, filterMap_map_node fun _ => rfl]
    cases p.modifier <;> cases p.default <;> rfl
  constructor
  · have nodes := childrenOf_of_bare children .attributeItem
    rw [List.filter_append, filter_map_node fun _ => rfl] at nodes
    refine attributes_shown (nodes.trans ?_)
    cases p.modifier <;> cases p.default <;> exact List.append_nil _
  · have found := n.find?_childTokens_bare (p := fun t => t.kind.isParameterModifier) fun t ht => by
      unfold Token.isTrivia
      cases kind : t.kind <;> simp_all [TokenKind.isParameterModifier, TokenKind.isTrivia]
    rw [tokens] at found
    refine Eq.trans found ?_
    cases p.modifier with
    | none => rfl
    | some m => cases m <;> rfl
  · have only : (p.attributes.map Attribute.element ++
        ((p.modifier.map fun m => Element.token m.token).toList ++
          (p.type.element :: .token p.name.token :: defaultElements p.default))).filter
            (Element.isNodeOf .typeRef) = [p.type.element] := by
      rw [List.filter_append, filter_map_other fun _ => rfl]
      cases p.modifier <;> cases p.default <;> rfl
    obtain ⟨written, found, bare⟩ := exists_childOf? children .typeRef only
    exact ⟨written, found, TypeRef.shown bare⟩
  · have found := token_of_bare (n := n) rfl .identifier rfl
    rw [tokens] at found
    refine Eq.trans found ?_
    cases p.modifier with
    | none => rfl
    | some m => cases m <;> rfl
  · have found := childOf?_of_bare children .defaultValue
    rw [List.filter_append, filter_map_other fun _ => rfl] at found
    refine default_shown (found.trans ?_)
    cases p.modifier <;> cases p.default <;> rfl

/-- A parameter list shows the parameters that it was written for, in their order. -/
theorem params_shown {params : List Param} (h : n.bare = paramListElement params) :
    List.Forall₂ Param.ShownBy params n.params := by
  have nodes := childrenOf_of_bare (children_of_bare h) .param
  rw [List.filter_cons_of_neg (by simp [Element.isNodeOf]), List.filter_append,
    filter_commaBetween fun _ => rfl] at nodes
  exact forall₂_shown (fun _ _ => Param.shown) (nodes.trans (List.append_nil _))

/-- A node with the tree of a method shows its name, its generic parameters and its parameters. -/
theorem Method.shown {m : Method} (h : n.bare = m.element) : m.ShownBy n := by
  have children := children_of_bare h
  constructor
  · have nodes := childrenOf_of_bare children .attributeItem
    rw [List.filter_append, filter_map_node fun _ => rfl] at nodes
    refine attributes_shown (nodes.trans ?_)
    cases m.generics <;> exact List.append_nil _
  · have name := token_of_bare children .identifier rfl
    rw [List.filterMap_append, filterMap_map_node fun _ => rfl] at name
    exact name
  · have found := childOf?_of_bare children .genericList
    rw [List.filter_append, filter_map_other fun _ => rfl] at found
    refine generics_shown (found.trans ?_)
    cases m.generics <;> rfl
  · have only := childOf?_of_bare children .paramList
    rw [List.filter_append, filter_map_other fun _ => rfl] at only
    obtain ⟨list, found, bare⟩ : ∃ list, n.paramList? = some list ∧
        list.bare = paramListElement m.params := by
      refine Option.map_eq_some_iff.mp (only.trans ?_)
      cases m.generics <;> rfl
    exact ⟨list, found, params_shown bare⟩

/-- A node with the tree of a type declaration shows its attributes, its name, its generic
parameters and its methods. -/
theorem TypeDecl.shown {d : TypeDecl} (h : n.bare = d.element) : d.ShownBy n := by
  have children := children_of_bare h
  have nodes : ∀ kind, (n.childrenOf kind).map Node.bare =
      (d.attributes.map Attribute.element).filter (Element.isNodeOf kind) ++
        ((genericElements d.generics).filter (Element.isNodeOf kind) ++
          (d.methods.map Method.element).filter (Element.isNodeOf kind)) := by
    intro kind
    have token : ∀ t, (Element.token t).isNodeOf kind = false := fun _ => rfl
    rw [childrenOf_of_bare children kind]
    simp only [List.filter_append, List.filter_cons, List.filter_nil, token, Bool.false_eq_true,
      if_false, List.append_nil]
  constructor
  · have attributes := nodes .attributeItem
    rw [filter_map_node fun _ => rfl, filter_map_other fun _ => rfl, List.append_nil] at attributes
    refine attributes_shown (attributes.trans ?_)
    cases d.generics <;> exact List.append_nil _
  · have name := token_of_bare children .identifier rfl
    rw [List.filterMap_append, filterMap_map_node fun _ => rfl] at name
    exact name
  · have lists := nodes .genericList
    rw [filter_map_other fun _ => rfl, filter_map_other fun _ => rfl, List.append_nil,
      List.nil_append] at lists
    have found : n.generics?.map Node.bare = (genericElements d.generics).head? := by
      unfold Node.generics?
      rw [n.childOf?_eq_head?, ← List.head?_map, lists]
      cases d.generics <;> rfl
    exact generics_shown found
  · have methods := nodes .methodDecl
    rw [filter_map_other fun _ => rfl, filter_map_node fun _ => rfl, List.nil_append] at methods
    refine forall₂_shown (fun _ _ => Method.shown) (methods.trans ?_)
    cases d.generics <;> rfl

end Shown

end Program

/-- Whatever program a text spells, and with whatever trivia, the text is read without an error and
its tree shows exactly this program. -/
theorem parse_shows_spelled (program : List Program.TypeDecl) (text : List Char)
    (h : Spells (program.flatMap Program.TypeDecl.tokens) text) :
    (parse text).errors = [] ∧
      List.Forall₂ Program.TypeDecl.ShownBy program (parse text).root.typeDecls := by
  have built := Grammar.file_builds program
  rw [← Program.significant_of_spelled h] at built
  obtain ⟨bare, errors⟩ := parse_bare text built
  have types := Program.childrenOf_of_bare (n := (parse text).root) bare .typeDecl
  rw [Program.filter_map_node fun _ => rfl] at types
  exact ⟨errors, Program.forall₂_shown (fun _ _ => Program.TypeDecl.shown) types⟩

section Sample

open Program

/-- A type `T` with the attribute `A(true)` and a method with one parameter. -/
def sampleType : Program.TypeDecl where
  attributes := [⟨⟨'A', [], rfl, List.all_eq_true.mp rfl, by decide +kernel⟩, some [.truth true]⟩]
  name := ⟨'T', [], rfl, List.all_eq_true.mp rfl, by decide +kernel⟩
  generics := []
  methods := [{
    attributes := []
    name := ⟨'m', [], rfl, List.all_eq_true.mp rfl, by decide +kernel⟩
    generics := []
    params := [{
      attributes := []
      modifier := some .in
      type := ⟨⟨'i', ['n', 't'], rfl, List.all_eq_true.mp rfl, by decide +kernel⟩, true, false⟩
      name := ⟨'x', [], rfl, List.all_eq_true.mp rfl, by decide +kernel⟩
      default := some (.integer true ⟨'1', [], rfl, List.all_eq_true.mp rfl⟩) }] }]

def sampleText : List Char :=
  "//\n[A(true)]type T\x7bfn m(in int[]x=-1);\x7d".toList

/-- The sample text spells the sample type, with comments and blanks in between. -/
theorem sampleText_spells : Spells ([sampleType].flatMap Program.TypeDecl.tokens) sampleText := by
  have comment : Gap ['/', '/', '\n'] := .comment (fun _ h => absurd h List.not_mem_nil) .nil
  exact ⟨_, _, comment, compact_written _, by decide +kernel⟩

end Sample

/-- So the sample text is read without errors, and as the sample type. -/
theorem parse_shows_sampleText :
    Spells ([sampleType].flatMap Program.TypeDecl.tokens) sampleText ∧
      (parse sampleText).errors = [] ∧
      List.Forall₂ Program.TypeDecl.ShownBy [sampleType] (parse sampleText).root.typeDecls :=
  ⟨sampleText_spells, parse_shows_spelled [sampleType] sampleText sampleText_spells⟩

end DeclFront
