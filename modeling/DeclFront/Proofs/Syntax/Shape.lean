import DeclFront.Proofs.Syntax.Begun

/-!
# The shape of trees

Whoever looks at a tree takes the first part of a kind and trusts it. Here it is shown what can be
trusted in the tree of every text, however malformed: how nodes begin, what stands in what, and that a
declaration has one name at most, and a parameter one type and one default value behind it.
-/

set_option autoImplicit false

namespace DeclFront

/-- The names that stand directly among trees. -/
def Element.names (es : List Element) : List Token :=
  (es.filterMap Element.token?).filter (·.kind = .identifier)

/-- What is known of a node that was read from a text with the given errors. -/
structure Node.Shaped (errors : List SyntaxError) (m : Node) : Prop where
  error : m.kind = .error → ∃ t, m.children = [.token t] ∧ t.isTrivia = false ∧
    ∃ e ∈ errors, e.range = m.range
  literal : m.kind = .literal → ∃ t, m.children = [.token t] ∧ t.kind.isLiteral = true
  list : m.kind = .methodDecl → (m.childrenOf .paramList).length = 1
  param : ∀ c ∈ m.childNodes, c.kind = .param → m.kind = .paramList
  opening : ∀ k, m.kind.opening? = some k → ∃ t es, m.children = .token t :: es ∧ t.kind = k
  name : m.kind ∈ [.typeDecl, .methodDecl, .attributeItem, .param] →
    (m.childTokens.filter (·.token.kind = .identifier)).length ≤ 1
  typeRef : m.kind = .param → (m.childrenOf .typeRef).length ≤ 1
  defaultValue : m.kind = .param → (m.childrenOf .defaultValue).length ≤ 1
  behind : m.kind = .param → ∀ d ∈ m.childrenOf .defaultValue,
    ∃ t ∈ m.childrenOf .typeRef, t.range.stop ≤ d.start

namespace Element

variable {es fs : List Element}

/-- The names among trees are those among the first, and then those among the others. -/
@[simp]
theorem names_append : names (es ++ fs) = names es ++ names fs := by
  simp [names]

/-- A name inside a node does not stand directly among the trees. -/
@[simp]
theorem names_node (kind : NodeKind) (children : List Element) :
    names [.node kind children] = [] := by
  simp [names, token?]

/-- Among tokens the names are the identifiers. -/
theorem names_map_token (ts : List Token) :
    names (ts.map .token) = ts.filter (·.kind = .identifier) := by
  simp [names, List.filterMap_map, Function.comp_def, token?]

/-- There are no names in trivia. -/
theorem names_trivia {ts : List Token} (h : ∀ t ∈ ts, t.isTrivia = true) :
    names (ts.map .token) = [] := by
  rw [names_map_token, List.filter_eq_nil_iff]
  intro t ht
  have trivia := h t ht
  rw [decide_eq_true_eq]
  intro name
  rw [Token.isTrivia, name] at trivia
  cases trivia

end Element

/-- A node has as many identifiers among its tokens as names stand directly in it. -/
theorem Node.length_names (n : Node) :
    (n.childTokens.filter (·.token.kind = .identifier)).length =
      (Element.names n.children).length := by
  rw [Element.names, ← childTokens_tokens, List.filter_map, List.length_map]
  rfl

/-- A node has as many children of a kind as that kind stands among the heads of its parts. -/
theorem Node.length_childrenOf (n : Node) (kind : NodeKind) :
    (n.childrenOf kind).length = (Element.heads n.children).count kind := by
  rw [childrenOf, ← List.countP_eq_length_filter, ← map_kind_nodesFrom n.start,
    List.count_eq_countP, List.countP_map]
  rfl

namespace Rule

open Element (names)

/-! ### Names that are taken -/

/-- The rule takes no names, apart from those inside its nodes. -/
def Nameless (p : Rule) : Prop :=
  ∀ i, i.Proper → names (p i).elements = []

/-- The rule takes one name at most, apart from those inside its nodes. -/
def NamedOnce (p : Rule) : Prop :=
  ∀ i, i.Proper → (names (p i).elements).length ≤ 1

variable {i : Input} {kind : NodeKind} {k : TokenKind} {p : Rule} {ps : List Rule}

/-- Behind a reading without names, the names are those of what is read next. -/
theorem names_append_of_nil {a b : Reading} (h : names a.elements = []) :
    names (a ++ b).elements = names b.elements := by
  rw [Reading.append_elements, Element.names_append, h, List.nil_append]

/-- The gap in front of a lexeme has no name in it. -/
theorem nameless_settle : Nameless settle := fun _ h => Element.names_trivia h.gap

/-- To complain takes nothing, so no name either. -/
theorem nameless_complain (c : Complaint) : Nameless (complain c) := by
  intro i h
  have gap := nameless_settle i h
  rw [complain, Reading.append_elements, List.append_nil, gap]

/-- A rule that makes a node keeps the names that it takes inside the node. -/
theorem nameless_node (kind : NodeKind) (p : Rule) : Nameless (node kind p) :=
  fun _ _ => Element.names_node _ _

/-- A token that is rejected goes into an error node, even if it is a name. -/
theorem nameless_reject (c : Complaint) : Nameless (reject c) := by
  intro i h
  have complained := nameless_complain c i h
  simp [reject, complained, node]

/-- To take a lexeme that is no identifier takes no name. -/
theorem names_bump (h : i.Proper) (other : i.next? ≠ some .identifier) :
    names (bump i).elements = [] := by
  have gap := Element.names_trivia h.gap
  cases lexemes : i.lexemes with
  | nil =>
    rw [bump, lexemes]
    exact gap
  | cons l ls =>
    have kind : l.token.kind ≠ .identifier := by simpa [Input.next?, lexemes] using other
    rw [bump_elements lexemes, Element.names_append, gap]
    simp [names, Element.token?, kind]

/-- To take a lexeme takes one name at most. -/
theorem names_bump_le (h : i.Proper) : (names (bump i).elements).length ≤ 1 := by
  have gap := Element.names_trivia h.gap
  cases lexemes : i.lexemes with
  | nil => simp [bump, lexemes, settle, gap]
  | cons l ls =>
    rw [bump_elements lexemes, Element.names_append, gap]
    exact List.length_filter_le _ _

/-- No name is taken where something else comes first. -/
theorem names_bump_of_first (h : i.Proper) {t : Token} {es fs : List Element}
    (first : (bump i).elements ++ fs = .token t :: es) (significant : t.isTrivia = false)
    (other : t.kind ≠ .identifier) : names (bump i).elements = [] := by
  apply names_bump h
  intro name
  obtain ⟨l, ls, lexemes, isName⟩ := exists_lexeme name
  rw [bump_elements lexemes] at first
  cases gap : i.gap with
  | nil =>
    have same : l.token = t := by simpa [gap] using congrArg List.head? first
    exact other (same ▸ isName)
  | cons g gs =>
    have same : g = t := by simpa [gap] using congrArg List.head? first
    have trivia := h.gap g (by simp [gap])
    rw [same, significant] at trivia
    cases trivia

/-- To expect anything but an identifier takes no name. -/
theorem nameless_expect (other : k ≠ .identifier) : Nameless (expect k) := by
  intro i h
  unfold expect
  split
  · rename_i next
    exact names_bump h (by simp [next, other])
  · exact nameless_complain _ i h

/-- Whatever is expected, one name is taken at most. -/
theorem namedOnce_expect (k : TokenKind) : NamedOnce (expect k) := by
  intro i h
  unfold expect
  split
  · exact names_bump_le h
  · simp [nameless_complain _ i h]

/-- What is read only behind a certain token takes no names if the rule takes none. -/
theorem nameless_optional (h : Nameless p) : Nameless (optional k p) := by
  intro i proper
  have gap := nameless_settle i proper
  unfold optional
  dsimp only
  split
  · rw [names_append_of_nil gap]
    exact h _ proper.settled
  · exact gap

/-- Rules one after another take no names if none of them does. -/
theorem nameless_inOrder (h : ∀ p ∈ ps, Forms p ∧ Nameless p) : Nameless (inOrder ps) := by
  induction ps with
  | nil => exact fun _ _ => rfl
  | cons p ps ih =>
    intro i proper
    obtain ⟨forms, first⟩ := h p List.mem_cons_self
    have others := ih fun q hq => h q (List.mem_cons_of_mem p hq)
    have rest := others _ (forms i proper).traced.proper
    rw [inOrder, names_append_of_nil (first i proper), rest]

/-- One rule that may take a name, among others that take none. -/
theorem namedOnce_inOrder (before : List Rule) {after : List Rule}
    (front : ∀ q ∈ before, Forms q ∧ Nameless q) (forms : Forms p) (once : NamedOnce p)
    (back : ∀ q ∈ after, Forms q ∧ Nameless q) : NamedOnce (inOrder (before ++ p :: after)) := by
  induction before with
  | nil =>
    intro i proper
    have rest := nameless_inOrder back _ (forms i proper).traced.proper
    rw [List.nil_append, inOrder, Reading.append_elements, Element.names_append, rest,
      List.append_nil]
    exact once i proper
  | cons q qs ih =>
    intro i proper
    obtain ⟨formsFirst, first⟩ := front q List.mem_cons_self
    have others := ih fun r hr => front r (List.mem_cons_of_mem q hr)
    rw [List.cons_append, inOrder, names_append_of_nil (first i proper)]
    exact others _ (formsFirst i proper).traced.proper

/-- A loop takes no names if none of its turns does. -/
theorem nameless_loop {turn : Input → Turn} {advances : Advances turn}
    (formed : ∀ i, i.Proper → Formed i (turn i).reading)
    (h : ∀ i, i.Proper → names (turn i).reading.elements = []) : Nameless (loop turn advances) := by
  apply loop_induction (motive := fun i r => i.Proper → names r.elements = [])
  · intro i a turned proper
    have step := h i proper
    rw [turned] at step
    exact step
  · intro i a b turned others proper
    have step := h i proper
    have next := (formed i proper).traced.proper
    rw [turned] at step next
    exact (names_append_of_nil step).trans (others next)

end Rule

namespace Grammar

open Rule
open Element (names heads)

variable {i : Input}

/-- The gap in front of what a rule reads adds no names. -/
theorem names_settle_append {p : Rule} (h : i.Proper) (hp : names (p i.settled).elements = []) :
    names (settle i ++ p (settle i).rest).elements = [] := by
  rw [names_append_of_nil (nameless_settle i h)]
  exact hp

/-- The names of a list of generic parameters stand inside the list. -/
theorem nameless_genericList : Nameless genericList := nameless_node _ _

/-- The names of parameters stand inside the parameter list. -/
theorem nameless_paramList : Nameless paramList := nameless_node _ _

/-- Arguments of an attribute stand inside their list. -/
theorem nameless_attributeArgs : Nameless attributeArgs := nameless_node _ _

/-- The names of attributes stand inside the attributes. -/
theorem nameless_attributes : Nameless attributes := by
  apply nameless_loop fun i => attributeTurn_formed
  intro i h
  unfold attributeTurn
  dsimp only
  split
  · exact names_settle_append h (Element.names_node _ _)
  · exact nameless_settle i h

/-- A modifier is a keyword, and no name. -/
theorem nameless_modifier : Nameless modifier := by
  intro i h
  unfold modifier
  dsimp only
  split
  · rename_i first
    have taken : names (bump i.settled).elements = [] := by
      apply names_bump h.settled
      intro name
      rw [show i.next? = some .identifier from name] at first
      cases first
    have proper := (forms_bump i.settled h.settled).traced.proper
    have gap := nameless_settle _ proper
    have read : names (settle i ++ bump (settle i).rest ++
        settle (bump (settle i).rest).rest).elements = [] := by
      rw [names_append_of_nil (names_settle_append h taken)]
      exact gap
    split
    · rw [names_append_of_nil read]
      exact nameless_reject _ _ proper.settled
    · exact read
  · exact nameless_settle i h

/-- Behind a type, which is a node, one name follows at most. -/
theorem namedOnce_typedName : NamedOnce typedName := by
  intro i h
  unfold typedName
  dsimp only
  split
  · rename_i next
    have type := formsAt_typeRef i.settled h.settled rfl next
    have others : NamedOnce (inOrder [expect .identifier,
        optional .equals (node .defaultValue (inOrder [bump, literal]))]) := by
      apply namedOnce_inOrder [] (by simp) (forms_expect _) (namedOnce_expect _)
      simp [forms_optional formsAt_defaultValue, nameless_optional (nameless_node _ _)]
    have rest := others _ type.traced.proper
    have typeNames : names (typeRef (settle i).rest).elements = [] := Element.names_node _ _
    rw [names_append_of_nil (nameless_settle i h), inOrder, names_append_of_nil typeNames]
    exact rest
  · rw [names_settle_append h (nameless_complain _ _ h.settled)]
    exact Nat.zero_le 1

/-- Between the braces of a type, names stand inside the methods only. -/
theorem nameless_typeBody : Nameless typeBody := by
  have member (i : Input) (h : i.Proper) : names (memberTurn i).reading.elements = [] := by
    unfold memberTurn
    dsimp only
    split
    · rename_i next
      apply names_settle_append h (names_bump h.settled _)
      rw [show i.settled.next? = i.next? from rfl, next]
      decide
    · exact names_settle_append h (Element.names_node _ _)
    · exact names_settle_append h (Element.names_node _ _)
    · exact names_settle_append h (nameless_complain _ _ h.settled)
    · exact names_settle_append h (nameless_complain _ _ h.settled)
    · exact names_settle_append h (nameless_reject _ _ h.settled)
  intro i h
  have opened := nameless_expect (k := .leftBrace) (by decide) i h
  have proper := (forms_expect .leftBrace i h).traced.proper
  unfold typeBody
  dsimp only
  split
  · rw [names_append_of_nil opened]
    exact nameless_loop (fun i => memberTurn_formed) member _ proper
  · exact opened

/-- A node that is a declaration, an attribute or a parameter has one name at most. An attribute has
to be in front of its bracket for that. -/
theorem names_of_makes {q : Rule} (makes : Makes q) (h : i.Proper) {kind : NodeKind}
    {children : List Element} (built : (q i).elements = [.node kind children])
    (named : kind ∈ [.typeDecl, .methodDecl, .attributeItem, .param])
    (opening : ∀ k, kind.opening? = some k → ∃ t es, children = .token t :: es ∧ t.kind = k) :
    (names children).length ≤ 1 := by
  cases makes with
  | typeDecl =>
    cases built
    refine namedOnce_inOrder [attributes, expect .kwType] ?_ (forms_expect _)
      (namedOnce_expect _) ?_ i h
    · simp [forms_attributes, nameless_attributes, forms_expect, nameless_expect]
    · simp [forms_optional formsAt_genericList, nameless_optional nameless_genericList,
        forms_typeBody, nameless_typeBody]
  | methodDecl =>
    cases built
    refine namedOnce_inOrder [attributes, expect .kwFn] ?_ (forms_expect _)
      (namedOnce_expect _) ?_ i h
    · simp [forms_attributes, nameless_attributes, forms_expect, nameless_expect]
    · simp [forms_optional formsAt_genericList, nameless_optional nameless_genericList,
        forms_paramList, nameless_paramList, forms_expect, nameless_expect]
  | attributeItem =>
    cases built
    obtain ⟨t, es, first, bracket⟩ := opening _ rfl
    have significant : t.isTrivia = false := by
      rw [Token.isTrivia, bracket]
      rfl
    have taken := names_bump_of_first h first significant (by simp [bracket])
    have others : NamedOnce (inOrder [expect .identifier, optional .leftParen attributeArgs,
        expect .rightBracket]) := by
      apply namedOnce_inOrder [] (by simp) (forms_expect _) (namedOnce_expect _)
      simp [forms_optional formsAt_attributeArgs, nameless_optional nameless_attributeArgs,
        forms_expect, nameless_expect]
    have rest := others _ (forms_bump i h).traced.proper
    rw [inOrder, names_append_of_nil taken]
    exact rest
  | param =>
    cases built
    refine namedOnce_inOrder [attributes, modifier] ?_ forms_typedName
      namedOnce_typedName (by simp) i h
    simp [forms_attributes, nameless_attributes, forms_modifier, nameless_modifier]
  | error | literal | typeRef | attributeArgs | paramList | genericList | defaultValue =>
    cases built
    simp at named

/-! ### The parts of a parameter -/

/-- Where a node may be left out, there is one of its kind or none. -/
theorem heads_optional_node (k : TokenKind) (kind : NodeKind) (p : Rule) (i : Input) :
    heads (Rule.optional k (node kind p) i).elements ∈ [[], [kind]] := by
  unfold Rule.optional
  dsimp only
  split
  · simp [heads_settle, node]
  · simp [heads_settle]

/-- A type, or a type and a default value, or none of both. -/
theorem heads_typedName (i : Input) :
    heads (typedName i).elements ∈ [[], [.typeRef], [.typeRef, .defaultValue]] := by
  unfold typedName
  dsimp only
  split
  · have type (j : Input) : heads (typeRef j).elements = [.typeRef] := rfl
    simp only [inOrder, Reading.append_elements, Element.heads_append, heads_settle, heads_expect,
      type, List.nil_append, List.append_nil]
    have value := heads_optional_node .equals .defaultValue (inOrder [bump, literal])
      (expect .identifier (typeRef (settle i).rest).rest).rest
    simp only [inOrder, List.mem_cons, List.not_mem_nil, or_false] at value
    rcases value with none | one
    · simp [none]
    · simp [one]
  · simp [heads_settle, heads_complain]

/-- A parameter is made of attributes and rejected tokens, then of a type, and of a default value
behind it; both may be missing. -/
theorem heads_of_param {q : Rule} (makes : Makes q) {children : List Element}
    (built : (q i).elements = [.node .param children]) :
    ∃ front back, heads children = front ++ back ∧
      (∀ k ∈ front, k ∈ [NodeKind.attributeItem, .error]) ∧
      back ∈ [[], [.typeRef], [.typeRef, NodeKind.defaultValue]] := by
  cases makes with
  | param =>
    cases built
    refine ⟨heads (attributes i).elements ++ heads (modifier (attributes i).rest).elements, _, ?_, ?_,
      heads_typedName (modifier (attributes i).rest).rest⟩
    · simp [inOrder]
    · intro k hk
      rcases List.mem_append.mp hk with inAttributes | inModifier
      · exact only_attributes.mono (by decide) _ k inAttributes
      · exact only_modifier.mono (by decide) _ k inModifier
  | _ => cases built

end Grammar

/-! ### Trees that were read from texts -/

variable {text : List Char} {m : Node}

/-- A token that carries meaning is placed behind those before it. -/
theorem getElem?_placedLexemes {before after : List Token} {t : Token}
    (split : lex text = before ++ [t] ++ after) (significant : t.isTrivia = false) :
    (placedLexemes text)[lexemeCount before]? =
      some ⟨t, Text.byteLength (before.flatMap Token.chars)⟩ := by
  rw [placedLexemes, split, List.append_assoc, placeTokens_append,
    List.getElem?_append_right (by rw [length_placeTokens]), length_placeTokens, Nat.sub_self,
    Nat.zero_add]
  simp [placeTokens, significant]

/-- The node of an error is a token about which there is an error. -/
theorem error_of_holds (h : (parse text).root.Holds m) (error : m.kind = .error) :
    ∃ t, m.children = [.token t] ∧ t.isTrivia = false ∧
      ∃ e ∈ (parse text).errors, e.range = m.range := by
  obtain ⟨before, after, split, place, begun⟩ := begun_of_holds h (by simp [error])
  obtain ⟨t, alone, significant, r, hr, here⟩ := begun.error error
  refine ⟨t, alone, significant, r.locateIn text, ?_, ?_⟩
  · rw [errors_eq_remarks]
    exact List.mem_map_of_mem hr
  · rw [alone, Element.tokensOf_singleton, Element.tokens] at split
    have placed := getElem?_placedLexemes split significant
    rw [(range_locateIn placed r).mpr here, Node.range, place, alone]
    simp [PlacedToken.range, Element.byteLengthOf, Element.byteLength]

/-- Every parameter in the tree of a text is made like that. -/
theorem heads_of_holds_param (h : (parse text).root.Holds m) (param : m.kind = .param) :
    ∃ front back, Element.heads m.children = front ++ back ∧
      (∀ k ∈ front, k ∈ [NodeKind.attributeItem, .error]) ∧
      back ∈ [[], [.typeRef], [.typeRef, NodeKind.defaultValue]] := by
  obtain ⟨-, -, -, -, q, j, makes, -, built, -⟩ := made_of_holds h (by simp [param])
  rw [param] at built
  exact Grammar.heads_of_param makes built

/-- A parameter has one type and one default value at most. -/
theorem count_heads_of_param (h : (parse text).root.Holds m) (param : m.kind = .param)
    {kind : NodeKind} (part : kind ∈ [NodeKind.typeRef, .defaultValue]) :
    (m.childrenOf kind).length ≤ 1 := by
  obtain ⟨front, back, heads, early, late⟩ := heads_of_holds_param h param
  have none : front.count kind = 0 := by
    rw [List.count_eq_zero]
    intro inFront
    have other := early kind inFront
    simp only [List.mem_cons, List.not_mem_nil, or_false] at part other
    rcases part with rfl | rfl <;> simp at other
  rw [m.length_childrenOf, heads, List.count_append, none, Nat.zero_add]
  simp only [List.mem_cons, List.not_mem_nil, or_false] at part late
  rcases part with rfl | rfl <;> rcases late with rfl | rfl | rfl <;> decide

/-- A default value stands behind a type. -/
theorem exists_typeRef_of_defaultValue (h : (parse text).root.Holds m) (param : m.kind = .param)
    {d : Node} (hd : d ∈ m.childrenOf .defaultValue) :
    ∃ t ∈ m.childrenOf .typeRef, t.range.stop ≤ d.start := by
  obtain ⟨front, back, heads, early, late⟩ := heads_of_holds_param h param
  obtain ⟨child, kind⟩ := List.mem_filter.mp hd
  have isValue : d.kind = .defaultValue := of_decide_eq_true kind
  rw [← Node.map_kind_nodesFrom m.start] at heads
  obtain ⟨firsts, lasts, split, rfl, rfl⟩ := List.map_eq_append_iff.mp heads
  have nodes : m.childNodes = firsts ++ lasts := split
  have behind : d ∈ lasts := by
    rw [nodes] at child
    refine (List.mem_append.mp child).resolve_left fun inFront => ?_
    have other := early d.kind (List.mem_map_of_mem inFront)
    simp [isValue] at other
  have inLast : d.kind ∈ lasts.map Node.kind := List.mem_map_of_mem behind
  simp only [List.mem_cons, List.not_mem_nil, or_false] at late
  rcases late with none | type | both
  · simp [none] at inLast
  · simp [type, isValue] at inLast
  · obtain ⟨t, others, rfl, typeKind, rest⟩ := List.map_eq_cons_iff.mp both
    obtain ⟨v, rfl, valueKind⟩ := List.map_eq_singleton_iff.mp rest
    have same : d = v := by
      simp only [List.mem_cons, List.not_mem_nil, or_false] at behind
      rcases behind with rfl | rfl
      · rw [isValue] at typeKind
        cases typeKind
      · rfl
    have apart := m.nested.apart
    rw [nodes, List.pairwise_append] at apart
    refine ⟨t, ?_, ?_⟩
    · apply List.mem_filter.mpr
      simp [nodes, typeKind]
    · rw [same]
      exact List.rel_of_pairwise_cons apart.2.1 (List.mem_singleton_self v)

/-- However malformed a text is, every node of its tree is shaped as its kind demands. -/
theorem nodes_are_shaped (text : List Char) (m : Node) (h : (parse text).root.Holds m) :
    m.Shaped (parse text).errors where
  error := error_of_holds h
  literal kind := by
    obtain ⟨_, _, -, -, begun⟩ := begun_of_holds h (by simp [kind])
    exact begun.literal kind
  list kind := by
    obtain ⟨-, -, -, -, q, j, makes, -, built, -⟩ := made_of_holds h (by simp [kind])
    rw [kind] at built
    cases Grammar.kind_of_methodDecl makes built
    obtain ⟨ks, heads, front⟩ := Grammar.heads_methodDecl built
    have none : ks.count .paramList = 0 := by
      rw [List.count_eq_zero]
      intro inFront
      simpa using front _ inFront
    rw [m.length_childrenOf, heads, List.count_append, none]
    rfl
  param c hc kind := by
    have part := (root_orderly text).parts m h c hc
    rw [kind] at part
    cases outer : m.kind <;> simp [outer, NodeKind.parts] at part ⊢
  opening k opening := by
    have inner : m.kind ≠ .root := by
      intro root
      simp [root, NodeKind.opening?] at opening
    obtain ⟨_, _, -, -, begun⟩ := begun_of_holds h inner
    exact begun.opening k opening
  name named := by
    have inner : m.kind ≠ .root := by
      intro root
      simp [root] at named
    obtain ⟨_, _, -, -, begun⟩ := begun_of_holds h inner
    obtain ⟨-, -, -, -, q, j, makes, proper, built, -⟩ := made_of_holds h inner
    rw [m.length_names]
    exact Grammar.names_of_makes makes proper built named begun.opening
  typeRef param := count_heads_of_param h param (by decide)
  defaultValue param := count_heads_of_param h param (by decide)
  behind param d hd := exists_typeRef_of_defaultValue h param hd

/-- In a list that is not closed, a second modifier is the node of an error. -/
theorem second_modifier_is_shaped :
    ∃ m, (parse "type T \x7b fn M(ref out int x = 1".toList).root.Holds m ∧ m.kind = .error ∧
      m.range = ⟨18, 21⟩ ∧ m.Shaped (parse "type T \x7b fn M(ref out int x = 1".toList).errors := by
  obtain ⟨m, mem, range⟩ :
      ∃ m ∈ (parse "type T \x7b fn M(ref out int x = 1".toList).root.within .error,
        m.range = ⟨18, 21⟩ := by
    decide +kernel
  obtain ⟨inside, kind⟩ := List.mem_filter.mp mem
  have held := Node.holds_of_mem_inside inside
  have error := of_decide_eq_true kind
  exact ⟨m, held, error, range, nodes_are_shaped _ m held⟩

end DeclFront
