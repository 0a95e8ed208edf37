import DeclFront.Proofs.Syntax.Arguments

/-!
# How nodes begin

A rule that reads a part with a token of its own at the front looks for that token before it is used,
and whoever looks places the trivia that stands before it. So an attribute, a generic list, a written
type or a default value begins with its token in every text, however malformed. A node of an error is
one token for the same reason: whoever rejects a lexeme has just seen it, and complains about it first.
-/

set_option autoImplicit false

namespace DeclFront

/-- The kind of the token with which all nodes of a kind begin, for those that have one. -/
def NodeKind.opening? : NodeKind → Option TokenKind
  | .typeRef => some .identifier
  | .attributeItem => some .leftBracket
  | .attributeArgs => some .leftParen
  | .genericList => some .leftAngle
  | .defaultValue => some .equals
  | .root | .typeDecl | .methodDecl | .paramList | .param | .literal | .error => none

namespace Rule

open Element (Occurs tokensOf)

/-- The node begins with the token of its kind. A literal is one token, and so is an error, about which
there is a remark at the lexeme of the given number. -/
structure Begun (remarks : List Remark) (index : Nat) (kind : NodeKind) (children : List Element) :
    Prop where
  opening : ∀ k, kind.opening? = some k → ∃ t es, children = .token t :: es ∧ t.kind = k
  literal : kind = .literal → ∃ t, children = [.token t] ∧ t.kind.isLiteral = true
  error : kind = .error →
    ∃ t, children = [.token t] ∧ t.isTrivia = false ∧ ∃ r ∈ remarks, r.index = index

/-- Every node in a reading has begun in its way. -/
structure Formed (i : Input) (a : Reading) : Prop where
  traced : Traced i a
  begun : ∀ kind children before, Occurs kind children a.elements before →
    Begun a.remarks (i.index + lexemeCount before) kind children

/-- Whatever stands in front, the rule forms its nodes. -/
def Forms (p : Rule) : Prop :=
  ∀ i, i.Proper → Formed i (p i)

/-- The rule forms its nodes in front of a lexeme of the kind, if the gap has been placed. -/
def FormsAt (k : TokenKind) (p : Rule) : Prop :=
  ∀ i, i.Proper → i.gap = [] → i.next? = some k → Formed i (p i)

variable {i : Input} {a b : Reading} {kind : NodeKind} {children : List Element} {index : Nat}
  {remarks more : List Remark} {k : TokenKind} {p : Rule} {ps : List Rule}

/-- How a node begins does not depend on later remarks. -/
theorem Begun.mono (h : Begun remarks index kind children) (le : ∀ r ∈ remarks, r ∈ more) :
    Begun more index kind children := by
  refine ⟨h.opening, h.literal, fun error => ?_⟩
  obtain ⟨t, alone, significant, r, hr, here⟩ := h.error error
  exact ⟨t, alone, significant, r, le r hr, here⟩

/-- Of most kinds of node nothing is demanded. -/
theorem begun_of_free (free : kind.opening? = none) (literal : kind ≠ .literal)
    (error : kind ≠ .error) : Begun remarks index kind children := by
  constructor
  · simp [free]
  · simp [literal]
  · simp [error]

/-- Two readings whose nodes have begun in their ways make one. -/
theorem Formed.append (ha : Formed i a) (hb : Formed a.rest b) : Formed i (a ++ b) := by
  refine ⟨ha.traced.append hb.traced, fun kind children before occurs => ?_⟩
  rcases occurs.of_append with inFirst | ⟨rest, rfl, inSecond⟩
  · have begun := ha.begun _ _ _ inFirst
    exact begun.mono fun r hr => List.mem_append_left _ hr
  · have begun := hb.begun _ _ _ inSecond
    rw [ha.traced.index, Nat.add_assoc, ← lexemeCount_append] at begun
    exact begun.mono fun r hr => List.mem_append_right _ hr

/-- Where only tokens are read, there are no nodes. -/
theorem formed_of_tokens (traced : Traced i a) (ts : List Token) (h : a.elements = ts.map .token) :
    Formed i a := by
  refine ⟨traced, fun kind children before occurs => ?_⟩
  rw [h] at occurs
  exact absurd occurs Occurs.not_in_tokens

/-- Placing a gap makes no nodes. -/
theorem settle_formed (h : i.Proper) : Formed i (settle i) :=
  formed_of_tokens (settle_traced h) i.gap rfl

/-- Taking a lexeme makes none. -/
theorem forms_bump : Forms bump := by
  intro i h
  cases lexemes : i.lexemes with
  | nil =>
    apply formed_of_tokens (bump_traced h) i.gap
    rw [bump, lexemes]
    rfl
  | cons l ls =>
    apply formed_of_tokens (bump_traced h) (i.gap ++ [l.token])
    rw [bump_elements lexemes, List.map_append]
    rfl

/-- Complaining makes none. -/
theorem forms_complain (c : Complaint) : Forms (complain c) := fun i h =>
  formed_of_tokens (complain_traced c h) i.gap (List.append_nil _)

/-- Expecting a lexeme makes none. -/
theorem forms_expect (kind : TokenKind) : Forms (expect kind) := by
  intro i h
  unfold expect
  split
  · exact forms_bump i h
  · exact forms_complain _ i h

/-- A node has begun in its way if it begins as its kind does. -/
theorem node_formed (makes : Grammar.Makes (node kind p)) (h : i.Proper) (hp : Formed i (p i))
    (begun : Begun (p i).remarks i.index kind (p i).elements) : Formed i (node kind p i) := by
  refine ⟨node_traced makes h hp.traced, fun k children before occurs => ?_⟩
  cases occurs with
  | here => exact begun
  | inside occurs => exact hp.begun _ _ _ occurs
  | behind occurs => cases occurs

/-- A lexeme that is there is rejected as one token, with a remark at its number. -/
theorem reject_formed (c : Complaint) (h : i.Proper) (next : i.next? = some k) :
    Formed i (reject c i) := by
  obtain ⟨l, ls, lexemes, -⟩ := exists_lexeme next
  have significant := h.tokens l (by simp [lexemes])
  have taken : (bump i.settled).elements = [.token l.token] := bump_elements (i := i.settled) lexemes
  have complained := forms_complain c i h
  have said : ⟨i.index, c⟩ ∈ (reject c i).remarks :=
    List.mem_append_left _ (List.mem_singleton_self _)
  have error : Begun (reject c i).remarks i.index .error [.token l.token] := by
    refine ⟨by simp [NodeKind.opening?], by simp, fun _ => ?_⟩
    exact ⟨l.token, rfl, significant, _, said, rfl⟩
  refine ⟨traced_chains.kept.reject c i h, fun kind children before occurs => ?_⟩
  rcases occurs.of_append with inGap | ⟨rest, rfl, inNode⟩
  · have begun := complained.begun _ _ _ inGap
    exact begun.mono fun r hr => List.mem_append_left _ hr
  · have none : lexemeCount (tokensOf (complain c i).elements) = 0 := by
      have index := complained.traced.index
      have same : (complain c i).rest.index = i.index := rfl
      omega
    rw [lexemeCount_append, none]
    have alone : (node .error bump (complain c i).rest).elements = [.node .error [.token l.token]] :=
      congrArg (fun es => [Element.node .error es]) taken
    rw [alone] at inNode
    cases inNode with
    | here => exact error
    | inside inToken =>
      exact absurd (show Occurs kind children ([l.token].map .token) rest from inToken)
        Occurs.not_in_tokens
    | behind none => cases none

/-! ### Rules put together -/

/-- A rule that forms its nodes anywhere does so where a lexeme of a kind comes next. -/
theorem Forms.at (h : Forms p) : FormsAt k p := fun i proper _ _ => h i proper

/-- Rules one after another form their nodes if each does. -/
theorem forms_inOrder (h : ∀ p ∈ ps, Forms p) : Forms (inOrder ps) := by
  induction ps with
  | nil => exact fun i proper => formed_of_tokens (traced_nothing proper) [] rfl
  | cons p ps ih =>
    intro i proper
    have first := h p List.mem_cons_self i proper
    have others := ih fun q hq => h q (List.mem_cons_of_mem p hq)
    exact first.append (others _ first.traced.proper)

/-- A gap that is placed first makes no difference to the nodes. -/
theorem settle_append_formed (h : i.Proper) (hp : Formed i.settled (p i.settled)) :
    Formed i (settle i ++ p (settle i).rest) :=
  (settle_formed h).append hp

/-- A rule that is used where a lexeme of a kind comes next need form its nodes only there. -/
theorem forms_optional (h : FormsAt k p) : Forms (optional k p) := by
  intro i proper
  unfold optional
  dsimp only
  split
  · rename_i next
    exact settle_append_formed proper (h i.settled proper.settled rfl next)
  · exact settle_formed proper

/-- A loop forms its nodes if each of its turns does, by induction on what is left to read. -/
theorem forms_loop {turn : Input → Turn} {advances : Advances turn}
    (h : ∀ i, i.Proper → Formed i (turn i).reading) : Forms (loop turn advances) := by
  apply loop_induction (motive := fun i r => i.Proper → Formed i r)
  · intro i a turned proper
    have step := h i proper
    rw [turned] at step
    exact step
  · intro i a b turned others proper
    have step := h i proper
    rw [turned] at step
    exact step.append (others step.traced.proper)

/-- A node of a kind without an opening token may begin as it likes. -/
theorem forms_node (makes : Grammar.Makes (node kind p)) (free : kind.opening? = none)
    (literal : kind ≠ .literal) (error : kind ≠ .error) (h : Forms p) : Forms (node kind p) :=
  fun i proper => node_formed makes proper (h i proper) (begun_of_free free literal error)

/-- A node that takes the lexeme in front of it first begins with that. -/
theorem formsAt_node (makes : Grammar.Makes (node kind (inOrder (bump :: ps))))
    (opening : kind.opening? = some k) (others : ∀ p ∈ ps, Forms p) :
    FormsAt k (node kind (inOrder (bump :: ps))) := by
  intro i proper settled next
  obtain ⟨l, ls, lexemes, isKind⟩ := exists_lexeme next
  have inner : Forms (inOrder (bump :: ps)) :=
    forms_inOrder (List.forall_mem_cons.mpr ⟨forms_bump, others⟩)
  apply node_formed makes proper (inner i proper)
  refine ⟨fun j same => ?_, ?_, ?_⟩
  · obtain rfl : k = j := Option.some.inj (opening.symm.trans same)
    refine ⟨l.token, (inOrder ps (bump i).rest).elements, ?_, isKind⟩
    simp [inOrder, bump_elements lexemes, settled]
  · rintro rfl
    cases opening
  · rintro rfl
    cases opening

end Rule

namespace Grammar

open Rule

variable {i : Input} {k : TokenKind}

/-- A literal is one token, of a kind that stands for a value. -/
theorem literal_formed (h : i.Proper) (next : i.next? = some k) (isLiteral : k.isLiteral = true) :
    Formed i (settle i ++ node .literal bump (settle i).rest) := by
  obtain ⟨l, ls, lexemes, isKind⟩ := exists_lexeme next
  have taken : (bump i.settled).elements = [.token l.token] := bump_elements (i := i.settled) lexemes
  apply settle_append_formed h
  apply node_formed .literal h.settled (forms_bump i.settled h.settled)
  refine ⟨by simp [NodeKind.opening?], fun _ => ?_, by simp⟩
  exact ⟨l.token, taken, by rw [isKind, isLiteral]⟩

/-- A literal, or what stands in its place, is formed. -/
theorem forms_literal : Forms literal := by
  intro i h
  unfold literal
  split
  · rename_i next
    exact reject_formed _ h next
  · rename_i next
    split
    · rename_i isLiteral
      exact literal_formed h next isLiteral
    · exact forms_complain _ i h
  · exact forms_complain _ i h

/-- A written type begins with its name. -/
theorem formsAt_typeRef : FormsAt .identifier typeRef := by
  apply formsAt_node .typeRef rfl
  have brackets : Forms (inOrder [bump, expect .rightBracket]) := by
    apply forms_inOrder
    simp [forms_bump, forms_expect]
  simp [forms_optional brackets.at, forms_optional forms_bump.at]

/-- An argument is formed, and so is an error in its place. -/
theorem argumentTurn_formed (h : i.Proper) : Formed i (argumentTurn i).reading := by
  have literal := forms_literal i h
  unfold argumentTurn
  split
  · exact settle_formed h
  · exact settle_formed h
  · exact settle_formed h
  · dsimp only
    split
    · exact literal.append (forms_bump _ literal.traced.proper)
    · exact literal.append (settle_formed literal.traced.proper)

/-- An argument list begins with a parenthesis. -/
theorem formsAt_attributeArgs : FormsAt .leftParen attributeArgs := by
  apply formsAt_node .attributeArgs rfl
  have arguments : Forms (loop argumentTurn argumentTurn_advances) :=
    forms_loop fun i => argumentTurn_formed
  simp [arguments, forms_expect]

/-- An attribute begins with a bracket. -/
theorem formsAt_attributeItem : FormsAt .leftBracket attributeItem := by
  apply formsAt_node .attributeItem rfl
  simp [forms_expect, forms_optional formsAt_attributeArgs]

/-- One more attribute is formed, if there is one. -/
theorem attributeTurn_formed (h : i.Proper) : Formed i (attributeTurn i).reading := by
  unfold attributeTurn
  dsimp only
  split
  · rename_i next
    exact settle_append_formed h (formsAt_attributeItem i.settled h.settled rfl next)
  · exact settle_formed h

/-- Attributes are formed. -/
theorem forms_attributes : Forms attributes :=
  forms_loop fun _ => attributeTurn_formed

/-- A second modifier is taken as an error, which is one token. -/
theorem forms_modifier : Forms modifier := by
  intro i h
  have first : Formed i (settle i ++ bump (settle i).rest) :=
    settle_append_formed h (forms_bump i.settled h.settled)
  have settled := first.append (settle_formed first.traced.proper)
  unfold modifier
  dsimp only
  split
  · split
    · rename_i second
      cases next : (bump (settle i).rest).rest.next? with
      | none => simp [next] at second
      | some k => exact settled.append (reject_formed _ settled.traced.proper next)
    · exact settled
  · exact settle_formed h

/-- A default value begins with an equals sign. -/
theorem formsAt_defaultValue :
    FormsAt .equals (node .defaultValue (inOrder [bump, literal])) := by
  apply formsAt_node .defaultValue rfl
  simp [forms_literal]

/-- Type, name and default value of a parameter are formed. -/
theorem forms_typedName : Forms typedName := by
  intro i h
  unfold typedName
  dsimp only
  split
  · rename_i next
    have type := formsAt_typeRef i.settled h.settled rfl next
    have others : Forms (inOrder [expect .identifier,
        optional .equals (node .defaultValue (inOrder [bump, literal]))]) := by
      apply forms_inOrder
      simp [forms_expect, forms_optional formsAt_defaultValue]
    exact (settle_formed h).append (type.append (others _ type.traced.proper))
  · exact settle_append_formed h (forms_complain _ i.settled h.settled)

/-- A parameter is formed, in whatever way it begins. -/
theorem forms_param : Forms param := by
  apply forms_node .param rfl (by decide) (by decide)
  apply forms_inOrder
  simp [forms_attributes, forms_modifier, forms_typedName]

/-- A parameter with its comma is formed, and so is an error in its place. -/
theorem paramTurn_formed (h : i.Proper) : Formed i (paramTurn i).reading := by
  unfold paramTurn
  split
  · exact settle_formed h
  · exact settle_formed h
  · rename_i next
    have read := settle_append_formed h (forms_param i.settled h.settled)
    have settled := read.append (settle_formed read.traced.proper)
    have proper := settled.traced.proper
    dsimp only
    split
    · exact settled.append (forms_bump _ proper)
    split
    · rename_i same
      -- nothing was read, so the lexeme in front of the parameter is still there
      obtain ⟨l, ls, lexemes, -⟩ := exists_lexeme next
      obtain ⟨m, ms, left⟩ : ∃ m ms, (param (settle i).rest).rest.lexemes = m :: ms := by
        apply List.exists_cons_of_length_pos
        simp [same, lexemes]
      have there : (param (settle i).rest).rest.settled.next? = some m.token.kind := by
        simp [Input.next?, Input.settled, left]
      exact settled.append (reject_formed _ proper there)
    split
    · exact settled
    · exact settled

/-- A parameter list is formed. -/
theorem forms_paramList : Forms paramList := by
  apply forms_node .paramList rfl (by decide) (by decide)
  intro i h
  have opened := forms_expect .leftParen i h
  have others : Forms (inOrder [loop paramTurn paramTurn_advances, expect .rightParen]) := by
    apply forms_inOrder
    have params : Forms (loop paramTurn paramTurn_advances) := forms_loop fun i => paramTurn_formed
    simp [params, forms_expect]
  dsimp only
  split
  · exact opened.append (others _ opened.traced.proper)
  · exact opened

/-- One more name of a generic list makes no node, and an error is formed. -/
theorem genericTurn_formed (h : i.Proper) : Formed i (genericTurn i).reading := by
  have name := forms_expect .identifier i h
  have settled := name.append (settle_formed name.traced.proper)
  unfold genericTurn
  dsimp only
  split
  · exact settled.append (forms_bump _ settled.traced.proper)
  · exact settled

/-- A generic list begins with an angle bracket. -/
theorem formsAt_genericList : FormsAt .leftAngle genericList := by
  apply formsAt_node .genericList rfl
  have names : Forms (loop genericTurn genericTurn_advances) := forms_loop fun i => genericTurn_formed
  simp [names, forms_expect]

/-- A method is formed. -/
theorem forms_methodDecl : Forms methodDecl := by
  apply forms_node .methodDecl rfl (by decide) (by decide)
  apply forms_inOrder
  simp [forms_attributes, forms_expect, forms_optional formsAt_genericList, forms_paramList]

/-- A member of a type is formed, or an error in its place. -/
theorem memberTurn_formed (h : i.Proper) : Formed i (memberTurn i).reading := by
  have behind {p : Rule} (hp : Forms p) : Formed i (settle i ++ p (settle i).rest) :=
    settle_append_formed h (hp i.settled h.settled)
  unfold memberTurn
  dsimp only
  split
  · exact behind forms_bump
  · exact behind forms_methodDecl
  · exact behind forms_methodDecl
  · exact behind (forms_complain _)
  · exact behind (forms_complain _)
  · rename_i next
    exact settle_append_formed h (reject_formed _ h.settled next)

/-- The body of a type is formed. -/
theorem forms_typeBody : Forms typeBody := by
  intro i h
  have opened := forms_expect .leftBrace i h
  have members : Forms (loop memberTurn memberTurn_advances) := forms_loop fun i => memberTurn_formed
  unfold typeBody
  dsimp only
  split
  · exact opened.append (members _ opened.traced.proper)
  · exact opened

/-- A type is formed. -/
theorem forms_typeDecl : Forms typeDecl := by
  apply forms_node .typeDecl rfl (by decide) (by decide)
  apply forms_inOrder
  simp [forms_attributes, forms_expect, forms_optional formsAt_genericList, forms_typeBody]

/-- A type of a file is formed, or an error in its place. -/
theorem fileTurn_formed (h : i.Proper) : Formed i (fileTurn i).reading := by
  unfold fileTurn
  dsimp only
  split
  · exact settle_formed h
  · exact settle_append_formed h (forms_typeDecl i.settled h.settled)
  · exact settle_append_formed h (forms_typeDecl i.settled h.settled)
  · rename_i next
    exact settle_append_formed h (reject_formed _ h.settled next)

/-- Every node in a file has begun in its way. -/
theorem forms_fileLoop : Forms (loop fileTurn fileTurn_advances) :=
  forms_loop fun _ => fileTurn_formed

end Grammar

/-! ### Trees that were read from texts -/

/-- Every node of a tree but its root has begun in its way, and the lexeme at which it has begun stands
at the start of the node. -/
theorem begun_of_holds {text : List Char} {m : Node} (h : (parse text).root.Holds m)
    (inner : m.kind ≠ .root) :
    ∃ before after, lex text = before ++ Element.tokensOf m.children ++ after ∧
      m.start = Text.byteLength (before.flatMap Token.chars) ∧
      Rule.Begun (remarksOf text) (lexemeCount before) m.kind m.children := by
  have formed := Grammar.forms_fileLoop _ (Input.ofTokens_proper (lex text))
  rcases h.occurs with rfl | ⟨before, occurs, place⟩
  · exact absurd rfl inner
  · obtain ⟨after, split⟩ := occurs.split
    have all : Element.tokensOf (parse text).root.children = lex text := parse_tokens text
    have begun := formed.begun _ _ _ occurs
    have first : (Input.ofTokens (lex text)).index = 0 := rfl
    rw [all] at split
    rw [first, Nat.zero_add] at begun
    exact ⟨before, after, split, place.trans (Nat.zero_add _), begun⟩

end DeclFront
