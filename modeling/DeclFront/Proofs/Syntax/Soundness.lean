import DeclFront.Proofs.Syntax.Formatting
import DeclFront.Proofs.Syntax.Reads

/-!
# Files without errors

What a rule of the grammar reads without complaint is derived by the form of that rule. One thing is
read that the documented grammar does not derive: behind the last of some parameters, and behind the
last argument of an attribute, a comma may stand. So a file without errors is a file of the
documented grammar exactly if no comma stands directly before a closing parenthesis.
-/

set_option autoImplicit false

namespace DeclFront

namespace Grammar

open Rule

variable {trailing : Bool}

/-- What is read as a literal without complaint is a literal. -/
theorem literal_reads : Reads trailing anything literal Form.literal := by
  intro i hi _
  refine ⟨literal_kept (plain_chains trailing).kept i hi, fun quiet => ?_⟩
  unfold literal at quiet ⊢
  split at quiet
  · exact absurd quiet reject_remarks_ne_nil
  · rename_i kind unknown next
    split at quiet
    · rename_i isLiteral
      have known : kind ∈ [TokenKind.integer, .float, .string, .kwTrue, .kwFalse, .kwNull,
          .identifier] := by
        revert isLiteral
        cases kind <;> decide
      have one := (node_reads (n := .literal) bump_reads) (settle i).rest (settle_plain hi)
        ⟨kind, known, next⟩
      rw [if_pos isLiteral, Reading.append_elements, settle_elements hi]
      exact one.2 (quiet_append quiet).2
    · exact absurd quiet complain_remarks_ne_nil
  · exact absurd quiet complain_remarks_ne_nil

/-- A type is a name, with an array suffix and a question mark if they stand there. -/
theorem typeRef_reads : Reads trailing (· = some .identifier) typeRef Form.typeRef :=
  node_reads (inOrder_cons_reads bump_one_reads
    (inOrder_cons_reads
      (optional_reads (inOrder_cons_reads bump_one_reads
        (inOrder_cons_reads expect_reads inOrder_nil_reads)))
      (inOrder_cons_reads (optional_reads bump_one_reads) inOrder_nil_reads)))

/-! ### Attributes -/

/-- A turn of an argument list reads an argument with its comma, or the last argument. -/
theorem argumentTurn_reads : TurnReads trailing argumentTurn
    (.both Form.literal (.token [.comma])) (.optional Form.literal) where
  plain := argumentTurn_kept (plain_chains trailing).kept
  again i a hi step quiet := by
    unfold argumentTurn at step
    split at step
    · simp at step
    · simp at step
    · simp at step
    · dsimp only at step
      split at step
      · rename_i comma
        cases step
        obtain ⟨plain, one⟩ := literal_reads i hi trivial
        obtain ⟨-, separator⟩ := bump_one_reads (k := .comma) _ plain comma
        obtain ⟨quietOne, quietComma⟩ := quiet_append quiet
        exact .inl ((one quietOne).both (separator quietComma))
      · simp at step
  last i a hi step quiet := by
    have none := settle_elements hi
    unfold argumentTurn at step
    split at step
    · cases step
      rw [none]
      exact .absent
    · cases step
      rw [none]
      exact .absent
    · cases step
      rw [none]
      exact .absent
    · dsimp only at step
      split at step
      · simp at step
      · cases step
        obtain ⟨plain, one⟩ := literal_reads i hi trivial
        rw [Reading.append_elements, settle_elements plain, List.append_nil]
        exact .present (one (quiet_append quiet).1)

/-- Arguments stand between parentheses, with commas between them. -/
theorem attributeArgs_reads : Reads trailing (· = some .leftParen) attributeArgs
    (.node .attributeArgs (Form.parenthesized trailing Form.literal)) := by
  apply node_reads
  refine inOrder_cons_reads bump_one_reads (closed_list_reads ?_ (loop_reads argumentTurn_reads))
  exact lossless_chains.kept.loop _ _ (argumentTurn_kept lossless_chains.kept)

/-- Attributes are lists in brackets, as many as there are. -/
theorem attributes_reads : Reads trailing anything attributes (Form.attributes trailing) := by
  have item : Reads trailing _ _ _ := node_reads (n := .attributeItem) (inOrder_cons_reads
    (bump_one_reads (k := .leftBracket))
    (inOrder_cons_reads (expect_reads (k := .identifier))
      (inOrder_cons_reads (optional_reads attributeArgs_reads)
        (inOrder_cons_reads (expect_reads (k := .rightBracket)) inOrder_nil_reads))))
  refine loop_many_reads ⟨attributeTurn_kept (plain_chains trailing).kept, ?_, ?_⟩
  · intro i a hi step quiet
    unfold attributeTurn at step
    dsimp only at step
    split at step
    · rename_i bracket
      cases step
      obtain ⟨-, one⟩ := item (settle i).rest (settle_plain hi) bracket
      rw [Reading.append_elements, settle_elements hi]
      exact .inl (one (quiet_append quiet).2)
    · simp at step
  · intro i a hi step quiet
    unfold attributeTurn at step
    dsimp only at step
    split at step
    · simp at step
    · cases step
      rw [settle_elements hi]
      exact .nothing

/-! ### Parameters -/

/-- A modifier is one of four keywords, or left out. -/
theorem modifier_reads : Reads trailing anything modifier
    (.optional (.token [.kwRef, .kwOut, .kwIn, .kwParams])) := by
  intro i hi _
  refine ⟨modifier_kept (plain_chains trailing).kept i hi, fun quiet => ?_⟩
  have none := settle_elements hi
  unfold modifier at quiet ⊢
  dsimp only at quiet ⊢
  split
  · rename_i isModifier
    obtain ⟨k, next, known⟩ : ∃ k, i.next? = some k ∧
        k ∈ [TokenKind.kwRef, .kwOut, .kwIn, .kwParams] := by
      obtain ⟨k, next, hk⟩ := (Option.any_eq_true _ _).mp isModifier
      refine ⟨k, next, ?_⟩
      revert hk
      cases k <;> decide
    obtain ⟨plain, one⟩ := bump_reads (settle i).rest (settle_plain hi) ⟨k, known, next⟩
    rw [if_pos isModifier] at quiet
    split at quiet
    · exact absurd (quiet_append quiet).2 reject_remarks_ne_nil
    · rename_i single
      rw [if_neg single]
      simp only [Reading.append_elements, none, settle_elements plain, List.nil_append,
        List.append_nil]
      exact .present (one (quiet_append (quiet_append quiet).1).2)
  · rw [none]
    exact .absent

/-- A type is followed by a name, and then by a default value or by none. -/
theorem typedName_reads : Reads trailing anything typedName Form.typedName := by
  have named : Reads trailing _ _ _ := inOrder_cons_reads typeRef_reads (inOrder_cons_reads
    (expect_reads (k := .identifier)) (inOrder_cons_reads
      (optional_reads (node_reads (n := .defaultValue)
        (inOrder_cons_reads (bump_one_reads (k := .equals))
          (inOrder_cons_reads literal_reads inOrder_nil_reads)))) inOrder_nil_reads))
  intro i hi _
  refine ⟨typedName_kept (plain_chains trailing).kept i hi, fun quiet => ?_⟩
  unfold typedName at quiet ⊢
  dsimp only at quiet ⊢
  split
  · rename_i next
    rw [if_pos next] at quiet
    rw [Reading.append_elements, settle_elements hi]
    exact (named (settle i).rest (settle_plain hi) next).2 (quiet_append quiet).2
  · rename_i other
    rw [if_neg other] at quiet
    exact absurd (quiet_append quiet).2 complain_remarks_ne_nil

/-- A parameter is attributes, a modifier and a typed name. -/
theorem param_reads : Reads trailing anything param (Form.param trailing) :=
  node_reads (andThen_reads attributes_reads (andThen_reads modifier_reads
    (inOrder_last_reads typedName_reads)))

/-- A turn of a parameter list reads a parameter with its comma, or the last parameter. -/
theorem paramTurn_reads : TurnReads trailing paramTurn
    (.both (Form.param trailing) (.token [.comma])) (.optional (Form.param trailing)) where
  plain := paramTurn_kept (plain_chains trailing).kept
  again i a hi step quiet := by
    obtain ⟨plain, one⟩ := param_reads (settle i).rest (settle_plain hi) trivial
    have before := settle_elements hi
    have behind := settle_elements plain
    unfold paramTurn at step
    split at step
    · simp at step
    · simp at step
    · dsimp only at step
      split at step
      · rename_i comma
        cases step
        obtain ⟨-, separator⟩ := bump_one_reads (k := .comma) _ (settle_plain plain) comma
        obtain ⟨quietOne, quietComma⟩ := quiet_append quiet
        simp only [Reading.append_elements, before, behind, List.nil_append, List.append_nil]
        exact .inl ((one (quiet_append (quiet_append quietOne).1).2).both (separator quietComma))
      · split at step
        · cases step
          exact absurd (quiet_append quiet).2 reject_remarks_ne_nil
        · split at step
          · rename_i closing
            cases step
            simp only [Reading.append_elements, before, behind, List.nil_append, List.append_nil]
            refine .inr ⟨.present (one (quiet_append (quiet_append quiet).1).2), ?_⟩
            -- The closing parenthesis ends the list in the turn behind.
            refine ⟨settle (settle (param (settle i).rest).rest).rest, ?_,
              settle_elements (settle_plain plain)⟩
            have next : (settle (param (settle i).rest).rest).rest.next? = some .rightParen :=
              closing
            show paramTurn (settle (param (settle i).rest).rest).rest = _
            unfold paramTurn
            rw [next]
          · simp at step
  last i a hi step quiet := by
    have before := settle_elements hi
    unfold paramTurn at step
    split at step
    · cases step
      rw [before]
      exact .absent
    · cases step
      rw [before]
      exact .absent
    · dsimp only at step
      split at step
      · simp at step
      split at step
      · simp at step
      split at step
      · simp at step
      · cases step
        obtain ⟨plain, one⟩ := param_reads (settle i).rest (settle_plain hi) trivial
        simp only [Reading.append_elements, before, settle_elements plain, List.nil_append,
          List.append_nil]
        exact .present (one (quiet_append (quiet_append quiet).1).2)

/-- Parameters stand between parentheses, with commas between them. -/
theorem paramList_reads : Reads trailing anything paramList
    (.node .paramList (Form.parenthesized trailing (Form.param trailing))) := by
  have list : Reads trailing anything (inOrder [loop paramTurn paramTurn_advances, expect .rightParen])
      (Form.inOrder [.optional (.commaSeparated trailing (Form.param trailing)),
        .token [.rightParen]]) :=
    closed_list_reads (lossless_chains.kept.loop _ _ (paramTurn_kept lossless_chains.kept))
      (loop_reads paramTurn_reads)
  apply node_reads
  intro i hi _
  obtain ⟨plain, opening⟩ := expect_reads (k := .leftParen) i hi trivial
  obtain ⟨plainRest, others⟩ := list _ plain trivial
  dsimp only
  split
  · exact ⟨plainRest, fun quiet =>
      (opening (quiet_append quiet).1).both (others (quiet_append quiet).2)⟩
  · rename_i other
    exact ⟨plain, fun quiet => absurd (next?_of_expect_quiet quiet) other⟩

/-! ### Declarations -/

/-- A turn of a generic list reads a name with its comma, or the last name. -/
theorem genericTurn_reads : TurnReads trailing genericTurn
    (.both Form.name (.token [.comma])) Form.name where
  plain := genericTurn_kept (plain_chains trailing).kept
  again i a hi step quiet := by
    obtain ⟨plain, one⟩ := expect_reads (k := .identifier) i hi trivial
    unfold genericTurn at step
    dsimp only at step
    split at step
    · rename_i comma
      cases step
      obtain ⟨-, separator⟩ := bump_one_reads (k := .comma) _ (settle_plain plain) comma
      obtain ⟨quietOne, quietComma⟩ := quiet_append quiet
      simp only [Reading.append_elements, settle_elements plain, List.append_nil]
      exact .inl ((one (quiet_append quietOne).1).both (separator quietComma))
    · simp at step
  last i a hi step quiet := by
    obtain ⟨plain, one⟩ := expect_reads (k := .identifier) i hi trivial
    unfold genericTurn at step
    dsimp only at step
    split at step
    · simp at step
    · cases step
      rw [Reading.append_elements, settle_elements plain, List.append_nil]
      exact one (quiet_append quiet).1

/-- Generic parameters are names between angle brackets, with a comma between any two. -/
theorem genericList_reads : Reads trailing (· = some .leftAngle) genericList Form.generics := by
  have names : Reads trailing anything (loop genericTurn genericTurn_advances)
      (.commaSeparated false Form.name) := by
    intro i hi hl
    obtain ⟨plain, derives⟩ := loop_reads genericTurn_reads i hi hl
    exact ⟨plain, fun quiet => Form.commaSeparated_of_each_last (derives quiet)⟩
  exact node_reads (inOrder_cons_reads bump_one_reads
    (inOrder_cons_reads names (inOrder_cons_reads expect_reads inOrder_nil_reads)))

/-- A method is attributes, its keyword, a name, its generic parameters if there are any, its
parameters and a semicolon. -/
theorem methodDecl_reads : Reads trailing anything methodDecl (Form.method trailing) :=
  node_reads (inOrder_cons_reads attributes_reads (inOrder_cons_reads expect_reads
    (inOrder_cons_reads expect_reads (inOrder_cons_reads (optional_reads genericList_reads)
      (inOrder_cons_reads paramList_reads (inOrder_cons_reads expect_reads inOrder_nil_reads))))))

/-- A turn between the braces of a type reads a method, or the brace that closes the type. -/
theorem memberTurn_reads : TurnReads trailing memberTurn (Form.method trailing)
    (Form.inOrder [.token [.rightBrace]]) where
  plain := memberTurn_kept (plain_chains trailing).kept
  again i a hi step quiet := by
    obtain ⟨-, one⟩ := methodDecl_reads (settle i).rest (settle_plain hi) trivial
    unfold memberTurn at step
    dsimp only at step
    split at step
    · simp at step
    · cases step
      rw [Reading.append_elements, settle_elements hi]
      exact .inl (one (quiet_append quiet).2)
    · cases step
      rw [Reading.append_elements, settle_elements hi]
      exact .inl (one (quiet_append quiet).2)
    · simp at step
    · simp at step
    · cases step
      exact absurd (quiet_append quiet).2 reject_remarks_ne_nil
  last i a hi step quiet := by
    unfold memberTurn at step
    dsimp only at step
    split at step
    · rename_i brace
      cases step
      obtain ⟨-, closing⟩ := bump_one_reads (k := .rightBrace) (settle i).rest (settle_plain hi) brace
      have all := (closing (quiet_append quiet).2).both Form.Derives.nothing
      rw [List.append_nil] at all
      rw [Reading.append_elements, settle_elements hi]
      exact all
    · simp at step
    · simp at step
    · cases step
      exact absurd (quiet_append quiet).2 complain_remarks_ne_nil
    · cases step
      exact absurd (quiet_append quiet).2 complain_remarks_ne_nil
    · simp at step

/-- The body of a type is methods between braces. -/
theorem typeBody_reads : Reads trailing anything typeBody (Form.inOrder
    [.token [.leftBrace], .many (Form.method trailing), .token [.rightBrace]]) := by
  intro i hi _
  obtain ⟨plain, opening⟩ := expect_reads (k := .leftBrace) i hi trivial
  have list : Reads trailing anything (loop memberTurn memberTurn_advances) _ :=
    loop_reads memberTurn_reads
  obtain ⟨plainRest, members⟩ := list _ plain trivial
  unfold typeBody
  dsimp only
  split
  · exact ⟨plainRest, fun quiet =>
      (opening (quiet_append quiet).1).both (members (quiet_append quiet).2)⟩
  · rename_i other
    exact ⟨plain, fun quiet => absurd (next?_of_expect_quiet quiet) other⟩

/-- A type is attributes, its keyword, a name, its generic parameters if there are any, and
a body. -/
theorem typeDecl_reads : Reads trailing anything typeDecl (Form.typeDecl trailing) :=
  node_reads (andThen_reads attributes_reads (andThen_reads expect_reads
    (andThen_reads expect_reads (andThen_reads (optional_reads genericList_reads)
      (inOrder_last_reads typeBody_reads)))))

/-- A turn of a file reads a type, or finds nothing more. -/
theorem fileTurn_reads : TurnReads trailing fileTurn (Form.typeDecl trailing) .nothing where
  plain := fileTurn_kept (plain_chains trailing).kept
  again i a hi step quiet := by
    obtain ⟨-, one⟩ := typeDecl_reads (settle i).rest (settle_plain hi) trivial
    unfold fileTurn at step
    dsimp only at step
    split at step
    · simp at step
    · cases step
      rw [Reading.append_elements, settle_elements hi]
      exact .inl (one (quiet_append quiet).2)
    · cases step
      rw [Reading.append_elements, settle_elements hi]
      exact .inl (one (quiet_append quiet).2)
    · cases step
      exact absurd (quiet_append quiet).2 reject_remarks_ne_nil
  last i a hi step quiet := by
    unfold fileTurn at step
    dsimp only at step
    split at step
    · cases step
      rw [settle_elements hi]
      exact .nothing
    · simp at step
    · simp at step
    · simp at step

end Grammar

namespace Element

mutual

/-- A tree without trivia has the tokens of the tree that are not trivia. -/
theorem tokensOf_bare (e : Element) :
    tokensOf e.bare = e.tokens.filter fun t => !t.isTrivia := by
  cases e with
  | token t =>
    rw [bare, tokens]
    by_cases trivia : t.isTrivia = true
    · rw [if_pos trivia, List.filter_cons_of_neg (by simp [trivia])]
      rfl
    · rw [if_neg trivia, List.filter_cons_of_pos (by simp [trivia]), tokensOf_singleton]
      rfl
  | node kind children =>
    rw [bare, tokensOf_singleton, tokens, tokens]
    exact tokensOf_bareOf children

/-- Trees next to each other, without trivia, have the tokens of theirs that are not trivia. -/
theorem tokensOf_bareOf (es : List Element) :
    tokensOf (bareOf es) = (tokensOf es).filter fun t => !t.isTrivia := by
  cases es with
  | nil => rfl
  | cons e es =>
    rw [bareOf, tokensOf_append, tokensOf, List.filter_append, tokensOf_bare e, tokensOf_bareOf es]

end

mutual

/-- No node is lost with the trivia. -/
theorem nodeKindsOf_bare (e : Element) : nodeKindsOf e.bare = e.nodeKinds := by
  cases e with
  | token t =>
    rw [bare]
    split <;> rfl
  | node kind children =>
    rw [bare, nodeKindsOf_node, nodeKinds, nodeKindsOf_bareOf children]

/-- No node of trees next to each other is lost with the trivia. -/
theorem nodeKindsOf_bareOf (es : List Element) : nodeKindsOf (bareOf es) = nodeKindsOf es := by
  cases es with
  | nil => rfl
  | cons e es =>
    rw [bareOf, nodeKindsOf_append, nodeKindsOf, nodeKindsOf_bare e, nodeKindsOf_bareOf es]

end

end Element

section Accepted

variable {text : List Char} {ts : List Token} {trailing : Bool}

/-- Without trivia, the tokens of the tree of a text are its significant tokens. -/
theorem tokensOf_root_bare (text : List Char) :
    Element.tokensOf (parse text).root.element.bare = significant text := by
  have tokens : (parse text).root.element.tokens = lex text := parse_tokens text
  rw [Element.tokensOf_bare, tokens]
  rfl

/-- Without errors, the tree of a text is derived, by the documented grammar if no comma stands
before a closing parenthesis. -/
theorem derives_root_bare (quiet : (parse text).errors = [])
    (commas : trailing = true ∨
      ¬ [.comma, .rightParen] <:+: (significant text).map Token.kind) :
    (Form.file trailing).Derives (parse text).root.element.bare := by
  rw [errors_parse, List.map_eq_nil_iff] at quiet
  have types := (Rule.loop_many_reads Grammar.fileTurn_reads (Input.ofBare (significant text) 0)
    (Input.plain_ofBare commas 0) trivial).2 quiet
  have children : Element.bareOf (parse text).children = _ := children_parse_bare text
  have bare : (parse text).root.element.bare =
      [.node .root (Element.bareOf (parse text).children)] := rfl
  rw [bare, children]
  exact types.node

/-- In no sentence of the documented grammar does a comma stand right in front of a
closing parenthesis. -/
theorem Form.Sentence.not_comma_rightParen (h : Form.documented.Sentence ts) :
    ¬ [.comma, .rightParen] <:+: ts.map Token.kind := by
  obtain ⟨es, derived, rfl⟩ := h
  exact Form.not_comma_rightParen_of_documented derived

/-- A text is read without errors only if the documented grammar, but for a comma that may end the
parameters of a method and the arguments of an attribute, derives its tree and its significant
tokens are a sentence of it; there are no error nodes then. Both hold of the documented grammar
itself exactly if no comma stands directly before a closing parenthesis. -/
theorem accepted_text_derives (text : List Char) (quiet : (parse text).errors = []) :
    Form.accepted.Derives (parse text).root.element.bare ∧
    Form.accepted.Sentence (significant text) ∧
    NodeKind.error ∉ (parse text).root.element.nodeKinds ∧
    (Form.documented.Derives (parse text).root.element.bare ↔
      ¬ [.comma, .rightParen] <:+: (significant text).map Token.kind) ∧
    (Form.documented.Sentence (significant text) ↔
      ¬ [.comma, .rightParen] <:+: (significant text).map Token.kind) := by
  have tokens := tokensOf_root_bare text
  have derived : Form.accepted.Derives _ := derives_root_bare quiet (.inl rfl)
  have documented (none : ¬ [.comma, .rightParen] <:+: (significant text).map Token.kind) :
      Form.documented.Derives _ := derives_root_bare quiet (.inr none)
  refine ⟨derived, ⟨_, derived, tokens⟩, fun error => ?_, ⟨fun h => ?_, documented⟩,
    ⟨Form.Sentence.not_comma_rightParen, fun none => ⟨_, documented none, tokens⟩⟩⟩
  · rw [← Element.nodeKindsOf_bare] at error
    exact absurd (derived.nodeKinds_subset error) (by decide)
  · exact Form.Sentence.not_comma_rightParen ⟨_, h, tokens⟩

/-- A text with attributes, generic parameters, an array type and a default value is read without
errors, and the documented grammar derives it. -/
theorem sample_text_derives :
    (parse "[A(1, x)] type P<T> \x7b fn M([B()] ref int[]? y = null, int z); \x7d".toList).errors = [] ∧
    Form.documented.Sentence
      (significant "[A(1, x)] type P<T> \x7b fn M([B()] ref int[]? y = null, int z); \x7d".toList) := by
  have quiet : (parse
      "[A(1, x)] type P<T> \x7b fn M([B()] ref int[]? y = null, int z); \x7d".toList).errors = [] := by
    decide +kernel
  obtain ⟨-, -, -, -, sentence⟩ := accepted_text_derives _ quiet
  exact ⟨quiet, sentence.mpr (by decide +kernel)⟩

/-- The text is read without errors, and the documented grammar does not derive it. -/
theorem trailing_comma_accepted :
    (parse "type A \x7b fn M(int x,); \x7d".toList).errors = [] ∧
    ¬ Form.documented.Sentence (significant "type A \x7b fn M(int x,); \x7d".toList) :=
  ⟨by decide +kernel, fun h => h.not_comma_rightParen (by decide +kernel)⟩

end Accepted

end DeclFront
