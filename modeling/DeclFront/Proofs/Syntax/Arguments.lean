import DeclFront.Proofs.Syntax.Origin

/-!
# Where an argument list can be broken

An argument list is marked as broken by nodes of errors in it, and the parser makes such a node of one
kind of token alone, the unknown ones. Whatever else is wrong with the list is complained about and
leaves no mark: a comma where a literal should stand, or a closing parenthesis that is missing.
-/

set_option autoImplicit false

namespace DeclFront

namespace Element

/-- What stands directly in an argument list: a token that is known, a literal, or an unknown token
in a node of its own. -/
inductive IsArgumentPart : Element → Prop where
  | token {t : Token} (known : t.kind ≠ .unknown) : IsArgumentPart (.token t)
  | literal {t : Token} (isLiteral : t.kind.isLiteral = true) :
    IsArgumentPart (.node .literal [.token t])
  | error {t : Token} (unknown : t.kind = .unknown) : IsArgumentPart (.node .error [.token t])

variable {e : Element} {es fs : List Element} {ts : List Token}

/-- The significant tokens of trees are those of the first, and then those of the others. -/
theorem lexemesOf_append : lexemesOf (es ++ fs) = lexemesOf es ++ lexemesOf fs := by
  rw [lexemesOf, tokensOf_append, List.filter_append]
  rfl

/-- There are none in trivia. -/
theorem lexemesOf_trivia (h : ∀ t ∈ ts, t.isTrivia = true) : lexemesOf (ts.map .token) = [] := by
  rw [lexemesOf, tokensOf_map_token, List.filter_eq_nil_iff]
  intro t ht
  simp [h t ht]

/-- Trivia is known. -/
theorem kind_ne_unknown_of_isTrivia {t : Token} (h : t.isTrivia = true) : t.kind ≠ .unknown := by
  intro unknown
  rw [Token.isTrivia, unknown] at h
  cases h

/-- Trivia may stand in an argument list. -/
theorem isArgumentPart_of_trivia (h : ∀ t ∈ ts, t.isTrivia = true) :
    ∀ e ∈ ts.map Element.token, e.IsArgumentPart := by
  intro e he
  obtain ⟨t, ht, rfl⟩ := List.mem_map.mp he
  exact .token (kind_ne_unknown_of_isTrivia (h t ht))

/-- Among the parts of an argument list stands a node of an error exactly if an unknown token does. -/
theorem error_mem_heads_iff (parts : ∀ e ∈ es, e.IsArgumentPart) :
    .error ∈ heads es ↔ ∃ t ∈ lexemesOf es, t.kind = .unknown := by
  induction es with
  | nil => simp [lexemesOf, tokensOf]
  | cons e es ih =>
    obtain ⟨first, others⟩ := List.forall_mem_cons.mp parts
    have split : lexemesOf (e :: es) = lexemesOf [e] ++ lexemesOf es := by
      rw [← lexemesOf_append]
      rfl
    simp only [split, List.mem_append, or_and_right, exists_or, ← ih others]
    cases first with
    | @token t known =>
      have none : ¬ ∃ u ∈ lexemesOf [.token t], u.kind = .unknown := by
        simp [lexemesOf, tokensOf, tokens, known]
      rw [heads_token, or_iff_right none]
    | @literal t isLiteral =>
      have none : ¬ ∃ u ∈ lexemesOf [.node .literal [.token t]], u.kind = .unknown := by
        rintro ⟨u, hu, unknown⟩
        obtain rfl : u = t := by simpa [lexemesOf, tokensOf, tokens] using (List.mem_filter.mp hu).1
        rw [unknown] at isLiteral
        cases isLiteral
      rw [heads_node, or_iff_right none, List.mem_cons, or_iff_right (by decide)]
    | @error t unknown =>
      have significant : t.isTrivia = false := by
        rw [Token.isTrivia, unknown]
        rfl
      have some : ∃ u ∈ lexemesOf [.node .error [.token t]], u.kind = .unknown :=
        ⟨t, by simp [lexemesOf, tokensOf, tokens, significant], unknown⟩
      simp only [heads_node, List.mem_cons, true_or, some]

end Element

namespace Rule

open Element (lexemesOf tokensOf IsArgumentPart)

/-- Some parts of an argument list have been read. Each unknown token was complained about, and each
complaint is about an unknown token or a comma, or else about the lexeme behind, which is possible
only if the reading is `stuck`. -/
structure Listed (stuck : Prop) (i : Input) (a : Reading) : Prop where
  traced : Traced i a
  parts : ∀ e ∈ a.elements, e.IsArgumentPart
  complained : ∀ k t, (lexemesOf a.elements)[k]? = some t → t.kind = .unknown →
    ⟨i.index + k, .expectedLiteral⟩ ∈ a.remarks
  remarks : ∀ r ∈ a.remarks, (stuck ∧ r.index = a.rest.index) ∨
    ∃ t, (lexemesOf a.elements)[r.index - i.index]? = some t ∧
      (t.kind = .unknown ∨ t.kind = .comma)

variable {i : Input} {a b : Reading} {stuck more : Prop}

/-- A reading may count as stuck where it is not. -/
theorem Listed.mono (h : Listed stuck i a) (le : stuck → more) : Listed more i a :=
  ⟨h.traced, h.parts, h.complained, fun r hr => (h.remarks r hr).imp_left fun ⟨s, at_⟩ => ⟨le s, at_⟩⟩

/-- A list has been read by as many lexemes as there are in it. -/
theorem Listed.length (h : Listed stuck i a) :
    a.rest.index = i.index + (lexemesOf a.elements).length := h.traced.index

/-- A reading that is stuck can be followed by one that takes no lexeme. -/
theorem Listed.append (ha : Listed stuck i a) (hb : Listed more a.rest b)
    (still : stuck → lexemesOf b.elements = []) : Listed (stuck ∨ more) i (a ++ b) := by
  have first := ha.length
  have second := hb.length
  refine ⟨ha.traced.append hb.traced, ?_, ?_, ?_⟩
  · intro e he
    exact (List.mem_append.mp he).elim (ha.parts e) (hb.parts e)
  · intro k t ht unknown
    rw [Reading.append_elements, Element.lexemesOf_append] at ht
    by_cases early : k < (lexemesOf a.elements).length
    · rw [List.getElem?_append_left early] at ht
      exact List.mem_append_left _ (ha.complained k t ht unknown)
    · rw [List.getElem?_append_right (Nat.not_lt.mp early)] at ht
      have said := hb.complained _ t ht unknown
      rw [first, Nat.add_assoc, Nat.add_sub_cancel' (Nat.not_lt.mp early)] at said
      exact List.mem_append_right _ said
  · intro r hr
    rw [Reading.append_elements, Element.lexemesOf_append]
    rcases List.mem_append.mp hr with hr | hr
    · rcases ha.remarks r hr with ⟨isStuck, behind⟩ | ⟨t, ht, kind⟩
      · rw [still isStuck, List.length_nil, Nat.add_zero] at second
        exact .inl ⟨.inl isStuck, behind.trans second.symm⟩
      · exact .inr ⟨t, by rw [List.getElem?_append_left (List.getElem?_eq_some_iff.mp ht).1, ht],
          kind⟩
    · rcases hb.remarks r hr with ⟨isStuck, behind⟩ | ⟨t, ht, kind⟩
      · exact .inl ⟨.inr isStuck, behind⟩
      · refine .inr ⟨t, ?_, kind⟩
        have after := (hb.traced.remarks r hr).1
        rw [List.getElem?_append_right (by omega), ← ht]
        congr 1
        omega

/-- A reading that takes no lexeme and says nothing, or is stuck. -/
theorem listed_gap (traced : Traced i a) (h : i.Proper) (elements : a.elements = i.gap.map .token)
    (said : ∀ r ∈ a.remarks, stuck ∧ r.index = a.rest.index) : Listed stuck i a := by
  refine ⟨traced, ?_, ?_, fun r hr => .inl (said r hr)⟩
  · rw [elements]
    exact Element.isArgumentPart_of_trivia h.gap
  · rw [elements, Element.lexemesOf_trivia h.gap]
    exact nofun

/-- Placing a gap reads trivia only. -/
theorem settle_listed (h : i.Proper) : Listed False i (settle i) :=
  listed_gap (settle_traced h) h rfl nofun

/-- A complaint about the lexeme behind leaves the list stuck there. -/
theorem complain_listed (h : i.Proper) (c : Complaint) : Listed True i (complain c i) := by
  refine listed_gap (complain_traced c h) h (List.append_nil _) fun r hr => ⟨trivial, ?_⟩
  rw [List.mem_singleton.mp hr]
  rfl

/-- A reading that takes one lexeme, with whatever it says about that. -/
theorem listed_one (traced : Traced i a) (h : i.Proper) {e : Element} {t : Token}
    (elements : a.elements = i.gap.map .token ++ [e]) (part : e.IsArgumentPart)
    (token : lexemesOf [e] = [t])
    (complained : t.kind = .unknown → ⟨i.index, .expectedLiteral⟩ ∈ a.remarks)
    (said : ∀ r ∈ a.remarks, r.index = i.index ∧ (t.kind = .unknown ∨ t.kind = .comma)) :
    Listed stuck i a := by
  have lexemes : lexemesOf a.elements = [t] := by
    rw [elements, Element.lexemesOf_append, Element.lexemesOf_trivia h.gap, List.nil_append, token]
  refine ⟨traced, ?_, ?_, ?_⟩
  · rw [elements]
    intro e' he
    rcases List.mem_append.mp he with gap | last
    · exact Element.isArgumentPart_of_trivia h.gap e' gap
    · rwa [List.mem_singleton.mp last]
  · intro k u hu unknown
    rw [lexemes, List.getElem?_singleton] at hu
    split at hu
    · rename_i zero
      cases hu
      rw [zero]
      exact complained unknown
    · cases hu
  · intro r hr
    obtain ⟨here, kind⟩ := said r hr
    refine .inr ⟨t, ?_, kind⟩
    rw [lexemes, here, Nat.sub_self]
    rfl

/-- What comes next is the first of the lexemes that are left. -/
theorem exists_lexeme {k : TokenKind} (next : i.next? = some k) :
    ∃ l ls, i.lexemes = l :: ls ∧ l.token.kind = k := by
  cases lexemes : i.lexemes with
  | nil => simp [Input.next?, lexemes] at next
  | cons l ls => exact ⟨l, ls, rfl, by simpa [Input.next?, lexemes] using next⟩

/-- A lexeme is taken with the gap in front of it. -/
theorem bump_elements {l : Lexeme} {ls : List Lexeme} (lexemes : i.lexemes = l :: ls) :
    (bump i).elements = i.gap.map .token ++ [.token l.token] := by
  rw [bump, lexemes]
  rfl

/-- Taking a lexeme complains about nothing. -/
theorem bump_remarks (i : Input) : (bump i).remarks = [] := by
  unfold bump
  split <;> rfl

/-- A lexeme is one significant token. -/
theorem lexemesOf_token (h : i.Proper) {l : Lexeme} {ls : List Lexeme}
    (lexemes : i.lexemes = l :: ls) : lexemesOf [.token l.token] = [l.token] := by
  have significant := h.tokens l (lexemes ▸ List.mem_cons_self)
  simp [lexemesOf, tokensOf, Element.tokens, significant]

/-- Expecting a lexeme counts it if it is there, and complains about it if not. -/
theorem expect_traced (h : i.Proper) (kind : TokenKind) : Traced i (expect kind i) :=
  traced_chains.kept.expect kind i h

/-- A token that is known may stand in an argument list. -/
theorem bump_listed (h : i.Proper) {k : TokenKind} (next : i.next? = some k)
    (known : k ≠ .unknown) : Listed False i (bump i) := by
  obtain ⟨l, ls, lexemes, kind⟩ := exists_lexeme next
  refine listed_one (bump_traced h) h (bump_elements lexemes) (.token (kind ▸ known))
    (lexemesOf_token h lexemes) (fun unknown => absurd (kind.symm.trans unknown) known) ?_
  rw [bump_remarks]
  exact nofun

end Rule

namespace Grammar

open Rule
open Element (heads lexemesOf tokensOf)

variable {i : Input}

/-- A literal or an unknown token is taken. Anything else is complained about and left. -/
theorem literal_listed (h : i.Proper) {k : TokenKind} (next : i.next? = some k) :
    Listed False i (literal i) ∨ literal i = complain .expectedLiteral i ∧ k ≠ .unknown := by
  have traced := literal_kept traced_chains.kept i h
  obtain ⟨l, ls, lexemes, kind⟩ := exists_lexeme next
  have taken := lexemesOf_token h lexemes
  have significant := h.tokens l (lexemes ▸ List.mem_cons_self)
  have bumped : (bump i.settled).elements = [.token l.token] := bump_elements (i := i.settled) lexemes
  by_cases unknown : k = .unknown
  · subst unknown
    have rejected : literal i = reject .expectedLiteral i := by
      unfold literal
      rw [next]
    rw [rejected] at traced ⊢
    refine .inl (listed_one (e := .node .error [.token l.token]) (t := l.token) traced h ?_
      (.error kind) ?_ ?_ ?_)
    · show i.gap.map Element.token ++ [] ++ [.node .error (bump i.settled).elements] = _
      rw [bumped, List.append_nil]
    · exact taken
    · intro _
      exact List.mem_append_left _ (List.mem_singleton_self _)
    · intro r hr
      have said : (reject .expectedLiteral i).remarks =
          [⟨i.index, .expectedLiteral⟩] ++ (bump i.settled).remarks := rfl
      rw [said, bump_remarks, List.append_nil] at hr
      rw [List.mem_singleton.mp hr]
      exact ⟨rfl, .inl kind⟩
  · by_cases isLiteral : k.isLiteral = true
    · have read : literal i = settle i ++ node .literal bump (settle i).rest := by
        unfold literal
        rw [next]
        simp only [isLiteral, if_true]
      rw [read] at traced ⊢
      refine .inl (listed_one (e := .node .literal [.token l.token]) traced h ?_
        (.literal (kind ▸ isLiteral)) taken (fun is => absurd (kind.symm.trans is) unknown) ?_)
      · show i.gap.map Element.token ++ [.node .literal (bump i.settled).elements] = _
        rw [bumped]
      · intro r hr
        have said : (settle i ++ node .literal bump (settle i).rest).remarks =
            (bump i.settled).remarks := rfl
        rw [said, bump_remarks] at hr
        cases hr
    · refine .inr ⟨?_, unknown⟩
      unfold literal
      rw [next]
      simp only [isLiteral]
      rfl

/-- A comma where a literal was expected. -/
theorem comma_listed (h : i.Proper) (next : i.next? = some .comma) :
    Listed False i (complain .expectedLiteral i ++ bump (complain .expectedLiteral i).rest) := by
  obtain ⟨l, ls, lexemes, kind⟩ := exists_lexeme next
  have complaint := complain_traced .expectedLiteral h
  refine listed_one (complaint.append (bump_traced complaint.proper)) h ?_
    (.token (t := l.token) ?_) (lexemesOf_token h lexemes) ?_ ?_
  · show i.gap.map Element.token ++ [] ++ (bump i.settled).elements = _
    rw [bump_elements (i := i.settled) lexemes, List.append_nil]
    rfl
  · rw [kind]
    decide
  · rw [kind]
    exact nofun
  · intro r hr
    have said : (complain .expectedLiteral i ++ bump (complain .expectedLiteral i).rest).remarks =
        [⟨i.index, .expectedLiteral⟩] ++ (bump i.settled).remarks := rfl
    rw [said, bump_remarks, List.append_nil] at hr
    rw [List.mem_singleton.mp hr]
    exact ⟨rfl, .inr kind⟩

/-- A turn that is the last one is stuck only in front of something that does not close the list. -/
theorem argumentTurn_listed (h : i.Proper) :
    match argumentTurn i with
    | .again a => Listed False i a
    | .last a => Listed (a.rest.next? ≠ some .rightParen) i a := by
  have stops : Listed ((settle i).rest.next? ≠ some .rightParen) i (settle i) :=
    (settle_listed h).mono False.elim
  cases next : i.next? with
  | none => simpa only [argumentTurn, next] using stops
  | some k =>
    by_cases closing : k = .rightParen ∨ k = .rightBracket
    · rcases closing with rfl | rfl <;> simpa only [argumentTurn, next] using stops
    rw [not_or] at closing
    have turn : argumentTurn i =
        if (literal i).rest.next? = some .comma then .again (literal i ++ bump (literal i).rest)
        else .last (literal i ++ settle (literal i).rest) := by
      unfold argumentTurn
      rw [next]
      cases k <;> first | rfl | simp at closing
    rw [turn]
    rcases literal_listed h next with taken | ⟨left, unknown⟩
    · have proper := taken.traced.proper
      by_cases comma : (literal i).rest.next? = some .comma
      · rw [if_pos comma]
        exact (taken.append (bump_listed proper comma (by decide)) False.elim).mono (·.elim id id)
      · rw [if_neg comma]
        exact (taken.append (settle_listed proper) False.elim).mono (·.elim False.elim False.elim)
    · rw [left]
      have complained := complain_listed h .expectedLiteral
      have rest : (complain .expectedLiteral i).rest.next? = some k := next
      by_cases comma : (complain .expectedLiteral i).rest.next? = some .comma
      · rw [if_pos comma]
        exact comma_listed h comma
      · rw [if_neg comma]
        refine (complained.append (settle_listed complained.traced.proper) fun _ => rfl).mono ?_
        intro _ closes
        exact closing.1 (Option.some.inj (rest.symm.trans closes))

/-- The arguments of a list are listed, up to its end or to a lexeme at which they are stuck. -/
theorem arguments_listed (h : i.Proper) :
    Listed ((loop argumentTurn argumentTurn_advances i).rest.next? ≠ some .rightParen) i
      (loop argumentTurn argumentTurn_advances i) := by
  revert i
  apply loop_induction (motive := fun i r => i.Proper → Listed (r.rest.next? ≠ some .rightParen) i r)
  · intro i a turned h
    have step := argumentTurn_listed h
    rw [turned] at step
    exact step
  · intro i a b turned others h
    have step := argumentTurn_listed h
    rw [turned] at step
    exact (step.append (others step.traced.proper) False.elim).mono (·.elim False.elim id)

/-- The steps of an argument list. -/
def argumentSteps : List Rule :=
  [bump, loop argumentTurn argumentTurn_advances, expect .rightParen]

/-- An argument list that was read from its opening parenthesis on. -/
theorem argumentSteps_listed (h : i.Proper) (opens : i.next? = some .leftParen) :
    Listed True i (inOrder argumentSteps i) := by
  have first := bump_listed h opens (by decide)
  have arguments := arguments_listed first.traced.proper
  have proper := arguments.traced.proper
  have closed : Listed True (bump i).rest
      (loop argumentTurn argumentTurn_advances (bump i).rest ++
        expect .rightParen (loop argumentTurn argumentTurn_advances (bump i).rest).rest) := by
    unfold expect
    split
    · rename_i closes
      exact (arguments.append (bump_listed proper closes (by decide))
        fun stuck => absurd closes stuck).mono fun _ => trivial
    · refine (arguments.append (complain_listed proper _) fun _ => ?_).mono fun _ => trivial
      exact Element.lexemesOf_trivia proper.gap ▸ congrArg lexemesOf (List.append_nil _)
  have whole : inOrder argumentSteps i = bump i ++
      (loop argumentTurn argumentTurn_advances (bump i).rest ++
        expect .rightParen (loop argumentTurn argumentTurn_advances (bump i).rest).rest) :=
    congrArg (bump i ++ ·) (congrArg (_ ++ ·) (Reading.append_empty _))
  rw [whole]
  exact (first.append closed False.elim).mono fun _ => trivial

/-- The steps of an attribute. -/
def itemSteps : List Rule :=
  [bump, expect .identifier, optional .leftParen attributeArgs, expect .rightBracket]

/-- An attribute up to its argument list or its closing bracket. -/
def itemHead (i : Input) : Reading :=
  bump i ++ expect .identifier (bump i).rest ++ settle (expect .identifier (bump i).rest).rest

/-- Up to its arguments an attribute is read lexeme by lexeme. -/
theorem itemHead_traced (h : i.Proper) : Traced i (itemHead i) := by
  have begins := bump_traced h
  have named := expect_traced begins.proper .identifier
  exact (begins.append named).append (settle_traced named.proper)

/-- Up to its arguments an attribute has no nodes. -/
theorem heads_itemHead (i : Input) : heads (itemHead i).elements = [] := by
  simp [itemHead, heads_bump, heads_expect, heads_settle]

/-- An attribute is read in four steps. -/
theorem itemSteps_eq (i : Input) : inOrder itemSteps i =
    bump i ++ (expect .identifier (bump i).rest ++
      (Rule.optional .leftParen attributeArgs (expect .identifier (bump i).rest).rest ++
        expect .rightBracket (Rule.optional .leftParen attributeArgs
          (expect .identifier (bump i).rest).rest).rest)) :=
  congrArg (bump i ++ ·) (congrArg (_ ++ ·) (congrArg (_ ++ ·) (Reading.append_empty _)))

/-- An attribute whose name is followed by a parenthesis is read with an argument list. -/
theorem itemSteps_of_list (opens : (itemHead i).rest.next? = some .leftParen) :
    inOrder itemSteps i = itemHead i ++ (attributeArgs (itemHead i).rest ++
      expect .rightBracket (inOrder argumentSteps (itemHead i).rest).rest) := by
  have opens : (expect .identifier (bump i).rest).rest.next? = some .leftParen := opens
  rw [itemSteps_eq, Rule.optional, if_pos opens, itemHead]
  simp only [Reading.append_assoc]
  rfl

/-- One without is read up to its closing bracket. -/
theorem itemSteps_of_none (closes : (itemHead i).rest.next? ≠ some .leftParen) :
    inOrder itemSteps i = itemHead i ++ expect .rightBracket (itemHead i).rest := by
  have closes : ¬(expect .identifier (bump i).rest).rest.next? = some .leftParen := closes
  rw [itemSteps_eq, Rule.optional, if_neg closes, itemHead]
  simp only [Reading.append_assoc]
  rfl

/-- An attribute has no argument list, or one that begins with the opening parenthesis behind its
name. What was complained about inside the list is what the steps of the list did. -/
theorem itemSteps_list (h : i.Proper) :
    .attributeArgs ∉ heads (inOrder itemSteps i).elements ∨
    ∃ j front back, j.Proper ∧ j.next? = some .leftParen ∧
      (inOrder itemSteps i).elements =
        front ++ .node .attributeArgs (inOrder argumentSteps j).elements :: back ∧
      heads front = [] ∧ heads back = [] ∧ j.index = i.index + lexemeCount (tokensOf front) ∧
      (∀ r ∈ (inOrder argumentSteps j).remarks, r ∈ (inOrder itemSteps i).remarks) ∧
      ∀ r ∈ (inOrder itemSteps i).remarks, j.index < r.index →
        r.index < (inOrder argumentSteps j).rest.index →
        r ∈ (inOrder argumentSteps j).remarks := by
  have head := itemHead_traced h
  by_cases opens : (itemHead i).rest.next? = some .leftParen
  · have list := (argumentSteps_listed head.proper opens).traced
    have closing := expect_traced list.proper .rightBracket
    have whole := itemSteps_of_list opens
    refine .inr ⟨(itemHead i).rest, (itemHead i).elements, _, head.proper, opens,
      by rw [whole]; rfl, heads_itemHead i, heads_expect _ _, head.index, ?_, ?_⟩
    · intro r hr
      rw [whole]
      exact List.mem_append_right _ (List.mem_append_left _ hr)
    · intro r hr behind before
      rw [whole] at hr
      rcases List.mem_append.mp hr with early | hr
      · have := (head.remarks r early).2
        omega
      · rcases List.mem_append.mp hr with own | late
        · exact own
        · have := (closing.remarks r late).1
          omega
  · refine .inl ?_
    rw [itemSteps_of_none opens, Reading.append_elements, Element.heads_append, heads_itemHead,
      heads_expect]
    exact List.not_mem_nil

end Grammar

/-! ### Argument lists of a text -/

namespace Node

open Element (heads)

variable {n : Node} {kind : NodeKind} {front cs back : List Element}

/-- The nodes among trees are those among the first, and then those among the others, so many bytes
further on. -/
theorem nodesFrom_append (start : Nat) (es fs : List Element) :
    nodesFrom start (es ++ fs) =
      nodesFrom start es ++ nodesFrom (start + Element.byteLengthOf es) fs := by
  induction es generalizing start with
  | nil => rfl
  | cons e es ih =>
    cases e with
    | token t =>
      rw [List.cons_append, nodesFrom, nodesFrom, ih, Element.byteLengthOf, Nat.add_assoc]
      rfl
    | node k children =>
      rw [List.cons_append, nodesFrom, nodesFrom, ih, Element.byteLengthOf, Nat.add_assoc]
      rfl

/-- Of a kind that none of the trees is, there are no nodes. -/
theorem filter_nodesFrom_eq_nil {es : List Element} (h : kind ∉ heads es) (start : Nat) :
    (nodesFrom start es).filter (·.kind = kind) = [] := by
  rw [List.filter_eq_nil_iff]
  intro m hm same
  rw [← map_kind_nodesFrom start] at h
  exact h (of_decide_eq_true same ▸ List.mem_map_of_mem hm)

/-- The only node of a kind starts behind what stands in front of it. -/
theorem childrenOf_of_split (split : n.children = front ++ .node kind cs :: back)
    (inFront : kind ∉ heads front) (inBack : kind ∉ heads back) :
    n.childrenOf kind = [⟨kind, cs, n.start + Element.byteLengthOf front⟩] := by
  rw [childrenOf, childNodes, split, nodesFrom_append, List.filter_append,
    filter_nodesFrom_eq_nil inFront, nodesFrom, List.filter_cons_of_pos (by simp),
    filter_nodesFrom_eq_nil inBack, List.nil_append]

/-- The lexemes of a part are found among those of the whole, behind the lexemes before it. -/
theorem getElem?_lexemes_of_split (split : n.children = front ++ .node kind cs :: back) {m : Node}
    (part : m = ⟨kind, cs, n.start + Element.byteLengthOf front⟩) {k : Nat}
    (bound : k < m.lexemes.length) :
    lexemeCount (Element.tokensOf front) + k < n.lexemes.length ∧
      n.lexemes[lexemeCount (Element.tokensOf front) + k]? = m.lexemes[k]? := by
  have whole : n.lexemes = placeTokens n.start (Element.tokensOf front) ++ (m.lexemes ++
      placeTokens (m.start + Text.byteLength ((Element.tokensOf cs).flatMap Token.chars))
        (Element.tokensOf back)) := by
    rw [lexemes, split, Element.tokensOf_append, Element.tokensOf, Element.tokens,
      placeTokens_append, placeTokens_append, ← Element.byteLengthOf_eq, part]
    rfl
  constructor
  · rw [whole, List.length_append, List.length_append, length_placeTokens]
    omega
  · rw [whole, List.getElem?_append_right (by rw [length_placeTokens]; omega), length_placeTokens,
      Nat.add_sub_cancel_left, List.getElem?_append_left bound]

end Node

namespace Grammar

open Rule

/-- An argument list that stands in a text and was read from an input on. -/
structure ReadAsList (text : List Char) (list : Node) (i : Input) : Prop where
  children : list.children = (inOrder argumentSteps i).elements
  listed : Listed True i (inOrder argumentSteps i)
  placed : ∀ k < list.lexemes.length, (placedLexemes text)[i.index + k]? = list.lexemes[k]?
  said : ∀ r ∈ (inOrder argumentSteps i).remarks, r ∈ remarksOf text
  heard : ∀ r ∈ remarksOf text, i.index < r.index → r.index < i.index + list.lexemes.length →
    r ∈ (inOrder argumentSteps i).remarks

/-- Only the rule for attributes makes attributes, and it makes them of its steps. -/
theorem attributeItem_of_makes {q : Rule} (makes : Makes q) {i : Input} {children : List Element}
    (h : (q i).elements = [.node .attributeItem children]) :
    q = attributeItem ∧ children = (inOrder itemSteps i).elements := by
  cases makes <;> first | (cases h; exact ⟨rfl, rfl⟩) | cases h

/-- The argument lists of an attribute were read as such. -/
theorem readAsList {text : List Char} {attr : Node} (held : (parse text).root.Holds attr)
    (item : attr.kind = .attributeItem) {list : Node} (hl : list ∈ attr.argumentLists) :
    ∃ i, ReadAsList text list i := by
  obtain ⟨index, q, i, origin, placed⟩ := origin_of_holds held (by rw [item]; decide)
  rw [item] at origin
  obtain ⟨rfl, children⟩ := attributeItem_of_makes origin.makes origin.built
  rcases itemSteps_list origin.proper with none | ⟨j, front, back, proper, opens, split, inFront,
    inBack, begins, said, heard⟩
  · rw [← children] at none
    rw [Node.argumentLists, Node.childrenOf, Node.childNodes,
      Node.filter_nodesFrom_eq_nil none] at hl
    cases hl
  · rw [← children] at split
    have lists := Node.childrenOf_of_split split (by rw [inFront]; exact List.not_mem_nil)
      (by rw [inBack]; exact List.not_mem_nil)
    rw [Node.argumentLists, lists] at hl
    have part := List.mem_singleton.mp hl
    have own : list.children = (inOrder argumentSteps j).elements := by rw [part]
    have listed := argumentSteps_listed proper opens
    have length : list.lexemes.length =
        (Element.lexemesOf (inOrder argumentSteps j).elements).length := by
      rw [list.length_lexemes, own]
      rfl
    have inside := fun k => Node.getElem?_lexemes_of_split split part (k := k)
    refine ⟨j, own, listed, fun k bound => ?_, fun r hr => origin.said r (said r hr), ?_⟩
    · obtain ⟨within, found⟩ := inside k bound
      rw [begins, origin.first, Nat.add_assoc, placed _ within, found]
    · intro r hr behind before
      have last := inside (r.index - j.index) (by omega)
      rw [attr.length_lexemes] at last
      have first := origin.first
      refine heard r (origin.heard r hr (by omega) (by omega)) behind ?_
      rw [listed.length]
      omega

variable {text : List Char} {list : Node} {i : Input}

/-- A significant token of a list is the one that its rule has read, and stands in the text behind
those that were read before. -/
theorem ReadAsList.token (h : ReadAsList text list i) {k : Nat} {t : PlacedToken}
    (ht : list.lexemes[k]? = some t) :
    (Element.lexemesOf (inOrder argumentSteps i).elements)[k]? = some t.token ∧
      (placedLexemes text)[i.index + k]? = some t := by
  constructor
  · rw [← h.children, ← list.lexemes_map_token, List.getElem?_map, ht]
    rfl
  · rw [h.placed k (List.getElem?_eq_some_iff.mp ht).1, ht]

/-- The list is marked as broken exactly if it holds an unknown token. -/
theorem ReadAsList.marked_iff (h : ReadAsList text list i) :
    list.childNodes.any (·.kind = .error) = true ↔ ∃ t ∈ list.lexemes, t.token.kind = .unknown := by
  have marked : list.childNodes.any (·.kind = .error) = true ↔
      .error ∈ Element.heads list.children := by
    rw [← Node.map_kind_nodesFrom list.start, List.any_eq_true, List.mem_map]
    simp only [decide_eq_true_eq]
    rfl
  have parts := h.listed.parts
  rw [← h.children] at parts
  rw [marked, Element.error_mem_heads_iff parts, ← list.lexemes_map_token]
  simp only [List.mem_map, exists_exists_and_eq_and]

/-- Each unknown token in it was complained about. -/
theorem ReadAsList.complained (h : ReadAsList text list i) {t : PlacedToken}
    (ht : t ∈ list.lexemes) (unknown : t.token.kind = .unknown) :
    ⟨t.range, .expectedLiteral⟩ ∈ (parse text).errors := by
  obtain ⟨k, hk⟩ := List.mem_iff_getElem?.mp ht
  obtain ⟨token, placed⟩ := h.token hk
  have said := h.said _ (h.listed.complained k _ token unknown)
  rw [errors_eq_remarks]
  refine List.mem_map.mpr ⟨_, said, ?_⟩
  unfold Remark.locateIn Remark.locate
  rw [List.getElem?_toArray, placed]

/-- What is complained about in it, apart from its opening parenthesis, is an unknown token or a
comma. -/
theorem ReadAsList.error_cases (h : ReadAsList text list i) {t : PlacedToken}
    (ht : t ∈ list.lexemes) {e : SyntaxError} (he : e ∈ (parse text).errors)
    (about : e.range = t.range) :
    t.token.kind = .unknown ∨ t.token.kind = .comma ∨ list.lexemes.head? = some t := by
  obtain ⟨k, hk⟩ := List.mem_iff_getElem?.mp ht
  obtain ⟨token, placed⟩ := h.token hk
  obtain ⟨r, hr, rfl⟩ := List.mem_map.mp he
  have stands := (range_locateIn placed r).mp about
  cases k with
  | zero => exact .inr (.inr (List.head?_eq_getElem?.trans hk))
  | succ k =>
    have bound := (List.getElem?_eq_some_iff.mp hk).1
    rcases h.listed.remarks r (h.heard r hr (by omega) (by omega)) with ⟨-, behind⟩ | ⟨u, hu, kind⟩
    · have length : list.lexemes.length =
          (Element.lexemesOf (inOrder argumentSteps i).elements).length := by
        rw [list.length_lexemes, h.children]
        rfl
      have last := h.listed.length
      omega
    · rw [stands, Nat.add_sub_cancel_left, token] at hu
      cases hu
      exact kind.imp_right .inl

end Grammar

/-- Each argument of an attribute has its literal. -/
theorem Node.literalToken?_of_argument {text : List Char} {attr l : Node}
    (held : (parse text).root.Holds attr) (item : attr.kind = .attributeItem)
    (hl : l ∈ attr.arguments) : l.literalToken?.isSome := by
  obtain ⟨list, inAttr, inList⟩ := List.mem_flatMap.mp hl
  obtain ⟨i, read⟩ := Grammar.readAsList held item inAttr
  obtain ⟨child, kind⟩ := List.mem_filter.mp inList
  obtain ⟨before, after, split, -⟩ := exists_split_of_mem_nodesFrom child
  have part : l.element.IsArgumentPart := by
    refine read.listed.parts _ ?_
    rw [← read.children, split]
    exact List.mem_append_right _ List.mem_cons_self
  obtain ⟨k, cs, start⟩ := l
  cases of_decide_eq_true kind
  cases part with
  | @literal t isLiteral =>
    refine literalToken?_isSome (List.mem_singleton_self (Element.token t)) ?_
    rw [Token.isTrivia]
    exact Grammar.isTrivia_of_isLiteral isLiteral

end DeclFront
