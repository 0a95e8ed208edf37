import DeclFront.Proofs.Syntax.Inside
import DeclFront.Proofs.Syntax.Reads
import DeclFront.Proofs.Syntax.Views

/-!
# What is incomplete has been complained about

A declaration without a name, a parameter without a type, an attribute without a name and a default
value without a literal are passed over by whoever looks at a tree. Each of them was complained about
when the text was read, at a place between its first byte and the token behind it.
-/

set_option autoImplicit false

namespace DeclFront

/-- Does a declaration, an attribute or a default value lack what it cannot be looked at without? -/
def Node.isIncomplete (n : Node) : Bool :=
  match n.kind with
  | .typeDecl | .methodDecl | .attributeItem => n.nameToken?.isNone
  | .param => n.nameToken?.isNone || (n.typeRef?.bind nameToken?).isNone
  | .defaultValue => (n.literal?.bind literalToken?).isNone
  | _ => false

/-- Where the first significant token at or behind an offset starts, or else the end of the text. -/
def firstLexemeFrom (text : List Char) (offset : Nat) : Nat :=
  ((placedLexemes text).find? (offset ≤ ·.start)).elim (Text.byteLength text) PlacedToken.start

/-! ### Views of trees that were put together -/

/-- The tree is an identifier. -/
def Element.IsName (e : Element) : Prop :=
  ∃ t, e = .token t ∧ t.kind = .identifier

namespace Node

variable {n : Node}

/-- A node with a name among its parts has a name. -/
theorem nameToken?_isSome (h : ∃ e ∈ n.children, e.IsName) : n.nameToken?.isSome := by
  obtain ⟨_, mem, t, rfl, name⟩ := h
  have listed : t ∈ n.childTokens.map PlacedToken.token := by
    rw [childTokens_tokens]
    exact List.mem_filterMap.mpr ⟨_, mem, rfl⟩
  obtain ⟨p, hp, rfl⟩ := List.mem_map.mp listed
  rw [nameToken?, tokenOf?, List.find?_isSome]
  exact ⟨p, hp, by simp [name]⟩

/-- A literal with a significant token has a token. -/
theorem literalToken?_isSome {t : Token} (h : .token t ∈ n.children)
    (significant : t.isTrivia = false) : n.literalToken?.isSome := by
  have listed : t ∈ n.childTokens.map PlacedToken.token := by
    rw [childTokens_tokens]
    exact List.mem_filterMap.mpr ⟨_, h, rfl⟩
  obtain ⟨p, hp, rfl⟩ := List.mem_map.mp listed
  rw [literalToken?, List.find?_isSome]
  exact ⟨p, hp, by simp [significant]⟩

/-- The first child of a kind is the one in front of which there is none. -/
theorem childOf?_of_split {kind : NodeKind} {es cs fs : List Element}
    (split : n.children = es ++ .node kind cs :: fs) (first : kind ∉ Element.heads es) :
    ∃ m, n.childOf? kind = some m ∧ m.children = cs := by
  have skipped : es.find? (Element.isNodeOf kind) = none := by
    refine List.find?_eq_none.mpr fun e he => ?_
    cases e with
    | token t => simp [Element.isNodeOf]
    | node k children =>
      have other : k ≠ kind := fun equal => first (Element.mem_heads.mpr ⟨children, equal ▸ he⟩)
      simp [Element.isNodeOf, other]
  have found := n.childOf?_element kind
  rw [split, List.find?_append, skipped, Option.none_or,
    List.find?_cons_of_pos (by simp [Element.isNodeOf])] at found
  obtain ⟨m, hm, element⟩ := Option.map_eq_some_iff.mp found
  rw [Node.element] at element
  cases element
  exact ⟨m, hm, rfl⟩

variable {es cs fs : List Element}

/-- A parameter whose type has a name, and that has a name behind the type, is complete. -/
theorem param_complete (param : n.kind = .param) (split : n.children = es ++ .node .typeRef cs :: fs)
    (first : .typeRef ∉ Element.heads es) (typeNamed : ∃ e ∈ cs, e.IsName)
    (named : ∃ e ∈ fs, e.IsName) : n.isIncomplete = false := by
  obtain ⟨typeRef, found, rfl⟩ := childOf?_of_split split first
  obtain ⟨e, he, name⟩ := named
  have nameToken := n.nameToken?_isSome
    ⟨e, split ▸ List.mem_append_right es (List.mem_cons_of_mem _ he), name⟩
  have typeName := typeRef.nameToken?_isSome typeNamed
  simp only [isIncomplete, param, typeRef?, found, Option.bind_some, Bool.or_eq_false_iff,
    Option.isNone_eq_false_iff]
  exact ⟨nameToken, typeName⟩

/-- A default value whose literal has a token is complete. -/
theorem defaultValue_complete {t : Token} (defaultValue : n.kind = .defaultValue)
    (split : n.children = es ++ .node .literal (cs ++ [.token t]) :: fs)
    (first : .literal ∉ Element.heads es) (significant : t.isTrivia = false) :
    n.isIncomplete = false := by
  obtain ⟨lit, found, children⟩ := childOf?_of_split split first
  have token : lit.literalToken?.isSome := by
    refine literalToken?_isSome ?_ significant
    rw [children]
    exact List.mem_append_right _ (List.mem_singleton_self _)
  simp only [isIncomplete, defaultValue, literal?, found, Option.bind_some,
    Option.isNone_eq_false_iff]
  exact token

end Node

/-! ### What rules without a complaint have built -/

namespace Rule

open Element (IsName)

variable {i : Input} {p : Rule} {ps : List Rule} {P : Element → Prop}

/-- Unless it complains, the rule builds something of which `P` holds. -/
def Ensures (P : Element → Prop) (p : Rule) : Prop :=
  ∀ i, (p i).remarks = [] → ∃ e ∈ (p i).elements, P e

/-- Rules one after another build what one of them builds without complaint. -/
theorem ensures_inOrder (h : Ensures P p) (hp : p ∈ ps) : Ensures P (inOrder ps) := by
  induction ps with
  | nil => cases hp
  | cons q qs ih =>
    intro i quiet
    obtain ⟨first, others⟩ := quiet_append quiet
    rw [inOrder, Reading.append_elements]
    rcases List.mem_cons.mp hp with rfl | hp
    · obtain ⟨e, he, holds⟩ := h i first
      exact ⟨e, List.mem_append_left _ he, holds⟩
    · obtain ⟨e, he, holds⟩ := ih hp _ others
      exact ⟨e, List.mem_append_right _ he, holds⟩

/-- Where there is a lexeme, taking it builds its token last. -/
theorem exists_bump_elements {k : TokenKind} (h : i.next? = some k) :
    ∃ es t, (bump i).elements = es ++ [.token t] ∧ t.kind = k := by
  unfold bump
  cases lexemes : i.lexemes with
  | nil => simp [Input.next?, lexemes] at h
  | cons l ls =>
    have kind : l.token.kind = k := by simpa [Input.next?, lexemes] using h
    exact ⟨_, l.token, rfl, kind⟩

/-- To expect a name builds one, or complains. -/
theorem ensures_name : Ensures IsName (expect .identifier) := by
  intro i quiet
  have next := next?_of_expect_quiet quiet
  obtain ⟨es, t, built, kind⟩ := exists_bump_elements next
  rw [expect, if_pos next, built]
  exact ⟨_, List.mem_append_right _ (List.mem_singleton_self _), t, rfl, kind⟩

end Rule

namespace Grammar

open Rule Element

/-- Where type, name and default value are read without complaint, there is a named type in front
and a name behind it. -/
theorem typedName_of_quiet {i : Input} (quiet : (typedName i).remarks = []) :
    ∃ es cs fs, (typedName i).elements = es ++ .node .typeRef cs :: fs ∧ heads es = [] ∧
      (∃ e ∈ cs, e.IsName) ∧ ∃ e ∈ fs, e.IsName := by
  have next : i.next? = some .identifier := by
    by_contra other
    rw [typedName, if_neg other] at quiet
    exact complain_remarks_ne_nil (quiet_append quiet).2
  rw [typedName, if_pos next] at quiet ⊢
  obtain ⟨-, quietTail⟩ := quiet_append (quiet_append quiet).2
  obtain ⟨ds, t, built, kind⟩ := exists_bump_elements (i := (settle i).rest) next
  have named := ensures_inOrder ensures_name List.mem_cons_self _ quietTail
  refine ⟨_, _, _, rfl, heads_settle i, ⟨.token t, ?_, t, rfl, kind⟩, named⟩
  rw [inOrder, Reading.append_elements, built]
  simp

/-- A parameter without a complaint has a written type, with a name, and a name behind it. -/
theorem param_of_quiet {i : Input}
    (quiet : (inOrder [attributes, modifier, typedName] i).remarks = []) :
    ∃ es cs fs, (inOrder [attributes, modifier, typedName] i).elements =
        es ++ .node .typeRef cs :: fs ∧ .typeRef ∉ heads es ∧
      (∃ e ∈ cs, e.IsName) ∧ ∃ e ∈ fs, e.IsName := by
  obtain ⟨-, quiet⟩ := quiet_append quiet
  obtain ⟨-, quiet⟩ := quiet_append quiet
  obtain ⟨es, cs, fs, built, plain, typeNamed, named⟩ := typedName_of_quiet (quiet_append quiet).1
  refine ⟨(attributes i).elements ++ ((modifier (attributes i).rest).elements ++ es), cs, fs, ?_, ?_,
    typeNamed, named⟩
  · simp only [inOrder, Reading.append_elements, built, List.append_nil, List.append_assoc]
  · rw [heads_append, heads_append, plain, List.append_nil, List.mem_append]
    rintro (inAttributes | inModifier)
    · exact absurd (only_attributes _ _ inAttributes) (by decide)
    · exact absurd (only_modifier _ _ inModifier) (by decide)

/-- What stands for a value is not trivia. -/
theorem isTrivia_of_isLiteral {kind : TokenKind} (h : kind.isLiteral = true) :
    kind.isTrivia = false := by
  cases kind <;> first | rfl | cases h

/-- Where a literal is read without complaint, there is one, and its token is last in it. -/
theorem literal_of_quiet {i : Input} (quiet : (literal i).remarks = []) :
    ∃ es cs t, (literal i).elements = es ++ [.node .literal (cs ++ [.token t])] ∧
      heads es = [] ∧ t.isTrivia = false := by
  unfold literal at quiet ⊢
  split at quiet
  · exact absurd quiet reject_remarks_ne_nil
  · rename_i kind _ next
    split at quiet
    · rename_i isLiteral
      obtain ⟨cs, t, built, hk⟩ := exists_bump_elements (i := (settle i).rest) next
      refine ⟨(settle i).elements, cs, t, ?_, heads_settle i, ?_⟩
      · rw [if_pos isLiteral, Reading.append_elements, Rule.node, built]
      · rw [Token.isTrivia, hk]
        exact isTrivia_of_isLiteral isLiteral
    · exact absurd quiet complain_remarks_ne_nil
  · exact absurd quiet complain_remarks_ne_nil

/-- What a rule makes without complaint is complete. -/
theorem complete_of_quiet {q : Rule} (makes : Makes q) {j : Input} (quiet : (q j).remarks = [])
    {m : Node} (h : (q j).elements = [.node m.kind m.children]) : m.isIncomplete = false := by
  obtain ⟨kind, children, start⟩ := m
  have named {ps : List Rule} (mem : expect .identifier ∈ ps) (i : Input)
      (silent : (inOrder ps i).remarks = []) (k : NodeKind) :
      (⟨k, (inOrder ps i).elements, start⟩ : Node).nameToken?.isNone = false := by
    rw [← Option.not_isSome, Node.nameToken?_isSome (ensures_inOrder ensures_name mem i silent)]
    rfl
  cases makes with
  | typeDecl =>
    cases h
    exact named (by simp) j quiet .typeDecl
  | methodDecl =>
    cases h
    exact named (by simp) j quiet .methodDecl
  | attributeItem =>
    cases h
    exact named (by simp) j quiet .attributeItem
  | param =>
    obtain ⟨es, cs, fs, built, first, typeNamed, name⟩ := param_of_quiet quiet
    cases h
    exact Node.param_complete rfl built first typeNamed name
  | defaultValue =>
    obtain ⟨-, quietRest⟩ := quiet_append quiet
    obtain ⟨es, cs, t, built, plain, significant⟩ := literal_of_quiet (quiet_append quietRest).1
    cases h
    have first : .literal ∉ heads ((bump j).elements ++ es) := by
      rw [heads_append, heads_bump, plain]
      exact List.not_mem_nil
    have whole : (bump j).elements ++ (inOrder [literal] (bump j).rest).elements =
        (bump j).elements ++ es ++ .node .literal (cs ++ [.token t]) :: [] := by
      simp only [inOrder, Reading.append_elements, built, List.append_nil, List.append_assoc]
    exact Node.defaultValue_complete rfl whole first significant
  | error | literal | typeRef | attributeArgs | paramList | genericList =>
    cases h
    rfl

end Grammar

/-! ### Where the complaint stands -/

section Placing

variable {start : Nat} {ts us : List Token}

/-- Tokens behind others are placed behind their bytes. -/
theorem placeTokens_append : placeTokens start (ts ++ us) =
    placeTokens start ts ++
      placeTokens (start + Text.byteLength (ts.flatMap Token.chars)) us := by
  induction ts generalizing start with
  | nil => rfl
  | cons t ts ih =>
    rw [List.cons_append, placeTokens, placeTokens, ih, List.flatMap_cons, Text.byteLength_append,
      ← Nat.add_assoc]
    split <;> rfl

/-- As many tokens are placed as carry meaning. -/
theorem length_placeTokens : (placeTokens start ts).length = lexemeCount ts := by
  rw [← List.length_map (f := PlacedToken.token), placeTokens_map_token]
  rfl

/-- A token behind the first ones starts behind their bytes. -/
theorem le_start_of_getElem?_placeTokens {k : Nat} {t : PlacedToken}
    (h : (placeTokens start (ts ++ us))[k]? = some t) (behind : lexemeCount ts ≤ k) :
    start + Text.byteLength (ts.flatMap Token.chars) ≤ t.start := by
  rw [placeTokens_append, List.getElem?_append_right (by rwa [length_placeTokens])] at h
  exact start_le_of_mem_placeTokens (List.mem_of_getElem? h)

/-- A token starts before the end of the text. -/
theorem start_lt_of_mem_placeTokens {t : PlacedToken} (h : t ∈ placeTokens start ts)
    (chars : ∀ t ∈ ts, t.chars ≠ []) :
    t.start < start + Text.byteLength (ts.flatMap Token.chars) := by
  have stop : t.start + Text.byteLength t.token.chars ≤
      start + Text.byteLength (ts.flatMap Token.chars) := stop_le_of_mem_placeTokens h
  have some := byteLength_pos (chars t.token (token_mem_of_mem_placeTokens h))
  omega

variable {text : List Char} {r : Remark}

/-- A remark at a lexeme behind some tokens is located behind them. -/
theorem le_start_locate (split : lex text = ts ++ us) (behind : lexemeCount ts ≤ r.index) :
    Text.byteLength (ts.flatMap Token.chars) ≤
      (r.locate (placedLexemes text).toArray (Text.byteLength text)).range.start := by
  unfold Remark.locate
  rw [List.getElem?_toArray]
  split
  · rename_i t ht
    rw [placedLexemes, split] at ht
    have bound := le_start_of_getElem?_placeTokens ht behind
    rwa [Nat.zero_add] at bound
  · have chars : text = (ts ++ us).flatMap Token.chars := by rw [← split, lex_chars]
    rw [chars, List.flatMap_append, Text.byteLength_append]
    exact Nat.le_add_right _ _

/-- A remark at a lexeme of some tokens, or at the one behind them, is located no later than that. -/
theorem start_locate_le (split : lex text = ts ++ us) (upto : r.index ≤ lexemeCount ts) :
    (r.locate (placedLexemes text).toArray (Text.byteLength text)).range.start ≤
      firstLexemeFrom text (Text.byteLength (ts.flatMap Token.chars)) := by
  have ordered := placeTokens_pairwise 0 (lex_chars_ne_nil text)
  have placed : placedLexemes text = placeTokens 0 (ts ++ us) := by rw [placedLexemes, split]
  have chars : ∀ t ∈ ts ++ us, t.chars ≠ [] := by
    rw [← split]
    exact lex_chars_ne_nil text
  have all : text = (ts ++ us).flatMap Token.chars := by rw [← split, lex_chars]
  unfold firstLexemeFrom Remark.locate
  rw [List.getElem?_toArray]
  cases found : (placedLexemes text).find? (Text.byteLength (ts.flatMap Token.chars) ≤ ·.start) with
  | none =>
    show _ ≤ Text.byteLength text
    split
    · rename_i t ht
      have mem := List.mem_of_getElem? ht
      rw [placed] at mem
      have bound := start_lt_of_mem_placeTokens mem chars
      rw [← all, Nat.zero_add] at bound
      exact Nat.le_of_lt bound
    · exact Nat.le_refl _
  | some u =>
    obtain ⟨behind, k, hk, rfl, -⟩ := List.find?_eq_some_iff_getElem.mp found
    -- The lexeme that was found is none of the tokens, so the remark is at it or before it.
    have late : lexemeCount ts ≤ k := by
      by_contra early
      have inside : (placedLexemes text)[k] ∈ placeTokens 0 ts := by
        have at_ : (placeTokens 0 ts)[k]? = some (placedLexemes text)[k] := by
          rw [← List.getElem?_eq_getElem hk, placed, placeTokens_append,
            List.getElem?_append_left (by rw [length_placeTokens]; omega)]
        exact List.mem_of_getElem? at_
      have before := start_lt_of_mem_placeTokens inside fun t ht =>
        chars t (List.mem_append_left us ht)
      have := of_decide_eq_true behind
      omega
    have bound : r.index < (placedLexemes text).length := by omega
    rw [List.getElem?_eq_getElem bound]
    show (placedLexemes text)[r.index].start ≤ (placedLexemes text)[k].start
    rcases Nat.lt_or_eq_of_le (Nat.le_trans upto late) with less | same
    · exact Nat.le_of_lt (List.pairwise_iff_getElem.mp ordered _ _ bound hk less)
    · simp only [same, Nat.le_refl]

end Placing

/-- What is incomplete has been complained about, between its first byte and the first significant
token behind it. -/
theorem exists_error_of_isIncomplete {text : List Char} {m : Node} (h : (parse text).root.Holds m)
    (incomplete : m.isIncomplete = true) :
    ∃ e ∈ (parse text).errors,
      m.start ≤ e.range.start ∧ e.range.start ≤ firstLexemeFrom text m.range.stop := by
  have inner : m.kind ≠ .root := by
    intro root
    rw [Node.isIncomplete, root] at incomplete
    cases incomplete
  obtain ⟨before, after, split, place, q, j, makes, -, built, remarks⟩ := made_of_holds h inner
  have loud : (q j).remarks ≠ [] := by
    intro quiet
    rw [Grammar.complete_of_quiet makes quiet built] at incomplete
    cases incomplete
  obtain ⟨r, hr⟩ := List.exists_mem_of_ne_nil _ loud
  obtain ⟨listed, behind, upto⟩ := remarks r hr
  have stop : m.range.stop =
      Text.byteLength ((before ++ Element.tokensOf m.children).flatMap Token.chars) := by
    rw [m.stop_eq, place, List.flatMap_append, Text.byteLength_append]
    rfl
  refine ⟨_, List.mem_map_of_mem listed, ?_, ?_⟩
  · rw [place]
    exact le_start_locate (split.trans (List.append_assoc _ _ _)) behind
  · rw [stop]
    exact start_locate_le split (by rwa [lexemeCount_append])

end DeclFront
