import DeclFront.Proofs.Syntax.Formatting

/-!
# Every node was made by a rule

Wherever a node stands in what was read, some rule made it there: the rule began at the lexeme with
which the node begins, and all that it complained about is among the complaints of the whole, at
lexemes from there up to the one behind the node. So what is known of a rule and its complaints can
be carried to all nodes of a tree.
-/

set_option autoImplicit false

namespace DeclFront

/-- The number of tokens that carry meaning. -/
def lexemeCount (ts : List Token) : Nat :=
  (ts.filter fun t => !t.isTrivia).length

section Count

variable {ts us : List Token}

/-- Tokens behind one another carry the meaning of both. -/
theorem lexemeCount_append : lexemeCount (ts ++ us) = lexemeCount ts + lexemeCount us := by
  rw [lexemeCount, List.filter_append, List.length_append]
  rfl

/-- Trivia carries none. -/
theorem lexemeCount_of_trivia (h : ∀ t ∈ ts, t.isTrivia = true) : lexemeCount ts = 0 := by
  rw [lexemeCount, List.length_eq_zero_iff, List.filter_eq_nil_iff]
  intro t ht
  simp [h t ht]

/-- A token that is not trivia counts as one. -/
theorem lexemeCount_singleton {t : Token} (h : t.isTrivia = false) : lexemeCount [t] = 1 := by
  simp [lexemeCount, h]

end Count

namespace Element

/-- Among trees, at any depth and behind the given tokens, stands a node. -/
inductive Occurs (kind : NodeKind) (children : List Element) : List Element → List Token → Prop where
  | here {es : List Element} : Occurs kind children (.node kind children :: es) []
  | inside {k : NodeKind} {cs es : List Element} {before : List Token} :
    Occurs kind children cs before → Occurs kind children (.node k cs :: es) before
  | behind {e : Element} {es : List Element} {before : List Token} :
    Occurs kind children es before → Occurs kind children (e :: es) (e.tokens ++ before)

namespace Occurs

variable {kind : NodeKind} {children es fs : List Element} {before : List Token}

/-- The tokens of a node stand somewhere among those of the trees it occurs in. -/
theorem split (h : Occurs kind children es before) :
    ∃ after, tokensOf es = before ++ tokensOf children ++ after := by
  induction h with
  | @here es => exact ⟨tokensOf es, rfl⟩
  | @inside k cs es before _ ih =>
    obtain ⟨after, split⟩ := ih
    refine ⟨after ++ tokensOf es, ?_⟩
    rw [tokensOf, tokens, split, List.append_assoc]
  | @behind e es before _ ih =>
    obtain ⟨after, split⟩ := ih
    refine ⟨after, ?_⟩
    rw [tokensOf, split]
    simp only [List.append_assoc]

/-- What occurs in two rows of trees occurs in one of them. -/
theorem of_append (h : Occurs kind children (es ++ fs) before) :
    Occurs kind children es before ∨
      ∃ rest, before = tokensOf es ++ rest ∧ Occurs kind children fs rest := by
  induction es generalizing before with
  | nil => exact .inr ⟨before, rfl, h⟩
  | cons e es ih =>
    cases h with
    | here => exact .inl .here
    | inside h => exact .inl (.inside h)
    | @behind _ _ rest h =>
      rcases ih h with first | ⟨later, rfl, second⟩
      · exact .inl (.behind first)
      · exact .inr ⟨later, by rw [tokensOf, List.append_assoc], second⟩

/-- No node occurs among tokens. -/
theorem not_in_tokens {ts : List Token} : ¬ Occurs kind children (ts.map .token) before := by
  induction ts generalizing before with
  | nil => exact nofun
  | cons t ts ih =>
    intro h
    cases h with
    | behind h => exact ih h

/-- What occurs in something that occurs, occurs. -/
theorem trans {k : NodeKind} {cs : List Element} {rest : List Token}
    (h : Occurs k cs es before) (inner : Occurs kind children cs rest) :
    Occurs kind children es (before ++ rest) := by
  induction h with
  | here => exact .inside inner
  | inside _ ih => exact .inside ih
  | behind _ ih =>
    rw [List.append_assoc]
    exact .behind ih

end Occurs

/-- A node that occurs is counted among the kinds. -/
theorem mem_nodeKindsOf_of_occurs {kind : NodeKind} {children es : List Element}
    {before : List Token} (h : Occurs kind children es before) : kind ∈ nodeKindsOf es := by
  induction h with
  | here =>
    rw [nodeKindsOf, nodeKinds]
    exact List.mem_cons_self
  | inside _ ih =>
    rw [nodeKindsOf, nodeKinds]
    exact List.mem_append_left _ (List.mem_cons_of_mem _ ih)
  | behind _ ih =>
    rw [nodeKindsOf]
    exact List.mem_append_right _ ih

end Element

namespace Node

open Element (Occurs)

/-- A node that stands among trees occurs behind the tokens in front of it, which say where
it starts. -/
theorem occurs_of_mem_nodesFrom {start : Nat} {es : List Element} {m : Node}
    (h : m ∈ nodesFrom start es) : ∃ before, Occurs m.kind m.children es before ∧
      m.start = start + Text.byteLength (before.flatMap Token.chars) := by
  induction es generalizing start with
  | nil => simp [nodesFrom] at h
  | cons e es ih =>
    have later : ∀ {place : Nat}, place = start + e.byteLength → m ∈ nodesFrom place es →
        ∃ before, Occurs m.kind m.children (e :: es) before ∧
          m.start = start + Text.byteLength (before.flatMap Token.chars) := by
      intro place behind h
      obtain ⟨before, occurs, begins⟩ := ih h
      refine ⟨e.tokens ++ before, .behind occurs, ?_⟩
      rw [begins, behind, Element.byteLength_eq, List.flatMap_append, Text.byteLength_append]
      omega
    cases e with
    | token t => exact later rfl h
    | node kind children =>
      rcases List.mem_cons.mp h with rfl | h
      · exact ⟨[], .here, rfl⟩
      · exact later rfl h

/-- What a node holds, itself apart, occurs among its parts. -/
theorem Holds.occurs {n m : Node} (h : n.Holds m) :
    m = n ∨ ∃ before, Occurs m.kind m.children n.children before ∧
      m.start = n.start + Text.byteLength (before.flatMap Token.chars) := by
  induction h with
  | self => exact .inl rfl
  | @child k m _ hm ih =>
    obtain ⟨rest, inner, begins⟩ := occurs_of_mem_nodesFrom hm
    rcases ih with rfl | ⟨before, occurs, place⟩
    · exact .inr ⟨rest, inner, begins⟩
    · refine .inr ⟨before ++ rest, occurs.trans inner, ?_⟩
      rw [begins, place, List.flatMap_append, Text.byteLength_append]
      omega

end Node

namespace Rule

open Element (Occurs tokensOf)

/-- A rule made the node, beginning at the lexeme of the given number; what it complained about is
among the given remarks, and stands from that lexeme on up to the one behind the node. -/
def Made (remarks : List Remark) (index : Nat) (kind : NodeKind) (children : List Element) : Prop :=
  ∃ q j, Grammar.Makes q ∧ j.Proper ∧ (q j).elements = [.node kind children] ∧
    ∀ r ∈ (q j).remarks, r ∈ remarks ∧ index ≤ r.index ∧
      r.index ≤ index + lexemeCount (tokensOf children)

/-- Lexemes are counted, remarks stand among the lexemes that were read or at the next one, and every
node was made by a rule. -/
structure Traced (i : Input) (a : Reading) : Prop where
  proper : a.rest.Proper
  index : a.rest.index = i.index + lexemeCount (tokensOf a.elements)
  remarks : ∀ r ∈ a.remarks, i.index ≤ r.index ∧ r.index ≤ a.rest.index
  made : ∀ kind children before, Occurs kind children a.elements before →
    Made a.remarks (i.index + lexemeCount before) kind children

variable {i : Input} {a b : Reading}

/-- Who made a node does not depend on later remarks. -/
theorem Made.mono {remarks more : List Remark} {index : Nat} {kind : NodeKind}
    {children : List Element} (h : Made remarks index kind children) (le : ∀ r ∈ remarks, r ∈ more) :
    Made more index kind children := by
  obtain ⟨q, j, makes, proper, made, within⟩ := h
  exact ⟨q, j, makes, proper, made, fun r hr => ⟨le r (within r hr).1, (within r hr).2⟩⟩

/-- Two readings that count their lexemes make one. -/
theorem Traced.append (ha : Traced i a) (hb : Traced a.rest b) : Traced i (a ++ b) := by
  have first := ha.index
  have second := hb.index
  have total : (a ++ b).rest.index = i.index + lexemeCount (tokensOf (a ++ b).elements) := by
    rw [Reading.append_rest, Reading.append_elements, Element.tokensOf_append, lexemeCount_append]
    omega
  refine ⟨hb.proper, total, ?_, ?_⟩
  · intro r hr
    show i.index ≤ r.index ∧ r.index ≤ b.rest.index
    rcases List.mem_append.mp hr with hr | hr
    · have := ha.remarks r hr
      omega
    · have := hb.remarks r hr
      omega
  · intro kind children before occurs
    rcases occurs.of_append with inFirst | ⟨rest, rfl, inSecond⟩
    · exact (ha.made _ _ _ inFirst).mono fun r hr => List.mem_append_left _ hr
    · have made := hb.made _ _ _ inSecond
      rw [first, Nat.add_assoc, ← lexemeCount_append] at made
      exact made.mono fun r hr => List.mem_append_right _ hr

/-- To read nothing counts nothing. -/
theorem traced_nothing (h : i.Proper) : Traced i ⟨[], [], i⟩ :=
  ⟨h, rfl, nofun, nofun⟩

/-- Placing a gap counts no lexeme. -/
theorem settle_traced (h : i.Proper) : Traced i (settle i) := by
  refine ⟨h.settled, ?_, nofun, ?_⟩
  · show i.index = i.index + lexemeCount (tokensOf (i.gap.map .token))
    rw [Element.tokensOf_map_token, lexemeCount_of_trivia h.gap, Nat.add_zero]
  · intro kind children before occurs
    exact absurd occurs Occurs.not_in_tokens

/-- Taking a lexeme counts it, if there is one. -/
theorem bump_traced (h : i.Proper) : Traced i (bump i) := by
  obtain ⟨gap, lexemes, index⟩ := i
  cases lexemes with
  | nil => exact settle_traced h
  | cons l ls =>
    refine (settle_traced h).append (b := ⟨[.token l.token], [], ⟨l.trailing, ls, index + 1⟩⟩) ?_
    refine ⟨⟨?_, ?_, ?_⟩, ?_, nofun, ?_⟩
    · exact h.trailing l List.mem_cons_self
    · exact fun m hm => h.tokens m (List.mem_cons_of_mem l hm)
    · exact fun m hm => h.trailing m (List.mem_cons_of_mem l hm)
    · have one := lexemeCount_singleton (h.tokens l List.mem_cons_self)
      show index + 1 = index + lexemeCount (tokensOf [.token l.token])
      rw [Element.tokensOf_singleton, Element.tokens, one]
    · intro kind children before occurs
      exact absurd (show Occurs kind children ([l.token].map .token) before from occurs)
        Occurs.not_in_tokens

/-- A complaint stands at the next lexeme, and counts none. -/
theorem complain_traced (c : Complaint) (h : i.Proper) : Traced i (complain c i) := by
  refine (settle_traced h).append (b := ⟨[], [⟨i.index, c⟩], i.settled⟩) ⟨h.settled, rfl, ?_, nofun⟩
  intro r hr
  rw [List.mem_singleton.mp hr]
  exact ⟨Nat.le_refl _, Nat.le_refl _⟩

/-- A node that a rule makes was made by that rule, and what is inside it by what the rule is of. -/
theorem node_traced {kind : NodeKind} {p : Rule} (makes : Grammar.Makes (node kind p))
    (h : i.Proper) (hp : Traced i (p i)) : Traced i (node kind p i) := by
  have index : (p i).rest.index = i.index + lexemeCount (tokensOf [.node kind (p i).elements]) := by
    rw [Element.tokensOf_singleton]
    exact hp.index
  refine ⟨hp.proper, index, hp.remarks, ?_⟩
  intro k children before occurs
  cases occurs with
  | here =>
    refine ⟨node kind p, i, makes, h, rfl, ?_⟩
    intro r hr
    have bounds := hp.remarks r hr
    have total := hp.index
    have none : lexemeCount [] = 0 := rfl
    exact ⟨hr, by omega⟩
  | inside occurs => exact hp.made _ _ _ occurs
  | behind occurs => cases occurs

/-- Every step counts the lexemes it takes, stays at the next one with its remarks, and makes its
nodes by rules. -/
theorem traced_chains : Chains fun i a => i.Proper → Traced i a where
  nothing _ := traced_nothing
  settle _ := settle_traced
  bump _ := bump_traced
  complain c _ := complain_traced c
  node _ _ _ makes hp h := node_traced makes h (hp h)
  append _ _ _ ha hb h := (ha h).append (hb (ha h).proper)

end Rule

/-- Every node of a tree that was read from a text was made by a rule of the grammar, and what the
rule complained about is among the remarks. -/
theorem made_of_holds {text : List Char} {m : Node} (h : (parse text).root.Holds m)
    (inner : m.kind ≠ .root) :
    ∃ before after, lex text = before ++ Element.tokensOf m.children ++ after ∧
      m.start = Text.byteLength (before.flatMap Token.chars) ∧
      Rule.Made (Rule.loop Grammar.fileTurn Grammar.fileTurn_advances
        (Input.ofTokens (lex text))).remarks (lexemeCount before) m.kind m.children := by
  have traced := Grammar.fileLoop_kept Rule.traced_chains.kept _ (Input.ofTokens_proper (lex text))
  rcases h.occurs with rfl | ⟨before, occurs, place⟩
  · exact absurd rfl inner
  · obtain ⟨after, split⟩ := occurs.split
    have made := traced.made _ _ _ occurs
    have all : Element.tokensOf (parse text).root.children = lex text := parse_tokens text
    rw [all] at split
    rw [show (Input.ofTokens (lex text)).index = 0 from rfl, Nat.zero_add] at made
    exact ⟨before, after, split, place.trans (Nat.zero_add _), made⟩

end DeclFront
