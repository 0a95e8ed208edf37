import DeclFront.Proofs.Syntax.Incomplete

/-!
# Errors inside a node come from the rule that made it

Rules read on: what is complained about before a node is begun stands no later than at its first
lexeme, and what is complained about once it is finished stands behind it. So the errors at any other
lexeme of a node are those of the rule that made the node, and to know where a list can be broken it
is enough to know what its own rule says.
-/

set_option autoImplicit false

namespace DeclFront

/-- The significant tokens of trees. -/
def Element.lexemesOf (es : List Element) : List Token :=
  (tokensOf es).filter fun t => !t.isTrivia

/-- The significant tokens in a node at any depth, each at its place. -/
def Node.lexemes (n : Node) : List PlacedToken :=
  placeTokens n.start (Element.tokensOf n.children)

/-- Without their places the significant tokens in a node are those of its trees. -/
theorem Node.lexemes_map_token (n : Node) :
    n.lexemes.map PlacedToken.token = Element.lexemesOf n.children :=
  placeTokens_map_token _ _

/-- A node has as many lexemes as tokens that carry meaning. -/
theorem Node.length_lexemes (n : Node) :
    n.lexemes.length = lexemeCount (Element.tokensOf n.children) :=
  length_placeTokens

namespace Rule

open Element (Occurs tokensOf)

/-- The rule `q` made the node from the input `j`, beginning at the lexeme of the given number. What it
complained about is among the remarks, and of those nothing else stands at a later lexeme of the
node. -/
structure Origin (remarks : List Remark) (index : Nat) (kind : NodeKind) (children : List Element)
    (q : Rule) (j : Input) : Prop where
  makes : Grammar.Makes q
  proper : j.Proper
  first : j.index = index
  built : (q j).elements = [.node kind children]
  said : ∀ r ∈ (q j).remarks, r ∈ remarks
  heard : ∀ r ∈ remarks, index < r.index → r.index < index + lexemeCount (tokensOf children) →
    r ∈ (q j).remarks

/-- Every node in a reading has an origin. -/
def Sourced (i : Input) (a : Reading) : Prop :=
  ∀ kind children before, Occurs kind children a.elements before →
    ∃ q j, Origin a.remarks (i.index + lexemeCount before) kind children q j

variable {i : Input} {a b : Reading} {kind : NodeKind} {children : List Element} {q : Rule}
  {j : Input} {index : Nat} {remarks more : List Remark}

/-- Further remarks make no difference if none of them stands inside the node. -/
theorem Origin.mono (h : Origin remarks index kind children q j)
    (le : ∀ r ∈ remarks, r ∈ more)
    (apart : ∀ r ∈ more, r ∉ remarks →
      r.index ≤ index ∨ index + lexemeCount (tokensOf children) ≤ r.index) :
    Origin more index kind children q j := by
  refine ⟨h.makes, h.proper, h.first, h.built, fun r hr => le r (h.said r hr), ?_⟩
  intro r hr behind before
  by_cases own : r ∈ remarks
  · exact h.heard r own behind before
  · rcases apart r hr own with early | late
    · omega
    · omega

/-- Two readings whose nodes have origins make one. -/
theorem Sourced.append (first : Traced i a) (second : Traced a.rest b) (ha : Sourced i a)
    (hb : Sourced a.rest b) : Sourced i (a ++ b) := by
  intro kind children before occurs
  have between := first.index
  rcases occurs.of_append with inFirst | ⟨rest, rfl, inSecond⟩
  · obtain ⟨q, j, origin⟩ := ha _ _ _ inFirst
    obtain ⟨after, split⟩ := inFirst.split
    rw [split, lexemeCount_append, lexemeCount_append] at between
    refine ⟨q, j, origin.mono (fun r hr => List.mem_append_left _ hr) fun r hr other => .inr ?_⟩
    have late := second.remarks r ((List.mem_append.mp hr).resolve_left other)
    omega
  · obtain ⟨q, j, origin⟩ := hb _ _ _ inSecond
    rw [between, Nat.add_assoc, ← lexemeCount_append] at origin
    refine ⟨q, j, origin.mono (fun r hr => List.mem_append_right _ hr) fun r hr other => .inl ?_⟩
    have early := first.remarks r ((List.mem_append.mp hr).resolve_right other)
    rw [lexemeCount_append]
    omega

/-- Where only tokens are read, there is no node to have an origin. -/
theorem sourced_of_tokens (ts : List Token) (h : a.elements = ts.map .token) : Sourced i a := by
  intro kind children before occurs
  rw [h] at occurs
  exact absurd occurs Occurs.not_in_tokens

/-- Taking a lexeme makes no node. -/
theorem bump_sourced (i : Input) : Sourced i (bump i) := by
  have settled : Sourced i (settle i) := sourced_of_tokens i.gap rfl
  unfold bump
  split
  · exact settled
  · rename_i l ls _
    refine sourced_of_tokens (i.gap ++ [l.token]) ?_
    rw [List.map_append]
    rfl

/-- A node has its origin in the rule that makes it, and the nodes inside it keep theirs. -/
theorem node_sourced {kind : NodeKind} {p : Rule} (makes : Grammar.Makes (node kind p))
    (h : i.Proper) (hp : Sourced i (p i)) : Sourced i (node kind p i) := by
  intro k children before occurs
  cases occurs with
  | here => exact ⟨node kind p, i, makes, h, rfl, rfl, fun r hr => hr, fun r hr _ _ => hr⟩
  | inside occurs => exact hp _ _ _ occurs
  | behind occurs => cases occurs

/-- Every step gives the nodes that it makes an origin. -/
theorem sourced_chains : Chains fun i a => i.Proper → Traced i a ∧ Sourced i a where
  nothing _ h := ⟨traced_nothing h, sourced_of_tokens [] rfl⟩
  settle i h := ⟨settle_traced h, sourced_of_tokens i.gap rfl⟩
  bump i h := ⟨bump_traced h, bump_sourced i⟩
  complain c i h := ⟨complain_traced c h, sourced_of_tokens i.gap (List.append_nil _)⟩
  node _ _ _ makes hp h := ⟨node_traced makes h (hp h).1, node_sourced makes h (hp h).2⟩
  append _ _ _ ha hb h :=
    have first := (ha h).1
    have second := hb first.proper
    ⟨first.append second.1, Sourced.append first second.1 (ha h).2 second.2⟩

end Rule

/-! ### Trees that were read from texts -/

/-- What was complained about when a text was read. -/
def remarksOf (text : List Char) : List Remark :=
  (Rule.loop Grammar.fileTurn Grammar.fileTurn_advances (Input.ofTokens (lex text))).remarks

/-- Where a remark about a text is located. -/
def Remark.locateIn (r : Remark) (text : List Char) : SyntaxError :=
  r.locate (placedLexemes text).toArray (Text.byteLength text)

/-- The errors of a text are the remarks about it, each at its place. -/
theorem errors_eq_remarks (text : List Char) :
    (parse text).errors = (remarksOf text).map (·.locateIn text) := rfl

/-- Every node of a tree but its root has an origin, and its lexemes are found among those of the
text. -/
theorem origin_of_holds {text : List Char} {m : Node} (h : (parse text).root.Holds m)
    (inner : m.kind ≠ .root) :
    ∃ index q j, Rule.Origin (remarksOf text) index m.kind m.children q j ∧
      ∀ k < m.lexemes.length, (placedLexemes text)[index + k]? = m.lexemes[k]? := by
  have sourced := (Grammar.fileLoop_kept Rule.sourced_chains.kept _
    (Input.ofTokens_proper (lex text))).2
  rcases h.occurs with rfl | ⟨before, occurs, place⟩
  · exact absurd rfl inner
  · obtain ⟨after, split⟩ := occurs.split
    obtain ⟨q, j, origin⟩ := sourced _ _ _ occurs
    have all : Element.tokensOf (parse text).root.children = lex text := parse_tokens text
    rw [all, List.append_assoc] at split
    rw [show (Input.ofTokens (lex text)).index = 0 from rfl, Nat.zero_add] at origin
    refine ⟨_, q, j, origin, fun k bound => ?_⟩
    have start : 0 + Text.byteLength (before.flatMap Token.chars) = m.start := place.symm
    have own : k < (placeTokens m.start (Element.tokensOf m.children)).length := bound
    rw [placedLexemes, split, placeTokens_append, placeTokens_append, start,
      List.getElem?_append_right (by rw [length_placeTokens]; omega), length_placeTokens,
      Nat.add_sub_cancel_left, List.getElem?_append_left own]
    rfl

/-- The error of a remark has the bytes of a significant token exactly if it was made there. -/
theorem range_locateIn {text : List Char} {k : Nat} {t : PlacedToken}
    (h : (placedLexemes text)[k]? = some t) (r : Remark) :
    (r.locateIn text).range = t.range ↔ r.index = k := by
  constructor
  · intro same
    have anchored : (r.locateIn text).anchor? text = some k := by
      unfold SyntaxError.anchor?
      rw [same]
      exact findIdx?_range text h
    rw [Remark.locateIn, anchor?_locate] at anchored
    split at anchored
    · exact Option.some.inj anchored
    · cases anchored
  · rintro rfl
    unfold Remark.locateIn Remark.locate
    rw [List.getElem?_toArray, h]

end DeclFront
