import DeclFront.Proofs.Syntax.Places

/-!
# A text is read to its end

Reading a text comes to an end for every text, however malformed: each loop of the grammar takes a
lexeme in every turn but its last, so it has at most one turn more than there are lexemes. What comes
of it is one root and no other root inside it. The tokens of the root are the tokens of the text, and
every node inside it is spelled in the text at its place.
-/

set_option autoImplicit false

namespace DeclFront

namespace Rule

/-- From an input on, a loop ends in its `n`-th turn and has then read `a`. -/
inductive Takes (turn : Input → Turn) : Input → Nat → Reading → Prop where
  | last {i : Input} {a : Reading} : turn i = .last a → Takes turn i 1 a
  | again {i : Input} {n : Nat} {a b : Reading} :
    turn i = .again a → Takes turn a.rest n b → Takes turn i (n + 1) (a ++ b)

/-- A loop that takes a lexeme in every turn but the last ends, and what it has read then is its
result. -/
theorem loop_takes {turn : Input → Turn} (advances : Advances turn) (i : Input) :
    ∃ n ≤ i.lexemes.length + 1, Takes turn i n (loop turn advances i) := by
  revert i
  apply loop_induction (motive := fun i r => ∃ n ≤ i.lexemes.length + 1, Takes turn i n r)
  · intro i a h
    exact ⟨1, by omega, .last h⟩
  · intro i a b h others
    obtain ⟨k, bound, rest⟩ := others
    have shorter := advances i a h
    exact ⟨k + 1, by omega, .again h rest⟩

/-- Nothing that was built is a root. -/
def Rootless (_ : Input) (a : Reading) : Prop :=
  NodeKind.root ∉ Element.nodeKindsOf a.elements

/-- To take the gap builds no root. -/
theorem settle_rootless (i : Input) : Rootless i (settle i) := by
  unfold Rootless settle
  rw [Element.nodeKindsOf_map_token]
  exact List.not_mem_nil

/-- Two readings without a root have none together. -/
theorem Rootless.append {i j : Input} {a b : Reading} (ha : Rootless i a) (hb : Rootless j b) :
    Rootless i (a ++ b) := by
  unfold Rootless at ha hb ⊢
  rw [Reading.append_elements, Element.nodeKindsOf_append, List.mem_append]
  rintro (h | h)
  · exact ha h
  · exact hb h

/-- To take a lexeme builds no root. -/
theorem bump_rootless (i : Input) : Rootless i (bump i) := by
  unfold bump
  split
  · exact settle_rootless i
  · have token (t : Token) : NodeKind.root ∉ Element.nodeKindsOf [.token t] := by
      simp [Element.nodeKindsOf, Element.nodeKinds]
    exact (settle_rootless i).append (j := i) (token _)

/-- No step of the grammar builds a root. -/
theorem rootless_chains : Chains Rootless where
  nothing i := List.not_mem_nil
  settle := settle_rootless
  bump := bump_rootless
  complain c i := (settle_rootless i).append (j := i) List.not_mem_nil
  node kind p i made hp := by
    unfold Rootless at hp ⊢
    rw [node, Element.nodeKindsOf_node, List.mem_cons]
    rintro (h | h)
    · exact made.ne_root h.symm
    · exact hp h
  append i a b := Rootless.append

end Rule

/-- The loops of the grammar, each with the progress that it makes. -/
def Grammar.loops : List { turn : Input → Rule.Turn // Rule.Advances turn } :=
  [⟨fileTurn, fileTurn_advances⟩, ⟨memberTurn, memberTurn_advances⟩,
    ⟨paramTurn, paramTurn_advances⟩, ⟨genericTurn, genericTurn_advances⟩,
    ⟨attributeTurn, attributeTurn_advances⟩, ⟨argumentTurn, argumentTurn_advances⟩]

/-- The tree of a text has one root. -/
theorem count_root_parse (text : List Char) :
    (parse text).root.element.nodeKinds.count .root = 1 := by
  have inner : NodeKind.root ∉ Element.nodeKindsOf (parse text).children :=
    Grammar.fileLoop_kept Rule.rootless_chains.kept (Input.ofTokens (lex text))
  show (NodeKind.root :: Element.nodeKindsOf (parse text).children).count .root = 1
  rw [List.count_cons_self, List.count_eq_zero.mpr inner]

/-- The characters of the tree are the text. -/
theorem chars_root_parse (text : List Char) : (parse text).root.chars = text := by
  show (Element.tokensOf (parse text).children).flatMap Token.chars = text
  rw [parse_tokens, lex_chars]

/-- The tree is spelled in the text from the start to the end. -/
theorem root_spelledIn (text : List Char) : (parse text).root.SpelledIn text := by
  refine ⟨[], [], by simp [chars_root_parse], rfl, ?_⟩
  rw [Node.stop_eq, List.nil_append]
  exact Nat.zero_add _

/-- A token that is placed ends within the bytes of the text. -/
theorem stop_le_of_mem_placeTokens {start : Nat} {ts : List Token} {t : PlacedToken}
    (h : t ∈ placeTokens start ts) :
    t.range.stop ≤ start + Text.byteLength (ts.flatMap Token.chars) := by
  induction ts generalizing start with
  | nil => simp [placeTokens] at h
  | cons u us ih =>
    have later (h : t ∈ placeTokens (start + Text.byteLength u.chars) us) :
        t.range.stop ≤ start + Text.byteLength ((u :: us).flatMap Token.chars) := by
      have bound := ih h
      rw [List.flatMap_cons, Text.byteLength_append]
      omega
    unfold placeTokens at h
    dsimp only at h
    split at h
    · exact later h
    · rcases List.mem_cons.mp h with rfl | h
      · rw [List.flatMap_cons, Text.byteLength_append, ← Nat.add_assoc]
        exact Nat.le_add_right _ _
      · exact later h

/-- No error is about bytes behind the end of the text. -/
theorem errors_within (text : List Char) :
    ∀ e ∈ (parse text).errors,
      e.range.start ≤ e.range.stop ∧ e.range.stop ≤ Text.byteLength text := by
  intro e he
  obtain ⟨r, -, rfl⟩ := List.mem_map.mp he
  unfold Remark.locate
  split
  · rename_i t ht
    have placed := List.mem_of_getElem? (List.getElem?_toArray ▸ ht)
    have bound := stop_le_of_mem_placeTokens placed
    rw [lex_chars, Nat.zero_add] at bound
    exact ⟨Nat.le_add_right _ _, bound⟩
  · exact ⟨Nat.le_refl _, Nat.le_refl _⟩

/-- Every loop of the grammar ends, from whatever input on. Reading a text as a file leaves nothing
unread and builds one tree, whose only root is at its top. Its tokens are those of the text, trivia
included, and its characters are the text; inside it, parts lie within what they are parts of, one
behind another, and every node is spelled in the text at its place. No offset lies behind the end
of the text, so they fit 32 bits if the length of the text does. -/
theorem parse_reads_whole_text (text : List Char) :
    (∀ l ∈ Grammar.loops, ∀ i, ∃ n ≤ i.lexemes.length + 1,
      Rule.Takes l.1 i n (Rule.loop l.1 l.2 i)) ∧
    (Grammar.file (.ofTokens (lex text))).elements = [(parse text).root.element] ∧
    (Grammar.file (.ofTokens (lex text))).rest.tokens = [] ∧
    (parse text).root.kind = .root ∧
    (parse text).root.element.nodeKinds.count .root = 1 ∧
    (∀ m, (parse text).root.Holds m → m.Nested ∧ m.SpelledIn text) ∧
    (parse text).root.element.tokens = lex text ∧
    (parse text).root.chars = text ∧
    (parse text).root.range = ⟨0, Text.byteLength text⟩ ∧
    (∀ e ∈ (parse text).errors, e.range.start ≤ e.range.stop ∧
      e.range.stop ≤ Text.byteLength text) := by
  refine ⟨fun l _ => Rule.loop_takes l.2, rfl, Grammar.fileLoop_reads_all _, rfl,
    count_root_parse text, fun m hm => ⟨m.nested, hm.spelledIn (root_spelledIn text)⟩,
    parse_tokens text, chars_root_parse text, ?_, errors_within text⟩
  have stop := (parse text).root.stop_eq
  rw [chars_root_parse] at stop
  exact congrArg (Range.mk 0) (stop.trans (Nat.zero_add _))

end DeclFront
