import DeclFront.Proofs.Syntax.Places
import DeclFront.Proofs.Syntax.Views

/-!
# The same tree at another place

Moving a node moves everything inside it by as much and changes nothing else. So what is found in the
tree of a declaration rooted at zero is found in the file as well, by the offset of the declaration
further on. Tokens, like nodes, are spelled in the text at their place.
-/

set_option autoImplicit false

namespace DeclFront

/-- The text says `word` at the bytes of the range. -/
def Range.Spells (r : Range) (text word : List Char) : Prop :=
  ∃ before after, text = before ++ word ++ after ∧ r.start = Text.byteLength before ∧
    r.stop = Text.byteLength (before ++ word)

/-- The range lies within a text of the given number of bytes. -/
def Range.Within (r : Range) (length : Nat) : Prop :=
  r.start ≤ r.stop ∧ r.stop ≤ length

/-- Bytes at which something is spelled lie within the text. -/
theorem Range.Spells.within {r : Range} {text word : List Char} (h : r.Spells text word) :
    r.Within (Text.byteLength text) := by
  obtain ⟨before, after, split, start, stop⟩ := h
  have first := Text.byteLength_append before word
  have all := Text.byteLength_append (before ++ word) after
  rw [← split] at all
  unfold Within
  omega

/-- The same token, so many bytes further on. -/
def PlacedToken.moved (distance : Nat) (t : PlacedToken) : PlacedToken :=
  { t with start := t.start + distance }

namespace Node

/-- The same node, so many bytes further on. -/
def moved (distance : Nat) (n : Node) : Node :=
  { n with start := n.start + distance }

/-- A node that is moved takes its bytes so much further on. -/
theorem moved_range (distance : Nat) (n : Node) :
    (n.moved distance).range = n.range.shift distance := by
  have stop : n.start + distance + Element.byteLengthOf n.children =
      n.start + Element.byteLengthOf n.children + distance := by omega
  exact congrArg (Range.mk (n.start + distance)) stop

/-- Trees that start further on have their nodes further on. -/
theorem nodesFrom_moved (distance start : Nat) (es : List Element) :
    nodesFrom (start + distance) es = (nodesFrom start es).map (moved distance) := by
  induction es generalizing start with
  | nil => rfl
  | cons e es ih =>
    cases e with
    | token t =>
      rw [nodesFrom, nodesFrom, Nat.add_right_comm, ih]
    | node kind children =>
      rw [nodesFrom, nodesFrom, Nat.add_right_comm, ih]
      rfl

/-- Trees that start further on have their tokens further on. -/
theorem tokensFrom_moved (distance start : Nat) (es : List Element) :
    tokensFrom (start + distance) es = (tokensFrom start es).map (PlacedToken.moved distance) := by
  induction es generalizing start with
  | nil => rfl
  | cons e es ih =>
    cases e with
    | token t =>
      rw [tokensFrom, tokensFrom, Nat.add_right_comm, ih]
      rfl
    | node kind children =>
      rw [tokensFrom, tokensFrom, Nat.add_right_comm, ih]

section Rooted

variable (n : Node) (kind : NodeKind)

/-- The parts of a node are those of the same tree rooted at zero, moved to where it stands. -/
theorem childNodes_reroot : n.childNodes = n.reroot.childNodes.map (moved n.start) := by
  have whole := nodesFrom_moved n.start 0 n.children
  rwa [Nat.zero_add] at whole

/-- The parts of one kind are those of the same tree rooted at zero, moved. -/
theorem childrenOf_reroot :
    n.childrenOf kind = (n.reroot.childrenOf kind).map (moved n.start) := by
  rw [childrenOf, childNodes_reroot, List.filter_map]
  rfl

/-- The first part of one kind is that of the same tree rooted at zero, moved. -/
theorem childOf?_reroot : n.childOf? kind = (n.reroot.childOf? kind).map (moved n.start) := by
  rw [childOf?_eq_head?, childrenOf_reroot, List.head?_map, ← childOf?_eq_head?]

/-- The parts of a node move with it. -/
theorem childNodes_moved (distance : Nat) :
    (n.moved distance).childNodes = n.childNodes.map (moved distance) :=
  nodesFrom_moved distance n.start n.children

/-- The parts of one kind move with their node. -/
theorem childrenOf_moved (distance : Nat) :
    (n.moved distance).childrenOf kind = (n.childrenOf kind).map (moved distance) := by
  rw [childrenOf, childNodes_moved, List.filter_map]
  rfl

/-- The first part of one kind moves with its node. -/
theorem childOf?_moved (distance : Nat) :
    (n.moved distance).childOf? kind = (n.childOf? kind).map (moved distance) := by
  rw [childOf?_eq_head?, childrenOf_moved, List.head?_map, ← childOf?_eq_head?]

/-- The name of a node moves with it. -/
theorem nameToken?_moved (distance : Nat) :
    (n.moved distance).nameToken? = n.nameToken?.map (PlacedToken.moved distance) := by
  unfold nameToken? tokenOf? childTokens
  show (tokensFrom (n.start + distance) n.children).find? _ = _
  rw [tokensFrom_moved, List.find?_map]
  rfl

/-- The token of a literal moves with it. -/
theorem literalToken?_moved (distance : Nat) :
    (n.moved distance).literalToken? = n.literalToken?.map (PlacedToken.moved distance) := by
  unfold literalToken? childTokens
  show (tokensFrom (n.start + distance) n.children).find? _ = _
  rw [tokensFrom_moved, List.find?_map]
  rfl

/-- The arguments of an attribute move with it. -/
theorem arguments_moved (distance : Nat) :
    (n.moved distance).arguments = n.arguments.map (moved distance) := by
  unfold arguments argumentLists
  rw [childrenOf_moved, List.flatMap_map, List.map_flatMap]
  exact congrArg (List.flatMap · _) (funext fun list => list.childrenOf_moved .literal distance)

/-- Whether an argument list is broken does not depend on where it stands. -/
theorem hasMalformedArguments_moved (distance : Nat) :
    (n.moved distance).hasMalformedArguments = n.hasMalformedArguments := by
  unfold hasMalformedArguments argumentLists
  rw [childrenOf_moved, List.any_map]
  refine congrArg (List.any _) (funext fun list => ?_)
  rw [Function.comp_apply, childNodes_moved, List.any_map]
  rfl

end Rooted

/-- A token that is a part stands behind the parts before it. -/
theorem exists_split_of_mem_tokensFrom {start : Nat} {es : List Element} {t : PlacedToken}
    (h : t ∈ tokensFrom start es) : ∃ before after, es = before ++ .token t.token :: after ∧
      t.start = start + Element.byteLengthOf before := by
  induction es generalizing start with
  | nil => simp [tokensFrom] at h
  | cons e es ih =>
    have later (behind : t ∈ tokensFrom (start + e.byteLength) es) :
        ∃ before after, e :: es = before ++ .token t.token :: after ∧
          t.start = start + Element.byteLengthOf before := by
      obtain ⟨before, after, split, place⟩ := ih behind
      refine ⟨e :: before, after, by rw [split, List.cons_append], ?_⟩
      rw [place, Element.byteLengthOf]
      omega
    cases e with
    | token u =>
      rcases List.mem_cons.mp h with rfl | h
      · exact ⟨[], es, rfl, rfl⟩
      · exact later h
    | node kind children => exact later h

/-- A node that is spelled in a text takes bytes of it. -/
theorem SpelledIn.within {text : List Char} {n : Node} (h : n.SpelledIn text) :
    n.range.Within (Text.byteLength text) :=
  @Range.Spells.within n.range text n.chars h

/-- A token that is a part of a node that is spelled in a text is spelled in it. -/
theorem SpelledIn.childToken {text : List Char} {n : Node} {t : PlacedToken}
    (h : n.SpelledIn text) (ht : t ∈ n.childTokens) : t.range.Spells text t.token.chars := by
  obtain ⟨front, back, whole, start, -⟩ := h
  obtain ⟨before, after, split, place⟩ := exists_split_of_mem_tokensFrom ht
  have chars : n.chars = (Element.tokensOf before).flatMap Token.chars ++ t.token.chars ++
      (Element.tokensOf after).flatMap Token.chars := by
    unfold chars
    rw [split, Element.tokensOf_append, Element.tokensOf, Element.tokens]
    simp only [List.flatMap_append, List.flatMap_cons, List.flatMap_nil, List.append_nil,
      List.append_assoc]
  have left : t.start = Text.byteLength (front ++ (Element.tokensOf before).flatMap Token.chars) := by
    rw [place, start, Element.byteLengthOf_eq, Text.byteLength_append]
  refine ⟨_, (Element.tokensOf after).flatMap Token.chars ++ back, ?_, left, ?_⟩
  · rw [whole, chars]
    simp only [List.append_assoc]
  · rw [Text.byteLength_append, ← left]
    rfl

end Node

end DeclFront
