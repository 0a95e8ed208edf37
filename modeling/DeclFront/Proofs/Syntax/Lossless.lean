import DeclFront.Proofs.Syntax.Steps

/-!
# Nothing is lost

What a rule has built and what it has left unread are together the tokens that it was given, in
their order. Nothing is left unread at the end of a file, so the tokens of its tree are the tokens
of its text.
-/

set_option autoImplicit false

namespace DeclFront

namespace Element

/-- The tokens of trees are those of the first, and then those of the others. -/
theorem tokensOf_append (es fs : List Element) :
    tokensOf (es ++ fs) = tokensOf es ++ tokensOf fs := by
  induction es with
  | nil => rfl
  | cons e es ih => rw [List.cons_append, tokensOf, tokensOf, ih, List.append_assoc]

/-- Tokens as trees have themselves for tokens. -/
theorem tokensOf_map_token (ts : List Token) : tokensOf (ts.map .token) = ts := by
  induction ts with
  | nil => rfl
  | cons t ts ih =>
    rw [List.map_cons, tokensOf, ih]
    rfl

/-- A single tree has its own tokens. -/
theorem tokensOf_singleton (e : Element) : tokensOf [e] = e.tokens := by
  rw [tokensOf, tokensOf, List.append_nil]

end Element

namespace Node

/-- The tokens of the parts of a node are among its tokens. -/
theorem mem_tokensOf_of_mem_nodesFrom {start : Nat} {es : List Element} {m : Node} {t : Token}
    (hm : m ∈ nodesFrom start es) (ht : t ∈ Element.tokensOf m.children) :
    t ∈ Element.tokensOf es := by
  induction es generalizing start with
  | nil => simp [nodesFrom] at hm
  | cons e es ih =>
    rw [Element.tokensOf, List.mem_append]
    cases e with
    | token u => exact .inr (ih hm)
    | node kind children =>
      rcases List.mem_cons.mp hm with rfl | hm
      · exact .inl ht
      · exact .inr (ih hm)

/-- A token that stands directly among trees is one of their tokens. -/
theorem mem_tokensOf_of_mem_tokensFrom {start : Nat} {es : List Element} {t : PlacedToken}
    (ht : t ∈ tokensFrom start es) : t.token ∈ Element.tokensOf es := by
  induction es generalizing start with
  | nil => simp [tokensFrom] at ht
  | cons e es ih =>
    rw [Element.tokensOf, List.mem_append]
    cases e with
    | token u =>
      rcases List.mem_cons.mp ht with rfl | ht
      · exact .inl (List.mem_singleton.mpr rfl)
      · exact .inr (ih ht)
    | node kind children => exact .inr (ih ht)

end Node

namespace Input

/-- Grouping tokens into lexemes keeps all of them, in order. -/
theorem tokens_group (ts : List Token) :
    (group ts).flatMap (fun l => l.token :: l.trailing) = ts := by
  induction hn : ts.length using Nat.strongRecOn generalizing ts with
  | ind n ih =>
    cases ts with
    | nil => simp [group]
    | cons t ts =>
      have shorter := (List.dropWhile_sublist Token.isTrivia (l := ts)).length_le
      have length : (t :: ts).length = ts.length + 1 := rfl
      rw [group, List.flatMap_cons, ih _ (by omega) _ rfl, List.cons_append,
        List.takeWhile_append_dropWhile]

/-- What is given to be read is all tokens of a text. -/
theorem tokens_ofTokens (ts : List Token) : (ofTokens ts).tokens = ts := by
  rw [tokens, ofTokens, tokens_group, List.takeWhile_append_dropWhile]

/-- A gap that is placed stands in front of what is left. -/
theorem tokens_settled (i : Input) : i.gap ++ i.settled.tokens = i.tokens := rfl

end Input

namespace Rule

/-- What was built and what was left unread are what was given. -/
def Lossless (i : Input) (a : Reading) : Prop :=
  Element.tokensOf a.elements ++ a.rest.tokens = i.tokens

/-- Two readings lose nothing if neither does. -/
theorem Lossless.append {i : Input} {a b : Reading} (ha : Lossless i a) (hb : Lossless a.rest b) :
    Lossless i (a ++ b) := by
  unfold Lossless at ha hb ⊢
  rw [Reading.append_elements, Reading.append_rest, Element.tokensOf_append, List.append_assoc,
    hb, ha]

/-- Placing a gap loses nothing. -/
theorem settle_lossless (i : Input) : Lossless i (settle i) := by
  unfold Lossless settle
  rw [Element.tokensOf_map_token]
  exact i.tokens_settled

/-- Taking a lexeme loses nothing. -/
theorem bump_lossless (i : Input) : Lossless i (bump i) := by
  unfold bump
  split
  · exact settle_lossless i
  · rename_i l ls lexemes
    refine (settle_lossless i).append ?_
    unfold Lossless
    rw [Element.tokensOf_singleton]
    simp [Input.tokens, settle, Input.settled, lexemes, Element.tokens]

/-- No step of any rule loses anything. -/
theorem lossless_chains : Chains Lossless where
  nothing i := rfl
  settle := settle_lossless
  bump := bump_lossless
  complain c i := (settle_lossless i).append rfl
  node kind p i _ hp := by
    unfold Lossless at hp ⊢
    rw [node, Element.tokensOf_singleton]
    exact hp
  append i a b := Lossless.append

end Rule

namespace Grammar

open Rule

/-- The types of a file are read to the end. -/
theorem fileLoop_reads_all (i : Input) :
    (loop fileTurn fileTurn_advances i).rest.tokens = [] := by
  apply loop_induction (motive := fun _ r => r.rest.tokens = [])
  · intro i a turn
    unfold fileTurn at turn
    split at turn
    · rename_i done
      cases turn
      rw [Input.next?, Option.map_eq_none_iff, List.head?_eq_none_iff] at done
      simp [settle, Input.settled, Input.tokens, done]
    · simp at turn
    · simp at turn
    · simp at turn
  · intro i a b _ others
    rw [Reading.append_rest]
    exact others

end Grammar

/-- The tokens of a tree are the tokens of the text it was read from. -/
theorem parse_tokens (text : List Char) : Element.tokensOf (parse text).children = lex text := by
  have all := Grammar.fileLoop_kept Rule.lossless_chains.kept (Input.ofTokens (lex text))
  unfold Rule.Lossless at all
  rw [Grammar.fileLoop_reads_all, List.append_nil, Input.tokens_ofTokens] at all
  exact all

end DeclFront
