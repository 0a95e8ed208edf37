import DeclFront.Proofs.Syntax.Lossless
import Mathlib.Data.List.TakeWhile

/-!
# Trivia makes no difference

Reading is blind to trivia: what a rule makes of an input, with the trivia left out, is what it makes
of the input without trivia, and its complaints are the same. Every step is blind in this way, so
reading a file is.
-/

set_option autoImplicit false

namespace DeclFront

namespace Element

mutual

/-- A tree without its trivia; nothing is left of trivia itself. -/
def bare : Element → List Element
  | .token t => if t.isTrivia then [] else [.token t]
  | .node kind children => [.node kind (bareOf children)]

/-- Trees without their trivia. -/
def bareOf : List Element → List Element
  | [] => []
  | e :: es => e.bare ++ bareOf es

end

/-- Trees next to each other lose their trivia one by one. -/
theorem bareOf_append (es fs : List Element) : bareOf (es ++ fs) = bareOf es ++ bareOf fs := by
  induction es with
  | nil => rfl
  | cons e es ih => rw [List.cons_append, bareOf, bareOf, ih, List.append_assoc]

/-- Nothing is left of trivia. -/
theorem bareOf_trivia {ts : List Token} (h : ∀ t ∈ ts, t.isTrivia = true) :
    bareOf (ts.map .token) = [] := by
  induction ts with
  | nil => rfl
  | cons t ts ih =>
    rw [List.map_cons, bareOf, bare, if_pos (h t List.mem_cons_self),
      ih fun u hu => h u (List.mem_cons_of_mem t hu)]
    rfl

/-- A token that is not trivia stays. -/
theorem bareOf_token {t : Token} (h : t.isTrivia = false) : bareOf [.token t] = [.token t] := by
  rw [bareOf, bare, if_neg (by simp [h])]
  rfl

/-- A node stays, and its parts lose their trivia. -/
theorem bareOf_node (kind : NodeKind) (es : List Element) :
    bareOf [.node kind es] = [.node kind (bareOf es)] := by
  rw [bareOf, bare, bareOf, List.append_nil]

end Element

namespace Input

/-- Trivia stands in the gap and behind lexemes, and nowhere else. -/
structure Proper (i : Input) : Prop where
  gap : ∀ t ∈ i.gap, t.isTrivia = true
  tokens : ∀ l ∈ i.lexemes, l.token.isTrivia = false
  trailing : ∀ l ∈ i.lexemes, ∀ t ∈ l.trailing, t.isTrivia = true

/-- The input without its trivia. -/
def bare (i : Input) : Input :=
  ⟨[], i.lexemes.map fun l => ⟨l.token, []⟩, i.index⟩

/-- An input without its trivia has the same kinds to read. -/
theorem kinds_bare (i : Input) : i.bare.kinds = i.kinds := by
  unfold kinds bare
  rw [List.map_map]
  rfl

/-- When the gap has been taken, trivia still stands only where it may. -/
theorem Proper.settled {i : Input} (h : i.Proper) : i.settled.Proper :=
  ⟨by simp [Input.settled], h.tokens, h.trailing⟩

end Input

/-- A reading without its trivia. -/
def Reading.bare (a : Reading) : Reading :=
  ⟨Element.bareOf a.elements, a.remarks, a.rest.bare⟩

/-- Readings one after another lose their trivia one by one. -/
theorem Reading.bare_append (a b : Reading) : (a ++ b).bare = a.bare ++ b.bare := by
  show Reading.mk _ _ _ = Reading.mk _ _ _
  rw [append_elements, Element.bareOf_append]
  rfl

namespace Rule

/-- A turn without the trivia that it has read. -/
def Turn.bare : Turn → Turn
  | .again a => .again a.bare
  | .last a => .last a.bare

/-- What a rule makes of an input depends on trivia only by the trivia in it. -/
def Blind (p : Rule) : Prop :=
  ∀ i : Input, i.Proper → (p i).rest.Proper ∧ (p i).bare = p i.bare

/-- What a turn makes of an input depends on trivia only by the trivia in it. -/
def BlindTurn (t : Input → Turn) : Prop :=
  ∀ i : Input, i.Proper → (t i).reading.rest.Proper ∧ (t i).bare = t i.bare

/-- To take the gap takes nothing but trivia. -/
theorem settle_blind : Blind settle := by
  intro i h
  refine ⟨h.settled, ?_⟩
  unfold settle Reading.bare
  dsimp only
  rw [Element.bareOf_trivia h.gap]
  rfl

/-- Two rules that see no trivia see none one after another. -/
theorem Blind.andThen {p q : Rule} (hp : Blind p) (hq : Blind q) : Blind (p.andThen q) := by
  intro i h
  obtain ⟨properP, bareP⟩ := hp i h
  obtain ⟨properQ, bareQ⟩ := hq _ properP
  have rest : (p i).rest.bare = (p i.bare).rest := congrArg Reading.rest bareP
  refine ⟨properQ, ?_⟩
  unfold Rule.andThen
  rw [Reading.bare_append, bareP, bareQ, rest]

/-- To take a lexeme takes its token and, apart from that, trivia only. -/
theorem bump_blind : Blind bump := by
  intro i h
  obtain ⟨gap, lexemes, index⟩ := i
  cases lexemes with
  | nil => exact settle_blind _ h
  | cons l ls =>
    refine ⟨⟨h.trailing l List.mem_cons_self, ?_, ?_⟩, ?_⟩
    · exact fun m hm => h.tokens m (List.mem_cons_of_mem l hm)
    · exact fun m hm => h.trailing m (List.mem_cons_of_mem l hm)
    · have settled := (settle_blind _ h).2
      have token := Element.bareOf_token (h.tokens l List.mem_cons_self)
      unfold bump
      dsimp only
      rw [Reading.bare_append, settled]
      unfold Reading.bare
      dsimp only
      rw [token]
      rfl

/-- A complaint is about the lexeme, whatever trivia stands in front of it. -/
theorem complain_blind (c : Complaint) : Blind (complain c) := by
  intro i h
  refine ⟨h.settled, ?_⟩
  unfold complain
  rw [Reading.bare_append, (settle_blind i h).2]
  rfl

/-- A node is made of what its rule makes, and sees no trivia if the rule sees none. -/
theorem node_blind (kind : NodeKind) {p : Rule} (hp : Blind p) : Blind (node kind p) := by
  intro i h
  obtain ⟨proper, bare⟩ := hp i h
  refine ⟨proper, ?_⟩
  unfold node
  rw [← bare]
  unfold Reading.bare
  dsimp only
  rw [Element.bareOf_node]

/-- A loop is blind because its turns are, and because they go on at the same inputs. -/
theorem loop_blind (t : Input → Turn) (advances : Advances t) (ht : BlindTurn t) :
    Blind (loop t advances) := by
  intro i h
  induction hn : i.lexemes.length using Nat.strongRecOn generalizing i with
  | ind n ih =>
    obtain ⟨proper, bare⟩ := ht i h
    cases turn : t i with
    | last a =>
      rw [turn] at proper bare
      rw [loop_last turn, loop_last bare.symm]
      exact ⟨proper, rfl⟩
    | again a =>
      rw [turn] at proper bare
      have shorter := advances i a turn
      obtain ⟨properRest, bareRest⟩ := ih a.rest.lexemes.length (by omega) a.rest proper rfl
      rw [loop_again turn, loop_again bare.symm, Reading.bare_append, bareRest]
      exact ⟨properRest, rfl⟩

/-- A turn behind another reading loses the trivia of both. -/
theorem Turn.behind_bare (a : Reading) (t : Turn) : (t.behind a).bare = t.bare.behind a.bare := by
  cases t with
  | again b => exact congrArg Turn.again (Reading.bare_append a b)
  | last b => exact congrArg Turn.last (Reading.bare_append a b)

/-- Every step of the grammar sees no trivia, so no rule does. -/
theorem blind_kept : Kept Blind BlindTurn where
  nothing i h := ⟨h, rfl⟩
  settle := settle_blind
  bump := bump_blind
  complain := complain_blind
  node kind _ _ hp := node_blind kind hp
  andThen _ _ hp hq := hp.andThen hq
  looking p each i h := by
    obtain ⟨q, hq, same⟩ := each i.kinds
    rw [same i rfl, same i.bare i.kinds_bare]
    exact hq i h
  again p hp i h := ⟨(hp i h).1, congrArg Turn.again (hp i h).2⟩
  last p hp i h := ⟨(hp i h).1, congrArg Turn.last (hp i h).2⟩
  behind p t hp ht i h := by
    obtain ⟨properP, bareP⟩ := hp i h
    obtain ⟨properT, bareT⟩ := ht _ properP
    have rest : (p i).rest.bare = (p i.bare).rest := congrArg Reading.rest bareP
    dsimp only
    rw [Turn.behind_reading, Turn.behind_bare, bareP, bareT, rest]
    exact ⟨properT, rfl⟩
  lookingTurn t each i h := by
    obtain ⟨u, hu, same⟩ := each i.kinds
    rw [same i rfl, same i.bare i.kinds_bare]
    exact hu i h
  loop := loop_blind

end Rule

namespace Input

/-- Tokens as something to read, without any trivia. -/
def ofBare (ts : List Token) (index : Nat) : Input :=
  ⟨[], ts.map fun t => ⟨t, []⟩, index⟩

/-- Behind the trivia in front there is a token that is not trivia, if there is any. -/
theorem isTrivia_of_head_dropWhile (ts : List Token) :
    ∀ t ∈ (ts.dropWhile Token.isTrivia).head?, t.isTrivia = false := by
  intro t ht
  have first := List.head?_dropWhile_not Token.isTrivia ts
  rw [Option.mem_def.mp ht] at first
  simpa using first

/-- Trivia in front of the first significant token does not matter for the significant ones. -/
theorem filter_dropWhile_isTrivia (ts : List Token) :
    (ts.dropWhile Token.isTrivia).filter (fun t => !t.isTrivia) =
      ts.filter fun t => !t.isTrivia := by
  have none : (ts.takeWhile Token.isTrivia).filter (fun t => !t.isTrivia) = [] := by
    rw [List.filter_eq_nil_iff]
    intro t ht
    simp [List.mem_takeWhile_imp ht]
  conv => rhs; rw [← List.takeWhile_append_dropWhile (p := Token.isTrivia) (l := ts)]
  rw [List.filter_append, none, List.nil_append]

/-- Lexemes are the tokens that are not trivia, each with the trivia behind it. -/
theorem group_lexemes (ts : List Token) (h : ∀ t ∈ ts.head?, t.isTrivia = false) :
    (∀ l ∈ group ts, l.token.isTrivia = false ∧ ∀ t ∈ l.trailing, t.isTrivia = true) ∧
      (group ts).map Lexeme.token = ts.filter fun t => !t.isTrivia := by
  induction hn : ts.length using Nat.strongRecOn generalizing ts with
  | ind n ih =>
    cases ts with
    | nil => simp [group]
    | cons t ts =>
      have first : t.isTrivia = false := h t rfl
      have shorter := (List.dropWhile_sublist Token.isTrivia (l := ts)).length_le
      have length : (t :: ts).length = ts.length + 1 := rfl
      obtain ⟨lexemes, tokens⟩ :=
        ih (ts.dropWhile Token.isTrivia).length (by omega) _ (isTrivia_of_head_dropWhile ts) rfl
      constructor
      · intro l hl
        rw [group, List.mem_cons] at hl
        rcases hl with rfl | hl
        · exact ⟨first, fun u hu => List.mem_takeWhile_imp hu⟩
        · exact lexemes l hl
      · rw [group, List.map_cons, tokens, filter_dropWhile_isTrivia,
          List.filter_cons_of_pos (by simp [first])]

/-- In the input for some tokens, trivia stands only where it may. -/
theorem ofTokens_proper (ts : List Token) : (ofTokens ts).Proper := by
  obtain ⟨lexemes, -⟩ := group_lexemes _ (isTrivia_of_head_dropWhile ts)
  exact ⟨fun t ht => List.mem_takeWhile_imp ht, fun l hl => (lexemes l hl).1,
    fun l hl => (lexemes l hl).2⟩

/-- Without trivia, the input for some tokens is the one for the significant tokens. -/
theorem ofTokens_bare (ts : List Token) :
    (ofTokens ts).bare = ofBare (ts.filter fun t => !t.isTrivia) 0 := by
  obtain ⟨-, tokens⟩ := group_lexemes _ (isTrivia_of_head_dropWhile ts)
  rw [← filter_dropWhile_isTrivia, ← tokens]
  unfold bare ofTokens ofBare
  dsimp only
  rw [List.map_map]
  rfl

end Input

/-- The tokens of a text that are not trivia. -/
def significant (text : List Char) : List Token :=
  (lex text).filter fun t => !t.isTrivia

/-- A tree without its trivia is read from the text without its trivia, and so is every error. -/
theorem parse_bare (text : List Char) {es : List Element} {rest : Input}
    (h : Rule.loop Grammar.fileTurn Grammar.fileTurn_advances (Input.ofBare (significant text) 0) =
      ⟨es, [], rest⟩) :
    Element.bareOf (parse text).children = es ∧ (parse text).errors = [] := by
  have proper := Input.ofTokens_proper (lex text)
  obtain ⟨-, bare⟩ := Grammar.fileLoop_kept Rule.blind_kept _ proper
  rw [Input.ofTokens_bare] at bare
  have same := bare.trans h
  have remarks := congrArg Reading.remarks same
  unfold parse
  dsimp only
  refine ⟨congrArg Reading.elements same, ?_⟩
  rw [List.map_eq_nil_iff]
  exact remarks

end DeclFront
