import DeclFront.Proofs.Syntax.Lexing
import DeclFront.Proofs.Syntax.Whole
import DeclFront.Proofs.Syntax.Trivia

/-!
# Formatting makes no difference

The bytes that an error is about say at which significant token it stands, because no two of those
tokens begin at the same byte. Two texts with the same significant tokens are read alike: the same
errors at the same tokens, and the same tree once the trivia is left out.
-/

set_option autoImplicit false

namespace DeclFront

/-- The significant tokens of a text, each at its place. -/
def placedLexemes (text : List Char) : List PlacedToken :=
  placeTokens 0 (lex text)

/-- The number of the significant token that the bytes of an error are those of, if there is one. -/
def SyntaxError.anchor? (text : List Char) (e : SyntaxError) : Option Nat :=
  (placedLexemes text).findIdx? fun t => t.range = e.range

section Placing

variable {start : Nat} {ts : List Token} {t : PlacedToken}

/-- Without their places the placed tokens are those that are not trivia. -/
theorem placeTokens_map_token (start : Nat) (ts : List Token) :
    (placeTokens start ts).map PlacedToken.token = ts.filter fun t => !t.isTrivia := by
  induction ts generalizing start with
  | nil => rfl
  | cons t ts ih =>
    rw [placeTokens]
    by_cases trivia : t.isTrivia = true
    · rw [if_pos trivia, List.filter_cons_of_neg (by simp [trivia]), ih]
    · rw [if_neg trivia, List.filter_cons_of_pos (by simp [trivia]), List.map_cons, ih]

/-- No token is placed in front of where the text starts. -/
theorem start_le_of_mem_placeTokens (h : t ∈ placeTokens start ts) : start ≤ t.start := by
  induction ts generalizing start with
  | nil => simp [placeTokens] at h
  | cons u us ih =>
    have later (h : t ∈ placeTokens (start + Text.byteLength u.chars) us) : start ≤ t.start :=
      Nat.le_trans (Nat.le_add_right _ _) (ih h)
    unfold placeTokens at h
    dsimp only at h
    split at h
    · exact later h
    · rcases List.mem_cons.mp h with rfl | h
      · exact Nat.le_refl _
      · exact later h

/-- A token that is placed is one of the text. -/
theorem token_mem_of_mem_placeTokens (h : t ∈ placeTokens start ts) : t.token ∈ ts := by
  have placed := List.mem_map_of_mem (f := PlacedToken.token) h
  rw [placeTokens_map_token] at placed
  exact (List.mem_filter.mp placed).1

/-- A text with characters takes a byte at least. -/
theorem byteLength_pos {cs : List Char} (h : cs ≠ []) : 0 < Text.byteLength cs := by
  obtain ⟨c, cs, rfl⟩ := List.exists_cons_of_ne_nil h
  have one := c.utf8Size_pos
  rw [Text.byteLength_cons]
  omega

/-- Each token begins behind the tokens before it. -/
theorem placeTokens_pairwise (start : Nat) (h : ∀ t ∈ ts, t.chars ≠ []) :
    (placeTokens start ts).Pairwise fun a b => a.start < b.start := by
  induction ts generalizing start with
  | nil => exact List.Pairwise.nil
  | cons t ts ih =>
    have others := ih (start + Text.byteLength t.chars) fun u hu => h u (List.mem_cons_of_mem t hu)
    rw [placeTokens]
    split
    · exact others
    · refine List.pairwise_cons.mpr ⟨fun u hu => ?_, others⟩
      have behind := start_le_of_mem_placeTokens hu
      have some := byteLength_pos (h t List.mem_cons_self)
      show start < u.start
      omega

end Placing

section Anchors

variable (text : List Char)

/-- No token of a text is empty. -/
theorem lex_chars_ne_nil : ∀ t ∈ lex text, t.chars ≠ [] :=
  lex_forall (P := fun t => t.chars ≠ []) Lexer.next_chars_ne_nil text

/-- The placed tokens of a text are its significant ones. -/
theorem placedLexemes_map_token : (placedLexemes text).map PlacedToken.token = significant text :=
  placeTokens_map_token 0 (lex text)

/-- There are as many places as significant tokens. -/
theorem length_placedLexemes : (placedLexemes text).length = (significant text).length := by
  rw [← placedLexemes_map_token, List.length_map]

/-- The bytes of a significant token say which one it is. -/
theorem findIdx?_range {k : Nat} {t : PlacedToken} (h : (placedLexemes text)[k]? = some t) :
    (placedLexemes text).findIdx? (fun u => u.range = t.range) = some k := by
  obtain ⟨bound, rfl⟩ := List.getElem?_eq_some_iff.mp h
  rw [List.findIdx?_eq_some_iff_getElem]
  refine ⟨bound, by simp, fun j before => ?_⟩
  have apart := List.pairwise_iff_getElem.mp (placeTokens_pairwise 0 (lex_chars_ne_nil text))
  have less := apart j k (Nat.lt_trans before bound) bound before
  simp only [decide_eq_true_eq]
  intro same
  exact absurd (congrArg Range.start same) (Nat.ne_of_lt less)

/-- No significant token is as short as the end of the text. -/
theorem findIdx?_end (n : Nat) :
    (placedLexemes text).findIdx? (fun u => u.range = ⟨n, n⟩) = none := by
  rw [List.findIdx?_eq_none_iff]
  intro u hu
  have some := byteLength_pos (lex_chars_ne_nil text _ (token_mem_of_mem_placeTokens hu))
  rw [decide_eq_false_iff_not]
  intro same
  have start : u.start = n := congrArg Range.start same
  have stop : u.start + Text.byteLength u.token.chars = n := congrArg Range.stop same
  omega

/-- A remark is located where it was made: at the significant token of its number, or at the end of
the text when there are not so many. -/
theorem anchor?_locate (r : Remark) :
    (r.locate (placedLexemes text).toArray (Text.byteLength text)).anchor? text =
      if r.index < (significant text).length then some r.index else none := by
  unfold SyntaxError.anchor? Remark.locate
  rw [← length_placedLexemes, List.getElem?_toArray]
  split
  · rename_i t ht
    rw [if_pos (List.getElem?_eq_some_iff.mp ht).1]
    exact findIdx?_range text ht
  · rename_i none
    rw [if_neg (Nat.not_lt.mpr (List.getElem?_eq_none_iff.mp none))]
    exact findIdx?_end text _

/-- Where a complaint is located does not change its wording. -/
theorem message_locate (r : Remark) (lexemes : Array PlacedToken) (length : Nat) :
    (r.locate lexemes length).message = r.complaint.message := by
  unfold Remark.locate
  split <;> rfl

end Anchors

/-- What is read from the significant tokens of a text alone. -/
def readSignificant (ts : List Token) : Reading :=
  Rule.loop Grammar.fileTurn Grammar.fileTurn_advances (Input.ofBare ts 0)

/-- Reading a text and leaving out the trivia afterwards is reading its significant tokens. -/
theorem read_bare (text : List Char) :
    (Rule.loop Grammar.fileTurn Grammar.fileTurn_advances (Input.ofTokens (lex text))).bare =
      readSignificant (significant text) := by
  obtain ⟨-, bare⟩ := Grammar.fileLoop_kept Rule.blind_kept _ (Input.ofTokens_proper (lex text))
  rw [bare, Input.ofTokens_bare]
  rfl

/-- But for trivia, the tree of a text is what is read from its significant tokens alone. -/
theorem children_parse_bare (text : List Char) :
    Element.bareOf (parse text).children = (readSignificant (significant text)).elements :=
  congrArg Reading.elements (read_bare text)

/-- The errors of a text are the remarks about its significant tokens, each put at the place of
its token. -/
theorem errors_parse (text : List Char) :
    (parse text).errors = (readSignificant (significant text)).remarks.map
      (Remark.locate (placedLexemes text).toArray (Text.byteLength text)) := by
  have remarks := congrArg Reading.remarks (read_bare text)
  exact congrArg (List.map _) remarks

/-- The messages of the errors with their tokens, from the significant tokens alone. -/
theorem anchored_messages (text : List Char) :
    (parse text).errors.map (fun e => (e.anchor? text, e.message)) =
      (readSignificant (significant text)).remarks.map fun r =>
        (if r.index < (significant text).length then some r.index else none,
          r.complaint.message) := by
  rw [errors_parse, List.map_map]
  refine List.map_congr_left fun r _ => ?_
  exact Prod.ext (anchor?_locate text r) (message_locate r _ _)

/-- Texts with the same significant tokens, each with the same characters, are read alike however
they are formatted and however malformed they are: the same messages stand, in the same order, at
the same significant tokens or at the end of the text, and without their trivia the trees are the
same. An error that stands at a token is about the bytes of that token; any other is about the end
of its text. -/
theorem parse_ignores_formatting (text other : List Char)
    (same : significant text = significant other) :
    (parse text).errors.map (fun e => (e.anchor? text, e.message)) =
      (parse other).errors.map (fun e => (e.anchor? other, e.message)) ∧
    (parse text).root.element.bare = (parse other).root.element.bare ∧
    (∀ e ∈ (parse text).errors,
      match e.anchor? text with
      | some k => ∃ t, (placedLexemes text)[k]? = some t ∧ (significant text)[k]? = some t.token ∧
          e.range = t.range
      | none => e.range = ⟨Text.byteLength text, Text.byteLength text⟩) := by
  refine ⟨?_, ?_, fun e he => ?_⟩
  · rw [anchored_messages, anchored_messages, same]
  · have children : Element.bareOf (parse text).children = Element.bareOf (parse other).children := by
      rw [children_parse_bare, children_parse_bare, same]
    exact congrArg (fun es => [Element.node .root es]) children
  · rw [errors_parse, List.mem_map] at he
    obtain ⟨r, -, rfl⟩ := he
    rw [anchor?_locate]
    unfold Remark.locate
    rw [List.getElem?_toArray, ← length_placedLexemes]
    by_cases bound : r.index < (placedLexemes text).length
    · have placed := List.getElem?_eq_getElem bound
      have token : (significant text)[r.index]? = some (placedLexemes text)[r.index].token := by
        rw [← placedLexemes_map_token, List.getElem?_map, placed]
        rfl
      rw [if_pos bound, placed]
      exact ⟨_, placed, token, rfl⟩
    · rw [if_neg bound, List.getElem?_eq_none_iff.mpr (Nat.not_lt.mp bound)]

/-- A comma too many in a parameter list and a forgotten brace, written on one line and on three. -/
theorem malformed_ignores_formatting :
    significant "type A\x7bfn M(,int)".toList =
      significant "type A // the first\n\x7b fn\tM (,\n  int ) // and last".toList ∧
    (parse "type A // the first\n\x7b fn\tM (,\n  int ) // and last".toList).errors.map
        (fun e => (e.anchor? "type A // the first\n\x7b fn\tM (,\n  int ) // and last".toList,
          e.message)) =
      [(some 6, "expected a parameter type"), (some 8, "expected an identifier"),
        (none, "expected `;`"), (none, "expected `\x7d`")] := by
  have same : significant "type A\x7bfn M(,int)".toList =
      significant "type A // the first\n\x7b fn\tM (,\n  int ) // and last".toList := by
    decide +kernel
  refine ⟨same, ?_⟩
  rw [← (parse_ignores_formatting _ _ same).1]
  decide +kernel

end DeclFront
