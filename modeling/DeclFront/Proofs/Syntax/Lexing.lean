import DeclFront.Syntax.Lexer

/-!
# The shapes of tokens

What the characters of a token look like, by its kind, and which characters are read as a token of
a given kind. A string literal is a quote, what may stand inside, and a quote; inside, a backslash
goes with the character behind it, whatever that is.
-/

set_option autoImplicit false

namespace DeclFront

open Text (isBlank)

namespace Lexer

/-! ### Classes of characters -/

section Classes

variable {c : Char}

/-- Blanks have low numbers, or numbers above those of ASCII. -/
theorem toNat_of_isBlank (h : isBlank c = true) : c.toNat ≤ 32 ∨ 133 ≤ c.toNat := by
  simp only [isBlank, Text.blankRanges, List.any_cons, List.any_nil, Bool.or_eq_true,
    Bool.and_eq_true, decide_eq_true_eq, Bool.false_eq_true, or_false] at h
  omega

/-- The digits have ten numbers in a row. -/
theorem toNat_of_isDigit (h : c.isDigit = true) : 48 ≤ c.toNat ∧ c.toNat ≤ 57 := by
  simp only [Char.isDigit, Bool.and_eq_true, decide_eq_true_eq, ge_iff_le,
    UInt32.le_iff_toNat_le] at h
  exact h

/-- A word starts with an ASCII letter or an underscore. -/
theorem toNat_of_isWordStart (h : isWordStart c = true) :
    (65 ≤ c.toNat ∧ c.toNat ≤ 90) ∨ c.toNat = 95 ∨ (97 ≤ c.toNat ∧ c.toNat ≤ 122) := by
  have letters : isWordStart c = ((decide (c.val ≥ 65 ∧ c.val ≤ 90) ||
      (decide (c.val ≥ 97) && decide (c.val ≤ 122))) || c == '_') := rfl
  simp only [letters, Bool.or_eq_true, Bool.and_eq_true, decide_eq_true_eq, beq_iff_eq, ge_iff_le,
    UInt32.le_iff_toNat_le] at h
  rcases h with (h | h) | rfl
  · exact .inl h
  · exact .inr (.inr h)
  · exact .inr (.inl rfl)

/-- A word goes on with the characters that can start one and with digits. -/
theorem isWordPart_eq : isWordPart c = (isWordStart c || c.isDigit) := by
  unfold isWordPart isWordStart Char.isAlphanum
  cases c.isAlpha <;> cases c.isDigit <;> cases c == '_' <;> rfl

/-- What starts a word is not blank. -/
theorem isBlank_of_isWordStart (h : isWordStart c = true) : isBlank c = false := by
  have bounds := toNat_of_isWordStart h
  rw [Bool.eq_false_iff]
  intro blank
  have outside := toNat_of_isBlank blank
  omega

/-- A digit is not blank. -/
theorem isBlank_of_isDigit (h : c.isDigit = true) : isBlank c = false := by
  have bounds := toNat_of_isDigit h
  rw [Bool.eq_false_iff]
  intro blank
  have outside := toNat_of_isBlank blank
  omega

/-- A digit starts no word. -/
theorem isWordStart_of_isDigit (h : c.isDigit = true) : isWordStart c = false := by
  have bounds := toNat_of_isDigit h
  rw [Bool.eq_false_iff]
  intro start
  have outside := toNat_of_isWordStart start
  omega

end Classes

/-! ### The first token, by its first character -/

section Next

variable {c : Char} {cs : List Char}

/-- A blank begins a run of blanks. -/
theorem next_blank (h : isBlank c = true) : next c cs = run (fun _ => .whitespace) [c] isBlank cs :=
  if_pos h

/-- Two slashes begin a comment, which goes on to the end of the line. -/
theorem next_comment :
    next '/' ('/' :: cs) = run (fun _ => .comment) ['/'] (· != '\n') ('/' :: cs) := by
  rw [next, if_neg (by decide), if_pos ⟨rfl, rfl⟩]

/-- A letter begins a word. -/
theorem next_word (h : isWordStart c = true) : next c cs = run wordKind [c] isWordPart cs := by
  have slash : c ≠ '/' := by
    rintro rfl
    exact absurd h (by decide)
  rw [next, if_neg (by simp [isBlank_of_isWordStart h]), if_neg fun hc => slash hc.1, if_pos h]

/-- A digit begins a number. -/
theorem next_digit (h : c.isDigit = true) : next c cs = number [c] cs := by
  have slash : c ≠ '/' := by
    rintro rfl
    exact absurd h (by decide)
  rw [next, if_neg (by simp [isBlank_of_isDigit h]), if_neg fun hc => slash hc.1,
    if_neg (by simp [isWordStart_of_isDigit h]), if_pos h]

/-- A minus sign begins a number if a digit follows. -/
theorem next_minus (h : startsWithDigit cs = true) : next '-' cs = number ['-'] cs := by
  rw [next, if_neg (by decide), if_neg (by simp), if_neg (by decide), if_neg (by decide),
    if_pos ⟨rfl, h⟩]

/-- A quote begins a string. -/
theorem next_quote :
    next '"' cs = ⟨⟨(quoted false cs).token.kind, '"' :: (quoted false cs).token.chars⟩,
      (quoted false cs).rest⟩ := by
  rw [next, if_neg (by decide), if_neg (by simp), if_neg (by decide), if_neg (by decide),
    if_neg (by simp), if_pos rfl]

/-- A character that is a token by itself. -/
theorem next_punctuation (h : punctuation c ≠ .unknown) :
    next c cs = ⟨⟨punctuation c, [c]⟩, cs⟩ := by
  unfold punctuation at h
  split at h <;> first | rfl | exact absurd rfl h

end Next

/-! ### Strings -/

/-- What may stand between the quotes of a string literal. -/
inductive Inside : List Char → Prop where
  | nil : Inside []
  | plain {c : Char} {cs : List Char} :
    c ≠ '"' → c ≠ '\\' → c ≠ '\n' → Inside cs → Inside (c :: cs)
  | escape {c : Char} {cs : List Char} : c ≠ '\n' → Inside cs → Inside ('\\' :: c :: cs)

section Quoted

variable {c : Char} {cs rest : List Char} {escaped : Bool}

/-- A string that is open at the end of its line is unknown. -/
theorem quoted_newline : quoted escaped ('\n' :: cs) = ⟨⟨.unknown, []⟩, '\n' :: cs⟩ := by
  simp [quoted]

/-- A quote that is not escaped closes a string. -/
theorem quoted_quote : quoted false ('"' :: cs) = ⟨⟨.string, ['"']⟩, cs⟩ := by
  simp [quoted]

/-- Any other character goes into the string, and a backslash escapes the next one unless it is
escaped itself. -/
theorem quoted_cons (newline : c ≠ '\n') (quote : c = '"' → escaped = true) :
    quoted escaped (c :: cs) =
      ⟨⟨(quoted (c == '\\' && !escaped) cs).token.kind,
        c :: (quoted (c == '\\' && !escaped) cs).token.chars⟩,
        (quoted (c == '\\' && !escaped) cs).rest⟩ := by
  have inside : ¬ (c = '"' ∧ escaped = false) := by
    rintro ⟨hc, he⟩
    rw [quote hc] at he
    simp at he
  rw [quoted, if_neg newline, if_neg inside]

/-- What stands inside a string literal is read up to the closing quote. -/
theorem quoted_inside (h : Inside cs) :
    quoted false (cs ++ '"' :: rest) = ⟨⟨.string, cs ++ ['"']⟩, rest⟩ := by
  induction h with
  | nil => exact quoted_quote
  | @plain c cs quote backslash newline _ ih =>
    have next : (c == '\\' && !false) = false := by simp [backslash]
    rw [List.cons_append, quoted_cons newline fun hc => absurd hc quote, next, ih]
    rfl
  | @escape c cs newline _ ih =>
    have first : ('\\' == '\\' && !false) = true := rfl
    have second : (c == '\\' && !true) = false := by simp
    rw [List.cons_append, List.cons_append, quoted_cons (by decide) (by decide), first,
      quoted_cons newline fun _ => rfl, second, ih]
    rfl

/-- A string that was closed is what may stand inside and a quote. Behind a backslash, the backslash
belongs to what stands inside. -/
theorem quoted_string (h : (quoted escaped cs).token.kind = .string) :
    ∃ inner, (quoted escaped cs).token.chars = inner ++ ['"'] ∧
      Inside (if escaped then '\\' :: inner else inner) := by
  induction cs generalizing escaped with
  | nil => simp [quoted] at h
  | cons c cs ih =>
    by_cases newline : c = '\n'
    · rw [newline, quoted_newline] at h
      simp at h
    by_cases closing : c = '"' ∧ escaped = false
    · rw [closing.1, closing.2, quoted_quote]
      exact ⟨[], rfl, .nil⟩
    · have quote : c = '"' → escaped = true := by
        intro hc
        cases escaped with
        | true => rfl
        | false => exact absurd ⟨hc, rfl⟩ closing
      rw [quoted_cons newline quote] at h ⊢
      obtain ⟨inner, chars, inside⟩ := ih h
      refine ⟨c :: inner, congrArg (c :: ·) chars, ?_⟩
      cases escaped with
      | true =>
        have next : (c == '\\' && !true) = false := by simp
        rw [next] at inside
        exact .escape newline inside
      | false =>
        by_cases backslash : c = '\\'
        · rw [backslash] at inside ⊢
          exact inside
        · have next : (c == '\\' && !false) = false := by simp [backslash]
          rw [next] at inside
          exact .plain (fun hc => Bool.false_ne_true (quote hc)) backslash newline inside

end Quoted

/-- No word is a string. -/
theorem wordKind_ne_string (cs : List Char) : wordKind cs ≠ .string := by
  unfold wordKind
  split <;> simp

/-- No single character is a string. -/
theorem punctuation_ne_string (c : Char) : punctuation c ≠ .string := by
  unfold punctuation
  split <;> simp

/-- No number is a string. -/
theorem number_ne_string (front cs : List Char) : (number front cs).token.kind ≠ .string := by
  unfold number
  split
  · split <;> simp [run]
  · simp

/-- A string literal is what may stand inside between two quotes. -/
theorem next_string {c : Char} {cs : List Char} (h : (next c cs).token.kind = .string) :
    ∃ inner, Inside inner ∧ (next c cs).token.chars = '"' :: (inner ++ ['"']) := by
  by_cases quote : c = '"'
  · rw [quote, next_quote] at h ⊢
    obtain ⟨inner, chars, inside⟩ := quoted_string h
    exact ⟨inner, inside, congrArg _ chars⟩
  · unfold next at h
    split at h
    · simp [run] at h
    split at h
    · simp [run] at h
    split at h
    · exact absurd h (wordKind_ne_string _)
    split at h
    · exact absurd h (number_ne_string _ _)
    split at h
    · exact absurd h (number_ne_string _ _)
    · exact absurd h (punctuation_ne_string c)

end Lexer

/-- What holds of the first token of every text holds of all tokens. -/
theorem lex_forall {P : Token → Prop} (h : ∀ c cs, P (Lexer.next c cs).token) (text : List Char) :
    ∀ t ∈ lex text, P t := by
  induction hn : text.length using Nat.strongRecOn generalizing text with
  | ind n ih =>
    cases text with
    | nil => simp [lex]
    | cons c cs =>
      intro t ht
      have shorter := Lexer.next_rest_length c cs
      rw [lex, List.mem_cons] at ht
      rcases ht with rfl | ht
      · exact h c cs
      · exact ih _ (by omega) _ rfl t ht

end DeclFront
