import DeclFront.Proofs.Syntax.Formatting
import DeclFront.Proofs.Syntax.Spelling

/-!
# Tokens are read again

Where a token ends is found by looking at the characters behind it: a digit behind a minus sign or a
point, a second slash, the end of the line. None of these is the end of the text, and a new line is
none of them but for a blank. So a token is read from its own characters, and any tokens but blanks are
read again from lines of their own.
-/

set_option autoImplicit false

namespace DeclFront

open Text (isBlank)

namespace Lexer

/-- Behind a token of the given kind stands nothing, or a new line that does not belong to it. -/
def Cut (kind : TokenKind) (rest : List Char) : Prop :=
  ∀ c ∈ rest.head?, c = '\n' ∧ kind ≠ .whitespace

variable {c : Char} {cs rest : List Char} {kind : TokenKind}

/-- The end of a text ends every token. -/
theorem cut_nil (kind : TokenKind) : Cut kind [] := by
  simp [Cut]

/-- A new line ends every token but a run of blanks. -/
theorem cut_newline (h : kind ≠ .whitespace) (cs : List Char) : Cut kind ('\n' :: cs) := by
  simp [Cut, h]

/-- If a token is cut off, what goes on behind it does so with a new line. -/
theorem Cut.newline (h : Cut kind rest) : ∀ d ∈ rest.head?, d = '\n' := fun d hd => (h d hd).1

/-- Nothing that continues a token continues it in a new line. -/
theorem Cut.stops (h : Cut kind rest) {p : Char → Bool} (newline : p '\n' = false) :
    ∀ d ∈ rest.head?, p d = false := by
  intro d hd
  rw [h.newline d hd]
  exact newline

/-! ### The first token again, class by class -/

/-- A run is read again from what it took. -/
theorem run_again (read : List Char → TokenKind) (front : List Char) {p : Char → Bool}
    (stops : ∀ d ∈ rest.head?, p d = false) :
    run read front p (cs.takeWhile p ++ rest) = ⟨(run read front p cs).token, rest⟩ := by
  apply run_stops
  · intro d hd
    exact List.mem_takeWhile_imp hd
  · exact stops

/-- A number is read again from what it took behind its front. -/
theorem number_again (front cs : List Char) (newline : ∀ d ∈ rest.head?, d = '\n') :
    ∃ tail, (number front cs).token.chars = front ++ tail ∧
      number front (tail ++ rest) = ⟨(number front cs).token, rest⟩ := by
  have digit : ∀ d ∈ rest.head?, d.isDigit = false ∧ d ≠ '.' := by
    intro d hd
    rw [newline d hd]
    decide
  have whole : ∀ d ∈ cs.takeWhile Char.isDigit, d.isDigit = true := fun d hd =>
    List.mem_takeWhile_imp hd
  -- without a point and a digit behind it the number is its whole part
  have integer (h : number front cs = ⟨⟨.integer, front ++ cs.takeWhile Char.isDigit⟩,
      cs.dropWhile Char.isDigit⟩) :
      ∃ tail, (number front cs).token.chars = front ++ tail ∧
        number front (tail ++ rest) = ⟨(number front cs).token, rest⟩ := by
    refine ⟨cs.takeWhile Char.isDigit, ?_, ?_⟩
    · rw [h]
    · rw [number_integer whole digit, h]
  cases behind : cs.dropWhile Char.isDigit with
  | nil =>
    apply integer
    simp [number, behind]
  | cons point ds =>
    by_cases fraction : point = '.' ∧ startsWithDigit ds = true
    · obtain ⟨rfl, starts⟩ := fraction
      obtain ⟨d, ds, rfl⟩ : ∃ d es, ds = d :: es := by
        cases ds with
        | nil => simp [startsWithDigit] at starts
        | cons d es => exact ⟨d, es, rfl⟩
      have hd : d.isDigit = true := starts
      have read : number front cs = run (fun _ => .float)
          (front ++ cs.takeWhile Char.isDigit ++ ['.', d]) Char.isDigit ds := by
        rw [number, behind]
        simp [hd]
      refine ⟨cs.takeWhile Char.isDigit ++ '.' :: d :: ds.takeWhile Char.isDigit, ?_, ?_⟩
      · rw [read]
        simp [run]
      · rw [List.append_assoc, List.cons_append, List.cons_append, number_float whole hd, read]
        apply run_again
        exact fun e he => (digit e he).1
    · apply integer
      rw [number, behind]
      split
      · rename_i d es same
        cases same
        rw [if_neg (by simpa [startsWithDigit] using fraction)]
      · rfl

/-- A string is read again from what it took behind its quote, whether it was closed or not. -/
theorem quoted_again (escaped : Bool) (cs : List Char) (newline : ∀ d ∈ rest.head?, d = '\n') :
    quoted escaped ((quoted escaped cs).token.chars ++ rest) =
      ⟨(quoted escaped cs).token, rest⟩ := by
  have open_ (e : Bool) : quoted e rest = ⟨⟨.unknown, []⟩, rest⟩ := by
    cases rest with
    | nil => simp [quoted]
    | cons d ds =>
      rw [newline d rfl]
      exact quoted_newline
  induction cs generalizing escaped with
  | nil => simpa [quoted] using open_ escaped
  | cons c cs ih =>
    by_cases line : c = '\n'
    · rw [line, quoted_newline]
      exact open_ escaped
    by_cases closing : c = '"' ∧ escaped = false
    · rw [closing.1, closing.2, quoted_quote]
      exact quoted_quote
    · have quote : c = '"' → escaped = true := by simpa using closing
      rw [quoted_cons line quote, List.cons_append, quoted_cons line quote, ih]

/-- A character that is a token by itself, for what stands behind it. -/
theorem next_single (blank : isBlank c = false) (comment : ¬ (c = '/' ∧ cs.head? = some '/'))
    (word : isWordStart c = false) (digit : c.isDigit = false)
    (negative : ¬ (c = '-' ∧ startsWithDigit cs = true)) (quote : c ≠ '"') :
    next c cs = ⟨⟨punctuation c, [c]⟩, cs⟩ := by
  simp [next, blank, comment, word, digit, negative, quote]

/-- The first token of a text is read again from its own characters, whether the text ends behind them
or goes on in a new line. -/
theorem next_again (c : Char) (cs : List Char) (h : Cut (next c cs).token.kind rest) :
    ∃ tail, (next c cs).token.chars = c :: tail ∧
      next c (tail ++ rest) = ⟨(next c cs).token, rest⟩ := by
  by_cases blank : isBlank c = true
  · rw [next_blank blank] at h ⊢
    have nothing : ∀ d ∈ rest.head?, isBlank d = false := fun d hd => absurd rfl (h d hd).2
    exact ⟨cs.takeWhile isBlank, rfl, by rw [next_blank blank, run_again _ _ nothing]⟩
  by_cases comment : c = '/' ∧ cs.head? = some '/'
  · obtain ⟨rfl, slash⟩ := comment
    obtain ⟨cs, rfl⟩ := List.head?_eq_some_iff.mp slash
    rw [next_comment] at h ⊢
    have line : List.takeWhile (· != '\n') ('/' :: cs) = '/' :: cs.takeWhile (· != '\n') := by
      simp
    refine ⟨'/' :: cs.takeWhile (· != '\n'), by simp [run, line], ?_⟩
    rw [List.cons_append, next_comment, ← List.cons_append, ← line]
    apply run_again
    exact h.stops (by decide)
  by_cases word : isWordStart c = true
  · rw [next_word word] at h ⊢
    have stops := h.stops (p := isWordPart) (by decide)
    exact ⟨cs.takeWhile isWordPart, rfl, by rw [next_word word, run_again _ _ stops]⟩
  by_cases digit : c.isDigit = true
  · rw [next_digit digit] at h ⊢
    obtain ⟨tail, chars, again⟩ := number_again [c] cs h.newline
    exact ⟨tail, chars, by rw [next_digit digit, again]⟩
  by_cases negative : c = '-' ∧ startsWithDigit cs = true
  · obtain ⟨rfl, starts⟩ := negative
    cases cs with
    | nil => simp [startsWithDigit] at starts
    | cons d ds =>
      have hd : d.isDigit = true := starts
      rw [next_minus starts, number_digit hd] at h ⊢
      obtain ⟨tail, chars, again⟩ := number_again (['-'] ++ [d]) ds h.newline
      refine ⟨d :: tail, chars, ?_⟩
      have startsAgain : startsWithDigit (d :: (tail ++ rest)) = true := hd
      rw [List.cons_append, next_minus startsAgain, number_digit hd, again]
  by_cases quote : c = '"'
  · subst quote
    rw [next_quote] at h ⊢
    have again := quoted_again false cs h.newline
    refine ⟨(quoted false cs).token.chars, rfl, ?_⟩
    rw [next_quote, again]
  · have read : next c cs = ⟨⟨punctuation c, [c]⟩, cs⟩ := next_single (by simpa using blank) comment
      (by simpa using word) (by simpa using digit) negative quote
    rw [read] at h ⊢
    refine ⟨[], rfl, ?_⟩
    rw [List.nil_append]
    apply next_single (by simpa using blank) _ (by simpa using word) (by simpa using digit) _ quote
    · rintro ⟨-, slash⟩
      exact absurd (h.newline '/' slash) (by decide)
    · rintro ⟨-, starts⟩
      cases rest with
      | nil => simp [startsWithDigit] at starts
      | cons d ds =>
        rw [h.newline d rfl] at starts
        simp [startsWithDigit] at starts

end Lexer

/-! ### All tokens of a text -/

variable {t : Token} {ts : List Token} {rest : List Char}

/-- Each token of a text is the only one that is read from its characters. -/
theorem lex_alone (text : List Char) : ∀ t ∈ lex text, lex t.chars = [t] := by
  apply lex_forall
  intro c cs
  obtain ⟨tail, chars, again⟩ := Lexer.next_again c cs (Lexer.cut_nil _)
  rw [List.append_nil] at again
  rw [chars, lex_cons, again]
  simp [lex]

/-- A token that is read from its own characters is the first one of them. -/
theorem exists_next_of_alone (alone : lex t.chars = [t]) :
    ∃ c cs, t.chars = c :: cs ∧ (Lexer.next c cs).token = t := by
  cases chars : t.chars with
  | nil => simp [chars, lex] at alone
  | cons c cs =>
    rw [chars, lex_cons, List.cons.injEq] at alone
    exact ⟨c, cs, rfl, alone.1⟩

/-- A token that is read from its own characters is read from them at the end of a line. -/
theorem lex_append_of_alone (alone : lex t.chars = [t]) (cut : Lexer.Cut t.kind rest) :
    lex (t.chars ++ rest) = t :: lex rest := by
  obtain ⟨c, cs, chars, rfl⟩ := exists_next_of_alone alone
  obtain ⟨tail, own, again⟩ := Lexer.next_again c cs cut
  have same : tail = cs := (List.cons.inj (own.symm.trans chars)).2
  rw [same] at again
  rw [chars, List.cons_append, lex_cons, again]

/-- A token that is no blank does not begin with one. -/
theorem isBlank_head_of_alone (alone : lex t.chars = [t]) (kind : t.kind ≠ .whitespace) :
    ∀ c ∈ (t.chars ++ rest).head?, isBlank c = false := by
  obtain ⟨c, cs, chars, read⟩ := exists_next_of_alone alone
  rw [chars]
  intro d hd
  obtain rfl : c = d := by simpa using hd
  rw [Bool.eq_false_iff]
  intro blank
  rw [Lexer.next_blank blank] at read
  exact kind (read ▸ rfl)

/-- A new line in front of something else than a blank is a token by itself. -/
theorem lex_newline (h : ∀ c ∈ rest.head?, isBlank c = false) :
    lex ('\n' :: rest) = ⟨.whitespace, ['\n']⟩ :: lex rest := by
  rw [lex_cons, Lexer.next_blank (by decide), Lexer.run, Lexer.takeWhile_stops h,
    Lexer.dropWhile_stops h]
  rfl

/-- Tokens on lines of their own are read again, with the line ends between them. -/
theorem lex_lines (h : ∀ t ∈ ts, t.kind ≠ .whitespace ∧ lex t.chars = [t]) :
    lex (['\n'].intercalate (ts.map Token.chars)) = ts.intersperse ⟨.whitespace, ['\n']⟩ := by
  induction ts with
  | nil => simp [lex]
  | cons t ts ih =>
    obtain ⟨kind, alone⟩ := h t List.mem_cons_self
    cases ts with
    | nil => simpa using alone
    | cons u us =>
      have others := ih fun v hv => h v (List.mem_cons_of_mem t hv)
      obtain ⟨kindNext, aloneNext⟩ := h u (by simp)
      have lines : ['\n'].intercalate ((t :: u :: us).map Token.chars) =
          t.chars ++ '\n' :: ['\n'].intercalate ((u :: us).map Token.chars) := by
        simp [List.intercalate]
      obtain ⟨more, begins⟩ : ∃ more, ['\n'].intercalate ((u :: us).map Token.chars) =
          u.chars ++ more := by
        cases us with
        | nil => exact ⟨[], by simp⟩
        | cons v vs =>
          exact ⟨'\n' :: ['\n'].intercalate ((v :: vs).map Token.chars), by simp [List.intercalate]⟩
      have stops : ∀ c ∈ (['\n'].intercalate ((u :: us).map Token.chars)).head?,
          isBlank c = false := by
        rw [begins]
        exact isBlank_head_of_alone aloneNext kindNext
      rw [lines, lex_append_of_alone alone (Lexer.cut_newline kind _), lex_newline stops, others]
      rfl

/-- The tokens of a text are not empty and their characters are the text, in order; and each token is
read from its own characters, as the only one. The other way round, any tokens but blanks of which each
is the only one to be read from its characters are read again from lines of their own, with a blank of
one new line between each two of them. -/
theorem tokens_are_read_again :
    (∀ text : List Char, (∀ t ∈ lex text, t.chars ≠ []) ∧
      (lex text).flatMap Token.chars = text ∧ ∀ t ∈ lex text, lex t.chars = [t]) ∧
    ∀ ts : List Token, (∀ t ∈ ts, t.kind ≠ .whitespace ∧ lex t.chars = [t]) →
      lex (['\n'].intercalate (ts.map Token.chars)) = ts.intersperse ⟨.whitespace, ['\n']⟩ := by
  constructor
  · intro text
    exact ⟨lex_chars_ne_nil text, lex_chars text, lex_alone text⟩
  · intro ts h
    exact lex_lines h

/-- A comment, a text that is not closed, and parts that would be a number or a comment on one line. -/
def Sample.brokenTokens : List Token :=
  [⟨.comment, "// \"".toList⟩, ⟨.unknown, "\"open \\\" // é".toList⟩, ⟨.unknown, ['-']⟩,
    ⟨.integer, "-3".toList⟩, ⟨.unknown, ['.']⟩, ⟨.integer, ['5']⟩, ⟨.unknown, ['/']⟩,
    ⟨.unknown, ['/']⟩, ⟨.kwType, "type".toList⟩]

/-- Each of them is read alone, and they are read again from their lines. -/
theorem broken_tokens_are_read_again :
    (∀ t ∈ Sample.brokenTokens, t.kind ≠ .whitespace ∧ lex t.chars = [t]) ∧
    lex "// \"\n\"open \\\" // é\n-\n-3\n.\n5\n/\n/\ntype".toList =
      Sample.brokenTokens.intersperse ⟨.whitespace, ['\n']⟩ := by
  have each : ∀ t ∈ Sample.brokenTokens, t.kind ≠ .whitespace ∧ lex t.chars = [t] := by
    decide +kernel
  have lines : "// \"\n\"open \\\" // é\n-\n-3\n.\n5\n/\n/\ntype".toList =
      ['\n'].intercalate (Sample.brokenTokens.map Token.chars) := by
    decide +kernel
  refine ⟨each, ?_⟩
  rw [lines]
  exact tokens_are_read_again.2 _ each

end DeclFront
