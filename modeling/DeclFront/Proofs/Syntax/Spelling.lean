import DeclFront.Proofs.Syntax.Lexing
import DeclFront.Proofs.Syntax.Program
import DeclFront.Proofs.Syntax.Trivia

/-!
# Writing tokens down

A text spells some tokens when it is these tokens, one behind the other, with gaps between them. A
gap is made of blanks and of line comments; it may be left out where the tokens next to it stay
apart. However it is done, the tokens are read from the text again.
-/

set_option autoImplicit false

namespace DeclFront

open Text (isBlank)

/-- What may stand between tokens: blanks, and comments up to the end of their line. -/
inductive Gap : List Char → Prop where
  | nil : Gap []
  | blank {c : Char} {cs : List Char} : isBlank c = true → Gap cs → Gap (c :: cs)
  | comment {body cs : List Char} :
    (∀ c ∈ body, c ≠ '\n') → Gap cs → Gap ('/' :: '/' :: (body ++ '\n' :: cs))

/-- What may stand behind all tokens: a gap, and a comment that ends with the text. -/
inductive Tail : List Char → Prop where
  | gap {cs : List Char} : Gap cs → Tail cs
  | comment {body cs : List Char} :
    Gap cs → (∀ c ∈ body, c ≠ '\n') → Tail (cs ++ '/' :: '/' :: body)

/-- Two tokens that are still these two with nothing between them. -/
def Apart (t u : Token) : Prop :=
  lex (t.chars ++ u.chars) = [t, u]

instance (t u : Token) : Decidable (Apart t u) :=
  inferInstanceAs (Decidable (_ = _))

/-- Tokens written down from the first one on. -/
inductive Written : List Token → List Char → Prop where
  | nil {cs : List Char} : Tail cs → Written [] cs
  | cons {t : Token} {ts : List Token} {gap cs : List Char} :
    Gap gap → (gap = [] → ∀ u ∈ ts.head?, Apart t u) → Written ts cs →
    Written (t :: ts) (t.chars ++ (gap ++ cs))

/-- A text that is some tokens in their order, with trivia around them. -/
def Spells (ts : List Token) (text : List Char) : Prop :=
  ∃ gap cs, Gap gap ∧ Written ts cs ∧ text = gap ++ cs

/-- Tokens with a space only between those that would not stay apart. -/
def compact : List Token → List Char
  | [] => []
  | [t] => t.chars
  | t :: u :: ts => t.chars ++ ((if Apart t u then [] else [' ']) ++ compact (u :: ts))

/-- Whatever the tokens are, there is a text that spells them. -/
theorem compact_written (ts : List Token) : Written ts (compact ts) := by
  induction ts with
  | nil => exact .nil (.gap .nil)
  | cons t ts ih =>
    cases ts with
    | nil =>
      have alone : Written [t] (t.chars ++ ([] ++ [])) := .cons .nil (by simp) ih
      rw [List.append_nil, List.append_nil] at alone
      exact alone
    | cons u us =>
      rw [compact]
      by_cases apart : Apart t u
      · rw [if_pos apart]
        refine .cons .nil ?_ ih
        rintro - v ⟨⟩
        exact apart
      · rw [if_neg apart]
        have space : Gap [' '] := .blank (by decide) .nil
        exact .cons space (fun none => absurd none (List.cons_ne_nil _ _)) ih

/-! ### Runs of characters -/

namespace Lexer

section Runs

variable {p : Char → Bool} {cs rest : List Char}

/-- A run that does not go on with the next character takes nothing of the rest. -/
theorem takeWhile_stops (h : ∀ c ∈ rest.head?, p c = false) : rest.takeWhile p = [] := by
  cases rest with
  | nil => rfl
  | cons c cs => exact List.takeWhile_cons_of_neg (by simp [h c rfl])

/-- A run that does not go on with the next character leaves all of the rest. -/
theorem dropWhile_stops (h : ∀ c ∈ rest.head?, p c = false) : rest.dropWhile p = rest := by
  cases rest with
  | nil => rfl
  | cons c cs => exact List.dropWhile_cons_of_neg (by simp [h c rfl])

/-- A run that takes nothing of the rest does not go on with the next character. -/
theorem stops_of_takeWhile (h : rest.takeWhile p = []) : ∀ c ∈ rest.head?, p c = false := by
  cases rest with
  | nil => simp
  | cons c cs =>
    rintro d ⟨⟩
    rw [Bool.eq_false_iff]
    intro hc
    rw [List.takeWhile_cons_of_pos hc] at h
    simp at h

/-- A run takes the characters that belong to it, and no others. -/
theorem takeWhile_append_stops (all : ∀ c ∈ cs, p c = true) (h : ∀ c ∈ rest.head?, p c = false) :
    (cs ++ rest).takeWhile p = cs := by
  rw [List.takeWhile_append_of_pos all, takeWhile_stops h, List.append_nil]

/-- What is left behind a run is the rest. -/
theorem dropWhile_append_stops (all : ∀ c ∈ cs, p c = true) (h : ∀ c ∈ rest.head?, p c = false) :
    (cs ++ rest).dropWhile p = rest := by
  rw [List.dropWhile_append_of_pos all, dropWhile_stops h]

/-- A token that is a run of characters has all of them, and ends where the rest begins. -/
theorem run_stops (kind : List Char → TokenKind) (front : List Char) (all : ∀ c ∈ cs, p c = true)
    (h : ∀ c ∈ rest.head?, p c = false) :
    run kind front p (cs ++ rest) = ⟨⟨kind (front ++ cs), front ++ cs⟩, rest⟩ := by
  unfold run
  rw [takeWhile_append_stops all h, dropWhile_append_stops all h]

end Runs

section Numbers

variable {front cs ds rest : List Char}

/-- Digits are an integer where neither a digit nor a point follows. -/
theorem number_integer (all : ∀ c ∈ cs, c.isDigit = true)
    (h : ∀ c ∈ rest.head?, c.isDigit = false ∧ c ≠ '.') :
    number front (cs ++ rest) = ⟨⟨.integer, front ++ cs⟩, rest⟩ := by
  have stops : ∀ c ∈ rest.head?, c.isDigit = false := fun c hc => (h c hc).1
  unfold number
  rw [takeWhile_append_stops all stops, dropWhile_append_stops all stops]
  split
  · exact absurd rfl (h '.' rfl).2
  · rfl

/-- With a point and a digit behind it, a number goes on as a float. -/
theorem number_float {d : Char} (all : ∀ c ∈ cs, c.isDigit = true) (hd : d.isDigit = true) :
    number front (cs ++ '.' :: d :: rest) =
      run (fun _ => .float) (front ++ cs ++ ['.', d]) Char.isDigit rest := by
  have stops : ∀ c ∈ ('.' :: d :: rest).head?, c.isDigit = false := by
    rintro c ⟨⟩
    decide
  unfold number
  rw [takeWhile_append_stops all stops, dropWhile_append_stops all stops]
  exact if_pos hd

/-- The first digits of a number may be read one at a time. -/
theorem number_digit {d : Char} (hd : d.isDigit = true) :
    number front (d :: cs) = number (front ++ [d]) cs := by
  unfold number
  rw [List.takeWhile_cons_of_pos hd, List.dropWhile_cons_of_pos hd, List.append_cons]

/-- A number that is an integer is its front and the digits behind it. -/
theorem number_chars_of_integer (h : (number front cs).token.kind = .integer) :
    (number front cs).token.chars = front ++ cs.takeWhile Char.isDigit := by
  revert h
  unfold number
  split
  · rename_i d rest point
    dsimp only
    split
    · intro h
      simp [run] at h
    · intro _
      rfl
  · intro _
    rfl

end Numbers

end Lexer

/-! ### Tokens that can be written -/

/-- Does a character belong to a token of this kind when it stands right behind it? -/
def TokenKind.goesOn : TokenKind → Char → Bool
  | integer | float => Char.isDigit
  | identifier | kwType | kwFn | kwRef | kwOut | kwIn | kwParams | kwTrue | kwFalse | kwNull =>
    Lexer.isWordPart
  | _ => fun _ => false

/-- The shapes of tokens that are read as what they are. -/
inductive Legible : Token → Prop where
  | word {kind : TokenKind} {c : Char} {cs : List Char} :
    Lexer.isWordStart c = true → (∀ d ∈ cs, Lexer.isWordPart d = true) →
    Lexer.wordKind (c :: cs) = kind → Legible ⟨kind, c :: cs⟩
  | integer (negative : Bool) (whole : Program.Digits) :
    Legible ⟨.integer, Program.minus negative ++ whole.chars⟩
  | float (negative : Bool) (whole fraction : Program.Digits) :
    Legible ⟨.float, Program.minus negative ++ (whole.chars ++ '.' :: fraction.chars)⟩
  | string {inner : List Char} : Lexer.Inside inner → Legible ⟨.string, '"' :: (inner ++ ['"'])⟩
  | sign {c : Char} : Lexer.punctuation c ≠ .unknown → Legible (Token.sign c)

/-- What stands behind a token does not belong to it. -/
def Stops (t : Token) (rest : List Char) : Prop :=
  ∀ c ∈ rest.head?, t.kind.goesOn c = false ∧ c ≠ '.'

variable {t : Token} {rest : List Char}

/-- Keywords go on with the same characters as identifiers. -/
theorem goesOn_wordKind (cs : List Char) : (Lexer.wordKind cs).goesOn = Lexer.isWordPart := by
  unfold Lexer.wordKind
  split <;> rfl

/-- No character is added to a single sign. -/
theorem goesOn_punctuation (c d : Char) : (Lexer.punctuation c).goesOn d = false := by
  unfold Lexer.punctuation
  split <;> rfl

/-- A text is read as its first token, and then as what is behind that. -/
theorem lex_cons (c : Char) (cs : List Char) :
    lex (c :: cs) = (Lexer.next c cs).token :: lex (Lexer.next c cs).rest := by
  rw [lex]

/-- The digits of a number are digits. -/
theorem Program.Digits.all_isDigit (d : Program.Digits) : ∀ c ∈ d.chars, c.isDigit = true := by
  intro c hc
  rcases List.mem_cons.mp hc with rfl | hc
  · exact d.first_isDigit
  · exact d.others_isDigit c hc

/-- A number is read as one, with its sign or without. -/
theorem lex_number (negative : Bool) (whole : Program.Digits) (rest : List Char) :
    lex (Program.minus negative ++ (whole.chars ++ rest)) =
      (Lexer.number (Program.minus negative) (whole.chars ++ rest)).token ::
        lex (Lexer.number (Program.minus negative) (whole.chars ++ rest)).rest := by
  cases negative with
  | false =>
    have first := whole.first_isDigit
    show lex (whole.first :: (whole.others ++ rest)) = (Lexer.number [] (whole.first ::
      (whole.others ++ rest))).token :: lex (Lexer.number [] (whole.first ::
      (whole.others ++ rest))).rest
    rw [lex_cons, Lexer.next_digit first, Lexer.number_digit first]
    rfl
  | true =>
    show lex ('-' :: (whole.chars ++ rest)) = _
    have digit : Lexer.startsWithDigit (whole.chars ++ rest) = true := whole.first_isDigit
    rw [lex_cons, Lexer.next_minus digit]
    rfl

/-- An integer is read as one where neither a digit nor a point follows. -/
theorem lex_integer (negative : Bool) (whole : Program.Digits)
    (h : ∀ c ∈ rest.head?, c.isDigit = false ∧ c ≠ '.') :
    lex (Program.minus negative ++ (whole.chars ++ rest)) =
      ⟨.integer, Program.minus negative ++ whole.chars⟩ :: lex rest := by
  rw [lex_number, Lexer.number_integer whole.all_isDigit h]

/-- A float goes on with the digits behind it. -/
theorem lex_float (negative : Bool) (whole fraction : Program.Digits) (rest : List Char) :
    lex (Program.minus negative ++ (whole.chars ++ '.' :: (fraction.chars ++ rest))) =
      ⟨.float, Program.minus negative ++ (whole.chars ++ '.' :: (fraction.chars ++
        rest.takeWhile Char.isDigit))⟩ :: lex (rest.dropWhile Char.isDigit) := by
  have point : Lexer.number (Program.minus negative)
      (whole.chars ++ '.' :: fraction.first :: (fraction.others ++ rest)) = _ :=
    Lexer.number_float whole.all_isDigit fraction.first_isDigit
  have others := fraction.others_isDigit
  rw [lex_number]
  show (Lexer.number _ (whole.chars ++ '.' :: fraction.first :: (fraction.others ++ rest))).token ::
    lex (Lexer.number _
      (whole.chars ++ '.' :: fraction.first :: (fraction.others ++ rest))).rest = _
  rw [point]
  unfold Lexer.run
  rw [List.takeWhile_append_of_pos others, List.dropWhile_append_of_pos others]
  simp [Program.Digits.chars]

/-- A word is read up to the last character that can belong to it. -/
theorem lex_word {c : Char} {cs : List Char} (hc : Lexer.isWordStart c = true)
    (hcs : ∀ d ∈ cs, Lexer.isWordPart d = true) (rest : List Char) :
    lex (c :: (cs ++ rest)) =
      ⟨Lexer.wordKind (c :: (cs ++ rest.takeWhile Lexer.isWordPart)),
        c :: (cs ++ rest.takeWhile Lexer.isWordPart)⟩ ::
        lex (rest.dropWhile Lexer.isWordPart) := by
  rw [lex_cons, Lexer.next_word hc]
  unfold Lexer.run
  rw [List.takeWhile_append_of_pos hcs, List.dropWhile_append_of_pos hcs]
  rfl

/-- A string is read up to the quote that closes it. -/
theorem lex_string {inner : List Char} (h : Lexer.Inside inner) (rest : List Char) :
    lex ('"' :: (inner ++ '"' :: rest)) = ⟨.string, '"' :: (inner ++ ['"'])⟩ :: lex rest := by
  rw [lex_cons, Lexer.next_quote, Lexer.quoted_inside h]

/-- A sign that is known is read as a token of its own. -/
theorem lex_sign {c : Char} (h : Lexer.punctuation c ≠ .unknown) (rest : List Char) :
    lex (c :: rest) = Token.sign c :: lex rest := by
  rw [lex_cons, Lexer.next_punctuation h]
  rfl

/-- A token is read as what it is when what stands behind it does not belong to it. -/
theorem lex_legible (ht : Legible t) (stops : Stops t rest) :
    lex (t.chars ++ rest) = t :: lex rest := by
  cases ht with
  | @word kind c cs hc hcs hkind =>
    have part : ∀ d ∈ rest.head?, Lexer.isWordPart d = false := by
      intro d hd
      rw [← goesOn_wordKind (c :: cs), hkind]
      exact (stops d hd).1
    show lex (c :: (cs ++ rest)) = _
    rw [lex_word hc hcs, Lexer.takeWhile_stops part, Lexer.dropWhile_stops part, List.append_nil,
      hkind]
  | integer negative whole =>
    rw [List.append_assoc]
    exact lex_integer negative whole stops
  | float negative whole fraction =>
    have digit : ∀ d ∈ rest.head?, d.isDigit = false := fun d hd => (stops d hd).1
    have read := lex_float negative whole fraction rest
    rw [Lexer.takeWhile_stops digit, Lexer.dropWhile_stops digit, List.append_nil] at read
    rw [← read]
    simp
  | @string inner inside =>
    have read := lex_string inside rest
    rw [← read]
    simp
  | sign known => exact lex_sign known rest

/-- A legible token has a first character, which is not a point. -/
theorem Legible.head (h : Legible t) : ∃ c cs, t.chars = c :: cs ∧ c ≠ '.' := by
  have point : ∀ c : Char, c.isDigit = true → c ≠ '.' := by
    rintro c hc rfl
    exact absurd hc (by decide)
  have number : ∀ negative whole, ∀ cs : List Char,
      ∃ c ds, Program.minus negative ++ (Program.Digits.chars whole ++ cs) = c :: ds ∧ c ≠ '.' := by
    intro negative whole cs
    cases negative with
    | true => exact ⟨'-', _, rfl, by decide⟩
    | false => exact ⟨whole.first, _, rfl, point _ whole.first_isDigit⟩
  cases h with
  | @word _ c cs hc =>
    refine ⟨c, cs, rfl, ?_⟩
    rintro rfl
    exact absurd hc (by decide)
  | integer negative whole =>
    have some := number negative whole []
    rw [List.append_nil] at some
    exact some
  | float negative whole fraction => exact number negative whole _
  | string => exact ⟨'"', _, rfl, by decide⟩
  | @sign c known =>
    refine ⟨c, [], rfl, ?_⟩
    rintro rfl
    exact known rfl

/-- Where two tokens stay apart, the second does not go on with the first. -/
theorem stops_of_apart {u : Token} (ht : Legible t) (hu : Legible u) (h : Apart t u) :
    Stops t u.chars := by
  obtain ⟨d, ds, chars, point⟩ := hu.head
  have apart : t.kind.goesOn d = false → Stops t u.chars := by
    intro stop c hc
    rw [chars] at hc
    cases hc
    exact ⟨stop, point⟩
  have head : d ∈ u.chars.head? := by rw [chars]; rfl
  apply apart
  unfold Apart at h
  cases ht with
  | @word kind c cs hc hcs hkind =>
    have read := (lex_word hc hcs u.chars).symm.trans h
    have none : u.chars.takeWhile Lexer.isWordPart = [] := by
      have same := congrArg Token.chars (List.cons.inj read).1
      simpa using same
    rw [← hkind, goesOn_wordKind]
    exact Lexer.stops_of_takeWhile none d head
  | integer negative whole =>
    rw [List.append_assoc, lex_number] at h
    have same := (List.cons.inj h).1
    have taken := Lexer.number_chars_of_integer (congrArg Token.kind same)
    rw [congrArg Token.chars same, List.takeWhile_append_of_pos whole.all_isDigit] at taken
    have none : u.chars.takeWhile Char.isDigit = [] := by simpa using taken
    exact Lexer.stops_of_takeWhile none d head
  | float negative whole fraction =>
    have read := lex_float negative whole fraction u.chars
    have none : u.chars.takeWhile Char.isDigit = [] := by
      have same := congrArg Token.chars (List.cons.inj (read.symm.trans (by simpa using h))).1
      simpa using same
    exact Lexer.stops_of_takeWhile none d head
  | string => rfl
  | @sign c _ => exact goesOn_punctuation c d

/-! ### Gaps -/

/-- A blank does not belong to the token in front of it. -/
theorem goesOn_of_isBlank {c : Char} (h : isBlank c = true) (kind : TokenKind) :
    kind.goesOn c = false ∧ c ≠ '.' := by
  have digit : c.isDigit = false := by
    rw [Bool.eq_false_iff]
    intro digit
    rw [Lexer.isBlank_of_isDigit digit] at h
    simp at h
  have part : Lexer.isWordPart c = false := by
    have start : Lexer.isWordStart c = false := by
      rw [Bool.eq_false_iff]
      intro start
      rw [Lexer.isBlank_of_isWordStart start] at h
      simp at h
    rw [Lexer.isWordPart_eq, start, digit]
    rfl
  constructor
  · cases kind <;> first | exact digit | exact part | rfl
  · rintro rfl
    exact absurd h (by decide)

/-- A slash does not belong to the token in front of it. -/
theorem goesOn_slash (kind : TokenKind) : kind.goesOn '/' = false ∧ '/' ≠ '.' := by
  cases kind <;> decide

/-- A blank in front changes nothing about the significant tokens. -/
theorem significant_blank {c : Char} (h : isBlank c = true) (cs : List Char) :
    significant (c :: cs) = significant cs := by
  have first : ∀ d ds, isBlank d = true →
      significant (d :: ds) = significant (ds.dropWhile isBlank) := by
    intro d ds hd
    unfold significant
    rw [lex_cons, Lexer.next_blank hd]
    rfl
  rw [first c cs h]
  cases cs with
  | nil => rfl
  | cons d ds =>
    by_cases hd : isBlank d = true
    · rw [List.dropWhile_cons_of_pos hd, first d ds hd]
    · rw [List.dropWhile_cons_of_neg hd]

/-- A comment with the end of its line changes nothing about the significant tokens. -/
theorem significant_comment {body : List Char} (h : ∀ c ∈ body, c ≠ '\n') (cs : List Char)
    (hcs : ∀ c ∈ cs.head?, c = '\n') :
    significant ('/' :: '/' :: (body ++ cs)) = significant cs := by
  have line : ∀ c ∈ '/' :: body, (c != '\n') = true := by
    intro c hc
    rcases List.mem_cons.mp hc with rfl | hc
    · decide
    · simp [h c hc]
  have stops : ∀ c ∈ cs.head?, (c != '\n') = false := fun c hc => by simp [hcs c hc]
  have next := Lexer.run_stops (fun _ => TokenKind.comment) ['/'] line stops
  unfold significant
  rw [lex_cons, Lexer.next_comment]
  rw [List.cons_append] at next
  rw [next]
  rfl

/-- A gap in front changes nothing about the significant tokens. -/
theorem significant_gap {gap : List Char} (h : Gap gap) (cs : List Char) :
    significant (gap ++ cs) = significant cs := by
  induction h with
  | nil => rfl
  | blank hc _ ih => exact (significant_blank hc _).trans ih
  | @comment body rest line _ ih =>
    have newline := significant_comment line ('\n' :: (rest ++ cs)) fun c hc => by
      cases hc
      rfl
    have skipped := significant_blank (c := '\n') (by decide) (rest ++ cs)
    rw [List.cons_append, List.cons_append, List.append_assoc, List.cons_append, newline,
      skipped, ih]

/-- Behind all tokens nothing significant follows. -/
theorem significant_tail {cs : List Char} (h : Tail cs) : significant cs = [] := by
  have empty : significant [] = [] := by simp [significant, lex]
  cases h with
  | gap gap =>
    have skipped := significant_gap gap []
    rw [List.append_nil] at skipped
    rw [skipped, empty]
  | comment gap line =>
    have comment := significant_comment line [] (by simp)
    rw [List.append_nil] at comment
    rw [significant_gap gap, comment, empty]

/-- A legible token is not trivia. -/
theorem Legible.isTrivia_eq_false (h : Legible t) : t.isTrivia = false := by
  have word : ∀ cs, (Lexer.wordKind cs).isTrivia = false := by
    intro cs
    unfold Lexer.wordKind
    split <;> rfl
  have sign : ∀ c, (Lexer.punctuation c).isTrivia = false := by
    intro c
    unfold Lexer.punctuation
    split <;> rfl
  cases h with
  | @word kind c cs _ _ hkind => exact hkind ▸ word (c :: cs)
  | @sign c _ => exact sign c
  | _ => rfl

/-- A legible token is the first significant token of a text that starts with it and goes on with
something else. -/
theorem significant_token (ht : Legible t) (stops : Stops t rest) :
    significant (t.chars ++ rest) = t :: significant rest := by
  unfold significant
  rw [lex_legible ht stops, List.filter_cons_of_pos (by simp [ht.isTrivia_eq_false])]

/-- What does not go on with the token in front still does not when more is written behind it. -/
theorem Stops.append {cs : List Char} (h : Stops t cs) (some : cs ≠ []) : Stops t (cs ++ rest) := by
  obtain ⟨c, ds, rfl⟩ := List.exists_cons_of_ne_nil some
  exact h

/-- A gap does not belong to the token in front of it. -/
theorem Gap.stops {gap : List Char} (h : Gap gap) : Stops t gap := by
  rintro c hc
  cases h with
  | nil => simp at hc
  | blank blank =>
    cases hc
    exact goesOn_of_isBlank blank _
  | comment =>
    cases hc
    exact goesOn_slash _

/-- What stands behind all tokens does not belong to the last of them. -/
theorem Tail.stops {cs : List Char} (h : Tail cs) : Stops t cs := by
  cases h with
  | gap gap => exact gap.stops
  | @comment body cs gap _ =>
    by_cases none : cs = []
    · rintro c hc
      rw [none] at hc
      cases hc
      exact goesOn_slash _
    · exact gap.stops.append none

/-- What is written behind a token does not belong to it. -/
theorem Written.stops {ts : List Token} {cs : List Char} (h : Written ts cs) (ht : Legible t)
    (hts : ∀ u ∈ ts, Legible u) (apart : ∀ u ∈ ts.head?, Apart t u) : Stops t cs := by
  cases h with
  | nil tail => exact tail.stops
  | @cons u us gap cs _ _ _ =>
    have hu := hts u List.mem_cons_self
    obtain ⟨c, ds, chars, -⟩ := hu.head
    exact (stops_of_apart ht hu (apart u rfl)).append (by simp [chars])

/-- Legible tokens are read again from wherever they are written down. -/
theorem significant_written {ts : List Token} {text : List Char} (h : Written ts text)
    (legible : ∀ t ∈ ts, Legible t) : significant text = ts := by
  induction h with
  | nil tail => exact significant_tail tail
  | @cons t ts gap cs hgap apart rest ih =>
    have ht := legible t List.mem_cons_self
    have others : ∀ u ∈ ts, Legible u := fun u hu => legible u (List.mem_cons_of_mem t hu)
    have stops : Stops t (gap ++ cs) := by
      by_cases none : gap = []
      · rw [none]
        exact rest.stops ht others (apart none)
      · exact hgap.stops.append none
    rw [significant_token ht stops, significant_gap hgap, ih others]

/-- However tokens are spelled, they are what is read. -/
theorem significant_of_spells {ts : List Token} {text : List Char} (h : Spells ts text)
    (legible : ∀ t ∈ ts, Legible t) : significant text = ts := by
  obtain ⟨gap, cs, hgap, written, rfl⟩ := h
  rw [significant_gap hgap, significant_written written legible]

/-! ### The tokens of a program -/

namespace Program

/-- Names are legible. -/
theorem Name.legible (n : Name) : Legible n.token := by
  refine .word n.first_isWordStart n.others_isWordPart ?_
  have plain := n.not_keyword
  unfold Lexer.wordKind
  split <;> simp_all [keywords]

/-- A word that is known as a keyword is legible. -/
theorem keyword_legible {kind : TokenKind} {c : Char} {cs : List Char}
    (start : Lexer.isWordStart c = true) (parts : cs.all Lexer.isWordPart = true)
    (known : Lexer.wordKind (c :: cs) = kind) : Legible ⟨kind, c :: cs⟩ :=
  .word start (List.all_eq_true.mp parts) known

/-- Values are legible, negative numbers and strings with escapes included. -/
theorem Value.legible (v : Value) : Legible v.token := by
  cases v with
  | null => exact keyword_legible rfl rfl (by decide +kernel)
  | truth b => cases b <;> exact keyword_legible rfl rfl (by decide +kernel)
  | name n => exact n.legible
  | integer negative whole => exact .integer negative whole
  | float negative whole fraction => exact .float negative whole fraction
  | string inner inside => exact .string inside

/-- Modifiers are legible. -/
theorem Modifier.legible (m : Modifier) : Legible m.token := by
  cases m <;> exact keyword_legible rfl rfl (by decide +kernel)

/-- The keyword of a type is legible. -/
theorem kwType_legible : Legible Token.kwType := keyword_legible rfl rfl (by decide +kernel)

/-- The keyword of a method is legible. -/
theorem kwFn_legible : Legible Token.kwFn := keyword_legible rfl rfl (by decide +kernel)

/-- The tokens of a list with commas are legible if those of its entries are. -/
theorem commaSeparated_legible {α : Type} {tokens : α → List Token}
    (h : ∀ x, ∀ t ∈ tokens x, Legible t) (xs : List α) :
    ∀ t ∈ commaSeparated (xs.map tokens), Legible t := by
  have comma : Legible (Token.sign ',') := .sign (by decide)
  unfold commaSeparated
  induction xs with
  | nil => simp
  | cons x xs ih =>
    cases xs with
    | nil =>
      rw [List.map_singleton, List.intercalate_singleton]
      exact h x
    | cons y ys =>
      rw [List.map_cons, List.map_cons, List.intercalate_cons_cons, List.forall_mem_append,
        List.forall_mem_append]
      exact ⟨⟨h x, by simpa using comma⟩, ih⟩

/-- The arguments of an attribute are legible. -/
theorem argumentTokens_legible (arguments : Option (List Value)) :
    ∀ t ∈ argumentTokens arguments, Legible t := by
  cases arguments with
  | none => simp [argumentTokens]
  | some values =>
    have each : ∀ v : Value, ∀ t ∈ [v.token], Legible t := fun v => by simpa using v.legible
    simp only [argumentTokens, List.forall_mem_cons, List.forall_mem_append]
    exact ⟨.sign (by decide), commaSeparated_legible each values, .sign (by decide), by simp⟩

/-- An attribute is legible. -/
theorem Attribute.legible (a : Attribute) : ∀ t ∈ a.tokens, Legible t := by
  simp only [Attribute.tokens, List.forall_mem_cons, List.forall_mem_append]
  exact ⟨.sign (by decide), a.name.legible, argumentTokens_legible a.arguments,
    .sign (by decide), by simp⟩

/-- Attributes next to each other are legible. -/
theorem attributes_legible (as : List Attribute) :
    ∀ t ∈ as.flatMap Attribute.tokens, Legible t :=
  List.forall_mem_flatMap.mpr fun a _ => a.legible

/-- A list of generic parameters is legible. -/
theorem genericTokens_legible (names : List Name) : ∀ t ∈ genericTokens names, Legible t := by
  cases names with
  | nil => simp [genericTokens]
  | cons n ns =>
    have each : ∀ m : Name, ∀ t ∈ [m.token], Legible t := fun m => by simpa using m.legible
    simp only [genericTokens, List.forall_mem_cons, List.forall_mem_append]
    exact ⟨.sign (by decide), commaSeparated_legible each (n :: ns), .sign (by decide), by simp⟩

/-- A type with its suffixes is legible. -/
theorem TypeRef.legible (r : TypeRef) : ∀ t ∈ r.tokens, Legible t := by
  simp only [TypeRef.tokens, List.forall_mem_cons, List.forall_mem_append]
  refine ⟨r.name.legible, ?_, ?_⟩
  · cases r.isArray with
    | false => simp
    | true =>
      simp only [if_true, List.forall_mem_cons]
      exact ⟨.sign (by decide), .sign (by decide), by simp⟩
  · cases r.isNullable with
    | false => simp
    | true =>
      simp only [if_true, List.forall_mem_cons]
      exact ⟨.sign (by decide), by simp⟩

/-- A default value is legible. -/
theorem defaultTokens_legible (default : Option Value) :
    ∀ t ∈ defaultTokens default, Legible t := by
  cases default with
  | none => simp [defaultTokens]
  | some value =>
    exact List.forall_mem_cons.mpr ⟨.sign (by decide), by simpa using value.legible⟩

/-- A parameter is legible. -/
theorem Param.legible (p : Param) : ∀ t ∈ p.tokens, Legible t := by
  simp only [Param.tokens, List.forall_mem_cons, List.forall_mem_append]
  refine ⟨attributes_legible p.attributes, ?_, p.type.legible, p.name.legible,
    defaultTokens_legible p.default⟩
  cases p.modifier with
  | none => simp
  | some m => simpa using m.legible

/-- A method is legible. -/
theorem Method.legible (m : Method) : ∀ t ∈ m.tokens, Legible t := by
  simp only [Method.tokens, paramTokens, List.forall_mem_cons, List.forall_mem_append]
  exact ⟨attributes_legible m.attributes, kwFn_legible, m.name.legible,
    genericTokens_legible m.generics,
    ⟨.sign (by decide), commaSeparated_legible Param.legible m.params, .sign (by decide), by simp⟩,
    .sign (by decide), by simp⟩

/-- A type declaration is legible as a whole. -/
theorem TypeDecl.legible (d : TypeDecl) : ∀ t ∈ d.tokens, Legible t := by
  have methods : ∀ t ∈ d.methods.flatMap Method.tokens, Legible t :=
    List.forall_mem_flatMap.mpr fun m _ => m.legible
  simp only [TypeDecl.tokens, List.forall_mem_cons, List.forall_mem_append]
  exact ⟨attributes_legible d.attributes, kwType_legible, d.name.legible,
    genericTokens_legible d.generics, .sign (by decide), methods, .sign (by decide), by simp⟩

/-- The tokens of a program are read from every text that spells it. -/
theorem significant_of_spelled {program : List TypeDecl} {text : List Char}
    (h : Spells (program.flatMap TypeDecl.tokens) text) :
    significant text = program.flatMap TypeDecl.tokens :=
  significant_of_spells h (List.forall_mem_flatMap.mpr fun d _ => d.legible)

end Program

end DeclFront
