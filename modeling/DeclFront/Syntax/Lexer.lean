import DeclFront.Syntax.Token
import DeclFront.Text.Blank

/-!
# From text to tokens

`lex` cuts a text into tokens. Every character belongs to exactly one token, so the characters of
the tokens, read in order, are the text: `lex_chars`. A character that starts no token is a token
of the kind `unknown` by itself.
-/

set_option autoImplicit false

namespace DeclFront

open Text (isBlank)

/-- The first token of a text, and what follows it. -/
structure Scan where
  token : Token
  rest : List Char

namespace Lexer

/-- The characters that start a word. -/
def isWordStart (c : Char) : Bool :=
  c.isAlpha || c == '_'

/-- The characters that continue a word. -/
def isWordPart (c : Char) : Bool :=
  c.isAlphanum || c == '_'

/-- The keywords; every other word is an identifier. -/
def wordKind (cs : List Char) : TokenKind :=
  match String.ofList cs with
  | "type" => .kwType
  | "fn" => .kwFn
  | "ref" => .kwRef
  | "out" => .kwOut
  | "in" => .kwIn
  | "params" => .kwParams
  | "true" => .kwTrue
  | "false" => .kwFalse
  | "null" => .kwNull
  | _ => .identifier

/-- The kind of a character that is a token by itself. -/
def punctuation : Char → TokenKind
  | '\x7b' => .leftBrace
  | '\x7d' => .rightBrace
  | '(' => .leftParen
  | ')' => .rightParen
  | '[' => .leftBracket
  | ']' => .rightBracket
  | '<' => .leftAngle
  | '>' => .rightAngle
  | ',' => .comma
  | ';' => .semicolon
  | '=' => .equals
  | '?' => .question
  | _ => .unknown

/-- A token of `kind` that starts with `front` and goes on with the longest run of characters of
`cs` that satisfy `p`. -/
def run (kind : List Char → TokenKind) (front : List Char) (p : Char → Bool) (cs : List Char) : Scan :=
  let taken := front ++ cs.takeWhile p
  ⟨⟨kind taken, taken⟩, cs.dropWhile p⟩

/-- A number that starts with `front` and goes on with the digits of `cs`. A point belongs to it
only when a digit follows the point. -/
def number (front cs : List Char) : Scan :=
  let whole := front ++ cs.takeWhile Char.isDigit
  match cs.dropWhile Char.isDigit with
  | '.' :: d :: rest =>
    if d.isDigit then run (fun _ => .float) (whole ++ ['.', d]) Char.isDigit rest
    else ⟨⟨.integer, whole⟩, '.' :: d :: rest⟩
  | rest => ⟨⟨.integer, whole⟩, rest⟩

/-- The rest of a string after its opening quote. A backslash takes the quote or backslash after
it into the string. A string that is still open at the end of its line is `unknown` up to there. -/
def quoted (escaped : Bool) : List Char → Scan
  | [] => ⟨⟨.unknown, []⟩, []⟩
  | c :: cs =>
    if c = '\n' then ⟨⟨.unknown, []⟩, c :: cs⟩
    else if c = '"' ∧ escaped = false then ⟨⟨.string, [c]⟩, cs⟩
    else
      let tail := quoted (c == '\\' && !escaped) cs
      ⟨⟨tail.token.kind, c :: tail.token.chars⟩, tail.rest⟩

/-- Does the text start with a digit? -/
def startsWithDigit : List Char → Bool
  | [] => false
  | c :: _ => c.isDigit

/-- The first token of the text `c :: cs`. -/
def next (c : Char) (cs : List Char) : Scan :=
  if isBlank c then run (fun _ => .whitespace) [c] isBlank cs
  else if c = '/' ∧ cs.head? = some '/' then run (fun _ => .comment) [c] (· != '\n') cs
  else if isWordStart c then run wordKind [c] isWordPart cs
  else if c.isDigit then number [c] cs
  else if c = '-' ∧ startsWithDigit cs = true then number [c] cs
  else if c = '"' then
    let tail := quoted false cs
    ⟨⟨tail.token.kind, c :: tail.token.chars⟩, tail.rest⟩
  else ⟨⟨punctuation c, [c]⟩, cs⟩

/-- A run and what follows it are the text. -/
theorem run_chars_append (kind : List Char → TokenKind) (front : List Char) (p : Char → Bool) (cs : List Char) : (run kind front p cs).token.chars ++ (run kind front p cs).rest = front ++ cs := by
  simp [run]

/-- A number and what follows it are the text, whether a point belongs to it or not. -/
theorem number_chars_append (front cs : List Char) : (number front cs).token.chars ++ (number front cs).rest = front ++ cs := by
  have parts : front ++ cs = (front ++ cs.takeWhile Char.isDigit) ++ cs.dropWhile Char.isDigit := by
    rw [List.append_assoc, List.takeWhile_append_dropWhile]
  rw [parts]
  unfold number
  split
  · rename_i d rest h
    rw [h]
    by_cases hd : d.isDigit = true
    · simp [hd, run_chars_append]
    · simp [hd]
  · simp

/-- A string and what follows it are the text, whether it is closed or not. -/
theorem quoted_chars_append (escaped : Bool) (cs : List Char) : (quoted escaped cs).token.chars ++ (quoted escaped cs).rest = cs := by
  induction cs generalizing escaped with
  | nil => simp [quoted]
  | cons c cs ih =>
      unfold quoted
      split
      · simp
      · split
        · simp
        · simp [ih]

/-- A token and what follows it are the text it was read from. -/
theorem next_chars_append (c : Char) (cs : List Char) : (next c cs).token.chars ++ (next c cs).rest = c :: cs := by
  unfold next
  split
  · simp [run_chars_append]
  split
  · simp [run_chars_append]
  split
  · simp [run_chars_append]
  split
  · simp [number_chars_append]
  split
  · simp [number_chars_append]
  split
  · simp [quoted_chars_append]
  · simp

/-- A number has the characters that it starts with. -/
theorem number_chars_ne_nil (front cs : List Char) (h : front ≠ []) : (number front cs).token.chars ≠ [] := by
  unfold number
  split
  · split <;> simp [run, h]
  · simp [h]

/-- No token is empty. -/
theorem next_chars_ne_nil (c : Char) (cs : List Char) : (next c cs).token.chars ≠ [] := by
  unfold next
  split
  · simp [run]
  split
  · simp [run]
  split
  · simp [run]
  split
  · exact number_chars_ne_nil _ _ (by simp)
  split
  · exact number_chars_ne_nil _ _ (by simp)
  split <;> simp

/-- What follows the first token is shorter than the text, so that reading a text comes to
an end. -/
theorem next_rest_length (c : Char) (cs : List Char) : (next c cs).rest.length < (c :: cs).length := by
  have all := congrArg List.length (next_chars_append c cs)
  have some := List.length_pos_iff.mpr (next_chars_ne_nil c cs)
  rw [List.length_append] at all
  omega

end Lexer

/-- The tokens of a text, trivia included. -/
def lex : List Char → List Token
  | [] => []
  | c :: cs => (Lexer.next c cs).token :: lex (Lexer.next c cs).rest
termination_by cs => cs.length
decreasing_by exact Lexer.next_rest_length c cs

/-- The characters of the tokens, read in order, are the text. -/
theorem lex_chars (cs : List Char) : (lex cs).flatMap Token.chars = cs := by
  induction h : cs.length using Nat.strongRecOn generalizing cs with
  | ind n ih =>
      cases cs with
      | nil => simp [lex]
      | cons c cs =>
          have shorter := Lexer.next_rest_length c cs
          rw [lex, List.flatMap_cons, ih _ (by omega) _ rfl, Lexer.next_chars_append]

end DeclFront
