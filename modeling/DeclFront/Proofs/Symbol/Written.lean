import DeclFront.Proofs.Symbol.Literals
import DeclFront.Proofs.Syntax.Spelling

/-!
# Constants that are written down

A text in quotes and a number in digits are read as one literal, and decoded to what was written. In
quotes, a backslash, a quote and a line feed are written as a backslash and a letter; a tab and a NUL
may be. What follows the closing quote does not matter: inside, no quote stands that could be taken for
it, and no backslash that could take it in. A number as it is shown is an integer literal, and the
constant for it is shown as the literal again.
-/

set_option autoImplicit false

namespace DeclFront

/-- The characters that can be written as a backslash and a letter, with their letters. -/
def escapePairs : List (Char × Char) :=
  [('\\', '\\'), ('"', '"'), ('\n', 'n'), ('\t', 't'), ('\x00', '0')]

/-- The characters write a text as it may stand between quotes. A backslash, a quote and a line feed
have to be written in two characters, a tab and a NUL can be, each wherever it stands. -/
inductive WritesText : List Char → List Char → Prop where
  | nil : WritesText [] []
  | plain {c : Char} {written text : List Char} : c ∉ ['\\', '"', '\n'] →
    WritesText written text → WritesText (c :: written) (c :: text)
  | pair {c letter : Char} {written text : List Char} : (c, letter) ∈ escapePairs →
    WritesText written text → WritesText ('\\' :: letter :: written) (c :: text)

namespace WritesText

variable {written text : List Char}

/-- Every text can be written. -/
theorem exists_written (text : List Char) : ∃ written, WritesText written text := by
  induction text with
  | nil => exact ⟨[], .nil⟩
  | cons c text ih =>
    obtain ⟨written, writes⟩ := ih
    by_cases two : c ∈ ['\\', '"', '\n']
    · have letter : ∃ letter, (c, letter) ∈ escapePairs := by
        simp only [List.mem_cons, List.not_mem_nil, or_false] at two
        rcases two with rfl | rfl | rfl
        · exact ⟨'\\', by decide⟩
        · exact ⟨'"', by decide⟩
        · exact ⟨'n', by decide⟩
      obtain ⟨letter, known⟩ := letter
      exact ⟨_, .pair known writes⟩
    · exact ⟨_, .plain two writes⟩

/-- A pair is written with a letter that is no line feed, and read as the character it was
written for. -/
theorem pair_cases {c letter : Char} (h : (c, letter) ∈ escapePairs) :
    letter ≠ '\n' ∧ Constant.escaped? letter = some c := by
  revert h
  unfold escapePairs
  simp only [List.mem_cons, List.not_mem_nil, or_false, Prod.mk.injEq]
  rintro (⟨rfl, rfl⟩ | ⟨rfl, rfl⟩ | ⟨rfl, rfl⟩ | ⟨rfl, rfl⟩ | ⟨rfl, rfl⟩) <;> decide

/-- What is written may stand between quotes. -/
theorem inside (h : WritesText written text) : Lexer.Inside written := by
  induction h with
  | nil => exact .nil
  | plain single _ ih =>
    simp only [List.mem_cons, List.not_mem_nil, or_false, not_or] at single
    exact .plain single.2.1 single.1 single.2.2 ih
  | pair known _ ih => exact .escape (pair_cases known).1 ih

/-- What is written is decoded to the text. -/
theorem unescape (h : WritesText written text) : Constant.unescape written = .ok text := by
  induction h with
  | nil => rfl
  | plain single _ ih =>
    simp only [List.mem_cons, not_or] at single
    rw [unescape_plain single.1, ih]
    rfl
  | pair known _ ih =>
    rw [Constant.unescape, (pair_cases known).2]
    dsimp only
    rw [ih]
    rfl

end WritesText

/-! ### Integers -/

/-- The digits of a number are worth the number. -/
theorem decimalValue_toDigits (n : Nat) : decimalValue (Nat.toDigits 10 n) = n := by
  have value := @Nat.ofDigitChars_ten_toDigits n
  rw [Nat.ofDigitChars_eq_foldl] at value
  rw [← foldl_digits]
  simpa only [Nat.mul_comm] using value

/-- The digits of a number are a row of digits. -/
theorem isNumeral_toDigits (n : Nat) : IsNumeral (Nat.toDigits 10 n) :=
  ⟨Nat.toDigits_ne_nil, fun _ => Nat.isDigit_of_mem_toDigits (by decide) (by decide)⟩

namespace WritesInteger

variable {cs : List Char} {n : Int}

/-- A number is written as it is shown. -/
theorem shown (n : Int) : WritesInteger (toString n).toList n := by
  cases n with
  | ofNat n =>
    have digits : (toString (Int.ofNat n)).toList = Nat.toDigits 10 n := by
      show (toString n).toList = _
      simp
    have writes := WritesInteger.plain (isNumeral_toDigits n)
    rw [decimalValue_toDigits] at writes
    exact digits ▸ writes
  | negSucc n =>
    have digits : (toString (Int.negSucc n)).toList = '-' :: Nat.toDigits 10 (n + 1) := by
      show ("-" ++ toString (n + 1)).toList = _
      simp
    have writes := WritesInteger.minus (isNumeral_toDigits (n + 1))
    rw [decimalValue_toDigits] at writes
    exact digits ▸ writes

/-- A number that is written is read as one integer literal. -/
theorem lex_eq (h : WritesInteger cs n) : lex cs = [⟨.integer, cs⟩] := by
  have read : ∀ (negative : Bool) {ds : List Char}, IsNumeral ds →
      lex (Program.minus negative ++ ds) = [⟨.integer, Program.minus negative ++ ds⟩] := by
    rintro negative ds ⟨some, digits⟩
    obtain ⟨d, ds, rfl⟩ := List.exists_cons_of_ne_nil some
    obtain ⟨first, others⟩ := List.forall_mem_cons.mp digits
    have literal := @lex_integer [] negative ⟨d, ds, first, others⟩ (by simp)
    rw [List.append_nil] at literal
    rw [show d :: ds = Program.Digits.chars ⟨d, ds, first, others⟩ from rfl, literal]
    simp [lex]
  cases h with
  | plain numeral => exact read false numeral
  | minus numeral => exact read true numeral

end WritesInteger

/-! ### Both ways -/

/-- A text that is written in quotes is read as one string literal, whatever follows, and decoded to
the text. A number of 64 bits as it is shown is read as one integer literal and decoded to a constant
that holds the number, in 32 bits if it fits, and that is shown the same. -/
theorem constants_read_back :
    (∀ s : String, (∃ written, WritesText written s.toList) ∧
      ∀ written, WritesText written s.toList →
        let token : Token := ⟨.string, '"' :: (written ++ ['"'])⟩
        lex token.chars = [token] ∧
        (∀ behind, lex (token.chars ++ behind) = token :: lex behind) ∧
        Constant.ofToken token = .ok (.ok (.string s))) ∧
    ∀ n : Int64,
      let token : Token := ⟨.integer, (toString n.toInt).toList⟩
      WritesInteger token.chars n.toInt ∧ lex token.chars = [token] ∧
      ∃ c, Constant.ofToken token = .ok (.ok c) ∧
        (FitsWord 32 n.toInt ∧ c = .int n.toInt ∨ ¬FitsWord 32 n.toInt ∧ c = .long n.toInt) ∧
        c.text = toString n.toInt := by
  refine ⟨fun s => ⟨WritesText.exists_written _, fun written writes => ?_⟩, fun n => ?_⟩
  · have first : ∀ behind, lex ('"' :: (written ++ ['"']) ++ behind) =
        ⟨.string, '"' :: (written ++ ['"'])⟩ :: lex behind := by
      intro behind
      rw [List.cons_append, List.append_assoc, List.singleton_append]
      exact lex_string writes.inside behind
    refine ⟨?_, first, ?_⟩
    · have alone := first []
      rw [List.append_nil] at alone
      rw [alone]
      simp [lex]
    · rw [Token.ofToken_string rfl rfl, writes.unescape]
      simp [Except.map]
  · have writes := WritesInteger.shown n.toInt
    have decoded := Token.ofToken_integer (t := ⟨.integer, (toString n.toInt).toList⟩) rfl writes
    obtain ⟨small, large, -⟩ := ofInteger_cases n.toInt
    have fits : FitsWord 64 n.toInt := ⟨n.le_toInt, n.toInt_lt⟩
    refine ⟨writes, writes.lex_eq, ?_⟩
    by_cases word : FitsWord 32 n.toInt
    · rw [small word] at decoded
      exact ⟨_, decoded, .inl ⟨word, rfl⟩, rfl⟩
    · rw [large fits word] at decoded
      exact ⟨_, decoded, .inr ⟨word, rfl⟩, rfl⟩

/-- A text that ends with a backslash, with a quote right behind its closing one: the backslash does
not take in the quote that closes the text. The smallest number of 64 bits goes with a minus sign. -/
theorem trailing_backslash_reads_back :
    WritesText ['a', '\\', '\\'] ['a', '\\'] ∧
      lex ['"', 'a', '\\', '\\', '"', '"'] = ⟨.string, ['"', 'a', '\\', '\\', '"']⟩ :: lex ['"'] ∧
      Constant.ofToken ⟨.string, ['"', 'a', '\\', '\\', '"']⟩ = .ok (.ok (.string "a\\")) ∧
      lex (toString Int64.minValue.toInt).toList =
        [⟨.integer, (toString Int64.minValue.toInt).toList⟩] := by
  have writes : WritesText ['a', '\\', '\\'] ['a', '\\'] :=
    .plain (by decide) (.pair (by decide) .nil)
  obtain ⟨texts, numbers⟩ := constants_read_back
  obtain ⟨-, behind, decoded⟩ := (texts "a\\").2 _ writes
  exact ⟨writes, behind ['"'], decoded, (numbers Int64.minValue).2.1⟩

end DeclFront
