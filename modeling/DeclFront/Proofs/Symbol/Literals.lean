import DeclFront.Proofs.Symbol.Decoding
import Mathlib.Data.List.Induction
import Mathlib.Data.List.TakeWhile
import Mathlib.Data.Nat.Digits.Defs

/-!
# What literals stand for

A literal is read as a token and decoded later, by two functions that do not know of each other. The
first finds where it ends, the second takes what is inside for granted. They agree: a number has
digits wherever decoding looks for some, so that nothing but an integer can be refused, and that only
for its size. A string ends at a quote that is not half of a pair, so decoding comes to its end with
whole pairs, and refuses it only for a pair that stands for nothing.
-/

set_option autoImplicit false

namespace DeclFront

/-! ### Digits -/

/-- Digits and nothing else, at least one. -/
def IsNumeral (ds : List Char) : Prop :=
  ds ≠ [] ∧ ∀ c ∈ ds, c.isDigit = true

/-- What a row of digits is worth in the decimal system. -/
def decimalValue (ds : List Char) : Nat :=
  Nat.ofDigits 10 (ds.reverse.map fun c => c.toNat - '0'.toNat)

/-- A minus sign, or nothing. -/
def signChars (negative : Bool) : List Char :=
  if negative then ['-'] else []

/-- The characters write a number as an integer literal does: perhaps a minus sign, then digits. -/
inductive WritesInteger : List Char → Int → Prop where
  | plain {ds : List Char} : IsNumeral ds → WritesInteger ds (decimalValue ds)
  | minus {ds : List Char} : IsNumeral ds → WritesInteger ('-' :: ds) (-(decimalValue ds))

/-- The number fits a signed word of so many bits. -/
def FitsWord (bits : Nat) (n : Int) : Prop :=
  -2 ^ (bits - 1) ≤ n ∧ n < 2 ^ (bits - 1)

/-- One more digit makes ten times as much, and the digit. -/
theorem decimalValue_concat (ds : List Char) (d : Char) :
    decimalValue (ds ++ [d]) = decimalValue ds * 10 + (d.toNat - '0'.toNat) := by
  unfold decimalValue
  rw [List.reverse_concat, List.map_cons, Nat.ofDigits_cons, Nat.mul_comm, Nat.add_comm]

/-- Adding digit to digit from the left gives what the row is worth. -/
theorem foldl_digits (ds : List Char) :
    ds.foldl (fun n c => n * 10 + (c.toNat - '0'.toNat)) 0 = decimalValue ds := by
  induction ds using List.reverseRecOn with
  | nil => rfl
  | append_singleton ds d ih =>
    rw [List.foldl_append, ih, decimalValue_concat]
    rfl

namespace IsNumeral

variable {ds es : List Char}

/-- Two rows of digits make one. -/
theorem append (hd : IsNumeral ds) (he : IsNumeral es) : IsNumeral (ds ++ es) :=
  ⟨List.append_ne_nil_of_left_ne_nil hd.1 es, fun c hc =>
    (List.mem_append.mp hc).elim (hd.2 c) (he.2 c)⟩

/-- What is no digit is not in a row of digits. -/
theorem ne_of_mem {c e : Char} (h : IsNumeral ds) (he : e.isDigit = false) (hc : c ∈ ds) : c ≠ e := by
  rintro rfl
  exact Bool.false_ne_true (he.symm.trans (h.2 c hc))

/-- Digits have their value. -/
theorem digits? (h : IsNumeral ds) : Constant.digits? ds = some (decimalValue ds) := by
  have digits : (ds.isEmpty || !ds.all Char.isDigit) = false := by
    simpa [List.all_eq_true, h.1] using h.2
  rw [Constant.digits?, digits, foldl_digits]
  rfl

/-- Digits and what is behind them are what is left when the sign in front of them is taken off. -/
theorem unsigned (h : IsNumeral ds) (negative : Bool) (behind : List Char) :
    Constant.unsigned (signChars negative ++ (ds ++ behind)) = (negative, ds ++ behind) := by
  cases negative with
  | true => rfl
  | false =>
    cases ds with
    | nil => exact absurd rfl h.1
    | cons d ds =>
      have digit : d ≠ '-' := h.ne_of_mem rfl List.mem_cons_self
      show Constant.unsigned (d :: (ds ++ behind)) = _
      unfold Constant.unsigned
      split
      · rename_i same
        exact absurd (List.cons.inj same).1 digit
      · rfl

end IsNumeral

namespace WritesInteger

variable {cs ds : List Char} {n : Int}

/-- An integer literal is read as the number that it writes. -/
theorem integer? (h : WritesInteger cs n) : Constant.integer? cs = some n := by
  unfold Constant.integer?
  cases h with
  | plain h =>
    have unsigned : Constant.unsigned cs = (false, cs) := by
      have all := h.unsigned false []
      rwa [List.append_nil] at all
    simp [unsigned, h.digits?]
  | minus h => simp [Constant.unsigned, h.digits?]

end WritesInteger

/-- A floating-point literal is read as the number nearest to what it writes. -/
theorem float?_eq {whole fraction : List Char} (hw : IsNumeral whole) (hf : IsNumeral fraction)
    (negative : Bool) :
    Constant.float? (signChars negative ++ whole ++ '.' :: fraction) =
      some (Binary64.ofDecimal negative (decimalValue (whole ++ fraction))
        (-(fraction.length : Int))) := by
  have before : ∀ c ∈ whole, (c != '.') = true := fun c hc =>
    bne_iff_ne.mpr (hw.ne_of_mem rfl hc)
  have front : (whole ++ '.' :: fraction).takeWhile (· != '.') = whole := by
    rw [List.takeWhile_append_of_pos before]
    simp
  have back : (whole ++ '.' :: fraction).dropWhile (· != '.') = '.' :: fraction := by
    rw [List.dropWhile_append_of_pos before]
    simp
  unfold Constant.float?
  rw [List.append_assoc, hw.unsigned]
  simp only [front, back, List.drop_succ_cons, List.drop_zero, hw.digits?, hf.digits?,
    (hw.append hf).digits?]

/-- The smallest word that a number fits decides what it becomes. -/
theorem ofInteger_cases (n : Int) :
    (FitsWord 32 n → Constant.ofInteger n = some (.int n)) ∧
    (FitsWord 64 n → ¬FitsWord 32 n → Constant.ofInteger n = some (.long n)) ∧
    (¬FitsWord 64 n → Constant.ofInteger n = none) := by
  have small : FitsWord 32 n ↔ -0x80000000 ≤ n ∧ n < 0x80000000 := by simp [FitsWord]
  have large : FitsWord 64 n ↔ -0x8000000000000000 ≤ n ∧ n < 0x8000000000000000 := by
    simp [FitsWord]
  rw [small, large]
  unfold Constant.ofInteger
  refine ⟨fun fits => if_pos fits, fun fits exceeds => ?_, fun exceeds => ?_⟩
  · rw [if_neg exceeds, if_pos fits]
  · rw [if_neg (by omega), if_neg exceeds]

/-! ### Numbers as they are read -/

namespace Lexer

/-- A number is an integer, or it has a point between digits. -/
theorem number_cases (front cs : List Char) :
    (number front cs).token = ⟨.integer, front ++ cs.takeWhile Char.isDigit⟩ ∨
      ∃ fraction, IsNumeral fraction ∧ (number front cs).token =
        ⟨.float, front ++ cs.takeWhile Char.isDigit ++ '.' :: fraction⟩ := by
  unfold number
  split
  · rename_i d rest _
    split
    · rename_i digit
      refine .inr ⟨d :: rest.takeWhile Char.isDigit, ⟨List.cons_ne_nil _ _, fun c hc => ?_⟩, ?_⟩
      · rcases List.mem_cons.mp hc with rfl | hc
        · exact digit
        · exact List.mem_takeWhile_imp hc
      · simp [run]
    · exact .inl rfl
  · exact .inl rfl

/-- The digits that a text begins with are a row of digits. -/
theorem isNumeral_takeWhile {c : Char} {cs : List Char} (h : c.isDigit = true) :
    IsNumeral (c :: cs.takeWhile Char.isDigit) := by
  refine ⟨List.cons_ne_nil _ _, fun d hd => ?_⟩
  rcases List.mem_cons.mp hd with rfl | hd
  · exact h
  · exact List.mem_takeWhile_imp hd

/-- No word is a number. -/
theorem wordKind_ne_number (cs : List Char) :
    wordKind cs ≠ .integer ∧ wordKind cs ≠ .float := by
  unfold wordKind
  split <;> simp

/-- No other single character is one. -/
theorem punctuation_ne_number (c : Char) :
    punctuation c ≠ .integer ∧ punctuation c ≠ .float := by
  unfold punctuation
  split <;> simp

/-- What begins with a quote is a string, or unknown if it is not closed. -/
theorem quoted_kind (escaped : Bool) (cs : List Char) :
    (quoted escaped cs).token.kind = .string ∨ (quoted escaped cs).token.kind = .unknown := by
  induction cs generalizing escaped with
  | nil => exact .inr rfl
  | cons c cs ih =>
    unfold quoted
    split
    · exact .inr rfl
    split
    · exact .inl rfl
    · exact ih _

/-- A number begins with a digit, or with a minus sign before one. -/
theorem next_number {c : Char} {cs : List Char}
    (h : (next c cs).token.kind = .integer ∨ (next c cs).token.kind = .float) :
    ∃ negative whole, IsNumeral whole ∧ next c cs = number [c] cs ∧
      [c] ++ cs.takeWhile Char.isDigit = signChars negative ++ whole := by
  by_cases digit : c.isDigit = true
  · exact ⟨false, _, isNumeral_takeWhile digit, next_digit digit, rfl⟩
  by_cases minus : c = '-' ∧ startsWithDigit cs = true
  · obtain ⟨rfl, starts⟩ := minus
    cases cs with
    | nil => cases starts
    | cons d ds =>
      refine ⟨true, _, @isNumeral_takeWhile d ds starts, next_minus starts, ?_⟩
      rw [List.takeWhile_cons_of_pos (p := Char.isDigit) starts]
      rfl
  -- what begins with anything else is of another kind
  · unfold next at h
    split at h
    · simp [run] at h
    split at h
    · simp [run] at h
    split at h
    · simp [run, wordKind_ne_number] at h
    split at h
    · rcases quoted_kind false cs with kind | kind <;> simp [kind] at h
    · simp [punctuation_ne_number] at h

/-- An integer literal writes a number. -/
theorem next_integer {c : Char} {cs : List Char} (h : (next c cs).token.kind = .integer) :
    ∃ n, WritesInteger (next c cs).token.chars n := by
  obtain ⟨negative, whole, numeral, read, chars⟩ := next_number (.inl h)
  rw [read] at h ⊢
  rcases number_cases [c] cs with token | ⟨fraction, -, token⟩
  · rw [token]
    dsimp only
    rw [chars]
    cases negative with
    | true => exact ⟨_, .minus numeral⟩
    | false => exact ⟨_, .plain numeral⟩
  · rw [token] at h
    cases h

/-- A floating-point literal has digits on both sides of its point. -/
theorem next_float {c : Char} {cs : List Char} (h : (next c cs).token.kind = .float) :
    ∃ negative whole fraction, IsNumeral whole ∧ IsNumeral fraction ∧
      (next c cs).token.chars = signChars negative ++ whole ++ '.' :: fraction := by
  obtain ⟨negative, whole, numeral, read, chars⟩ := next_number (.inr h)
  rw [read] at h ⊢
  rcases number_cases [c] cs with token | ⟨fraction, digits, token⟩
  · rw [token] at h
    cases h
  · refine ⟨negative, whole, fraction, numeral, digits, ?_⟩
    rw [token, ← chars]

end Lexer

/-! ### Strings -/

/-- The characters that stand behind a backslash, when the text is read in pairs of a backslash and a
character and in single characters, from left to right. -/
def escapes : List Char → List Char
  | [] => []
  | '\\' :: c :: cs => c :: escapes cs
  | _ :: cs => escapes cs

/-- The characters that stand for something behind a backslash. -/
def knownEscapes : List Char := ['n', 't', '\\', '"', '0']

/-- A character behind a backslash stands for nothing unless it is one of the known ones. -/
theorem escaped?_eq_none {c : Char} : Constant.escaped? c = none ↔ c ∉ knownEscapes := by
  unfold Constant.escaped?
  split <;> simp_all [knownEscapes]

/-- A character that is no backslash is passed over. -/
theorem escapes_plain {c : Char} {cs : List Char} (h : c ≠ '\\') : escapes (c :: cs) = escapes cs := by
  cases cs <;> simp [escapes, h]

/-- A character that is no backslash stands for itself. -/
theorem unescape_plain {c : Char} {cs : List Char} (h : c ≠ '\\') :
    Constant.unescape (c :: cs) = (Constant.unescape cs).map (c :: ·) := by
  cases cs <;> simp [Constant.unescape, h]

/-- What stands inside a string literal consists of whole pairs and single characters. It is refused
for the first pair that stands for nothing, and for nothing else. -/
theorem unescape_inside {cs : List Char} (h : Lexer.Inside cs) :
    ((∀ c ∈ escapes cs, c ∈ knownEscapes) ∧ ∃ ds, Constant.unescape cs = .ok ds) ∨
      ∃ c ∈ escapes cs, c ∉ knownEscapes ∧ Constant.unescape cs = .error (.unknownEscape c) := by
  induction h with
  | nil => exact .inl ⟨nofun, [], rfl⟩
  | @plain c cs _ backslash _ _ ih =>
    rw [escapes_plain backslash, unescape_plain backslash]
    rcases ih with ⟨known, ds, ok⟩ | ⟨e, he, unknown, error⟩
    · exact .inl ⟨known, c :: ds, by rw [ok]; rfl⟩
    · exact .inr ⟨e, he, unknown, by rw [error]; rfl⟩
  | @escape c cs _ _ ih =>
    rw [escapes, Constant.unescape]
    cases stands : Constant.escaped? c with
    | none => exact .inr ⟨c, List.mem_cons_self, escaped?_eq_none.mp stands, rfl⟩
    | some d =>
      have first : c ∈ knownEscapes := by
        by_contra unknown
        rw [escaped?_eq_none.mpr unknown] at stands
        cases stands
      rcases ih with ⟨known, ds, ok⟩ | ⟨e, he, unknown, error⟩
      · refine .inl ⟨fun e he => ?_, d :: ds, by rw [ok]; rfl⟩
        rcases List.mem_cons.mp he with rfl | he
        · exact first
        · exact known e he
      · exact .inr ⟨e, List.mem_cons_of_mem c he, unknown, by rw [error]; rfl⟩

/-! ### Tokens -/

namespace Token

variable {t : Token}

/-- The token of an integer stands for its number, if that fits, and is out of range if not. -/
theorem ofToken_integer (kind : t.kind = .integer) {n : Int} (h : WritesInteger t.chars n) :
    Constant.ofToken t = .ok (match Constant.ofInteger n with
      | some c => .ok c
      | none => .error (.outOfRange t.text)) := by
  unfold Constant.ofToken
  rw [kind]
  simp only [h.integer?, Option.bind_some]
  cases Constant.ofInteger n <;> rfl

/-- The token of a float stands for the nearest number of double precision, and never fails. -/
theorem ofToken_float (kind : t.kind = .float) {negative : Bool} {whole fraction : List Char}
    (hw : IsNumeral whole) (hf : IsNumeral fraction)
    (chars : t.chars = signChars negative ++ whole ++ '.' :: fraction) :
    Constant.ofToken t = .ok (.ok (.double (Binary64.ofDecimal negative
      (decimalValue (whole ++ fraction)) (-(fraction.length : Int))))) := by
  unfold Constant.ofToken
  rw [kind]
  simp only [chars, float?_eq hw hf]

/-- The token of a string stands for what is between its quotes, with every pair replaced. -/
theorem ofToken_string (kind : t.kind = .string) {inner : List Char}
    (chars : t.chars = '"' :: (inner ++ ['"'])) :
    Constant.ofToken t = .ok ((Constant.unescape inner).map fun cs => .string (String.ofList cs)) := by
  unfold Constant.ofToken
  rw [kind]
  simp only [chars, Constant.stripQuotes_quoted]
  rfl

end Token

/-- Every literal that is read from a text is decoded as what it writes. An integer literal writes a
number, and becomes an integer of 32 bits if that fits, else one of 64 bits if it fits that, and else
it is refused. A floating-point literal has digits on both sides of its point and is never refused. A
string literal has its two quotes; it is refused exactly if a backslash in it is followed by a
character that stands for nothing there, and always for such a character. -/
theorem literals_decode_as_written (text : List Char) (t : Token) (read : t ∈ lex text) :
    (t.kind = .integer → ∃ n, WritesInteger t.chars n ∧
      (FitsWord 32 n → Constant.ofToken t = .ok (.ok (.int n))) ∧
      (FitsWord 64 n → ¬FitsWord 32 n → Constant.ofToken t = .ok (.ok (.long n))) ∧
      (¬FitsWord 64 n → Constant.ofToken t = .ok (.error (.outOfRange t.text)))) ∧
    (t.kind = .float → ∃ negative whole fraction, IsNumeral whole ∧ IsNumeral fraction ∧
      t.chars = signChars negative ++ whole ++ '.' :: fraction ∧
      Constant.ofToken t = .ok (.ok (.double (Binary64.ofDecimal negative
        (decimalValue (whole ++ fraction)) (-(fraction.length : Int)))))) ∧
    (t.kind = .string → ∃ inner, t.chars = '"' :: (inner ++ ['"']) ∧
      2 ≤ Text.byteLength t.chars ∧
      ((∀ c ∈ escapes inner, c ∈ ['n', 't', '\\', '"', '0']) →
        ∃ s, Constant.ofToken t = .ok (.ok (.string s))) ∧
      ((∃ c ∈ escapes inner, c ∉ ['n', 't', '\\', '"', '0']) →
        ∃ c ∈ escapes inner, c ∉ ['n', 't', '\\', '"', '0'] ∧
          Constant.ofToken t = .ok (.error (.unknownEscape c)))) := by
  refine ⟨fun kind => ?_, fun kind => ?_, fun kind => ?_⟩
  · obtain ⟨n, writes⟩ := lex_forall (P := fun t => t.kind = .integer → ∃ n, WritesInteger t.chars n)
      (fun _ _ => Lexer.next_integer) text t read kind
    have decoded := Token.ofToken_integer kind writes
    obtain ⟨small, large, none⟩ := ofInteger_cases n
    refine ⟨n, writes, fun fits => ?_, fun fits exceeds => ?_, fun exceeds => ?_⟩
    · rw [decoded, small fits]
    · rw [decoded, large fits exceeds]
    · rw [decoded, none exceeds]
  · obtain ⟨negative, whole, fraction, hw, hf, chars⟩ := lex_forall
      (P := fun t => t.kind = .float → ∃ negative whole fraction, IsNumeral whole ∧
        IsNumeral fraction ∧ t.chars = signChars negative ++ whole ++ '.' :: fraction)
      (fun _ _ => Lexer.next_float) text t read kind
    exact ⟨negative, whole, fraction, hw, hf, chars, Token.ofToken_float kind hw hf chars⟩
  · obtain ⟨inner, inside, chars⟩ := lex_forall
      (P := fun t => t.kind = .string → ∃ inner, Lexer.Inside inner ∧
        t.chars = '"' :: (inner ++ ['"']))
      (fun _ _ => Lexer.next_string) text t read kind
    have decoded := Token.ofToken_string kind chars
    refine ⟨inner, chars, ?_, fun known => ?_, fun unknown => ?_⟩
    · rw [chars, Text.byteLength_cons, Text.byteLength_append]
      show 2 ≤ 1 + (_ + 1)
      omega
    · rcases unescape_inside inside with ⟨-, ds, ok⟩ | ⟨c, hc, other, -⟩
      · exact ⟨String.ofList ds, by rw [decoded, ok]; rfl⟩
      · exact absurd (known c hc) other
    · rcases unescape_inside inside with ⟨known, -⟩ | ⟨c, hc, other, error⟩
      · obtain ⟨c, hc, other⟩ := unknown
        exact absurd (known c hc) other
      · exact ⟨c, hc, other, by rw [decoded, error]; rfl⟩

/-- A declaration with a string that has a pair that stands for nothing behind one that does. -/
def Sample.strangePair : List Char :=
  "type T \x7b fn M(string s = \"a\\\\\\q\"); \x7d".toList

/-- The string is refused for the second of its pairs. -/
theorem strange_pair_is_refused :
    ⟨.string, "\"a\\\\\\q\"".toList⟩ ∈ lex Sample.strangePair ∧
      Constant.ofToken ⟨.string, "\"a\\\\\\q\"".toList⟩ = .ok (.error (.unknownEscape 'q')) := by
  have read : ⟨.string, "\"a\\\\\\q\"".toList⟩ ∈ lex Sample.strangePair := by decide +kernel
  obtain ⟨inner, chars, -, -, refused⟩ := (literals_decode_as_written _ _ read).2.2 rfl
  obtain rfl : inner = ['a', '\\', '\\', '\\', 'q'] :=
    (List.append_cancel_right (List.cons.inj chars).2).symm
  obtain ⟨c, hc, other, error⟩ := refused ⟨'q', by decide, by decide⟩
  have pairs : c ∈ ['\\', 'q'] := hc
  refine ⟨read, ?_⟩
  simp only [List.mem_cons, List.not_mem_nil, or_false] at pairs
  rcases pairs with rfl | rfl
  · exact absurd other (by decide)
  · exact error

end DeclFront
