import DeclFront.Text.Unprintable

/-!
# Quoted text

A text in double quotes, on one line and with every character told apart. A quote, a backslash and
the common control characters are written with a backslash; a character that cannot be shown as it
is, by the number of its code point.
-/

set_option autoImplicit false

namespace DeclFront.Text

/-- One character inside quotes. -/
def quoteChar (c : Char) : List Char :=
  if c = '\x00' then ['\\', '0']
  else if c = '\t' then ['\\', 't']
  else if c = '\r' then ['\\', 'r']
  else if c = '\n' then ['\\', 'n']
  else if c = '"' ∨ c = '\\' then ['\\', c]
  else if isUnprintable c then '\\' :: 'u' :: '\x7b' :: Nat.toDigits 16 c.toNat ++ ['\x7d']
  else [c]

/-- A text in quotes. -/
def quote (s : String) : String :=
  String.ofList ('"' :: s.toList.flatMap quoteChar ++ ['"'])

end DeclFront.Text
