/-!
# Fingerprints

A 64-bit hash that is the same on every machine. A word is mixed in by rotating the state, adding
the word without carry and multiplying by a fixed odd number. Bytes are mixed in eight at a time,
the first of them lowest, and what is left over in pieces of four, two and one. A text is its
bytes in UTF-8 and a byte that ends no text.

Different contents may have the same fingerprint.
-/

set_option autoImplicit false

namespace DeclFront

/-- The state of the hash, which is also its result. -/
structure Fingerprint where
  word : UInt64
  deriving DecidableEq

namespace Fingerprint

/-- The fingerprint of nothing. -/
def empty : Fingerprint := ⟨0⟩

/-- The fixed odd number. -/
def multiplier : UInt64 := 0x517cc1b727220a95

/-- The state rotated left by five bits. -/
def rotate (w : UInt64) : UInt64 :=
  (w <<< 5) ||| (w >>> 59)

/-- One word mixed in. -/
def addWord (h : Fingerprint) (w : UInt64) : Fingerprint :=
  ⟨(rotate h.word ^^^ w) * multiplier⟩

/-- Bytes as one word, the first byte lowest. -/
def littleEndian (bytes : List UInt8) : UInt64 :=
  bytes.foldr (fun b w => (w <<< 8) ||| b.toUInt64) 0

/-- Fewer than eight bytes, in pieces of four, two and one. -/
def addTail (h : Fingerprint) (bytes : List UInt8) : Fingerprint :=
  let h₄ := if 4 ≤ bytes.length then h.addWord (littleEndian (bytes.take 4)) else h
  let rest₄ := if 4 ≤ bytes.length then bytes.drop 4 else bytes
  let h₂ := if 2 ≤ rest₄.length then h₄.addWord (littleEndian (rest₄.take 2)) else h₄
  let rest₂ := if 2 ≤ rest₄.length then rest₄.drop 2 else rest₄
  rest₂.foldl (fun h b => h.addWord b.toUInt64) h₂

/-- Bytes mixed in. -/
def addBytes (h : Fingerprint) (bytes : List UInt8) : Fingerprint :=
  match bytes with
  | b₀ :: b₁ :: b₂ :: b₃ :: b₄ :: b₅ :: b₆ :: b₇ :: rest =>
    (h.addWord (littleEndian [b₀, b₁, b₂, b₃, b₄, b₅, b₆, b₇])).addBytes rest
  | short => h.addTail short

/-- A text mixed in. -/
def addText (h : Fingerprint) (s : String) : Fingerprint :=
  (h.addBytes (s.toList.flatMap String.utf8EncodeChar)).addWord 0xff

/-- A name with a text, or with the absence of one. -/
def addEntry (h : Fingerprint) (name : String) : Option String → Fingerprint
  | some text => (h.addText name).addText text
  | none => (h.addText name).addWord 0

/-- Sixteen hexadecimal digits. -/
def text (h : Fingerprint) : String :=
  let digits := Nat.toDigits 16 h.word.toNat
  String.ofList (List.replicate (16 - digits.length) '0' ++ digits)

end Fingerprint

end DeclFront
