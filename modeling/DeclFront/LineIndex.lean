import DeclFront.Syntax.Tree

/-!
# Lines and columns

A line index turns byte offsets into lines and columns and back. Lines and columns count from
zero, the numbers that are shown from one; columns are bytes from the start of the line. Lines and
columns are 32-bit words, and a column may lie so far to the right of a line that the offset no
longer is one: that is a problem and not a missing position.
-/

set_option autoImplicit false

namespace DeclFront

/-- A line and a column, both counted from zero. -/
structure LineCol where
  line : UInt32
  col : UInt32
  deriving DecidableEq

/-- Shown counted from one. -/
def LineCol.text (p : LineCol) : String :=
  toString (p.line.toNat + 1) ++ ":" ++ toString (p.col.toNat + 1)

/-- Where the lines of a text start. -/
structure LineIndex where
  /-- The offset of each line but the first, in order: one behind every line feed. -/
  starts : Array Nat
  /-- The number of bytes of the text. -/
  length : Nat
  deriving DecidableEq

namespace LineIndex

/-- The offsets one behind each line feed of a text that starts at `offset`. -/
def startsFrom (offset : Nat) : List Char → List Nat
  | [] => []
  | c :: cs =>
    let next := offset + c.utf8Size
    if c = '\n' then next :: startsFrom next cs else startsFrom next cs

/-- The line index of a text. -/
def ofText (cs : List Char) : LineIndex :=
  ⟨(startsFrom 0 cs).toArray, Text.byteLength cs⟩

/-- The offset at which a line starts. -/
def start? (x : LineIndex) : Nat → Option Nat
  | 0 => some 0
  | line + 1 => x.starts[line]?

/-- The number of lines; a text without line feeds has one. -/
def lineCount (x : LineIndex) : Nat :=
  x.starts.size + 1

/-- The line that an offset is on: as many lines start behind the first one at or before it. -/
def lineOf (x : LineIndex) (offset : Nat) : Nat :=
  (x.starts.toList.takeWhile (· ≤ offset)).length

/-- The line and column of an offset, unless it is behind the end of the text. -/
def lineCol? (x : LineIndex) (offset : Nat) : Option LineCol :=
  if x.length < offset then none
  else
    let line := x.lineOf offset
    (x.start? line).map fun start => ⟨UInt32.ofNat line, UInt32.ofNat (offset - start)⟩

/-- The offset of a line and column, unless there is no such line or the offset is behind the end
of the text. A line that is not there is found out before the offset is formed. -/
def offset? (x : LineIndex) (p : LineCol) : Except OffsetProblem (Option Nat) :=
  match x.start? p.line.toNat with
  | none => .ok none
  | some start =>
    (advanceOffset start p.col.toNat).map fun o => if o ≤ x.length then some o else none

/-- The lines and columns between which a range of bytes lies. -/
def span? (x : LineIndex) (r : Range) : Option (LineCol × LineCol) :=
  match x.lineCol? r.start, x.lineCol? r.stop with
  | some a, some b => some (a, b)
  | _, _ => none

end LineIndex

end DeclFront
