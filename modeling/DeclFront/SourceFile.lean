import DeclFront.Finding
import DeclFront.LineIndex
import DeclFront.Syntax.Parser

/-!
# Source files

A named text with what was read from it. The parse and the line index belong to the text: they are
fields only so that they are computed once.
-/

set_option autoImplicit false

namespace DeclFront

/-- Where a file comes from. -/
inductive Origin where
  | input
  /-- Written by a generator, named by the name it is registered under. -/
  | generated (generator : String)
  deriving DecidableEq

/-- A named text, parsed. -/
structure SourceFile where
  name : String
  text : String
  origin : Origin
  parsed : Parse := parse text.toList
  lines : LineIndex := LineIndex.ofText text.toList
  parsed_eq : parsed = parse text.toList := by rfl
  lines_eq : lines = LineIndex.ofText text.toList := by rfl

namespace SourceFile

/-- A file that a user gave. -/
def input (name text : String) : SourceFile :=
  { name, text, origin := .input }

/-- A file that a generator wrote. -/
def generated (generator name text : String) : SourceFile :=
  { name, text, origin := .generated generator }

/-- Was the file written by a generator? -/
def isGenerated (f : SourceFile) : Bool :=
  f.origin ≠ .input

/-- The generator that wrote the file. -/
def generator? (f : SourceFile) : Option String :=
  match f.origin with
  | .input => none
  | .generated generator => some generator

/-- The number of bytes of the text. -/
def byteLength (f : SourceFile) : Nat := f.lines.length

/-- The errors of the parse as diagnostics. -/
def diagnostics (f : SourceFile) : List Diagnostic :=
  f.parsed.errors.map fun e => (Finding.malformed e.complaint).report .tree (some ⟨f.name, e.range⟩)

/-- Name, text and origin make a file. -/
theorem ext {f g : SourceFile} (name : f.name = g.name) (text : f.text = g.text) (origin : f.origin = g.origin) : f = g := by
  obtain ⟨_, _, _, _, _, hp, hl⟩ := f
  obtain ⟨_, _, _, _, _, hp', hl'⟩ := g
  cases name
  cases text
  cases origin
  cases hp
  cases hp'
  cases hl
  cases hl'
  rfl

end SourceFile

end DeclFront
