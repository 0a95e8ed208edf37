import DeclFront.Error
import DeclFront.Fingerprint
import DeclFront.SourceFile

/-!
# Compilations

Input files in order, and behind them the files that generators wrote from them. Names need not
differ; where a file is looked for by name, the first one is meant. The fingerprint of a compilation
covers names and texts of its inputs.
-/

set_option autoImplicit false

namespace DeclFront

/-- Input files and generated files. They stand behind one another, and how many are inputs is the
length of the first list. Every derivation lays the files out anew and takes the fingerprint again from
the inputs it puts down, so neither the number of inputs nor the fingerprint is kept beside them. -/
structure Compilation where
  inputs : List SourceFile
  generated : List SourceFile := []

namespace Compilation

/-- The compilation of inputs given by name and text. -/
def ofTexts (texts : List (String × String)) : Compilation :=
  ⟨texts.map fun t => SourceFile.input t.1 t.2, []⟩

/-- No files. -/
def empty : Compilation := ⟨[], []⟩

/-- All files, inputs first. -/
def files (c : Compilation) : List SourceFile :=
  c.inputs ++ c.generated

/-- The same inputs with other generated files. -/
def withGenerated (c : Compilation) (generated : List SourceFile) : Compilation :=
  ⟨c.inputs, generated⟩

/-- The same inputs without generated files. -/
def withoutGenerated (c : Compilation) : Compilation :=
  ⟨c.inputs, []⟩

/-- Files with the first one of a name replaced, or with the file behind them. -/
def replaceFirst (file : SourceFile) : List SourceFile → List SourceFile
  | [] => [file]
  | f :: fs => if f.name = file.name then file :: fs else f :: replaceFirst file fs

/-- The inputs with a file added or, if there is one of the name, its text replaced. Generated files
are dropped. -/
def withSource (c : Compilation) (name text : String) : Compilation :=
  ⟨replaceFirst (.input name text) c.inputs, []⟩

/-- The inputs without the files of a name. Generated files are dropped. There must be one. -/
def withoutSource (c : Compilation) (name : String) : Except Error Compilation :=
  let inputs := c.inputs.filter (·.name ≠ name)
  if inputs.length = c.inputs.length then .error (.unknownSource name) else .ok ⟨inputs, []⟩

/-- The first file of a name. -/
def file? (c : Compilation) (name : String) : Option SourceFile :=
  c.files.find? (·.name = name)

/-- The first input of a name. -/
def input? (c : Compilation) (name : String) : Option SourceFile :=
  c.inputs.find? (·.name = name)

/-- The fingerprint of the names and texts of all inputs, as every derivation takes it of the inputs
that it leaves. -/
def fingerprint (c : Compilation) : Fingerprint :=
  c.inputs.foldl (fun h f => h.addEntry f.name (some f.text)) .empty

/-- The fingerprint of the texts of the first inputs of some names. A name without an input counts
too, so that it shows when the file appears. -/
def fingerprintOf (c : Compilation) (names : List String) : Fingerprint :=
  names.foldl (fun h name => h.addEntry name ((c.input? name).map (·.text))) .empty

/-- The lines and columns of a location, in the first file of its name. -/
def lineCol? (c : Compilation) (l : Location) : Option (LineCol × LineCol) := do
  let f ← c.file? l.file
  f.lines.span? l.range

/-- The errors of the parse of each file, in order. -/
def parseDiagnostics (c : Compilation) : List Diagnostic :=
  c.files.flatMap SourceFile.diagnostics

end Compilation

end DeclFront
