import DeclFront.Compilation
import DeclFront.Symbol.Binding
import DeclFront.Text.Blank

/-!
# What a generator works with

Before its first execution a generator says which files it watches: its policy. While it executes it
adds sources under hint names and reports diagnostics, which are collected in a sink.
-/

set_option autoImplicit false

namespace DeclFront

/-- When a generator has to be executed again. -/
inductive Policy where
  /-- When any input changes. -/
  | anyInput
  /-- When one of these inputs changes, appears or disappears. -/
  | watched (names : List String)
  deriving DecidableEq

namespace Policy

/-- The policy with one more file to watch. The first such file ends watching everything. -/
def watch (p : Policy) (name : String) : Policy :=
  match p with
  | anyInput => watched [name]
  | watched names => if names.contains name then p else watched (names ++ [name])

/-- The fingerprint of the inputs that matter to a policy. -/
def fingerprint (p : Policy) (c : Compilation) : Fingerprint :=
  match p with
  | anyInput => c.fingerprint
  | watched names => c.fingerprintOf names

end Policy

/-- A source that a generator added. -/
structure GeneratedSource where
  hintName : String
  text : String
  deriving DecidableEq

/-- What an execution added and reported, each in order. -/
structure Output where
  sources : List GeneratedSource := []
  diagnostics : List Diagnostic := []
  deriving DecidableEq

namespace Hint

/-- The ending that every hint name gets. -/
def ending : String := ".decl"

/-- The characters, besides control characters, that no hint may contain. -/
def forbidden : List Char :=
  ['<', '>', ':', '"', '/', '\\', '|', '?', '*']

/-- A character that no hint may contain. -/
def isForbidden (c : Char) : Bool :=
  Text.isControl c || forbidden.contains c

/-- The hint name of a hint: the hint with its ending, added if it is missing. -/
def normalize (hint : String) : String :=
  if ending.toList.isSuffixOf hint.toList then hint else hint ++ ending

/-- The hint name of a usable hint. -/
def validate (hint : String) : Except Error String :=
  if Text.isAllBlank hint then .error (.invalidHintName hint .empty)
  else if hint.toList.any isForbidden then .error (.invalidHintName hint .invalidCharacter)
  else .ok (normalize hint)

/-- A text with its ASCII letters in lower case. -/
def lower (s : String) : List Char :=
  s.toList.map Char.toLower

/-- Are two hint names the same but for the case of ASCII letters? -/
def same (a b : String) : Bool :=
  lower a = lower b

end Hint

namespace Output

/-- The output with one more source, unless the hint cannot be used or its name is taken. -/
def addSource (o : Output) (hint text : String) : Except Error Output := do
  let hintName ← Hint.validate hint
  if o.sources.any fun s => Hint.same s.hintName hintName then
    throw (.duplicateHintName hintName)
  return { o with sources := o.sources ++ [⟨hintName, text⟩] }

/-- The output with one more diagnostic, which comes from the generator whatever it says. -/
def report (o : Output) (generator : String) (d : Diagnostic) : Output :=
  { o with diagnostics := o.diagnostics ++ [{ d with source := .generator generator }] }

/-- The files of the sources, named by the generator and the hint name. -/
def files (o : Output) (generator : String) : List SourceFile :=
  o.sources.map fun s => SourceFile.generated generator (generator ++ "/" ++ s.hintName) s.text

end Output

end DeclFront
