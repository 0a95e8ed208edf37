import DeclFront.Generator.Driver

/-!
# The pipeline

A pipeline keeps inputs and a driver, runs a pass when either has changed since the last one, and
binds the symbols of what came of it. Inputs are compared by fingerprint. What a pass made is never
changed; it can be used for as long as anyone wants it.
-/

set_option autoImplicit false

namespace DeclFront

/-- How far a pipeline has come. -/
inductive Phase where
  /-- There was no pass yet. -/
  | initial
  /-- There was a pass. -/
  | generated
  /-- The symbols of the last pass have been asked for. -/
  | bound
  deriving DecidableEq

/-- Inputs, a driver and the last pass. -/
structure Pipeline where
  driver : Driver
  /-- The inputs, without generated files. -/
  input : Snapshot
  phase : Phase := .initial
  current : Option Pass := none
  /-- Something has changed since the last pass. -/
  stale : Bool := false

namespace Pipeline

variable {σ : Type}

/-- A pipeline for the inputs of a snapshot. -/
def new (s : Snapshot) (config : Config) (w : Workshop σ) : Pipeline × Workshop σ :=
  let (input, w) := w.withoutGenerated s
  ({ driver := { config }, input }, w)

/-- Would asking for results run a pass? -/
def needsPass (p : Pipeline) : Bool :=
  p.stale || p.current.isNone

/-- The pipeline after a change. -/
def invalidate (p : Pipeline) : Pipeline :=
  { p with stale := true, phase := if p.phase = .bound then .generated else p.phase }

/-- Registers a generator. -/
def addGenerator (p : Pipeline) (name : String) (index : Nat) : Except Error Pipeline :=
  match p.driver.add name index with
  | .error e => .error e
  | .ok driver => .ok { p with driver }.invalidate

/-- Removes the generator of a name, and says whether there was one. -/
def removeGenerator (p : Pipeline) (name : String) : Bool × Pipeline :=
  match p.driver.remove name with
  | (true, driver) => (true, { p with driver }.invalidate)
  | (false, _) => (false, p)

/-- Replaces the inputs. Nothing happens if the fingerprints are the same. -/
def setInput (p : Pipeline) (s : Snapshot) (w : Workshop σ) : Pipeline × Workshop σ :=
  if s.compilation.fingerprint = p.input.compilation.fingerprint then (p, w)
  else
    let (input, w) := w.withoutGenerated s
    ({ p with input }.invalidate, w)

/-- Adds an input or replaces its text. -/
def updateSource (p : Pipeline) (name text : String) (w : Workshop σ) : Pipeline × Workshop σ :=
  let (s, w) := w.snapshot (p.input.compilation.withSource name text)
  p.setInput s w

/-- Removes the inputs of a name. -/
def removeSource (p : Pipeline) (name : String) (w : Workshop σ) : Except Error (Pipeline × Workshop σ) :=
  match p.input.compilation.withoutSource name with
  | .error e => .error e
  | .ok c =>
    let (s, w) := w.snapshot c
    .ok (p.setInput s w)

/-- The last pass, after running one if that is needed. -/
def run (p : Pipeline) (w : Workshop σ) : Pass × Pipeline × Workshop σ :=
  let fresh :=
    let (pass, driver, w) := p.driver.run p.input w
    (pass, { p with driver, phase := .generated, current := some pass, stale := false }, w)
  match p.current with
  | none => fresh
  | some pass => if p.stale then fresh else (pass, p, w)

/-- What is known about the symbols of the last pass, after running one if that is needed. -/
def bind (p : Pipeline) (w : Workshop σ) : Knowledge × Pipeline × Workshop σ :=
  let (pass, p, w) := p.run w
  let (k, w) := w.bind pass.snapshot
  (k, { p with phase := .bound }, w)

/-- The snapshot of the last pass, even if something has changed since. -/
def snapshot? (p : Pipeline) : Option Snapshot :=
  p.current.map (·.snapshot)

/-- The diagnostics of the last pass and then those of its snapshot; before any pass, those of the
inputs. -/
def diagnostics (p : Pipeline) (w : Workshop σ) : List Diagnostic :=
  match p.current with
  | some pass => pass.diagnostics ++ w.archive.diagnostics pass.snapshot
  | none => w.archive.diagnostics p.input

end Pipeline

end DeclFront
