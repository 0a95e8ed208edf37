import DeclFront.Generator.Activity

/-!
# Generators written as scripts

A script says step by step what a generator does. Its state counts how often it was prepared and
executed, and how often it noticed that it was cancelled. In the texts of a script, `{n}` stands for
the number of executions before this one, `{gen}` for the name of the generator, and inside a loop
`{name}` or `{type}` for what the loop is at.
-/

set_option autoImplicit false

namespace DeclFront

/-- How often a generator was prepared, executed, and noticed a cancellation. -/
structure Counts where
  preparations : Nat := 0
  executions : Nat := 0
  cancellations : Nat := 0
  deriving DecidableEq

namespace Script

/-- One step of a preparation. -/
inductive SetUp where
  | watch (file : String)
  | watchAll
  | panic (p : Panic)
  | block

/-- One step of an execution. -/
inductive Step where
  /-- Adds a source; an error ends the execution. -/
  | add (hint text : String)
  /-- Adds a source; an error is reported. -/
  | tryAdd (hint text : String)
  /-- Adds a source for each input. -/
  | eachInput (hint text : String)
  /-- Adds a source for each type. -/
  | eachType (hint text : String)
  | report (d : Diagnostic)
  /-- Reports the names of the files it is shown. -/
  | noteFiles
  | fail (text : String)
  | panic (text : String)
  | panicOther
  | block
  /-- Ends the execution if it was cancelled. -/
  | check
  | cancel
  /-- Goes one way if the first file of a name holds a text, and the other way if not. -/
  | ifText (file text : String) (yes no : List Step)

/-- A text with every `key` in it, in order and not overlapping, replaced. -/
def replace (key value text : String) : String :=
  text.replace key value

/-- The key of a value in the texts of a script. -/
def key (name : String) : String := "\x7b" ++ name ++ "\x7d"

/-- A text with the number of earlier executions and the name of the generator filled in. -/
def fill (n : Nat) (gen text : String) : String :=
  replace (key "gen") gen (replace (key "n") (toString n) text)

/-- The name of a file without its endings. -/
def stem (name : String) : String := replace ".decl" "" name

/-- A diagnostic of a script. -/
def note (code message : String) : Diagnostic := ⟨code, .warning, message, .driver, none⟩

/-- Adds a source, and goes on if that went well. -/
def addOrFail (hint text : String) (next : Activity Counts) : Activity Counts :=
  .addSource hint text fun
    | .ok _ => next
    | .error e => .fail e.message

/-- Adds one source after another. -/
def addAll : List (String × String) → Activity Counts → Activity Counts
  | [], next => next
  | (hint, text) :: rest, next => addOrFail hint text (addAll rest next)

/-- Does a text stand somewhere in another? -/
def occursIn (text : List Char) : List Char → Bool
  | [] => text.isEmpty
  | c :: cs => text.isPrefixOf (c :: cs) || occursIn text cs

/-- Does the first file of a name hold a text? -/
def holds (c : Compilation) (file text : String) : Bool :=
  match c.file? file with
  | none => false
  | some f => occursIn text.toList f.text.toList

mutual

/-- What one step does before `next`. -/
def Step.before (n : Nat) (gen : String) (c : Compilation) (next : Activity Counts) : Step → Activity Counts
  | .add hint text => addOrFail (fill n gen hint) (fill n gen text) next
  | .tryAdd hint text =>
    .addSource (fill n gen hint) (fill n gen text) fun
      | .ok _ => next
      | .error e => .report (note "X0001" e.message) next
  | .eachInput hint text =>
    let filled (name s : String) := replace (key "name") (stem name) (fill n gen s)
    addAll (c.inputs.map fun f => (filled f.name hint, filled f.name text)) next
  | .eachType hint text =>
    .symbols fun table =>
      let filled (name s : String) := replace (key "type") name (fill n gen s)
      addAll (table.namedTypes.map fun t => (filled t.name hint, filled t.name text)) next
  | .report d => .report d next
  | .noteFiles => .report (note "X0002" (",".intercalate (c.files.map (·.name)))) next
  | .fail text => .fail (fill n gen text)
  | .panic text => .panic (.message (fill n gen text))
  | .panicOther => .panic .other
  | .block => .wait next
  | .check =>
    .isCancelled fun
      | true => .update (fun s => { s with cancellations := s.cancellations + 1 }) (.fail Error.cancelled.message)
      | false => next
  | .cancel => .cancel next
  | .ifText file text yes no =>
    if holds c file text then stepsBefore n gen c next yes else stepsBefore n gen c next no

/-- What some steps do before `next`. -/
def stepsBefore (n : Nat) (gen : String) (c : Compilation) (next : Activity Counts) : List Step → Activity Counts
  | [] => next
  | s :: ss => Step.before n gen c (stepsBefore n gen c next ss) s

end

/-- What the steps of a preparation do. -/
def prepare (gen : String) : List SetUp → Preparation
  | [] => .done
  | .watch file :: rest => .watch (replace (key "gen") gen file) (prepare gen rest)
  | .watchAll :: rest => .watchAll (prepare gen rest)
  | .panic p :: _ => .panic p
  | .block :: rest => .wait (prepare gen rest)

end Script

/-- A generator written down step by step. -/
structure Script where
  name : String
  setUp : List Script.SetUp
  steps : List Script.Step
  /-- It has nothing to prepare, and preparations are not counted. -/
  isFunction : Bool

/-- The generator of a script. -/
def Script.generator (s : Script) : Generator Counts where
  name := s.name
  prepare c :=
    if s.isFunction then (c, .done)
    else ({ c with preparations := c.preparations + 1 }, Script.prepare s.name s.setUp)
  execute c input :=
    ({ c with executions := c.executions + 1 }, Script.stepsBefore c.executions s.name input .done s.steps)

end DeclFront
