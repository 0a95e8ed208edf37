import DeclFront.Config
import DeclFront.Generator.Workshop

/-!
# The driver of the generators

A pass executes every registered generator over the same inputs and puts what they wrote behind
those. Generators do not see each other's files. A generator is prepared once, before its first
execution; what it wrote is kept, and used again as long as the inputs that matter to it have the
same fingerprint. One that ends with an error or breaks off contributes nothing but the report of
it, and that is kept too. One that does not finish in time is given up for the pass.

A pass can begin all executions before it waits for any, or take the generators one by one.
-/

set_option autoImplicit false

namespace DeclFront

/-- What happened to one generator in one pass. -/
inductive RunStatus where
  | executed
  /-- What it wrote before was used again. -/
  | cached
  /-- It ended with an error or broke off. -/
  | faulted
  | timedOut
  /-- An earlier execution has not finished. -/
  | busy
  /-- It could not be prepared and is never executed. -/
  | unprepared
  deriving DecidableEq

/-- What one generator contributed to one pass. -/
structure RunResult where
  generator : String
  status : RunStatus
  output : Output
  files : List SourceFile

/-- A contribution that is kept, with the fingerprint of the inputs it was made from. -/
structure CachedRun where
  fingerprint : Fingerprint
  output : Output
  files : List SourceFile

/-- A registration of a generator. -/
structure Entry where
  name : String
  /-- The number of the generator in the workshop. -/
  index : Nat
  /-- The policy, or why there is none, once the generator has been prepared. -/
  prepared : Option (Except Diagnostic Policy) := none
  cache : Option CachedRun := none

/-- The registrations, in order. -/
structure Driver where
  config : Config
  entries : List Entry := []

/-- What a pass did. -/
structure Pass where
  snapshot : Snapshot
  diagnostics : List Diagnostic
  results : List RunResult

/-- The contribution of the first generator of a name. -/
def Pass.resultOf (p : Pass) (name : String) : Option RunResult :=
  p.results.find? (·.generator = name)

/-- The files that a pass generated, in order. -/
def RunResult.allFiles (rs : List RunResult) : List SourceFile :=
  rs.flatMap (·.files)

/-- The diagnostics of a pass, in order. -/
def RunResult.allDiagnostics (rs : List RunResult) : List Diagnostic :=
  rs.flatMap (·.output.diagnostics)

namespace Entry

/-- A finding about the generator. -/
def report (e : Entry) (f : Finding) : Diagnostic :=
  f.report (.generator e.name) none

/-- A result that is nothing but one diagnostic. -/
def failure (e : Entry) (status : RunStatus) (d : Diagnostic) : RunResult :=
  ⟨e.name, status, ⟨[], [d]⟩, []⟩

/-- The entry with a result to be used again. -/
def store (e : Entry) (fingerprint : Fingerprint) (r : RunResult) : Entry :=
  { e with cache := some ⟨fingerprint, r.output, r.files⟩ }

/-- What is kept of a preparation. -/
def preparedBy (e : Entry) (config : Config) : Prepared → Except Diagnostic Policy
  | .policy p => .ok p
  | .panicked p => .error (e.report (.generatorNotPrepared e.name p.text))
  | .waiting =>
    .error (e.report (.generatorNotPrepared e.name ("did not finish within " ++ toString config.timeoutMs ++ "ms")))

end Entry

/-- What is decided about a generator at the beginning of a pass. -/
inductive Plan where
  | settled (r : RunResult)
  /-- An execution was attempted for inputs with the given fingerprint. -/
  | pending (fingerprint : Fingerprint) (attempt : Attempt)

namespace Driver

variable {σ : Type}

/-- Registers a generator, unless its name is taken. -/
def add (d : Driver) (name : String) (index : Nat) : Except Error Driver :=
  if d.entries.any (·.name = name) then .error (.duplicateGenerator name)
  else .ok { d with entries := d.entries ++ [{ name, index }] }

/-- Removes the generator of a name, with what was kept of it, and says whether there was one. -/
def remove (d : Driver) (name : String) : Bool × Driver :=
  let entries := d.entries.filter (·.name ≠ name)
  (entries.length ≠ d.entries.length, { d with entries })

/-- The names of the registered generators. -/
def names (d : Driver) : List String :=
  d.entries.map (·.name)

/-- Prepares a generator, unless that was done before. -/
def prepare (config : Config) (e : Entry) (w : Workshop σ) : Except Diagnostic Policy × Entry × Workshop σ :=
  match e.prepared with
  | some p => (p, e, w)
  | none =>
    let (prepared, w) := w.prepare e.index
    let p := e.preparedBy config prepared
    (p, { e with prepared := some p }, w)

/-- Decides about a generator, and begins an execution if there is nothing to be used again. -/
def plan (config : Config) (input : Snapshot) (e : Entry) (w : Workshop σ) : Plan × Entry × Workshop σ :=
  match prepare config e w with
  | (.error d, e, w) => (.settled (e.failure .unprepared d), e, w)
  | (.ok policy, e, w) =>
    let fingerprint := policy.fingerprint input.compilation
    let attempt :=
      let (a, w) := w.execute e.index input
      (Plan.pending fingerprint a, e, w)
    match e.cache with
    | none => attempt
    | some c =>
      if c.fingerprint = fingerprint then (.settled ⟨e.name, .cached, c.output, c.files⟩, e, w)
      else attempt

/-- Waits for what was planned for a generator. -/
def resolve (config : Config) (plan : Plan) (e : Entry) (w : Workshop σ) : RunResult × Entry × Workshop σ :=
  match plan with
  | .settled r => (r, e, w)
  | .pending fingerprint (.finished output) =>
    let r : RunResult := ⟨e.name, .executed, output, output.files e.name⟩
    (r, e.store fingerprint r, w)
  | .pending fingerprint (.faulted reason) =>
    let r := e.failure .faulted (e.report (.generatorFailed e.name reason))
    (r, e.store fingerprint r, w)
  | .pending _ .busy => (e.failure .busy (e.report (.generatorBusy e.name)), e, w)
  | .pending _ .unfinished =>
    (e.failure .timedOut (e.report (.generatorTimedOut e.name config.timeoutMs)), e, w.cancel e.index)

/-- Decides about all generators. -/
def planAll (config : Config) (input : Snapshot) : List Entry → Workshop σ → List (Plan × Entry) × Workshop σ
  | [], w => ([], w)
  | e :: es, w =>
    let (p, e, w) := plan config input e w
    let (ps, w) := planAll config input es w
    ((p, e) :: ps, w)

/-- Waits for all that was planned. -/
def resolveAll (config : Config) : List (Plan × Entry) → Workshop σ → List RunResult × List Entry × Workshop σ
  | [], w => ([], [], w)
  | (p, e) :: ps, w =>
    let (r, e, w) := resolve config p e w
    let (rs, es, w) := resolveAll config ps w
    (r :: rs, e :: es, w)

/-- All generators at once: every execution is begun before any is waited for. -/
def runParallel (config : Config) (input : Snapshot) (es : List Entry) (w : Workshop σ) : List RunResult × List Entry × Workshop σ :=
  let (ps, w) := planAll config input es w
  resolveAll config ps w

/-- One generator after another: each is waited for before the next is begun. -/
def runSequential (config : Config) (input : Snapshot) : List Entry → Workshop σ → List RunResult × List Entry × Workshop σ
  | [], w => ([], [], w)
  | e :: es, w =>
    let (p, e, w) := plan config input e w
    let (r, e, w) := resolve config p e w
    let (rs, es, w) := runSequential config input es w
    (r :: rs, e :: es, w)

/-- A pass over the inputs of a snapshot. Files that an earlier pass generated are replaced. -/
def run (d : Driver) (s : Snapshot) (w : Workshop σ) : Pass × Driver × Workshop σ :=
  let (input, w) := w.withoutGenerated s
  let go := if d.config.parallel then runParallel else runSequential
  let (results, entries, w) := go d.config input d.entries w
  let (snapshot, w) := w.snapshot (input.compilation.withGenerated (RunResult.allFiles results))
  (⟨snapshot, RunResult.allDiagnostics results, results⟩, { d with entries }, w)

end Driver

end DeclFront
