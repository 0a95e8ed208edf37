import DeclFront.Generator.Driver

/-!
# The driver step by step

The driver executes no generator itself. In a pass it submits a job for each entry of which it has
nothing to use again; threads take the jobs up and end them in their own time, and the pass waits for
what they send, but not for ever. A job that has been given up goes on, into later passes and even when
its generator has been removed.

A guard keeps the executions of a generator apart: an execution locks it for as long as it runs, and one
that finds it locked ends at once. Registrations, and jobs that are not over, hold a guard and keep it
alive. The driver itself only remembers which guard it made for which address, and a generator that is
registered gets the guard of its address as long as that is alive, and else a new one.

The floor is the driver with its guards and jobs, and the passes that are under way, of which there may
be several at a time. The steps are taken in any order; one that is not possible changes nothing.
-/

set_option autoImplicit false

namespace DeclFront

/-- How far a job has come. -/
inductive Stage where
  /-- No thread has taken it up. -/
  | submitted
  /-- The generator is being executed, under its guard. -/
  | running
  /-- The execution finished with an output, or failed for the given reason. -/
  | ended (r : Except String Output)
  /-- The guard was locked, and nothing was executed. -/
  | refused

/-- An execution that a pass has asked for. -/
structure Job where
  /-- The number of the generator. -/
  index : Nat
  guard : Nat
  stage : Stage := .submitted

/-- A registration and the guard of its executions. -/
structure Registration where
  entry : Entry
  guard : Nat

/-- How far a pass has come with one entry. -/
inductive Standing where
  | undecided
  /-- A job was submitted for inputs with the given fingerprint, and is waited for. -/
  | pending (fingerprint : Fingerprint) (job : Nat)
  | settled (r : RunResult)

/-- A pass under way, with how it stands with each entry. -/
structure Round where
  input : Compilation
  standings : List Standing

/-- The driver with its guards and jobs. -/
structure Floor where
  config : Config
  /-- Where each generator is while it is alive, by number. -/
  address : Nat → Nat
  registrations : List Registration := []
  /-- The guard that was made for an address, which may not be alive any more. -/
  guards : Nat → Option Nat := fun _ => none
  /-- The number of guards that have been made. -/
  made : Nat := 0
  /-- All jobs that were ever submitted, by number. -/
  jobs : List Job := []
  /-- All passes that were ever begun, by number; one that has ended is not kept. -/
  rounds : List (Option Round) := []
  /-- What the passes came to: the files, the diagnostics and the results. -/
  passes : List (Compilation × List Diagnostic × List RunResult) := []

/-- The steps. -/
inductive Move where
  /-- A generator is registered under a name. -/
  | add (name : String) (index : Nat)
  | remove (name : String)
  /-- A pass over a compilation begins. -/
  | openPass (c : Compilation)
  /-- A pass decides about an entry, whose preparation goes as it may if it comes to that. -/
  | plan (n k : Nat) (p : Prepared)
  /-- A thread takes up a job. -/
  | start (j : Nat)
  /-- The execution of a job ends. -/
  | finish (j : Nat) (r : Except String Output)
  /-- A pass receives what the job of an entry has sent. -/
  | receive (n k : Nat)
  /-- A pass gives up the job of an entry, which has taken too long. When that is, is left open. -/
  | giveUp (n k : Nat)
  /-- A pass ends. -/
  | closePass (n : Nat)

/-- What a job sends when it ends. -/
def Stage.attempt? : Stage → Option Attempt
  | submitted | running => none
  | ended (.ok output) => some (.finished output)
  | ended (.error reason) => some (.faulted reason)
  | refused => some .busy

namespace Job

/-- A job holds its generator and its guard until it has ended or is refused. -/
def alive (x : Job) : Bool :=
  match x.stage with
  | .submitted | .running => true
  | .ended _ | .refused => false

def runs (x : Job) : Bool :=
  match x.stage with
  | .running => true
  | _ => false

end Job

/-- The entry once the generator is prepared, and what is kept of the preparation, which goes as given
if there was none before. -/
def Entry.readyBy (e : Entry) (config : Config) (p : Prepared) : Except Diagnostic Policy × Entry :=
  match e.prepared with
  | some kept => (kept, e)
  | none =>
    let kept := e.preparedBy config p
    (kept, { e with prepared := some kept })

/-- The result, where there is one. -/
def Standing.result? : Standing → Option RunResult
  | settled r => some r
  | undecided | pending .. => none

namespace Floor

/-- A driver without registrations. -/
def start (address : Nat → Nat) (config : Config) : Floor :=
  { config, address }

/-- The generators that are held, each with the guard that is held with it. -/
def holders (f : Floor) : List (Nat × Nat) :=
  f.registrations.map (fun r => (r.entry.index, r.guard)) ++
    (f.jobs.filter Job.alive).map fun x => (x.index, x.guard)

/-- Is a guard alive? -/
def holds (f : Floor) (guard : Nat) : Bool :=
  f.holders.any fun h => h.2 = guard

/-- Is a guard locked? -/
def locked (f : Floor) (guard : Nat) : Bool :=
  f.jobs.any fun x => x.runs && x.guard = guard

/-- The guard of an address, if it is alive. -/
def guardAt (f : Floor) (a : Nat) : Option Nat :=
  (f.guards a).filter f.holds

/-- Can the generator be alive? Different ones that are alive are at different addresses. -/
def admits (f : Floor) (index : Nat) : Bool :=
  f.holders.all fun h => h.1 = index || f.address h.1 ≠ f.address index

/-- Registers a generator, unless the name is taken. Guards that are not alive are forgotten. -/
def add (f : Floor) (name : String) (index : Nat) : Floor :=
  if f.registrations.any (·.entry.name = name) then f
  else
    match f.guardAt (f.address index) with
    | some guard =>
      { f with
        registrations := f.registrations ++ [⟨{ name, index }, guard⟩]
        guards := f.guardAt }
    | none =>
      { f with
        registrations := f.registrations ++ [⟨{ name, index }, f.made⟩]
        guards := fun a => if a = f.address index then some f.made else f.guardAt a
        made := f.made + 1 }

/-- Is no pass under way? -/
def closed (f : Floor) : Bool :=
  f.rounds.all Option.isNone

/-- What a pass under way is about at one place: its inputs, the registration, and how it stands. -/
def place? (f : Floor) (n k : Nat) : Option (Compilation × Registration × Standing) := do
  let round ← f.rounds[n]?.join
  let r ← f.registrations[k]?
  let s ← round.standings[k]?
  return (round.input, r, s)

/-- The floor with another entry at a place, and with how a pass stands with it then. -/
def put (f : Floor) (n k : Nat) (r : Registration) (e : Entry) (s : Standing) : Floor :=
  { f with
    registrations := f.registrations.set k { r with entry := e }
    rounds := f.rounds.modify n <| Option.map fun round =>
      { round with standings := round.standings.set k s } }

/-- The floor with a job at another stage. -/
def setStage (f : Floor) (j : Nat) (s : Stage) : Floor :=
  { f with jobs := f.jobs.modify j fun x => { x with stage := s } }

/-- A pass decides about the entry of a registration. -/
def plan (f : Floor) (n k : Nat) (input : Compilation) (r : Registration) (p : Prepared) : Floor :=
  match r.entry.readyBy f.config p with
  | (.error d, e) => f.put n k r e (.settled (e.failure .unprepared d))
  | (.ok policy, e) =>
    let fingerprint := policy.fingerprint input
    match e.cache.filter (·.fingerprint = fingerprint) with
    | some x => f.put n k r e (.settled ⟨e.name, .cached, x.output, x.files⟩)
    | none =>
      { f.put n k r e (.pending fingerprint f.jobs.length) with
        jobs := f.jobs ++ [{ index := e.index, guard := r.guard }] }

/-- A pass is done with an attempt to execute the generator of a registration. -/
def resolve (f : Floor) (n k : Nat) (r : Registration) (fingerprint : Fingerprint) (a : Attempt) :
    Floor :=
  let (result, e, _) := Driver.resolve f.config (.pending fingerprint a) r.entry ({} : Workshop Unit)
  f.put n k r e (.settled result)

/-- The floor after a step. Generators are registered and removed between passes only. -/
def move (f : Floor) : Move → Floor
  | .add name index => if f.closed && f.admits index then f.add name index else f
  | .remove name =>
    if f.closed then
      { f with registrations := f.registrations.filter (·.entry.name ≠ name) }
    else f
  | .openPass c =>
    { f with
      rounds := f.rounds ++
        [some ⟨c.withoutGenerated, f.registrations.map fun _ => .undecided⟩] }
  | .plan n k p =>
    match f.place? n k with
    | some (input, r, .undecided) => f.plan n k input r p
    | _ => f
  | .start j =>
    match f.jobs[j]? with
    | some ⟨_, guard, .submitted⟩ =>
      f.setStage j (if f.locked guard then .refused else .running)
    | _ => f
  | .finish j r =>
    match f.jobs[j]? with
    | some ⟨_, _, .running⟩ => f.setStage j (.ended r)
    | _ => f
  | .receive n k =>
    match f.place? n k with
    | some (_, r, .pending fingerprint j) =>
      match f.jobs[j]?.bind (·.stage.attempt?) with
      | some a => f.resolve n k r fingerprint a
      | none => f
    | _ => f
  | .giveUp n k =>
    match f.place? n k with
    | some (_, r, .pending fingerprint _) => f.resolve n k r fingerprint .unfinished
    | _ => f
  | .closePass n =>
    match f.rounds[n]?.join with
    | some ⟨input, standings⟩ =>
      match standings.mapM Standing.result? with
      | some rs =>
        { f with
          rounds := f.rounds.set n none
          passes := f.passes ++
            [(input.withGenerated (RunResult.allFiles rs), RunResult.allDiagnostics rs, rs)] }
      | none => f
    | none => f

/-- The floor after some steps. -/
def moveAll (f : Floor) (ms : List Move) : Floor :=
  ms.foldl move f

end Floor

end DeclFront
