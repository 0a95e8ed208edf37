import DeclFront.Generator.Context

/-!
# Generators

A generator has a name, a state of its own type, and two procedures. What a procedure does is a
tree of steps: each step is one thing that it does, and goes on with what it learns from that. A
generator can so do only what its surroundings let it do, and depends only on what they show it.

A step may wait for the latch of the generator, which the surroundings open. A procedure that waits
at a closed latch has not finished; what is left of it goes on when the latch opens.
-/

set_option autoImplicit false

namespace DeclFront

/-- What a procedure stops with when it breaks off. -/
inductive Panic where
  | message (text : String)
  /-- Anything that is not a text. -/
  | other
  deriving DecidableEq

/-- The text that is reported when a procedure breaks off. -/
def Panic.text : Panic → String
  | message text => text
  | other => "panicked with a non-string payload"

/-- What a generator does before its first execution. -/
inductive Preparation where
  | done
  | panic (p : Panic)
  /-- Watches a file. -/
  | watch (name : String) (next : Preparation)
  /-- Watches everything again. -/
  | watchAll (next : Preparation)
  /-- Waits for the latch. -/
  | wait (next : Preparation)

/-- What a generator with states of type `σ` does in an execution. -/
inductive Activity (σ : Type) where
  | done
  /-- Ends with an error. -/
  | fail (message : String)
  | panic (p : Panic)
  /-- Changes the state of the generator. -/
  | update (f : σ → σ) (next : Activity σ)
  /-- Adds a source, and learns whether that went well. -/
  | addSource (hint text : String) (next : Except Error Unit → Activity σ)
  /-- Reports a diagnostic. -/
  | report (d : Diagnostic) (next : Activity σ)
  /-- Looks at the symbols of the inputs, which are bound if they are not yet. -/
  | symbols (next : SymbolTable → Activity σ)
  /-- Asks whether the execution has been cancelled. -/
  | isCancelled (next : Bool → Activity σ)
  /-- Cancels its own execution, which has no effect but that it can be asked for. -/
  | cancel (next : Activity σ)
  /-- Waits for the latch. -/
  | wait (next : Activity σ)

/-- A generator with states of type `σ`. -/
structure Generator (σ : Type) where
  name : String
  /-- The state that a preparation leaves, and what it does. -/
  prepare : σ → σ × Preparation
  /-- The state that an execution begins with, and what it does with the inputs it is shown. -/
  execute : σ → Compilation → σ × Activity σ

/-- How a preparation went. -/
inductive Prepared where
  | policy (p : Policy)
  | panicked (p : Panic)
  /-- It waits at a closed latch. -/
  | waiting
  deriving DecidableEq

/-- Does a preparation, with the policy it has decided on so far. -/
def Preparation.run (latchOpen : Bool) (policy : Policy) : Preparation → Prepared
  | done => .policy policy
  | panic p => .panicked p
  | watch name next => next.run latchOpen (policy.watch name)
  | watchAll next => next.run latchOpen .anyInput
  | wait next => if latchOpen then next.run latchOpen policy else .waiting

/-- What an execution has done so far: its output, and whether it was cancelled. -/
structure Progress where
  output : Output := {}
  cancelled : Bool := false

/-- How an execution went. -/
inductive Ending (σ : Type) where
  /-- It finished with an output. -/
  | finished (output : Output)
  /-- It ended with an error or broke off, for the given reason. -/
  | faulted (reason : String)
  /-- It waits at a closed latch, and this is left to do. -/
  | waiting (progress : Progress) (next : Activity σ)

/-- What an execution leaves behind: the state of its generator, whether it looked at symbols, and
how it went. -/
structure Trace (σ : Type) where
  state : σ
  bound : Bool
  ending : Ending σ

/-- Does an activity of the generator called `name`, which is shown the given inputs. -/
def Activity.run {σ : Type} (name : String) (input : Compilation) (latchOpen : Bool) (state : σ) (bound : Bool) (progress : Progress) : Activity σ → Trace σ
  | done => ⟨state, bound, .finished progress.output⟩
  | fail message => ⟨state, bound, .faulted message⟩
  | panic p => ⟨state, bound, .faulted p.text⟩
  | update f next => next.run name input latchOpen (f state) bound progress
  | addSource hint text next =>
    match progress.output.addSource hint text with
    | .ok output => (next (.ok ())).run name input latchOpen state bound { progress with output }
    | .error e => (next (.error e)).run name input latchOpen state bound progress
  | report d next =>
    next.run name input latchOpen state bound { progress with output := progress.output.report name d }
  | symbols next => (next (SymbolTable.ofFiles input.files)).run name input latchOpen state true progress
  | isCancelled next => (next progress.cancelled).run name input latchOpen state bound progress
  | cancel next => next.run name input latchOpen state bound { progress with cancelled := true }
  | wait next =>
    if latchOpen then next.run name input latchOpen state bound progress
    else ⟨state, bound, .waiting progress next⟩

end DeclFront
