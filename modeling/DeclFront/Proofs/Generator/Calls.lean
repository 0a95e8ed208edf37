import DeclFront.Generator.Activity

/-!
# What an execution asks of its sink

All that an execution does to its output is to call its sink: it adds sources, some of which may be
refused, and reports diagnostics. So what is in the sink of an execution that has finished, or that
waits, comes of its calls alone, whatever else it did in between.
-/

set_option autoImplicit false

namespace DeclFront

/-- What a generator may ask of its sink. -/
inductive SinkCall where
  | add (hint text : String)
  | report (d : Diagnostic)

/-- The sink after a call of the generator called `name`. A call that fails leaves it as it is. -/
def Output.call (name : String) (o : Output) : SinkCall → Output
  | .add hint text =>
    match o.addSource hint text with
    | .ok p => p
    | .error _ => o
  | .report d => o.report name d

namespace Activity

variable {σ : Type}

/-- What an activity asks of its sink, from some progress on. -/
def calls (name : String) (input : Compilation) (latchOpen : Bool) (progress : Progress) :
    Activity σ → List SinkCall
  | done | fail _ | panic _ => []
  | update _ next => next.calls name input latchOpen progress
  | addSource hint text next =>
    .add hint text ::
      match progress.output.addSource hint text with
      | .ok output => (next (.ok ())).calls name input latchOpen { progress with output }
      | .error e => (next (.error e)).calls name input latchOpen progress
  | report d next =>
    .report d ::
      next.calls name input latchOpen { progress with output := progress.output.report name d }
  | symbols next => (next (SymbolTable.ofFiles input.files)).calls name input latchOpen progress
  | isCancelled next => (next progress.cancelled).calls name input latchOpen progress
  | cancel next => next.calls name input latchOpen { progress with cancelled := true }
  | wait next => if latchOpen then next.calls name input latchOpen progress else []

end Activity

/-- What is in the sink of an execution that finished, or that waits. -/
def Ending.sink? {σ : Type} : Ending σ → Option Output
  | finished output => some output
  | faulted _ => none
  | waiting progress _ => some progress.output

/-- The sink of an execution holds what comes of its calls. -/
theorem Activity.sink_of_run {σ : Type} {name : String} {input : Compilation}
    {latchOpen bound : Bool} {state : σ} {progress : Progress} {a : Activity σ} {output : Output}
    (h : (a.run name input latchOpen state bound progress).ending.sink? = some output) :
    output = (a.calls name input latchOpen progress).foldl (Output.call name) progress.output := by
  induction a generalizing state bound progress with
  | done => exact (Option.some.inj h).symm
  | fail | panic => cases h
  | update f next ih => exact ih h
  | addSource hint text next ih =>
    rw [run] at h
    rw [calls, List.foldl_cons, Output.call]
    cases added : progress.output.addSource hint text with
    | ok accepted =>
      rw [added] at h
      exact ih _ h
    | error refused =>
      rw [added] at h
      exact ih _ h
  | report d next ih => exact ih h
  | symbols next ih => exact ih _ h
  | isCancelled next ih => exact ih _ h
  | cancel next ih => exact ih h
  | wait next ih =>
    rw [run] at h
    rw [calls]
    split at h
    · rename_i latch
      rw [if_pos latch]
      exact ih h
    · rename_i latch
      rw [if_neg latch]
      exact (Option.some.inj h).symm

end DeclFront
