import DeclFront.Archive
import DeclFront.Generator.Activity

/-!
# Generators at work

The workshop holds the generators that there are, each with its state, its latch, and the executions
that have been begun and have not finished, and the archive of snapshots. A generator may be
registered with a driver any number of times; it stays the same generator, and as long as one of its
executions has not finished, no other is begun.
-/

set_option autoImplicit false

namespace DeclFront

/-- An execution that has not finished: the inputs that it was shown, what it has done, and what is
left to do. -/
structure Execution (σ : Type) where
  input : Snapshot
  progress : Progress
  next : Activity σ

/-- A generator with its state. -/
structure Instance (σ : Type) where
  generator : Generator σ
  state : σ
  latchOpen : Bool := false
  /-- The executions that have been begun and have not finished. -/
  running : List (Execution σ) := []

/-- All generators, by number, and all snapshots. -/
structure Workshop (σ : Type) where
  archive : Archive := {}
  instances : List (Instance σ) := []

/-- What came of an attempt to execute a generator. -/
inductive Attempt where
  | finished (output : Output)
  | faulted (reason : String)
  /-- An earlier execution has not finished; nothing was begun. -/
  | busy
  /-- It was begun and has not finished. -/
  | unfinished
  deriving DecidableEq

namespace Workshop

variable {σ : Type}

/-- The workshop with one generator changed. -/
def update (w : Workshop σ) (i : Nat) (f : Instance σ → Instance σ) : Workshop σ :=
  { w with instances := w.instances.modify i f }

/-- A new snapshot of a compilation. -/
def snapshot (w : Workshop σ) (c : Compilation) : Snapshot × Workshop σ :=
  let (s, archive) := w.archive.snapshot c
  (s, { w with archive })

/-- A snapshot without generated files: the same one, if it has none. -/
def withoutGenerated (w : Workshop σ) (s : Snapshot) : Snapshot × Workshop σ :=
  let (s, archive) := w.archive.withoutGenerated s
  (s, { w with archive })

/-- What is known about a snapshot, whose symbols are bound if they are not yet. -/
def bind (w : Workshop σ) (s : Snapshot) : Knowledge × Workshop σ :=
  let (k, archive) := w.archive.bind s
  (k, { w with archive })

/-- The workshop after a snapshot has been bound, if that was asked for. -/
def bindIf (w : Workshop σ) (asked : Bool) (s : Snapshot) : Workshop σ :=
  if asked then (w.bind s).2 else w

/-- Prepares a generator. -/
def prepare (w : Workshop σ) (i : Nat) : Prepared × Workshop σ :=
  match w.instances[i]? with
  | none => (.policy .anyInput, w)
  | some x =>
    let (state, preparation) := x.generator.prepare x.state
    (preparation.run x.latchOpen .anyInput, w.update i fun x => { x with state })

/-- Does an activity of a generator, as far as it goes. An execution that does not finish is kept. -/
def perform (w : Workshop σ) (i : Nat) (x : Instance σ) (input : Snapshot) (progress : Progress) (activity : Activity σ) : Attempt × Workshop σ :=
  let trace := activity.run x.generator.name input.compilation x.latchOpen x.state false progress
  let w := (w.bindIf trace.bound input).update i fun x => { x with state := trace.state }
  match trace.ending with
  | .finished output => (.finished output, w)
  | .faulted reason => (.faulted reason, w)
  | .waiting progress next =>
    (.unfinished, w.update i fun x => { x with running := x.running ++ [⟨input, progress, next⟩] })

/-- Executes a generator, unless one of its executions has not finished. The generators that drivers
register are all in the workshop, so the first case is never met: it answers as if the execution had
stopped before it came to a result. An answer of that kind is not kept by a driver, which this one would
be; since none is ever given, nothing depends on it. -/
def execute (w : Workshop σ) (i : Nat) (input : Snapshot) : Attempt × Workshop σ :=
  match w.instances[i]? with
  | none => (.faulted "stopped without a result", w)
  | some x =>
    if x.running.isEmpty then
      let (state, activity) := x.generator.execute x.state input.compilation
      w.perform i { x with state } input {} activity
    else (.busy, w)

/-- Cancels the executions of a generator that have not finished. -/
def cancel (w : Workshop σ) (i : Nat) : Workshop σ :=
  w.update i fun x =>
    { x with running := x.running.map fun e => { e with progress.cancelled := true } }

/-- Does what is left of some executions of a generator. What comes of them is dropped. -/
def finish (w : Workshop σ) (i : Nat) : List (Execution σ) → Workshop σ
  | [] => w
  | e :: es =>
    match w.instances[i]? with
    | none => w
    | some x => (w.perform i x e.input e.progress e.next).2.finish i es

/-- Opens the latch of a generator, for good, and lets its executions finish. -/
def release (w : Workshop σ) (i : Nat) : Workshop σ :=
  match w.instances[i]? with
  | none => w
  | some x =>
    (w.update i fun x => { x with latchOpen := true, running := [] }).finish i x.running

end Workshop

end DeclFront
