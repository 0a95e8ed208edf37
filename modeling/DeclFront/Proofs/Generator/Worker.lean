import DeclFront.Generator.Workshop
import DeclFront.Proofs.Generator.Emission
import Mathlib.Logic.Function.Basic

/-!
# What a generator does depends on its worker alone

A worker is what the workshop has at hand of one generator when it is called: the generator, its
state, whether its latch is open, and whether one of its executions has not finished. Preparing or
executing a generator depends on its worker, besides the inputs it is shown, and changes the worker
of no other generator.
-/

set_option autoImplicit false

namespace DeclFront

variable {σ : Type}

/-- A generator as it is when it is called. -/
structure Worker (σ : Type) where
  generator : Generator σ
  state : σ
  latchOpen : Bool
  /-- An execution has not finished. -/
  busy : Bool

/-- What an attempt that was begun comes to. -/
def Ending.attempt : Ending σ → Attempt
  | finished output => .finished output
  | faulted reason => .faulted reason
  | waiting _ _ => .unfinished

namespace Worker

/-- How its preparation goes, and the worker after it. -/
def prepare (k : Worker σ) : Prepared × Worker σ :=
  let (state, preparation) := k.generator.prepare k.state
  (preparation.run k.latchOpen .anyInput, { k with state })

/-- The course of an execution over some inputs. -/
def trace (k : Worker σ) (c : Compilation) : Trace σ :=
  let (state, activity) := k.generator.execute k.state c
  activity.run k.generator.name c k.latchOpen state false {}

/-- What it emits in the course of that. -/
def emissions (k : Worker σ) (c : Compilation) : List Emission :=
  (k.generator.execute k.state c).2.emissions k.generator.name c k.latchOpen {}

/-- What comes of an attempt to execute it, and the worker after that. -/
def execute (k : Worker σ) (c : Compilation) : Attempt × Worker σ :=
  if k.busy then (.busy, k)
  else
    let trace := k.trace c
    let attempt := trace.ending.attempt
    (attempt, { k with state := trace.state, busy := attempt = .unfinished })

/-- An attempt leaves a worker of the same generator. -/
theorem execute_generator (k : Worker σ) (c : Compilation) :
    (k.execute c).2.generator = k.generator := by
  unfold execute
  split <;> rfl

/-- While an execution has not finished no other is begun, and nothing changes. -/
theorem execute_busy {k : Worker σ} (h : k.busy = true) (c : Compilation) :
    k.execute c = (.busy, k) := by
  rw [execute, if_pos h]

/-- An attempt that is begun comes to what the course of the execution does. -/
theorem execute_idle {k : Worker σ} (h : k.busy = false) (c : Compilation) :
    (k.execute c).1 = (k.trace c).ending.attempt := by
  rw [execute, if_neg (by rw [h]; exact Bool.false_ne_true)]

/-- The preparation of a generator that there may not be. -/
def prepare? : Option (Worker σ) → Prepared × Option (Worker σ)
  | none => (.policy .anyInput, none)
  | some k => (k.prepare.1, some k.prepare.2)

/-- The attempt to execute a generator that there may not be. -/
def execute? (c : Compilation) : Option (Worker σ) → Attempt × Option (Worker σ)
  | none => (.faulted "stopped without a result", none)
  | some k => ((k.execute c).1, some (k.execute c).2)

/-- An execution that finishes puts out what the worker emits. -/
theorem output_eq_emit {k : Worker σ} {c : Compilation} {output : Output}
    (h : (k.trace c).ending = .finished output) :
    output = Output.emit {} k.generator.name (k.emissions c) :=
  Activity.output_eq_emit h

end Worker

/-- The worker of a generator of the workshop. -/
def Instance.worker (x : Instance σ) : Worker σ :=
  ⟨x.generator, x.state, x.latchOpen, !x.running.isEmpty⟩

namespace Workshop

/-- The workers of the generators, by number. -/
def workers (w : Workshop σ) (i : Nat) : Option (Worker σ) :=
  w.instances[i]?.map Instance.worker

variable {w : Workshop σ} {i : Nat} {x : Instance σ}

/-- The generator that was changed is found changed. -/
theorem instance_update (h : w.instances[i]? = some x) (f : Instance σ → Instance σ) :
    (w.update i f).instances[i]? = some (f x) := by
  rw [update, List.getElem?_modify_eq, h]
  rfl

/-- Changing a generator changes its worker and no other one. -/
theorem workers_update (h : w.instances[i]? = some x) (f : Instance σ → Instance σ) :
    (w.update i f).workers = Function.update w.workers i (some (f x).worker) := by
  funext j
  by_cases same : j = i
  · rw [same, Function.update_self, workers, instance_update h]
    rfl
  · rw [Function.update_of_ne same, workers, update, List.getElem?_modify_ne _ _ (Ne.symm same),
      workers]

/-- Binding a snapshot touches no generator. -/
theorem instances_bindIf (w : Workshop σ) (asked : Bool) (s : Snapshot) :
    (w.bindIf asked s).instances = w.instances := by
  unfold bindIf
  split <;> rfl

/-- Binding a snapshot leaves every worker as it is. -/
theorem workers_bindIf (w : Workshop σ) (asked : Bool) (s : Snapshot) :
    (w.bindIf asked s).workers = w.workers := by
  funext j
  rw [workers, instances_bindIf, workers]

/-- Where there is no generator, there is no worker. -/
theorem workers_absent (h : w.instances[i]? = none) : w.workers i = none := by
  rw [workers, h]
  rfl

/-- Where there is a generator, its worker is there. -/
theorem workers_present (h : w.instances[i]? = some x) : w.workers i = some x.worker := by
  rw [workers, h]
  rfl

/-- A generator is prepared as its worker is. -/
theorem prepare_worker (w : Workshop σ) (i : Nat) :
    (w.prepare i).1 = (Worker.prepare? (w.workers i)).1 ∧
      (w.prepare i).2.workers =
        Function.update w.workers i (Worker.prepare? (w.workers i)).2 := by
  cases hx : w.instances[i]? with
  | none =>
    have absent := workers_absent hx
    rw [absent, prepare, hx]
    exact ⟨rfl, (Function.update_eq_self_iff.mpr absent.symm).symm⟩
  | some x =>
    rw [workers_present hx, prepare, hx]
    exact ⟨rfl, workers_update hx _⟩

/-- An execution is begun and goes as that of its worker. -/
theorem perform_worker (hx : w.instances[i]? = some x) (idle : x.running = []) (state : σ)
    (input : Snapshot) (activity : Activity σ) :
    let trace := activity.run x.generator.name input.compilation x.latchOpen state false {}
    let attempt := trace.ending.attempt
    (w.perform i { x with state } input {} activity).1 = attempt ∧
      (w.perform i { x with state } input {} activity).2.workers =
        Function.update w.workers i
          (some { x.worker with state := trace.state, busy := attempt = .unfinished }) := by
  intro trace attempt
  have hx' : (w.bindIf trace.bound input).instances[i]? = some x := by
    rw [instances_bindIf, hx]
  have left := instance_update hx' fun x => { x with state := trace.state }
  have moved := workers_update hx' fun x => { x with state := trace.state }
  rw [workers_bindIf] at moved
  obtain ⟨generator, _, latchOpen, running⟩ := x
  subst idle
  unfold perform
  cases ending : trace.ending with
  | finished output => simp only [trace, attempt, ending]; exact ⟨rfl, moved⟩
  | faulted reason => simp only [trace, attempt, ending]; exact ⟨rfl, moved⟩
  | waiting progress next =>
    simp only [trace, attempt, ending]
    refine ⟨rfl, ?_⟩
    rw [workers_update left, moved, Function.update_idem]
    rfl

/-- A generator is executed as its worker is. -/
theorem execute_worker (w : Workshop σ) (i : Nat) (input : Snapshot) :
    (w.execute i input).1 = (Worker.execute? input.compilation (w.workers i)).1 ∧
      (w.execute i input).2.workers =
        Function.update w.workers i (Worker.execute? input.compilation (w.workers i)).2 := by
  cases hx : w.instances[i]? with
  | none =>
    have absent := workers_absent hx
    rw [absent, execute, hx]
    exact ⟨rfl, (Function.update_eq_self_iff.mpr absent.symm).symm⟩
  | some x =>
    have present := workers_present hx
    rw [present, execute, hx]
    cases running : x.running with
    | nil =>
      have idle : x.worker.busy = false := by
        rw [Instance.worker, running]
        rfl
      simp only [running, Worker.execute?, Worker.execute, idle]
      exact perform_worker hx running _ input _
    | cons e es =>
      have busy : x.worker.busy = true := by
        rw [Instance.worker, running]
        rfl
      simp only [running, Worker.execute?, Worker.execute_busy busy]
      exact ⟨rfl, (Function.update_eq_self_iff.mpr present.symm).symm⟩

/-- Cancelling executions leaves every worker as it is. -/
theorem workers_cancel (w : Workshop σ) (i : Nat) : (w.cancel i).workers = w.workers := by
  funext j
  rw [workers, cancel, update, List.getElem?_modify, workers]
  cases w.instances[j]? with
  | none => rfl
  | some x =>
    show some (Instance.worker (if i = j then _ else x)) = some x.worker
    split
    · rw [Instance.worker, Instance.worker, List.isEmpty_map]
    · rfl

end Workshop

end DeclFront
