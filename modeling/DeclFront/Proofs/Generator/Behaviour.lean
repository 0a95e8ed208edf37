import DeclFront.Generator.Driver

/-!
# Generators that are functions

A generator keeps a state of its own and could answer anything. Here are the generators that do
not use this: how a preparation ends is fixed, and how an execution ends depends on nothing but the
names and texts of the inputs, and on the first texts of the watched names alone if files are
watched. What such a generator does is a `Behaviour`; a workshop `Follows` behaviours when each of
its generators does what its behaviour says, whatever its state.

`Behaviour.pass` is what a pass over given inputs has to come to when nothing is kept from before.
-/

set_option autoImplicit false

namespace DeclFront

/-- Inputs by name and text, in order. -/
abbrev Texts := List (String × String)

/-- The text of the first input of a name. -/
def Compilation.text? (c : Compilation) (name : String) : Option String :=
  (c.input? name).map (·.text)

/-- What a generator does, as a function of what it is shown. -/
structure Behaviour where
  name : String
  /-- The policy it decides on, or what its preparation breaks off with. -/
  prepared : Except Panic Policy
  /-- The output of an execution, or the reason why it fails. -/
  executed : Texts → Except String Output
  /-- Who watches files looks at nothing else. -/
  watchful : ∀ names, prepared = .ok (.watched names) → ∀ t t' : Texts,
    (∀ n ∈ names, (Compilation.ofTexts t).text? n = (Compilation.ofTexts t').text? n) →
    executed t = executed t'

namespace Behaviour

/-- How the preparation ends. -/
def preparation (b : Behaviour) : Prepared :=
  match b.prepared with
  | .ok policy => .policy policy
  | .error p => .panicked p

/-- How an execution ends. -/
def ending {σ : Type} (b : Behaviour) (texts : Texts) : Ending σ :=
  match b.executed texts with
  | .ok output => .finished output
  | .error reason => .faulted reason

/-- What comes of an attempt to execute it. -/
def attempt (b : Behaviour) (texts : Texts) : Attempt :=
  match b.executed texts with
  | .ok output => .finished output
  | .error reason => .faulted reason

/-- What is kept of the preparation. -/
def readiness (b : Behaviour) : Except Diagnostic Policy :=
  match b.prepared with
  | .ok policy => .ok policy
  | .error p =>
    .error ((Finding.generatorNotPrepared b.name p.text).report (.generator b.name) none)

/-- Output and files that it contributes to a pass over the given inputs. -/
def contribution (b : Behaviour) (texts : Texts) : Output × List SourceFile :=
  match b.readiness with
  | .error d => (⟨[], [d]⟩, [])
  | .ok _ =>
    match b.executed texts with
    | .ok output => (output, output.files b.name)
    | .error reason =>
      (⟨[], [(Finding.generatorFailed b.name reason).report (.generator b.name) none]⟩, [])

/-- A pass from scratch: the inputs with all contributed files behind them, and all
contributed diagnostics. -/
def pass (bs : List Behaviour) (texts : Texts) : Compilation × List Diagnostic :=
  ((Compilation.ofTexts texts).withGenerated (bs.flatMap fun b => (b.contribution texts).2),
    bs.flatMap fun b => (b.contribution texts).1.diagnostics)

end Behaviour

/-- A generator does what a behaviour says, whatever its state, and nothing of it is running. -/
structure Instance.Follows {σ : Type} (x : Instance σ) (b : Behaviour) : Prop where
  name : x.generator.name = b.name
  idle : x.running = []
  prepares : ∀ s, (x.generator.prepare s).2.run x.latchOpen .anyInput = b.preparation
  executes : ∀ s texts,
    ((x.generator.execute s (.ofTexts texts)).2.run x.generator.name (.ofTexts texts) x.latchOpen
      (x.generator.execute s (.ofTexts texts)).1 false {}).ending = b.ending texts

/-- The state of a generator has no say in what it does when it follows a behaviour. -/
theorem Instance.Follows.withState {σ : Type} {x : Instance σ} {b : Behaviour} (h : x.Follows b)
    (state : σ) : Instance.Follows { x with state } b :=
  ⟨h.name, h.idle, h.prepares, h.executes⟩

/-- Each generator of the workshop does what the behaviour of its number says. -/
structure Workshop.Follows {σ : Type} (w : Workshop σ) (bs : List Behaviour) : Prop where
  length : w.instances.length = bs.length
  each : ∀ (i : Nat) (x : Instance σ) (b : Behaviour), w.instances[i]? = some x → bs[i]? = some b →
      x.Follows b

namespace Workshop

variable {σ : Type} {w : Workshop σ} {bs : List Behaviour}

/-- A behaviour belongs to a generator. -/
theorem Follows.exists_instance (h : w.Follows bs) {i : Nat} {b : Behaviour}
    (hb : bs[i]? = some b) : ∃ x, w.instances[i]? = some x ∧ x.Follows b := by
  have bound : i < w.instances.length := by
    rw [h.length]
    exact (List.getElem?_eq_some_iff.mp hb).1
  have hx := List.getElem?_eq_getElem bound
  exact ⟨_, hx, h.each i _ b hx hb⟩

/-- Only the generators matter, not what is known about snapshots. -/
theorem Follows.withArchive (h : w.Follows bs) (archive : Archive) :
    Workshop.Follows { w with archive } bs :=
  ⟨h.length, h.each⟩

/-- A generator may change its state and the workshop follows the same behaviours. -/
theorem Follows.update (h : w.Follows bs) (i : Nat) (state : σ) :
    (w.update i fun x => { x with state }).Follows bs := by
  constructor
  · rw [← h.length]
    exact List.length_modify _ _ _
  · intro j x b hx hb
    obtain ⟨y, hy, follows⟩ := h.exists_instance hb
    rw [Workshop.update, List.getElem?_modify, hy] at hx
    rw [← Option.some.inj hx]
    dsimp only
    split
    · exact follows.withState state
    · exact follows

/-- Making a snapshot touches no generator. -/
theorem Follows.snapshot (h : w.Follows bs) (c : Compilation) : (w.snapshot c).2.Follows bs :=
  h.withArchive _

/-- Making a snapshot without generated files touches no generator. -/
theorem Follows.withoutGenerated (h : w.Follows bs) (s : Snapshot) :
    (w.withoutGenerated s).2.Follows bs :=
  h.withArchive _

/-- Binding the symbols of a snapshot touches no generator. -/
theorem Follows.bind (h : w.Follows bs) (s : Snapshot) : (w.bind s).2.Follows bs :=
  h.withArchive _

/-- Binding a snapshot if that was asked for touches no generator. -/
theorem Follows.bindIf (h : w.Follows bs) (asked : Bool) (s : Snapshot) :
    (w.bindIf asked s).Follows bs := by
  unfold Workshop.bindIf
  split
  · exact h.bind s
  · exact h

/-- A preparation ends as the behaviour says. -/
theorem Follows.prepare (h : w.Follows bs) {i : Nat} {b : Behaviour} (hb : bs[i]? = some b) :
    (w.prepare i).1 = b.preparation ∧ (w.prepare i).2.Follows bs := by
  obtain ⟨x, hx, follows⟩ := h.exists_instance hb
  simp only [Workshop.prepare, hx]
  exact ⟨follows.prepares x.state, h.update i _⟩

/-- An execution is begun and ends as the behaviour says. -/
theorem Follows.execute (h : w.Follows bs) {i : Nat} {b : Behaviour} (hb : bs[i]? = some b)
    (id : Nat) (texts : Texts) :
    (w.execute i ⟨id, .ofTexts texts⟩).1 = b.attempt texts ∧
      (w.execute i ⟨id, .ofTexts texts⟩).2.Follows bs := by
  obtain ⟨x, hx, follows⟩ := h.exists_instance hb
  have ends := follows.executes x.state texts
  have idle : x.running.isEmpty = true := by simp [follows.idle]
  simp only [Workshop.execute, hx, idle, if_true, Workshop.perform, ends]
  unfold Behaviour.ending Behaviour.attempt
  cases b.executed texts with
  | ok output => exact ⟨rfl, (h.bindIf _ _).update i _⟩
  | error reason => exact ⟨rfl, (h.bindIf _ _).update i _⟩

end Workshop

/-- Whether a snapshot without generated files is a new one or the same one, it holds the
inputs alone. -/
theorem Workshop.withoutGenerated_fst {σ : Type} (w : Workshop σ) (s : Snapshot) :
    (w.withoutGenerated s).1.compilation = s.compilation.withoutGenerated := by
  unfold Workshop.withoutGenerated Archive.withoutGenerated
  obtain ⟨id, inputs, generated⟩ := s
  cases generated <;> rfl

/-- A snapshot of given inputs, with its generated files left out. -/
theorem Workshop.withoutGenerated_compilation {σ : Type} (w : Workshop σ) (s : Snapshot)
    {texts : Texts} (h : s.compilation.inputs = (Compilation.ofTexts texts).inputs) :
    (w.withoutGenerated s).1.compilation = .ofTexts texts := by
  rw [w.withoutGenerated_fst, Compilation.withoutGenerated, h]
  rfl

end DeclFront
