import DeclFront.Proofs.Generator.Bench
import DeclFront.Proofs.Generator.Upkeep
import DeclFront.Proofs.Pipeline.Changes
import DeclFront.Proofs.Symbol.Inquiry

/-!
# A pipeline among its callers

Callers hold snapshots: those they have made, the inputs of the pipeline, and what passes came to.
They can give the inputs of any of these to the pipeline, ask about the symbols of any of them, and
open latches, between the operations of the pipeline and in any order. A world is a pipeline in its
workshop with the snapshots that are held, and a history of it is a list of events.
-/

set_option autoImplicit false

namespace DeclFront

variable {σ : Type}

/-- A pipeline in its workshop, and the snapshots that callers hold. -/
structure World (σ : Type) where
  session : Session σ
  held : List Snapshot

/-- What can happen. A snapshot is named by its place among those that are held, and a generator by
its number in the workshop. -/
inductive Event where
  /-- A new compilation is held. -/
  | make (texts : Texts) (generated : List SourceFile)
  | holdInput
  /-- The snapshot of the last pass is held, if there was one. -/
  | holdSnapshot
  | addGenerator (index : Nat)
  | removeGenerator (name : String)
  | setInput (held : Nat)
  | updateSource (name text : String)
  | removeSource (name : String)
  | run
  | bind
  /-- The symbols of a snapshot are bound, if they are not yet, and then asked about. -/
  | inquire (held : Nat) (i : Inquiry)
  /-- The latch of a generator is opened. -/
  | release (index : Nat)

/-- The workshop after an inquiry about the symbols of a snapshot. -/
def Workshop.inquire (w : Workshop σ) (s : Snapshot) (i : Inquiry) : Workshop σ :=
  let (k, w) := w.bind s
  { w with archive := w.archive.learn s (k.inquire i) }

namespace World

/-- The pipeline, as it is. -/
def pipeline (w : World σ) : Pipeline :=
  w.session.pipeline

def workshop (w : World σ) : Workshop σ :=
  w.session.workshop

/-- A new pipeline for a new compilation, which is held. -/
def start (texts : Texts) (generated : List SourceFile) (config : Config) (w : Workshop σ) : World σ :=
  let (s, w) := w.snapshot ((Compilation.ofTexts texts).withGenerated generated)
  ⟨.start s config w, [s]⟩

/-- The world after an event. One that names nothing, and one that fails, changes nothing. -/
def perform (w : World σ) : Event → World σ
  | .make texts generated =>
    let (s, workshop) := w.workshop.snapshot ((Compilation.ofTexts texts).withGenerated generated)
    ⟨⟨w.pipeline, workshop⟩, w.held ++ [s]⟩
  | .holdInput => { w with held := w.held ++ [w.pipeline.input] }
  | .holdSnapshot => { w with held := w.held ++ w.pipeline.snapshot?.toList }
  | .addGenerator i => { w with session := w.session.perform (.addGenerator i) }
  | .removeGenerator name => { w with session := w.session.perform (.removeGenerator name) }
  | .setInput n =>
    match w.held[n]? with
    | none => w
    | some s =>
      let (pipeline, workshop) := w.pipeline.setInput s w.workshop
      { w with session := ⟨pipeline, workshop⟩ }
  | .updateSource name text => { w with session := w.session.perform (.updateSource name text) }
  | .removeSource name => { w with session := w.session.perform (.removeSource name) }
  | .run => { w with session := w.session.perform .run }
  | .bind => { w with session := w.session.perform .bind }
  | .inquire n i =>
    match w.held[n]? with
    | none => w
    | some s => { w with session := ⟨w.pipeline, w.workshop.inquire s i⟩ }
  | .release i => { w with session := ⟨w.pipeline, w.workshop.release i⟩ }

/-- The world after a history. -/
def performAll (w : World σ) (es : List Event) : World σ :=
  es.foldl perform w

end World

namespace Event

/-- Does the event ask for the results of a pass? -/
def asksForPass : Event → Bool
  | run | bind => true
  | _ => false

/-- The names of the registered generators, in order of registration, after an event. -/
def register (w : Workshop σ) (names : List String) : Event → List String
  | addGenerator i => (Directive.add i).register w names
  | removeGenerator name => (Directive.remove name).register w names
  | _ => names

end Event

/-! ### A workshop keeps its generators and what is bound -/

/-- The generators have the same names, and snapshots that were given out or bound are so still. -/
structure Workshop.Grows (w w' : Workshop σ) : Prop where
  name? : w'.name? = w.name?
  issued : w.archive.known.size ≤ w'.archive.known.size
  bound : ∀ s, w.archive.isBound s = true → w'.archive.isBound s = true

namespace Archive

variable {a : Archive} {s t : Snapshot}

/-- A snapshot is bound if something is known about it. -/
theorem isBound_iff : a.isBound s = true ↔ ∃ k, a.known[s.id]? = some (some k) := by
  unfold isBound known?
  cases a.known[s.id]? with
  | none => simp
  | some k => cases k <;> simp

/-- A snapshot stays bound when others are made. -/
theorem isBound_snapshot (h : a.isBound s = true) (c : Compilation) :
    (a.snapshot c).2.isBound s = true := by
  obtain ⟨k, known⟩ := isBound_iff.mp h
  have bound : s.id < a.known.size := (Array.getElem?_eq_some_iff.mp known).1
  refine isBound_iff.mpr ⟨k, ?_⟩
  rw [snapshot, Array.getElem?_push_lt bound]
  exact known ▸ (Array.getElem?_eq_getElem bound).symm

/-- A snapshot stays bound whatever is found out about any. -/
theorem isBound_learn (h : a.isBound s = true) (k : Knowledge) :
    (a.learn t k).isBound s = true := by
  obtain ⟨k', known⟩ := isBound_iff.mp h
  have bound : s.id < a.known.size := (Array.getElem?_eq_some_iff.mp known).1
  refine isBound_iff.mpr ?_
  rw [learn, Array.getElem?_setIfInBounds]
  split
  · rename_i same
    rw [if_pos (same ▸ bound)]
    exact ⟨k, rfl⟩
  · exact ⟨k', known⟩

/-- Finding something out makes no snapshot. -/
theorem size_learn (a : Archive) (s : Snapshot) (k : Knowledge) :
    (a.learn s k).known.size = a.known.size :=
  Array.size_setIfInBounds

/-- Binding a snapshot learns about it, unless it is bound. -/
theorem bind_eq (a : Archive) (s : Snapshot) : (a.bind s).2 = a ∨ ∃ k, (a.bind s).2 = a.learn s k := by
  unfold bind
  split
  · exact .inl rfl
  · exact .inr ⟨_, rfl⟩

/-- A snapshot that was given out is bound once that has been asked for. -/
theorem isBound_bind (given : s.id < a.known.size) : (a.bind s).2.isBound s = true := by
  unfold bind
  split
  · rename_i k known
    rw [isBound, known]
    rfl
  · refine isBound_iff.mpr ⟨Knowledge.ofFiles s.compilation.files, ?_⟩
    exact Array.getElem?_setIfInBounds_self_of_lt given

end Archive

namespace Workshop

variable {w w' w'' : Workshop σ}

/-- A workshop in which nothing happens has grown by nothing. -/
theorem Grows.refl (w : Workshop σ) : Grows w w :=
  ⟨rfl, le_rfl, fun _ h => h⟩

/-- What has grown twice has grown. -/
theorem Grows.trans (h : Grows w w') (h' : Grows w' w'') : Grows w w'' :=
  ⟨h'.name?.trans h.name?, h.issued.trans h'.issued, fun s hs => h'.bound s (h.bound s hs)⟩

/-- A workshop grows by a new snapshot. -/
theorem grows_snapshot (w : Workshop σ) (c : Compilation) : Grows w (w.snapshot c).2 := by
  refine ⟨rfl, ?_, fun s hs => Archive.isBound_snapshot hs c⟩
  show w.archive.known.size ≤ (w.archive.known.push none).size
  rw [Array.size_push]
  exact Nat.le_succ _

/-- A workshop grows, if at all, when a snapshot without generated files is made. -/
theorem grows_withoutGenerated (w : Workshop σ) (s : Snapshot) :
    Grows w (w.withoutGenerated s).2 := by
  unfold withoutGenerated Archive.withoutGenerated
  cases s.compilation.generated.isEmpty with
  | true => exact .refl w
  | false => exact w.grows_snapshot s.compilation.withoutGenerated

/-- A workshop grows when something is found out about a snapshot. -/
theorem grows_learn (w : Workshop σ) (s : Snapshot) (k : Knowledge) :
    Grows w { w with archive := w.archive.learn s k } :=
  ⟨rfl, (Archive.size_learn _ _ _).ge, fun _ ht => Archive.isBound_learn ht k⟩

/-- A workshop grows when a snapshot is bound. -/
theorem grows_bind (w : Workshop σ) (s : Snapshot) : Grows w (w.bind s).2 := by
  rcases w.archive.bind_eq s with same | ⟨k, learnt⟩
  · unfold bind
    dsimp only
    rw [same]
    exact .refl w
  · unfold bind
    dsimp only
    rw [learnt]
    exact w.grows_learn s k

/-- A workshop grows when a generator changes and keeps its name. -/
theorem grows_update (w : Workshop σ) (i : Nat) {f : Instance σ → Instance σ}
    (named : ∀ x, (f x).generator.name = x.generator.name) : Grows w (w.update i f) :=
  ⟨w.name?_update i named, le_rfl, fun _ hs => hs⟩

/-- Generators at work only make a workshop grow. -/
theorem upkeep_grows (w : Workshop σ) (input : Snapshot) : Upkeep input (Grows w) where
  bind w' h := h.trans (w'.grows_bind input)
  state w' i _ h := h.trans (w'.grows_update i fun _ => rfl)
  wait w' i _ _ h := h.trans (w'.grows_update i fun _ => rfl)
  cancel w' i h := h.trans (w'.grows_update i fun _ => rfl)

/-- A workshop grows when a latch is opened, as the executions that go on only bind snapshots and
change states. -/
theorem grows_release (w : Workshop σ) (i : Nat) : Grows w (w.release i) := by
  unfold release
  split
  · exact .refl w
  · refine finish_keeps (fun e _ => w.upkeep_grows e.input) ?_ i
    exact w.grows_update i fun _ => rfl

/-- A workshop grows when somebody asks about the symbols of a snapshot. -/
theorem grows_inquire (w : Workshop σ) (s : Snapshot) (i : Inquiry) : Grows w (w.inquire s i) :=
  (w.grows_bind s).trans ((w.bind s).2.grows_learn s _)

end Workshop

end DeclFront
