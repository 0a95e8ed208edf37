import DeclFront.Generator.Activity
import Mathlib.Data.List.Forall2

/-!
# What an execution emits

In the course of an execution sources are accepted and diagnostics are reported. An execution that
finishes has all of them for its output, each kind in the order in which it was emitted; a diagnostic
comes from the generator, whatever it says itself. Each source gets a file of its own. Of an execution
that fails or breaks off nothing is left but the reason.
-/

set_option autoImplicit false

namespace DeclFront

/-- A file holds a source of the generator: it is called after the generator and the hint name, with
a slash between them, it has the text of the source, and it comes from the generator. -/
structure GeneratedSource.Filed (generator : String) (s : GeneratedSource) (f : SourceFile) : Prop where
  name : f.name = generator ++ "/" ++ s.hintName
  text : f.text = s.text
  origin : f.origin = .generated generator

namespace GeneratedSource

variable {generator : String}

/-- The generator that wrote the file of a source is the one that added the source. -/
theorem Filed.generator? {s : GeneratedSource} {f : SourceFile} (h : s.Filed generator f) :
    f.generator? = some generator := by
  rw [SourceFile.generator?, h.origin]

/-- Files that hold some sources hold nothing else. -/
theorem exists_filed_of_mem {ss : List GeneratedSource} {fs : List SourceFile}
    (h : List.Forall₂ (Filed generator) ss fs) {f : SourceFile} (hf : f ∈ fs) :
    ∃ s ∈ ss, s.Filed generator f := by
  induction h with
  | nil => cases hf
  | cons first rest ih =>
    cases hf with
    | head => exact ⟨_, List.mem_cons_self, first⟩
    | tail _ later =>
      obtain ⟨s, hs, filed⟩ := ih later
      exact ⟨s, List.mem_cons_of_mem _ hs, filed⟩

end GeneratedSource

/-- A source that was accepted under its hint, or a diagnostic that was reported. -/
inductive Emission where
  | source (hint text : String)
  | diagnostic (d : Diagnostic)

namespace Emission

/-- The source as it is kept, with its hint made canonical. -/
def source? : Emission → Option GeneratedSource
  | source hint text => some ⟨Hint.normalize hint, text⟩
  | diagnostic _ => none

/-- The diagnostic as it is told to come from the generator called `name`. -/
def diagnostic? (name : String) : Emission → Option Diagnostic
  | source _ _ => none
  | diagnostic d => some { d with source := .generator name }

end Emission

namespace Output

/-- The output with the emissions of the generator called `name` behind it. -/
def emit (o : Output) (name : String) (es : List Emission) : Output :=
  ⟨o.sources ++ es.filterMap Emission.source?, o.diagnostics ++ es.filterMap (Emission.diagnostic? name)⟩

variable {o p : Output} {name hint text : String} {es : List Emission}

/-- Every source of an output has one file, and the files stand in the order of the sources. -/
theorem files_filed (o : Output) (name : String) :
    List.Forall₂ (GeneratedSource.Filed name) o.sources (o.files name) := by
  rw [files, List.forall₂_map_right_iff, List.forall₂_same]
  intro s _
  exact ⟨rfl, rfl, rfl⟩

/-- Emitting nothing changes nothing. -/
theorem emit_nil : o.emit name [] = o := by
  rw [emit, List.filterMap_nil, List.filterMap_nil, List.append_nil, List.append_nil]

/-- A source is accepted under the hint name of its hint, behind the sources before it. -/
theorem addSource_eq_ok (h : o.addSource hint text = .ok p) :
    p = ⟨o.sources ++ [⟨Hint.normalize hint, text⟩], o.diagnostics⟩ := by
  unfold addSource Hint.validate at h
  split at h
  · cases h
  split at h
  · cases h
  · simp only [bind, Except.bind] at h
    split at h
    · cases h
    · cases h
      rfl

/-- What is emitted after an accepted source stands behind that source. -/
theorem emit_source (h : o.addSource hint text = .ok p) :
    o.emit name (.source hint text :: es) = p.emit name es := by
  have sources : (Emission.source hint text :: es).filterMap Emission.source? =
      ⟨Hint.normalize hint, text⟩ :: es.filterMap Emission.source? := rfl
  have diagnostics : (Emission.source hint text :: es).filterMap (Emission.diagnostic? name) =
      es.filterMap (Emission.diagnostic? name) := rfl
  rw [addSource_eq_ok h, emit, emit, sources, diagnostics, List.append_cons]

/-- What is emitted after a diagnostic stands behind that diagnostic. -/
theorem emit_diagnostic (d : Diagnostic) :
    o.emit name (.diagnostic d :: es) = (o.report name d).emit name es := by
  have sources : (Emission.diagnostic d :: es).filterMap Emission.source? =
      es.filterMap Emission.source? := rfl
  have diagnostics : (Emission.diagnostic d :: es).filterMap (Emission.diagnostic? name) =
      { d with source := .generator name } :: es.filterMap (Emission.diagnostic? name) := rfl
  rw [emit, emit, report, sources, diagnostics, List.append_cons]

/-- Everything that was emitted comes from the generator that emitted it. -/
theorem source_of_mem_emit {d : Diagnostic} (h : d ∈ (Output.emit {} name es).diagnostics) :
    d.source = .generator name := by
  obtain ⟨e, _, he⟩ := List.mem_filterMap.mp (show d ∈ es.filterMap (Emission.diagnostic? name) by
    simpa [emit] using h)
  cases e with
  | source hint text => simp [Emission.diagnostic?] at he
  | diagnostic d' =>
    rw [← Option.some.inj he]

end Output

namespace Activity

variable {σ : Type}

/-- What an activity of the generator called `name` emits, from some progress on. -/
def emissions (name : String) (input : Compilation) (latchOpen : Bool) (progress : Progress) :
    Activity σ → List Emission
  | done | fail _ | panic _ => []
  | update _ next => next.emissions name input latchOpen progress
  | addSource hint text next =>
    match progress.output.addSource hint text with
    | .ok output =>
      .source hint text ::
        (next (.ok ())).emissions name input latchOpen { progress with output }
    | .error e => (next (.error e)).emissions name input latchOpen progress
  | report d next =>
    .diagnostic d ::
      next.emissions name input latchOpen { progress with output := progress.output.report name d }
  | symbols next =>
    (next (SymbolTable.ofFiles input.files)).emissions name input latchOpen progress
  | isCancelled next => (next progress.cancelled).emissions name input latchOpen progress
  | cancel next => next.emissions name input latchOpen { progress with cancelled := true }
  | wait next => if latchOpen then next.emissions name input latchOpen progress else []

/-- An execution that finishes has put out what it emitted, and nothing else. -/
theorem output_eq_emit {name : String} {input : Compilation} {latchOpen bound : Bool} {state : σ}
    {progress : Progress} {a : Activity σ} {output : Output}
    (h : (a.run name input latchOpen state bound progress).ending = .finished output) :
    output = progress.output.emit name (a.emissions name input latchOpen progress) := by
  induction a generalizing state bound progress with
  | done =>
    rw [emissions, Output.emit_nil]
    exact (Ending.finished.inj h).symm
  | fail | panic => simp [run] at h
  | update f next ih => exact ih h
  | addSource hint text next ih =>
    rw [run] at h
    rw [emissions]
    cases added : progress.output.addSource hint text with
    | ok accepted =>
      rw [added] at h
      rw [Output.emit_source added]
      exact ih _ h
    | error refused =>
      rw [added] at h
      exact ih _ h
  | report d next ih =>
    rw [emissions, Output.emit_diagnostic]
    exact ih h
  | symbols next ih => exact ih _ h
  | isCancelled next ih => exact ih _ h
  | cancel next ih => exact ih h
  | wait next ih =>
    rw [run] at h
    rw [emissions]
    split at h
    · rename_i latch
      rw [if_pos latch]
      exact ih h
    · simp at h

end Activity

end DeclFront
