import DeclFront.Proofs.Pipeline.Catalogue

/-!
# Diagnostics resolve where they are raised

A location names a file, and lines and columns are those in the first file of the name. Generated
files of one pass have different names, but nothing keeps a user from giving an input the name that
a generated file will have. The input stands in front of it then, and what the generated file
raises is looked up in the wrong text.
-/

set_option autoImplicit false

namespace DeclFront

variable {σ : Type}

/-- No two files that one pass generated have the same name. -/
theorem Pass.Tidy.nodup_generated {q : Pass} (h : q.Tidy) :
    (q.snapshot.compilation.generated.map (·.name)).Nodup := by
  rw [h.generated]
  exact RunResult.nodup_allFiles h.results h.distinct

/-- In the inputs of a pipeline and in its last pass, no two generated files have the same name. -/
theorem Pipeline.Coherent.nodup_generated {p : Pipeline} {w : Workshop σ} {asked : Bool}
    {names : List String} (h : p.Coherent w asked names) {s : Snapshot}
    (used : s = p.input ∨ p.snapshot? = some s) :
    (s.compilation.generated.map (·.name)).Nodup := by
  rcases used with rfl | current
  · obtain ⟨texts, input⟩ := h.input
    rw [input]
    exact .nil
  · obtain ⟨q, hq, rfl⟩ := Option.map_eq_some_iff.mp current
    exact (h.tidy q hq).nodup_generated

/-- The inputs of a pipeline and the snapshot of its last pass are listed. -/
theorem Pipeline.Keeps.listed {p : Pipeline} {w : Workshop σ} {cat : List Compilation}
    (h : p.Keeps w cat) {s : Snapshot} (used : s = p.input ∨ p.snapshot? = some s) :
    s.Listed cat := by
  rcases used with rfl | current
  · exact h.input
  · obtain ⟨q, hq, rfl⟩ := Option.map_eq_some_iff.mp current
    exact h.current q hq

/-- After every history of a pipeline and of what was asked about symbols, whatever its generators
do: the diagnostics of the inputs, and those of the last pass, are what their files raise. If no two
inputs have the same name, each of them that is raised by an input, or by a generated file whose
name no input has, is located, and has lines and columns, which are those that the line index of
that very file has. -/
theorem diagnostics_resolve_where_raised (gs : List (Generator σ × σ)) (texts : Texts)
    (generated : List SourceFile) (config : Config) (es : List Event) :
    let a := (World.start texts generated config (.ofGenerators gs)).performAll es
    ∀ s : Snapshot, s = a.pipeline.input ∨ a.pipeline.snapshot? = some s →
      let c := s.compilation
      let known := a.workshop.archive.known? s
      (∀ d, d ∈ a.workshop.archive.diagnostics s ↔ ∃ f ∈ c.files, c.Raises known f d) ∧
      ((c.inputs.map (·.name)).Nodup → ∀ f d, c.Raises known f d →
        f ∈ c.inputs ∨ f ∈ c.generated ∧ (∀ g ∈ c.inputs, g.name ≠ f.name) →
        ∃ l span, d.location = some l ∧ l.file = f.name ∧ f.lines.span? l.range = some span ∧
          c.lineCol? l = some span) := by
  intro a s used c known
  have coherent : a.Coherent (.ofGenerators gs) (es.any Event.asksForPass)
      (es.foldl (Event.register (.ofGenerators gs)) []) :=
    (World.start_coherent texts generated config (.ofGenerators gs)).performAll es
  obtain ⟨cat, started⟩ :=
    World.start_keeps (Workshop.ofGenerators_keeps gs) texts generated config
  obtain ⟨cat', kept⟩ := started.performAll
    (World.start_coherent texts generated config (.ofGenerators gs)) es
  have kept : a.Keeps cat' := kept
  have knows : c.Knows known :=
    kept.pipeline.workshop.archive.known? (kept.pipeline.listed used)
  refine ⟨fun d => Compilation.reported_iff_raises knows, fun inputs f d raises place => ?_⟩
  have unshadowed : c.file? f.name = some f :=
    Compilation.file?_name inputs (coherent.pipeline.nodup_generated used) place
  exact raises.resolves knows unshadowed

namespace Sample

/-- A generator that writes a file with nothing but a word in it, which is no declaration. -/
def scribe : Generator Unit where
  name := "g"
  prepare s := (s, .done)
  execute s _ := (s, .addSource "a" "x" fun _ => .done)

/-- What the generator writes. -/
def scribble : SourceFile :=
  .generated "g" "g/a.decl" "x"

/-- A pass over some inputs, with the generator registered. -/
def scribbled (texts : Texts) : World Unit :=
  (World.start texts [] {} (.ofGenerators [(scribe, ())])).performAll [.addGenerator 0, .run]

/-- The sample snapshot has a diagnostic that is located in a generated file. -/
theorem exists_scribble_diagnostic : ∃ d ∈ scribble.diagnostics, d.location = some ⟨"g/a.decl", ⟨0, 1⟩⟩ := by
  have located : scribble.diagnostics.map (·.location) = [some ⟨"g/a.decl", ⟨0, 1⟩⟩] := by
    decide +kernel
  exact List.mem_map.mp (located ▸ List.mem_singleton_self _)

end Sample

/-- Beside an input of another name, what the file of the sample generator raises has lines and
columns. -/
theorem scribbled_diagnostic_resolves :
    let a := Sample.scribbled [("a.decl", "type A {}")]
    ∃ s, a.pipeline.snapshot? = some s ∧ (s.compilation.inputs.map (·.name)).Nodup ∧
      Sample.scribble ∈ s.compilation.generated ∧
      (∀ g ∈ s.compilation.inputs, g.name ≠ Sample.scribble.name) ∧
      ∃ d ∈ a.workshop.archive.diagnostics s, ∃ l span, d.location = some l ∧
        l.file = Sample.scribble.name ∧ Sample.scribble.lines.span? l.range = some span ∧
        s.compilation.lineCol? l = some span := by
  intro a
  have ran : a.pipeline.snapshot? =
      some ⟨1, ⟨[.input "a.decl" "type A {}"], [Sample.scribble]⟩⟩ := rfl
  obtain ⟨reported, resolved⟩ := diagnostics_resolve_where_raised [(Sample.scribe, ())]
    [("a.decl", "type A {}")] [] {} [.addGenerator 0, .run] _ (.inr ran)
  have distinct : [(SourceFile.input "a.decl" "type A {}").name].Nodup := List.nodup_singleton _
  have other : ∀ g ∈ [SourceFile.input "a.decl" "type A {}"], g.name ≠ Sample.scribble.name := by
    intro g hg
    rw [List.mem_singleton.mp hg]
    decide
  have written : Sample.scribble ∈ [Sample.scribble] := List.mem_singleton_self _
  obtain ⟨d, hd, -⟩ := Sample.exists_scribble_diagnostic
  refine ⟨_, ran, distinct, written, other, d, ?_, ?_⟩
  · exact (reported d).mpr ⟨_, List.mem_append_right _ written, .parse hd⟩
  · exact resolved distinct _ d (.parse hd) (.inr ⟨written, other⟩)

/-- An input with the name of the file that the sample generator writes: what that file raises has no
lines and columns, though it lies within its text. -/
theorem shadowed_diagnostic_unresolved :
    let a := Sample.scribbled [("g/a.decl", "")]
    ∃ s, a.pipeline.snapshot? = some s ∧ (s.compilation.inputs.map (·.name)).Nodup ∧
      ∃ f ∈ s.compilation.files, ∃ d ∈ a.workshop.archive.diagnostics s,
        s.compilation.Raises (a.workshop.archive.known? s) f d ∧ ∃ l, d.location = some l ∧
          (f.lines.span? l.range).isSome ∧ s.compilation.lineCol? l = none := by
  intro a
  have ran : a.pipeline.snapshot? =
      some ⟨1, ⟨[.input "g/a.decl" ""], [Sample.scribble]⟩⟩ := rfl
  obtain ⟨d, hd, place⟩ := Sample.exists_scribble_diagnostic
  have written : Sample.scribble ∈ [SourceFile.input "g/a.decl" "", Sample.scribble] :=
    List.mem_cons_of_mem _ (List.mem_singleton_self _)
  refine ⟨_, ran, List.nodup_singleton _, Sample.scribble, written, d, ?_, .parse hd, _, place, ?_, ?_⟩
  · exact List.mem_append_left _ (List.mem_flatMap.mpr ⟨_, written, hd⟩)
  · decide +kernel
  · decide +kernel

end DeclFront
