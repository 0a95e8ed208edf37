import DeclFront.Proofs.Generator.Calls
import Mathlib.Data.List.Basic
import Mathlib.Data.List.Nodup

/-!
# Names of generated files

The name of a generated file is that of its generator, a slash, and a hint name. Hint names hold no
slash, so the last slash of the name of a file ends the name of its generator. One execution never
has two sources whose hint names differ in case alone, whatever its generator does.
-/

set_option autoImplicit false

namespace DeclFront

/-- The hint names hold no slash, and no two are the same but for case. -/
structure Output.Tidy (o : Output) : Prop where
  slashless : ∀ s ∈ o.sources, '/' ∉ s.hintName.toList
  distinct : o.sources.Pairwise fun a b => Hint.same a.hintName b.hintName = false

namespace Hint

variable {hint name : String}

/-- A hint name is the hint itself, or the hint with the ending behind it. -/
theorem normalize_eq (hint : String) :
    (normalize hint).toList = hint.toList ∨
      (normalize hint).toList = hint.toList ++ ending.toList := by
  unfold normalize
  split
  · exact .inl rfl
  · exact .inr String.toList_append

/-- Hint names hold no slash: a usable hint holds none, and neither does the ending. -/
theorem slash_notMem_of_validate (h : validate hint = .ok name) : '/' ∉ name.toList := by
  unfold validate at h
  split at h
  · cases h
  split at h
  · cases h
  · rename_i usable
    cases h
    have inside : '/' ∉ hint.toList := by
      intro found
      exact usable (List.any_eq_true.mpr ⟨'/', found, by decide⟩)
    have behind : '/' ∉ ending.toList := by decide
    rcases normalize_eq hint with same | longer
    · rwa [same]
    · rw [longer, List.mem_append]
      exact fun found => found.elim inside behind

end Hint

namespace Output

variable {o p : Output} {hint text : String}

/-- An output without sources is tidy, whatever diagnostics it has. -/
theorem tidy_empty (ds : List Diagnostic) : Tidy ⟨[], ds⟩ :=
  ⟨List.forall_mem_nil _, .nil⟩

/-- A report leaves the sources as they are. -/
theorem Tidy.report (h : o.Tidy) (generator : String) (d : Diagnostic) :
    (o.report generator d).Tidy :=
  ⟨h.slashless, h.distinct⟩

/-- One more source that was accepted leaves an output tidy, since its name was checked against
all others. -/
theorem Tidy.addSource (h : o.Tidy) (added : o.addSource hint text = .ok p) : p.Tidy := by
  unfold Output.addSource at added
  cases valid : Hint.validate hint with
  | error e =>
    rw [valid] at added
    cases added
  | ok name =>
    rw [valid] at added
    simp only [bind, Except.bind] at added
    split at added
    · cases added
    · rename_i free
      cases added
      constructor
      · intro s hs
        rcases List.mem_append.mp hs with hs | hs
        · exact h.slashless s hs
        · rw [List.mem_singleton.mp hs]
          exact Hint.slash_notMem_of_validate valid
      · refine List.pairwise_append.mpr ⟨h.distinct, List.pairwise_singleton _ _, ?_⟩
        intro a ha b hb
        rw [List.mem_singleton.mp hb]
        by_contra same
        exact free (List.any_eq_true.mpr ⟨a, ha, by simpa using same⟩)

/-- A call leaves a tidy output tidy. -/
theorem Tidy.call (h : o.Tidy) (name : String) (c : SinkCall) : (o.call name c).Tidy := by
  cases c with
  | report d => exact h.report name d
  | add hint text =>
    rw [Output.call]
    cases added : o.addSource hint text with
    | error e => exact h
    | ok p => exact h.addSource added

/-- Any number of calls leaves a tidy output tidy. -/
theorem Tidy.foldl_call (h : o.Tidy) (name : String) (cs : List SinkCall) :
    (cs.foldl (Output.call name) o).Tidy := by
  induction cs generalizing o with
  | nil => exact h
  | cons c cs ih => exact ih (h.call name c)

end Output

/-- What any execution puts out is tidy. -/
theorem Activity.tidy_of_finished {σ : Type} {name : String} {input : Compilation}
    {latchOpen bound : Bool} {state : σ} {progress : Progress} {a : Activity σ} {output : Output}
    (tidy : progress.output.Tidy)
    (h : (a.run name input latchOpen state bound progress).ending = .finished output) :
    output.Tidy := by
  have sink : (a.run name input latchOpen state bound progress).ending.sink? = some output := by
    rw [h]
    rfl
  rw [Activity.sink_of_run sink]
  exact tidy.foldl_call name _

section Names

/-- What stands before the last slash, and what stands behind it. -/
theorem append_slash_inj {a b h k : String} (hh : '/' ∉ h.toList) (hk : '/' ∉ k.toList)
    (same : a ++ "/" ++ h = b ++ "/" ++ k) : a = b ∧ h = k := by
  have chars : a.toList ++ '/' :: h.toList = b.toList ++ '/' :: k.toList := by
    simpa [String.toList_append] using congrArg String.toList same
  rcases List.append_eq_append_iff.mp chars with ⟨as, front, back⟩ | ⟨bs, front, back⟩
  · cases as with
    | nil =>
      rw [List.append_nil] at front
      exact ⟨String.toList_inj.mp front.symm, String.toList_inj.mp (List.cons.inj back).2⟩
    | cons c as =>
      have inside := (List.cons.inj back).2
      exact absurd (by rw [inside]; simp) hh
  · cases bs with
    | nil =>
      rw [List.append_nil] at front
      exact ⟨String.toList_inj.mp front, String.toList_inj.mp (List.cons.inj back).2.symm⟩
    | cons c bs =>
      have inside := (List.cons.inj back).2
      exact absurd (by rw [inside]; simp) hk

variable {o : Output} {generator : String}

/-- The name of a file of a tidy output is that of its generator, a slash, and a hint name, which
holds none. -/
theorem Output.exists_hint_of_mem_files {f : SourceFile} (tidy : o.Tidy)
    (h : f ∈ o.files generator) :
    ∃ hint, f.name = generator ++ "/" ++ hint ∧ '/' ∉ hint.toList := by
  obtain ⟨s, hs, rfl⟩ := List.mem_map.mp h
  exact ⟨s.hintName, rfl, tidy.slashless s hs⟩

/-- No two files of a tidy output have the same name, as their hint names differ. -/
theorem Output.Tidy.nodup_files (tidy : o.Tidy) (generator : String) :
    ((o.files generator).map (·.name)).Nodup := by
  have differ : o.sources.Pairwise fun a b =>
      generator ++ "/" ++ a.hintName ≠ generator ++ "/" ++ b.hintName := by
    refine tidy.distinct.imp_of_mem ?_
    intro a b ha hb apart same
    have equal := (append_slash_inj (tidy.slashless a ha) (tidy.slashless b hb) same).2
    rw [equal] at apart
    simp [Hint.same] at apart
  rw [Output.files, List.map_map]
  exact List.pairwise_map.mpr differ

end Names

end DeclFront
