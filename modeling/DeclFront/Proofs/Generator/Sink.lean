import DeclFront.Proofs.Generator.Emission
import DeclFront.Proofs.Generator.Hints
import Mathlib.Data.List.Induction

/-!
# The sink of an execution

A sink takes sources under hints and diagnostics, in any number and order. Whether a source is taken
depends on its hint and on the names of the sources before it. The ending of a hint name is looked
for as it is written, and added before the name is compared with the others, where case does not
count: `a`, `a.decl` and `A.decl` collide, and `a.DECL` does not, since it becomes `a.DECL.decl`.
-/

set_option autoImplicit false

namespace DeclFront

namespace Hint

variable {hint name : String}

/-- The characters that no hint may contain are the control characters and nine others. -/
theorem isForbidden_iff {c : Char} :
    isForbidden c = true ↔ Text.isControl c = true ∨ c ∈ forbidden := by
  rw [isForbidden, Bool.or_eq_true, List.contains_iff_mem]

/-- A hint can be used if it is not blank and all its characters are allowed, and has its hint
name then. -/
theorem validate_eq_ok :
    validate hint = .ok name ↔ Text.isAllBlank hint = false ∧
      (∀ c ∈ hint.toList, isForbidden c = false) ∧ normalize hint = name := by
  unfold validate
  by_cases blank : Text.isAllBlank hint = true
  · simp [blank]
  by_cases bad : hint.toList.any isForbidden = true
  · rw [if_neg blank, if_pos bad]
    obtain ⟨c, inside, forbids⟩ := List.any_eq_true.mp bad
    refine ⟨fun h => (nomatch h), fun h => ?_⟩
    cases forbids.symm.trans (h.2.1 c inside)
  · rw [if_neg blank, if_neg bad]
    have allowed := List.any_eq_false.mp (Bool.eq_false_iff.mpr bad)
    refine ⟨fun h => ⟨Bool.eq_false_iff.mpr blank, ?_, Except.ok.inj h⟩, fun h => congrArg _ h.2.2⟩
    exact fun c inside => Bool.eq_false_iff.mpr (allowed c inside)

/-- Every hint name ends with the ending. -/
theorem ending_suffix_normalize (hint : String) :
    ending.toList <:+ (normalize hint).toList := by
  unfold normalize
  split
  · rename_i ends
    exact List.isSuffixOf_iff_suffix.mp ends
  · rw [String.toList_append]
    exact List.suffix_append _ _

/-- A hint name is its own hint name: the ending is not added twice. -/
theorem normalize_normalize (hint : String) : normalize (normalize hint) = normalize hint := by
  have ends := List.isSuffixOf_iff_suffix.mpr (ending_suffix_normalize hint)
  generalize normalize hint = name at ends ⊢
  exact if_pos ends

/-- A hint name can be used as a hint, and is its own hint name. -/
theorem validate_of_validate (h : validate hint = .ok name) : validate name = .ok name := by
  obtain ⟨-, allowed, rfl⟩ := validate_eq_ok.mp h
  have ends := ending_suffix_normalize hint
  refine validate_eq_ok.mpr ⟨?_, fun c inside => ?_, normalize_normalize hint⟩
  · have dot : '.' ∈ (normalize hint).toList := ends.subset (by decide)
    unfold Text.isAllBlank
    exact List.all_eq_false.mpr ⟨'.', dot, by decide⟩
  · -- What is put behind the hint is allowed as well.
    have behind : ending.toList.any isForbidden = false := by decide
    rcases normalize_eq hint with same | longer
    · rw [same] at inside
      exact allowed c inside
    · rw [longer] at inside
      rcases List.mem_append.mp inside with front | back
      · exact allowed c front
      · exact Bool.eq_false_iff.mpr (List.any_eq_false.mp behind c back)

end Hint

namespace Output

variable {o p : Output} {name hint text : String}

/-- What is in the sink after some calls of the generator called `name`. -/
def afterCalls (name : String) (cs : List SinkCall) : Output :=
  cs.foldl (call name) {}

/-- The calls that succeed, from a sink on. -/
def accepted (name : String) : Output → List SinkCall → List Emission
  | _, [] => []
  | o, .add hint text :: cs =>
    match o.addSource hint text with
    | .ok p => .source hint text :: p.accepted name cs
    | .error _ => o.accepted name cs
  | o, .report d :: cs => .diagnostic d :: (o.report name d).accepted name cs

/-- The sink takes the calls that succeed, in order, and nothing else. -/
theorem foldl_call (name : String) (o : Output) (cs : List SinkCall) :
    cs.foldl (call name) o = o.emit name (o.accepted name cs) := by
  induction cs generalizing o with
  | nil => exact emit_nil.symm
  | cons c cs ih =>
    rw [List.foldl_cons, ih]
    cases c with
    | add hint text =>
      cases added : o.addSource hint text with
      | ok p =>
        rw [accepted, call, added]
        exact (emit_source added).symm
      | error e => rw [accepted, call, added]
    | report d => exact (emit_diagnostic d).symm

/-- A source is refused if its hint is blank or holds a forbidden character, or if its name
is taken. -/
theorem addSource_fails_iff :
    (∃ e, o.addSource hint text = .error e) ↔ Text.isAllBlank hint = true ∨
      (∃ c ∈ hint.toList, Hint.isForbidden c = true) ∨
      ∃ s ∈ o.sources, Hint.same s.hintName (Hint.normalize hint) = true := by
  unfold addSource
  cases valid : Hint.validate hint with
  | error e =>
    refine ⟨fun _ => ?_, fun _ => ⟨e, rfl⟩⟩
    by_contra! usable
    obtain ⟨notBlank, allowed, -⟩ := usable
    have fine := Hint.validate_eq_ok.mpr
      ⟨Bool.eq_false_iff.mpr notBlank, fun c inside => Bool.eq_false_iff.mpr (allowed c inside), rfl⟩
    cases valid.symm.trans fine
  | ok name =>
    obtain ⟨notBlank, allowed, rfl⟩ := Hint.validate_eq_ok.mp valid
    have usable : ¬ ∃ c ∈ hint.toList, Hint.isForbidden c = true := by
      rintro ⟨c, inside, forbids⟩
      cases forbids.symm.trans (allowed c inside)
    simp only [bind, Except.bind, notBlank, usable, Bool.false_eq_true, false_or]
    rw [← List.any_eq_true]
    split
    · rename_i taken
      exact ⟨fun _ => taken, fun _ => ⟨_, rfl⟩⟩
    · rename_i free
      exact ⟨fun ⟨e, failed⟩ => (nomatch failed), fun taken => absurd taken free⟩

/-- The hint of a source that was taken has a hint name. -/
theorem validate_of_addSource (added : o.addSource hint text = .ok p) :
    Hint.validate hint = .ok (Hint.normalize hint) := by
  unfold addSource at added
  cases valid : Hint.validate hint with
  | error e =>
    rw [valid] at added
    cases added
  | ok name => rw [(Hint.validate_eq_ok.mp valid).2.2]

/-- A tidy output whose hint names can be used as hints. -/
structure Usable (o : Output) : Prop extends Tidy o where
  valid : ∀ s ∈ o.sources, Hint.validate s.hintName = .ok s.hintName

/-- An empty sink holds no names, so none that could not be used. -/
theorem usable_empty : Usable {} :=
  ⟨tidy_empty [], List.forall_mem_nil _⟩

/-- A call leaves a usable output usable. -/
theorem Usable.call (h : o.Usable) (name : String) (c : SinkCall) : (o.call name c).Usable := by
  refine ⟨h.toTidy.call name c, ?_⟩
  cases c with
  | report d => exact h.valid
  | add hint text =>
    rw [Output.call]
    cases added : o.addSource hint text with
    | error e => exact h.valid
    | ok p =>
      intro s hs
      rw [addSource_eq_ok added] at hs
      rcases List.mem_append.mp hs with before | new
      · exact h.valid s before
      · rw [List.mem_singleton.mp new]
        exact Hint.validate_of_validate (validate_of_addSource added)

/-- Any calls leave a usable sink, by induction from the last one on. -/
theorem usable_afterCalls (name : String) (cs : List SinkCall) : (afterCalls name cs).Usable := by
  unfold afterCalls
  induction cs using List.reverseRecOn with
  | nil => exact usable_empty
  | append_singleton cs c ih =>
    rw [List.foldl_append]
    exact ih.call name c

end Output

/-- Whatever sources and diagnostics a sink was asked to take, the names of its sources are not the
same but for case. Each has the ending, holds neither control characters nor other forbidden ones, and
is its own hint name. The sources are those that were taken, in order and with their texts, and
likewise the diagnostics. One more source is refused if its hint is blank or holds a forbidden
character, or if its name is taken, and for no other reason; then nothing changes. -/
theorem sink_takes_usable_sources (name : String) (cs : List SinkCall) :
    let o := Output.afterCalls name cs
    (o.sources.Pairwise fun a b => Hint.same a.hintName b.hintName = false) ∧
    (∀ s ∈ o.sources, Hint.ending.toList <:+ s.hintName.toList ∧
      (∀ c ∈ s.hintName.toList, Text.isControl c = false ∧ c ∉ Hint.forbidden) ∧
      Hint.validate s.hintName = .ok s.hintName) ∧
    o.sources = (Output.accepted name {} cs).filterMap Emission.source? ∧
    o.diagnostics = (Output.accepted name {} cs).filterMap (Emission.diagnostic? name) ∧
    ∀ hint text,
      ((∃ e, o.addSource hint text = .error e) ↔ Text.isAllBlank hint = true ∨
        (∃ c ∈ hint.toList, Text.isControl c = true ∨ c ∈ Hint.forbidden) ∨
        ∃ s ∈ o.sources, Hint.same s.hintName (Hint.normalize hint) = true) ∧
      ∀ e, o.addSource hint text = .error e →
        Output.afterCalls name (cs ++ [.add hint text]) = o := by
  intro o
  have usable : o.Usable := Output.usable_afterCalls name cs
  have taken : o = Output.emit {} name (Output.accepted name {} cs) := Output.foldl_call name {} cs
  refine ⟨usable.distinct, fun s hs => ?_, ?_, ?_, fun hint text => ⟨?_, fun e failed => ?_⟩⟩
  · have valid := usable.valid s hs
    obtain ⟨-, allowed, itself⟩ := Hint.validate_eq_ok.mp valid
    refine ⟨itself ▸ Hint.ending_suffix_normalize s.hintName, fun c inside => ?_, valid⟩
    have free := mt Hint.isForbidden_iff.mpr (Bool.eq_false_iff.mp (allowed c inside))
    rw [not_or] at free
    exact ⟨Bool.eq_false_iff.mpr free.1, free.2⟩
  · exact congrArg Output.sources taken
  · exact congrArg Output.diagnostics taken
  · simp only [← Hint.isForbidden_iff]
    exact Output.addSource_fails_iff
  · show List.foldl _ _ (cs ++ _) = o
    rw [List.foldl_append]
    show o.call name (.add hint text) = o
    rw [Output.call, failed]

example : (Output.afterCalls "g" [.add "a" "", .add "A.decl" "", .add "a.DECL" ""]).sources.map
    (·.hintName) = ["a.decl", "a.DECL.decl"] := by decide

end DeclFront
