import DeclFront.Proofs.Generator.Operations

/-!
# The names of generated files lead back to where they come from

The name of a generated file is put together from the name of its generator, which may be any text at
all, and a hint name. What stands behind the last slash is the hint name, since that holds none, and
what stands before it is the name of the generator.
-/

set_option autoImplicit false

namespace DeclFront

variable {σ : Type}

/-- What stands before the last slash, and what stands behind it. -/
def splitAtLastSlash : List Char → Option (List Char × List Char)
  | [] => none
  | c :: cs =>
    match splitAtLastSlash cs with
    | some (front, back) => some (c :: front, back)
    | none => if c = '/' then some ([], cs) else none

/-- A text without a slash is not split. -/
theorem splitAtLastSlash_of_notMem {cs : List Char} (h : '/' ∉ cs) : splitAtLastSlash cs = none := by
  induction cs with
  | nil => rfl
  | cons c cs ih =>
    rw [List.mem_cons, not_or] at h
    rw [splitAtLastSlash, ih h.2]
    exact if_neg (Ne.symm h.1)

/-- A slash with none behind it is the last. -/
theorem splitAtLastSlash_append (front : List Char) {back : List Char} (h : '/' ∉ back) :
    splitAtLastSlash (front ++ '/' :: back) = some (front, back) := by
  induction front with
  | nil =>
    rw [List.nil_append, splitAtLastSlash, splitAtLastSlash_of_notMem h]
    exact if_pos rfl
  | cons c front ih => rw [List.cons_append, splitAtLastSlash, ih]

/-- The name of a file of a tidy output splits into the names that it was put together from. -/
theorem Output.Tidy.splits {o : Output} (tidy : o.Tidy) {generator : String} {f : SourceFile}
    (h : f ∈ o.files generator) :
    ∃ src ∈ o.sources, f = .generated generator (generator ++ "/" ++ src.hintName) src.text ∧
      splitAtLastSlash f.name.toList = some (generator.toList, src.hintName.toList) := by
  obtain ⟨src, hs, rfl⟩ := List.mem_map.mp h
  refine ⟨src, hs, rfl, ?_⟩
  have chars : (generator ++ "/" ++ src.hintName).toList =
      generator.toList ++ '/' :: src.hintName.toList := by
    simp [String.toList_append]
  show splitAtLastSlash (generator ++ "/" ++ src.hintName).toList = _
  rw [chars]
  exact splitAtLastSlash_append _ (tidy.slashless src hs)

/-- Whatever names the generators have, whatever was registered, whatever passes were made and whatever
the generators do, a pass over any snapshot generates no two files of one name. Each file is one of
the result of a generator that is registered, and the last slash of its name stands between the name
of that generator and one of its hint names. -/
theorem generated_files_never_collide (nameOf : Nat → String) (config : Config)
    (os : List (Operation σ)) (s : Snapshot) (w : Workshop σ) :
    let d := Driver.operateAll nameOf { config } os
    let p := (d.run s w).1
    let files := p.snapshot.compilation.generated
    (files.map (·.name)).Nodup ∧
    ∀ f ∈ files, ∃ r ∈ p.results, f ∈ r.files ∧ r.generator ∈ d.names ∧
      f.generator? = some r.generator ∧
      ∃ src ∈ r.output.sources,
        splitAtLastSlash f.name.toList = some (r.generator.toList, src.hintName.toList) := by
  intro d p files
  have orderly : d.Orderly nameOf := (Driver.orderly_empty nameOf config).operateAll os
  obtain ⟨-, results, generated⟩ := orderly.run s w
  have generators : p.results.map RunResult.generator = d.names := results.generators
  refine ⟨?_, fun f hf => ?_⟩
  · show (p.snapshot.compilation.generated.map _).Nodup
    rw [generated]
    exact RunResult.nodup_allFiles results.tidy (generators ▸ orderly.distinct)
  · have listed : f ∈ RunResult.allFiles p.results := generated ▸ hf
    obtain ⟨r, hr, inside⟩ := List.mem_flatMap.mp listed
    have tidy := results.tidy r hr
    have put : f ∈ r.output.files r.generator := tidy.files ▸ inside
    obtain ⟨src, hs, rfl, splits⟩ := tidy.output.splits put
    exact ⟨r, hr, inside, generators ▸ List.mem_map_of_mem hr, rfl, src, hs, splits⟩

end DeclFront
