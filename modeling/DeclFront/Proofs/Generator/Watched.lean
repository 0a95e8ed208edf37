import DeclFront.Proofs.Generator.Isolation
import DeclFront.Proofs.Generator.Operations
import DeclFront.Proofs.Generator.Rerun

/-!
# Edits that a generator does not watch

The entry of a generator that watches files and has ended settles every pass over inputs in which the
first files of the watched names are as they were. Nothing but such a pass that shows it something
new, or its removal, touches the entry, so the generator is not asked again in any of these passes,
whatever else is registered, removed, added, changed or reordered.
-/

set_option autoImplicit false

namespace DeclFront

variable {σ : Type}

namespace Compilation

/-- The first inputs of the given names have the same texts in both, or are absent from both. -/
def Agrees (names : List String) (c c' : Compilation) : Prop :=
  ∀ name ∈ names, c.text? name = c'.text? name

instance (names : List String) (c c' : Compilation) : Decidable (Agrees names c c') :=
  inferInstanceAs (Decidable (∀ name ∈ names, c.text? name = c'.text? name))

/-- Inputs that agree on the watched names have the same fingerprint for them. -/
theorem Agrees.fingerprintOf_eq {names : List String} {c c' : Compilation} (h : Agrees names c c') :
    c.fingerprintOf names = c'.fingerprintOf names := by
  unfold fingerprintOf
  generalize Fingerprint.empty = start
  induction names generalizing start with
  | nil => rfl
  | cons name names ih =>
    obtain ⟨first, others⟩ := List.forall_mem_cons.mp h
    have first : (c.input? name).map (·.text) = (c'.input? name).map (·.text) := first
    rw [List.foldl_cons, List.foldl_cons, first]
    exact ih others _

end Compilation

namespace Entry

variable {c c' : Compilation} {e : Entry} {r : RunResult} {names : List String}

/-- What settles an entry bears its name. -/
theorem Settled.generator_eq (h : e.Settled c r) : r.generator = e.name := by
  cases h <;> rfl

/-- What is settled for some inputs is settled for all that look the same to the generator. -/
theorem Settled.of_agrees (h : e.Settled c r) (watches : e.prepared = some (.ok (.watched names)))
    (agrees : c'.Agrees names c) : e.Settled c' r := by
  cases h with
  | unprepared prepared => cases prepared.symm.trans watches
  | cached prepared cache same =>
    cases prepared.symm.trans watches
    exact .cached prepared cache (same.trans agrees.fingerprintOf_eq.symm)

/-- The turn of a settled entry is over at once. -/
theorem Settled.turn_eq (h : e.Settled c r) (config : Config) (k : Option (Worker σ)) :
    e.turn config c k = ⟨r, e, k⟩ := by
  cases h with
  | unprepared prepared =>
    unfold turn ready
    rw [prepared]
  | cached prepared cache same =>
    unfold turn ready
    rw [prepared]
    dsimp only
    rw [kept_eq_some.mpr ⟨cache, same⟩]

end Entry

namespace Operation

/-- The generator called `name` stays registered and is shown nothing new of the files it watches. -/
def Spares (name : String) (names : List String) (c : Compilation) : Operation σ → Prop
  | add _ => True
  | remove other => other ≠ name
  | pass s _ => s.compilation.Agrees names c

end Operation

namespace Driver

variable {nameOf : Nat → String} {d : Driver} {e : Entry} {r : RunResult}

section Settled

variable {s : Snapshot}

/-- The entry stays as it is, its result was decided before, and its generator is left alone. -/
theorem run_of_settled (distinct : (d.entries.map Entry.index).Nodup) (he : e ∈ d.entries)
    (settled : e.Settled s.compilation.withoutGenerated r) (w : Workshop σ) :
    e ∈ (d.run s w).2.1.entries ∧ r ∈ (d.run s w).1.results ∧
      (d.run s w).2.2.workers e.index = w.workers e.index := by
  obtain ⟨rs, es, w', id, ran, turned⟩ := run_turned d s w distinct
  have turn := settled.turn_eq d.config (w.workers e.index)
  rw [ran]
  refine ⟨?_, ?_, ?_⟩
  · show e ∈ es
    rw [turned.entries]
    exact List.mem_map.mpr ⟨e, he, congrArg Turn.entry turn⟩
  · show r ∈ rs
    rw [turned.results]
    exact List.mem_map.mpr ⟨e, he, congrArg Turn.result turn⟩
  · exact (turned.own e he).trans (congrArg Turn.worker turn)

/-- A pass does not depend on the generator of an entry that is settled. -/
theorem run_apart_from_settled (distinct : (d.entries.map Entry.index).Nodup) (he : e ∈ d.entries)
    (settled : e.Settled s.compilation.withoutGenerated r) {w w' : Workshop σ}
    (same : ∀ i ≠ e.index, w'.workers i = w.workers i) :
    (d.run s w').1.content = (d.run s w).1.content ∧ (d.run s w').2.1 = (d.run s w).2.1 := by
  obtain ⟨rs, es, left, id, ran, turned⟩ := run_turned d s w distinct
  obtain ⟨rs', es', left', id', ran', turned'⟩ := run_turned d s w' distinct
  have turns : ∀ e' ∈ d.entries,
      (e'.turn d.config s.compilation.withoutGenerated (w'.workers e'.index)).result =
        (e'.turn d.config s.compilation.withoutGenerated (w.workers e'.index)).result ∧
      (e'.turn d.config s.compilation.withoutGenerated (w'.workers e'.index)).entry =
        (e'.turn d.config s.compilation.withoutGenerated (w.workers e'.index)).entry := by
    intro e' he'
    -- A settled entry does not look at its worker, and the others have the workers that they had.
    by_cases own : e'.index = e.index
    · obtain rfl := List.inj_on_of_nodup_map distinct he' he own
      rw [settled.turn_eq, settled.turn_eq]
      exact ⟨rfl, rfl⟩
    · rw [same _ own]
      exact ⟨rfl, rfl⟩
  have results : rs' = rs := by
    rw [turned'.results, turned.results]
    exact List.map_congr_left fun e' he' => (turns e' he').1
  have entries : es' = es := by
    rw [turned'.entries, turned.entries]
    exact List.map_congr_left fun e' he' => (turns e' he').2
  rw [ran, ran', results, entries]
  exact ⟨rfl, rfl⟩

end Settled

/-- An entry that settles whatever agrees with some inputs stays registered through operations that
spare it. -/
theorem Orderly.mem_operateAll {names : List String} {c : Compilation} (h : d.Orderly nameOf)
    (he : e ∈ d.entries) (settled : ∀ c', c'.Agrees names c → e.Settled c' r)
    {os : List (Operation σ)} (spares : ∀ o ∈ os, o.Spares e.name names c) :
    e ∈ (d.operateAll nameOf os).entries := by
  induction os generalizing d with
  | nil => exact he
  | cons o os ih =>
    obtain ⟨spared, rest⟩ := List.forall_mem_cons.mp spares
    refine ih (h.operate o) ?_ rest
    cases o with
    | add index =>
      rw [operate_add]
      split
      · exact he
      · exact List.mem_append_left _ he
    | remove name => exact List.mem_filter.mpr ⟨he, decide_eq_true (Ne.symm spared)⟩
    | pass s w => exact (run_of_settled h.indices he (settled _ spared) w).1

end Driver

/-- The contribution that is found under a name is one of the pass, and of that name. -/
theorem Pass.of_resultOf {p : Pass} {name : String} {r : RunResult}
    (h : p.resultOf name = some r) : r ∈ p.results ∧ r.generator = name := by
  unfold resultOf at h
  exact ⟨List.mem_of_find?_eq_some h, by simpa using List.find?_some h⟩

/-- Where no two results are of one generator, each is found by the name of its generator. -/
theorem Pass.resultOf_of_mem {p : Pass} {r : RunResult}
    (distinct : (p.results.map RunResult.generator).Nodup) (h : r ∈ p.results) :
    p.resultOf r.generator = some r := by
  have listed : (p.resultOf r.generator).isSome = true :=
    List.find?_isSome.mpr ⟨r, h, decide_eq_true rfl⟩
  obtain ⟨found, first⟩ := Option.isSome_iff_exists.mp listed
  obtain ⟨inside, same⟩ := Pass.of_resultOf first
  rw [first, List.inj_on_of_nodup_map distinct inside h same]

/-- A generator that was executed, or ended with an error or broke off, in a pass: its entry settles
passes over the same inputs. -/
theorem Driver.Orderly.settled {nameOf : Nat → String} {d d' : Driver} (h : d.Orderly nameOf)
    {s : Snapshot} {w left : Workshop σ} {p : Pass} (ran : d.run s w = (p, d', left)) {e : Entry}
    (he : e ∈ d'.entries) {r : RunResult} (result : p.resultOf e.name = some r)
    (went : r.status = .executed ∨ r.status = .faulted) :
    e.Settled s.compilation.withoutGenerated ⟨e.name, .cached, r.output, r.files⟩ := by
  have leaves := run_leaves d s w
  obtain ⟨orderly, -, -⟩ := h.run s w
  rw [ran] at leaves orderly
  dsimp only at leaves orderly
  have ended : r.status.hasEnded = true := by
    rcases went with status | status <;> rw [status] <;> rfl
  have again : r.status.again = .cached := by
    rcases went with status | status <;> rw [status] <;> rfl
  obtain ⟨inside, generator⟩ := Pass.of_resultOf result
  obtain ⟨e', he', settled⟩ := leaves.exists_settled inside ended
  have name : e'.name = e.name := settled.generator_eq.symm.trans generator
  obtain rfl := List.inj_on_of_nodup_map orderly.distinct he' he name
  rwa [RunResult.again, again, generator] at settled

/-- A generator that watches files and was executed, or ended with an error or broke off, in some pass
of a driver stays used again in all passes that follow, through whatever else is done with the driver,
as long as it is registered and each of them is made over a snapshot in which the first inputs of the
watched names have the texts that they had, or are still absent. Each such pass has its output and its
files again, leaves the generator alone, and does not depend on it. -/
theorem watched_generator_is_used_again (nameOf : Nat → String) (config : Config)
    {before later : List (Operation σ)} {s : Snapshot} {w left : Workshop σ} {p : Pass} {d : Driver}
    {e : Entry} {names : List String} {r : RunResult}
    (ran : (Driver.operateAll nameOf { config } before).run s w = (p, d, left))
    (he : e ∈ d.entries) (watches : e.prepared = some (.ok (.watched names)))
    (result : p.resultOf e.name = some r) (went : r.status = .executed ∨ r.status = .faulted)
    (spares : ∀ o ∈ later, o.Spares e.name names s.compilation) {s' : Snapshot}
    (agrees : s'.compilation.Agrees names s.compilation) (w' : Workshop σ) :
    let d' := d.operateAll nameOf later
    e ∈ d'.entries ∧
    (d'.run s' w').1.resultOf e.name = some ⟨e.name, .cached, r.output, r.files⟩ ∧
    (d'.run s' w').2.2.workers e.index = w'.workers e.index ∧
    ∀ other : Workshop σ, (∀ i ≠ e.index, other.workers i = w'.workers i) →
      (d'.run s' other).1.content = (d'.run s' w').1.content ∧
        (d'.run s' other).2.1 = (d'.run s' w').2.1 := by
  intro d'
  have start : (Driver.operateAll nameOf { config } before).Orderly nameOf :=
    (Driver.orderly_empty nameOf config).operateAll before
  have orderly : d.Orderly nameOf := by
    have next := start.operate (.pass s w)
    rwa [Driver.operate, ran] at next
  -- The pass left an entry that settles whatever looks the same; from then on nothing touches it.
  have settled : ∀ c, c.Agrees names s.compilation →
      e.Settled c ⟨e.name, .cached, r.output, r.files⟩ :=
    fun c same => (start.settled ran he result went).of_agrees watches same
  have orderly' : d'.Orderly nameOf := orderly.operateAll later
  have he' : e ∈ d'.entries := orderly.mem_operateAll he settled spares
  have now := settled s'.compilation.withoutGenerated agrees
  obtain ⟨-, has, alone⟩ := Driver.run_of_settled orderly'.indices he' now w'
  obtain ⟨-, results, -⟩ := orderly'.run s' w'
  have distinct : ((d'.run s' w').1.results.map RunResult.generator).Nodup :=
    results.generators ▸ orderly'.distinct
  exact ⟨he', Pass.resultOf_of_mem distinct has, alone,
    fun other same => Driver.run_apart_from_settled orderly'.indices he' now same⟩

namespace Sample

/-- What the generators of the crew are called. -/
def crewName (i : Nat) : String :=
  ["growing", "failing", "breaking", "unready"].getD i ""

/-- Two of the crew are registered, one of which watches the file `a`. -/
def twoOfCrew : List (Operation Nat) :=
  [.add 0, .add 1]

/-- What their first pass is made over. -/
def firstEdit : Snapshot :=
  ⟨0, .ofTexts [("a", "type A"), ("b", "")]⟩

/-- Their first pass. -/
def watchfulPass : Pass × Driver × Workshop Nat :=
  (Driver.operateAll crewName { config := {} } twoOfCrew).run firstEdit crew

/-- Another generator comes, one goes, and a pass is made over other files around the first `a`. -/
def otherEdits : List (Operation Nat) :=
  [.add 2, .remove "failing",
    .pass ⟨7, .ofTexts [("c", "x"), ("a", "type A"), ("a", "y")]⟩ crew]

/-- The snapshot of the pass after that, over others again. -/
def lastEdit : Snapshot :=
  ⟨8, .ofTexts [("z", ""), ("a", "type A")]⟩

end Sample

/-- The generator that watches `a` is used again, while the files around it change. -/
theorem growing_is_used_again :
    ∃ e ∈ Sample.watchfulPass.2.1.entries, ∃ r, e.prepared = some (.ok (.watched ["a"])) ∧
      Sample.watchfulPass.1.resultOf e.name = some r ∧ r.status = .executed ∧
      let d := Sample.watchfulPass.2.1.operateAll Sample.crewName Sample.otherEdits
      let ran := d.run Sample.lastEdit Sample.crew
      ran.1.resultOf e.name = some ⟨e.name, .cached, r.output, r.files⟩ ∧
      ran.2.2.workers e.index = Sample.crew.workers e.index := by
  have ran : (Driver.operateAll Sample.crewName { config := {} } Sample.twoOfCrew).run
      Sample.firstEdit Sample.crew =
      (Sample.watchfulPass.1, Sample.watchfulPass.2.1, Sample.watchfulPass.2.2) := rfl
  have registered : ∃ e ∈ Sample.watchfulPass.2.1.entries,
      e.name = "growing" ∧ e.prepared = some (.ok (.watched ["a"])) :=
    ⟨_, List.mem_cons_self, rfl, rfl⟩
  have executed : (Sample.watchfulPass.1.resultOf "growing").map RunResult.status =
      some .executed := by
    decide +kernel
  have agrees : Sample.lastEdit.compilation.Agrees ["a"] Sample.firstEdit.compilation := by decide
  obtain ⟨e, he, name, watches⟩ := registered
  obtain ⟨r, result, status⟩ := Option.map_eq_some_iff.mp executed
  rw [← name] at result
  have spares : ∀ o ∈ Sample.otherEdits, o.Spares e.name ["a"] Sample.firstEdit.compilation := by
    rw [name]
    simp [Sample.otherEdits, Operation.Spares]
    decide
  obtain ⟨-, again, alone, -⟩ := watched_generator_is_used_again Sample.crewName {} ran he watches
    result (.inl status) spares agrees Sample.crew
  exact ⟨e, he, r, watches, result, status, again, alone⟩

end DeclFront
