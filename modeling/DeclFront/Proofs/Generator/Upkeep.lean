import DeclFront.Proofs.Generator.Hints
import DeclFront.Proofs.Generator.Pass

/-!
# What passes keep, whatever the generators do

A generator can change its own state, wait at its latch, and have the inputs it is shown bound. A
property of workshops that is kept by these is kept by every execution, and so by every pass. A pass
leaves the registrations as they are, has one result for each of them in their order, and what it
contributes and what is kept of it is tidy.
-/

set_option autoImplicit false

namespace DeclFront

variable {σ : Type}

/-- What is kept by all that generators can do to a workshop when they work with some inputs. -/
structure Workshop.Upkeep (input : Snapshot) (P : Workshop σ → Prop) : Prop where
  bind : ∀ w, P w → P (w.bind input).2
  state : ∀ w i (state : σ), P w → P (w.update i fun x => { x with state })
  wait : ∀ w i progress next, P w →
    P (w.update i fun x => { x with running := x.running ++ [⟨input, progress, next⟩] })
  cancel : ∀ w i, P w → P (w.cancel i)

namespace Workshop

variable {input : Snapshot} {P : Workshop σ → Prop} {w : Workshop σ}

/-- A preparation keeps it, since it changes no more than the state of a generator. -/
theorem Upkeep.prepare (h : Upkeep input P) (hw : P w) (i : Nat) : P (w.prepare i).2 := by
  unfold Workshop.prepare
  split
  · exact hw
  · exact h.state _ _ _ hw

/-- An activity keeps it: symbols may be bound, the state may change, and what does not finish is
left to wait. -/
theorem Upkeep.perform (h : Upkeep input P) (hw : P w) (i : Nat) (x : Instance σ)
    (progress : Progress) (activity : Activity σ) :
    P (w.perform i x input progress activity).2 := by
  unfold Workshop.perform
  have bound : ∀ asked, P (w.bindIf asked input) := by
    intro asked
    unfold bindIf
    split
    · exact h.bind w hw
    · exact hw
  have left := fun asked state => h.state _ i state (bound asked)
  dsimp only
  split
  · exact left _ _
  · exact left _ _
  · exact h.wait _ _ _ _ (left _ _)

/-- An attempt to execute a generator keeps it. -/
theorem Upkeep.execute (h : Upkeep input P) (hw : P w) (i : Nat) : P (w.execute i input).2 := by
  unfold Workshop.execute
  split
  · exact hw
  · split
    · exact h.perform hw i _ _ _
    · exact hw

/-- What an activity puts out is tidy, if what was there before it is. -/
theorem perform_finished {i : Nat} {x : Instance σ} {progress : Progress} {activity : Activity σ}
    {output : Output} (tidy : progress.output.Tidy)
    (finished : (w.perform i x input progress activity).1 = .finished output) : output.Tidy := by
  unfold perform at finished
  dsimp only at finished
  split at finished
  · rename_i ending
    cases finished
    exact Activity.tidy_of_finished tidy ending
  · cases finished
  · cases finished

/-- What an execution puts out is tidy, as it begins with nothing. -/
theorem execute_finished {i : Nat} {output : Output}
    (finished : (w.execute i input).1 = .finished output) : output.Tidy := by
  unfold execute at finished
  split at finished
  · cases finished
  · split at finished
    · exact perform_finished (Output.tidy_empty []) finished
    · cases finished

/-- Executions that go on work with the inputs that they were shown. -/
theorem finish_keeps {es : List (Execution σ)} (h : ∀ e ∈ es, Upkeep e.input P) (hw : P w)
    (i : Nat) : P (w.finish i es) := by
  induction es generalizing w with
  | nil => exact hw
  | cons e es ih =>
    rw [finish]
    split
    · exact hw
    · exact ih (fun e he => h e (List.mem_cons_of_mem _ he))
        ((h e List.mem_cons_self).perform hw i _ _ _)

end Workshop

/-- Files are those of an output, which is tidy. -/
structure RunResult.Tidy (r : RunResult) : Prop where
  output : r.output.Tidy
  files : r.files = r.output.files r.generator

/-- Tidy results of different generators hold no two files of one name. -/
theorem RunResult.nodup_allFiles {rs : List RunResult} (tidy : ∀ r ∈ rs, r.Tidy)
    (distinct : (rs.map RunResult.generator).Nodup) :
    ((allFiles rs).map (·.name)).Nodup := by
  rw [allFiles, List.map_flatMap, List.nodup_flatMap]
  constructor
  · intro r hr
    rw [(tidy r hr).files]
    exact (tidy r hr).output.nodup_files r.generator
  · refine (List.pairwise_map.mp distinct).imp_of_mem fun {r t} hr ht apart => ?_
    intro name inFirst inSecond
    obtain ⟨f, hf, rfl⟩ := List.mem_map.mp inFirst
    obtain ⟨g, hg, same⟩ := List.mem_map.mp inSecond
    rw [(tidy r hr).files] at hf
    rw [(tidy t ht).files] at hg
    obtain ⟨a, nameF, slashless⟩ := Output.exists_hint_of_mem_files (tidy r hr).output hf
    obtain ⟨b, nameG, slashless'⟩ := Output.exists_hint_of_mem_files (tidy t ht).output hg
    exact apart (append_slash_inj slashless slashless' (nameF.symm.trans (same.symm.trans nameG))).1

/-- What an entry keeps would make a tidy result. -/
def Entry.Tidy (e : Entry) : Prop :=
  ∀ x, e.cache = some x → x.output.Tidy ∧ x.files = x.output.files e.name

/-- A plan for a generator leads to a tidy result under its name. -/
def Plan.IsFor (name : String) : Plan → Prop
  | .settled r => r.generator = name ∧ r.Tidy
  | .pending _ attempt => ∀ output, attempt = .finished output → output.Tidy

namespace Driver

variable {config : Config} {input : Snapshot} {P : Workshop σ → Prop} {w : Workshop σ}
  {e e₁ : Entry} {es : List Entry}

/-- The same registrations, and nothing untidy is kept. -/
structure Renewed (es es' : List Entry) : Prop where
  names : es'.map Entry.name = es.map Entry.name
  tidy : ∀ e ∈ es', e.Tidy

/-- Without entries there is nothing to renew. -/
theorem Renewed.nil : Renewed [] [] :=
  ⟨rfl, List.forall_mem_nil _⟩

/-- One more entry in front is renewed, if it keeps its name and nothing untidy. -/
theorem Renewed.cons {es' : List Entry} (name : e₁.name = e.name) (tidy : e₁.Tidy)
    (h : Renewed es es') : Renewed (e :: es) (e₁ :: es') := by
  refine ⟨?_, List.forall_mem_cons.mpr ⟨tidy, h.tidy⟩⟩
  rw [List.map_cons, List.map_cons, name, h.names]

/-- One tidy result for each entry, in order. -/
structure Results (es : List Entry) (rs : List RunResult) : Prop where
  generators : rs.map RunResult.generator = es.map Entry.name
  tidy : ∀ r ∈ rs, r.Tidy

/-- Without entries there are no results. -/
theorem Results.nil : Results [] [] :=
  ⟨rfl, List.forall_mem_nil _⟩

/-- One more tidy result in front is that of the entry in front. -/
theorem Results.cons {r : RunResult} {rs : List RunResult} (name : r.generator = e.name)
    (tidy : r.Tidy) (h : Results es rs) : Results (e :: es) (r :: rs) := by
  refine ⟨?_, List.forall_mem_cons.mpr ⟨tidy, h.tidy⟩⟩
  rw [List.map_cons, List.map_cons, name, h.generators]

/-- A result that is nothing but one diagnostic is tidy. -/
theorem tidy_failure (e : Entry) (status : RunStatus) (d : Diagnostic) :
    (e.failure status d).Tidy :=
  ⟨Output.tidy_empty _, rfl⟩

/-- Preparing a generator keeps the property, and leaves the entry its name and tidy. -/
theorem prepare_keeps (h : Workshop.Upkeep input P) (hw : P w) (tidy : e.Tidy) :
    ∃ p e₁ w₁, prepare config e w = (p, e₁, w₁) ∧ e₁.name = e.name ∧ e₁.Tidy ∧ P w₁ := by
  unfold prepare
  cases e.prepared with
  | some p => exact ⟨_, _, _, rfl, rfl, tidy, hw⟩
  | none => exact ⟨_, _, _, rfl, rfl, tidy, h.prepare hw e.index⟩

/-- Deciding about an entry keeps the property, and the plan is for a tidy result under its name. -/
theorem plan_keeps (h : Workshop.Upkeep input P) (hw : P w) (tidy : e.Tidy) :
    ∃ p e₁ w₁, plan config input e w = (p, e₁, w₁) ∧ p.IsFor e.name ∧ e₁.name = e.name ∧
      e₁.Tidy ∧ P w₁ := by
  obtain ⟨ready, e₁, w₁, prepared, name, tidy₁, kept⟩ := prepare_keeps h hw tidy
  cases ready with
  | error d =>
    exact ⟨_, _, _, plan_unprepared prepared, ⟨name, tidy_failure _ _ _⟩, name, tidy₁, kept⟩
  | ok policy =>
    by_cases hit : ∃ x, e₁.cache = some x ∧ x.fingerprint = policy.fingerprint input.compilation
    · obtain ⟨x, cache, same⟩ := hit
      obtain ⟨output, files⟩ := tidy₁ x cache
      exact ⟨_, _, _, plan_cached prepared cache same, ⟨name, output, files⟩, name, tidy₁, kept⟩
    · have fresh : ∀ x, e₁.cache = some x →
          x.fingerprint ≠ policy.fingerprint input.compilation :=
        fun x cache same => hit ⟨x, cache, same⟩
      exact ⟨_, _, _, plan_attempted prepared fresh, fun _ => Workshop.execute_finished, name,
        tidy₁, h.execute kept e₁.index⟩

/-- Waiting for what was planned keeps the property, and comes to a tidy result under the name of
the entry. -/
theorem resolve_keeps (h : Workshop.Upkeep input P) (hw : P w) (tidy : e.Tidy) {p : Plan}
    (hp : p.IsFor e.name) :
    ∃ r e₁ w₁, resolve config p e w = (r, e₁, w₁) ∧ r.generator = e.name ∧ r.Tidy ∧
      e₁.name = e.name ∧ e₁.Tidy ∧ P w₁ := by
  have stored : ∀ fingerprint (r : RunResult), r.Tidy → r.generator = e.name →
      (e.store fingerprint r).Tidy := by
    intro fingerprint r output name x hx
    cases hx
    exact ⟨output.output, name ▸ output.files⟩
  cases p with
  | settled r => exact ⟨r, e, w, rfl, hp.1, hp.2, rfl, tidy, hw⟩
  | pending fingerprint attempt =>
    cases attempt with
    | finished output =>
      have result : RunResult.Tidy ⟨e.name, .executed, output, output.files e.name⟩ :=
        ⟨hp output rfl, rfl⟩
      exact ⟨_, _, _, rfl, rfl, result, rfl, stored fingerprint _ result rfl, hw⟩
    | faulted reason =>
      have result := tidy_failure e .faulted (e.report (.generatorFailed e.name reason))
      exact ⟨_, _, _, rfl, rfl, result, rfl, stored fingerprint _ result rfl, hw⟩
    | busy =>
      have result := tidy_failure e .busy (e.report (.generatorBusy e.name))
      exact ⟨_, _, _, rfl, rfl, result, rfl, tidy, hw⟩
    | unfinished =>
      have result :=
        tidy_failure e .timedOut (e.report (.generatorTimedOut e.name config.timeoutMs))
      exact ⟨_, _, _, rfl, rfl, result, rfl, tidy, h.cancel w e.index hw⟩

/-- Deciding about all entries keeps the property, by induction on them. -/
theorem planAll_keeps (h : Workshop.Upkeep input P) (hw : P w) (tidy : ∀ e ∈ es, e.Tidy) :
    ∃ ps w₁, planAll config input es w = (ps, w₁) ∧ Renewed es (ps.map Prod.snd) ∧
      (∀ q ∈ ps, q.1.IsFor q.2.name) ∧ P w₁ := by
  induction es generalizing w with
  | nil => exact ⟨[], w, rfl, .nil, List.forall_mem_nil _, hw⟩
  | cons e es ih =>
    obtain ⟨first, others⟩ := List.forall_mem_cons.mp tidy
    obtain ⟨p, e₁, w₁, planned, isFor, name, tidy₁, kept⟩ := plan_keeps h hw first
    obtain ⟨ps, w₂, rest, renewed, plans, kept₂⟩ := ih kept others
    refine ⟨(p, e₁) :: ps, w₂, ?_, renewed.cons name tidy₁, ?_, kept₂⟩
    · rw [planAll, planned]
      dsimp only
      rw [rest]
    · rw [← name] at isFor
      exact List.forall_mem_cons.mpr ⟨isFor, plans⟩

/-- Waiting for all that was planned keeps the property, by induction on what was planned. -/
theorem resolveAll_keeps (h : Workshop.Upkeep input P) (hw : P w) {ps : List (Plan × Entry)}
    (tidy : ∀ e ∈ ps.map Prod.snd, e.Tidy) (plans : ∀ q ∈ ps, q.1.IsFor q.2.name) :
    ∃ rs es₁ w₁, resolveAll config ps w = (rs, es₁, w₁) ∧ Results (ps.map Prod.snd) rs ∧
      Renewed (ps.map Prod.snd) es₁ ∧ P w₁ := by
  induction ps generalizing w with
  | nil => exact ⟨[], [], w, rfl, .nil, .nil, hw⟩
  | cons q ps ih =>
    obtain ⟨p, e⟩ := q
    obtain ⟨first, others⟩ := List.forall_mem_cons.mp tidy
    obtain ⟨isFor, plans⟩ := List.forall_mem_cons.mp plans
    obtain ⟨r, e₁, w₁, resolved, generator, result, name, tidy₁, kept⟩ :=
      resolve_keeps h hw first isFor
    obtain ⟨rs, es₁, w₂, rest, results, renewed, kept₂⟩ := ih kept others plans
    refine ⟨r :: rs, e₁ :: es₁, w₂, ?_, results.cons generator result, renewed.cons name tidy₁,
      kept₂⟩
    rw [resolveAll, resolved]
    dsimp only
    rw [rest]

/-- A pass that begins all executions at once keeps the property. -/
theorem runParallel_keeps (h : Workshop.Upkeep input P) (hw : P w) (tidy : ∀ e ∈ es, e.Tidy) :
    ∃ rs es₁ w₁, runParallel config input es w = (rs, es₁, w₁) ∧ Results es rs ∧
      Renewed es es₁ ∧ P w₁ := by
  obtain ⟨ps, w₁, planned, renewed, plans, kept⟩ := planAll_keeps h hw tidy
  obtain ⟨rs, es₁, w₂, resolved, results, renewed₁, kept₂⟩ :=
    resolveAll_keeps h kept renewed.tidy plans
  refine ⟨rs, es₁, w₂, ?_, ⟨?_, results.tidy⟩, ⟨?_, renewed₁.tidy⟩, kept₂⟩
  · rw [runParallel, planned]
    exact resolved
  · rw [results.generators, renewed.names]
  · rw [renewed₁.names, renewed.names]

/-- A pass that takes the generators one after another keeps the property, by induction on
the entries. -/
theorem runSequential_keeps (h : Workshop.Upkeep input P) (hw : P w) (tidy : ∀ e ∈ es, e.Tidy) :
    ∃ rs es₁ w₁, runSequential config input es w = (rs, es₁, w₁) ∧ Results es rs ∧
      Renewed es es₁ ∧ P w₁ := by
  induction es generalizing w with
  | nil => exact ⟨[], [], w, rfl, .nil, .nil, hw⟩
  | cons e es ih =>
    obtain ⟨first, others⟩ := List.forall_mem_cons.mp tidy
    obtain ⟨p, e₁, w₁, planned, isFor, name₁, tidy₁, kept₁⟩ := plan_keeps h hw first
    rw [← name₁] at isFor
    obtain ⟨r, e₂, w₂, resolved, generator, result, name₂, tidy₂, kept₂⟩ :=
      resolve_keeps h kept₁ tidy₁ isFor
    obtain ⟨rs, es₃, w₃, rest, results, renewed, kept₃⟩ := ih kept₂ others
    refine ⟨r :: rs, e₂ :: es₃, w₃, ?_, results.cons (generator.trans name₁) result,
      renewed.cons (name₂.trans name₁) tidy₂, kept₃⟩
    rw [runSequential, planned]
    dsimp only
    rw [resolved]
    dsimp only
    rw [rest]

/-- A pass over the inputs of a snapshot: what it keeps of the workshop between the making of the
snapshot that generators are shown and that of the pass, and what it contributes. -/
theorem run_keeps {d : Driver} {s : Snapshot} (tidy : ∀ e ∈ d.entries, e.Tidy)
    (h : Workshop.Upkeep (w.withoutGenerated s).1 P) (hw : P (w.withoutGenerated s).2) :
    ∃ rs es w₁, P w₁ ∧ Results d.entries rs ∧ Renewed d.entries es ∧
      d.run s w =
        (⟨(w₁.snapshot (s.compilation.withGenerated (RunResult.allFiles rs))).1,
          RunResult.allDiagnostics rs, rs⟩, { d with entries := es },
          (w₁.snapshot (s.compilation.withGenerated (RunResult.allFiles rs))).2) := by
  have ran : ∃ rs es w₁, (if d.config.parallel then runParallel else runSequential) d.config
      (w.withoutGenerated s).1 d.entries (w.withoutGenerated s).2 = (rs, es, w₁) ∧
      Results d.entries rs ∧ Renewed d.entries es ∧ P w₁ := by
    split
    · exact runParallel_keeps h hw tidy
    · exact runSequential_keeps h hw tidy
  obtain ⟨rs, es, w₁, eq, results, renewed, kept⟩ := ran
  refine ⟨rs, es, w₁, kept, results, renewed, ?_⟩
  unfold run
  dsimp only
  rw [eq, w.withoutGenerated_fst s]
  rfl

end Driver

end DeclFront
