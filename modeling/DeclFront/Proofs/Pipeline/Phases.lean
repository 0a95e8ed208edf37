import DeclFront.Proofs.Pipeline.Events

/-!
# The state of a pipeline hangs together

A pipeline keeps a driver, inputs, the last pass, a mark that something has changed, and a phase.
They agree after every history: the phase is the first one exactly until a pass is asked for; a pass
that is not marked is the one of the inputs and of the registered generators; and in the last phase
it is not marked, and its symbols are bound. Operations that fail change none of these. One event
keeps the state `Coherent`, and so a history does.
-/

set_option autoImplicit false

namespace DeclFront

variable {σ : Type}

/-- The files that a pass generated are those of its results, which are tidy, and no two of which are
of one generator. -/
structure Pass.Tidy (q : Pass) : Prop where
  inputs : ∃ texts, q.snapshot.compilation.inputs = (Compilation.ofTexts texts).inputs
  generated : q.snapshot.compilation.generated = RunResult.allFiles q.results
  results : ∀ r ∈ q.results, r.Tidy
  distinct : (q.results.map RunResult.generator).Nodup

namespace Pipeline

/-- The parts of a pipeline agree, where the generators of the given names are registered and a pass
was asked for or not. -/
structure Coherent (p : Pipeline) (w : Workshop σ) (asked : Bool) (names : List String) : Prop where
  input : ∃ texts, p.input.compilation = .ofTexts texts
  registered : p.driver.names = names
  distinct : names.Nodup
  entries : ∀ e ∈ p.driver.entries, e.Tidy
  initial : p.phase = .initial ↔ asked = false
  current : p.current = none ↔ asked = false
  issued : ∀ q, p.current = some q → q.snapshot.id < w.archive.known.size
  tidy : ∀ q, p.current = some q → q.Tidy
  fresh : ∀ q, p.current = some q → p.stale = false →
    q.snapshot.compilation.inputs = p.input.compilation.inputs ∧
      q.results.map RunResult.generator = names
  bound : p.phase = .bound → p.stale = false ∧
    ∀ q, p.current = some q → w.archive.isBound q.snapshot = true

variable {p : Pipeline} {w w' : Workshop σ} {asked : Bool} {names : List String}

/-- A pipeline stays coherent when its workshop grows. -/
theorem Coherent.grow (h : p.Coherent w asked names) (grows : w.Grows w') :
    p.Coherent w' asked names := by
  refine { h with issued := ?_, bound := ?_ }
  · intro q hq
    exact (h.issued q hq).trans_le grows.issued
  · intro hp
    obtain ⟨unmarked, bound⟩ := h.bound hp
    exact ⟨unmarked, fun q hq => grows.bound _ (bound q hq)⟩

/-- A change takes no pipeline into its first phase or out of it, and none into the last. -/
theorem phase_invalidate (p : Pipeline) :
    (p.invalidate.phase = .initial ↔ p.phase = .initial) ∧ p.invalidate.phase ≠ .bound := by
  show ((if p.phase = .bound then .generated else p.phase) = .initial ↔ p.phase = .initial) ∧
    (if p.phase = .bound then Phase.generated else p.phase) ≠ .bound
  cases p.phase <;> decide

/-- A change marks the pipeline, whatever it is that changes: the inputs or the registrations. -/
theorem Coherent.invalidate (h : p.Coherent w asked names) {p' : Pipeline} {names' : List String}
    (current : p'.current = p.current) (phase : p'.phase = p.phase)
    (input : ∃ texts, p'.input.compilation = .ofTexts texts) (registered : p'.driver.names = names')
    (distinct : names'.Nodup) (entries : ∀ e ∈ p'.driver.entries, e.Tidy) :
    p'.invalidate.Coherent w asked names' where
  input := input
  registered := registered
  distinct := distinct
  entries := entries
  initial := by rw [(phase_invalidate p').1, phase, h.initial]
  current := by rw [← h.current, ← current]; rfl
  issued q hq := h.issued q (current ▸ hq)
  tidy q hq := h.tidy q (current ▸ hq)
  fresh _ _ unmarked := absurd unmarked (by simp [Pipeline.invalidate])
  bound hp := absurd hp (phase_invalidate p').2

/-! ### Registrations -/

section Registrations

variable {name : String} {i : Nat}

/-- Registering a generator fails exactly if its name is taken. -/
theorem addGenerator_error_iff :
    (∃ e, p.addGenerator name i = .error e) ↔ name ∈ p.driver.names := by
  unfold addGenerator
  rw [Driver.add_eq]
  by_cases taken : name ∈ p.driver.names <;> simp [taken]

/-- A generator that is registered comes last, under a name that was free. -/
theorem Coherent.addGenerator (h : p.Coherent w asked names) {p' : Pipeline}
    (added : p.addGenerator name i = .ok p') :
    name ∉ names ∧ p'.Coherent w asked (names ++ [name]) := by
  have free : name ∉ names := by
    rw [← h.registered, ← addGenerator_error_iff (i := i), added]
    simp
  refine ⟨free, ?_⟩
  unfold Pipeline.addGenerator at added
  rw [Driver.add_eq, if_neg (h.registered ▸ free)] at added
  cases added
  refine h.invalidate rfl rfl h.input ?_ ?_ ?_
  · rw [← h.registered]
    exact List.map_append
  · exact List.nodup_append.mpr ⟨h.distinct, List.nodup_singleton name,
      fun a ha b hb same => free (by rwa [← List.mem_singleton.mp hb, ← same])⟩
  · intro e he
    rcases List.mem_append.mp he with he | he
    · exact h.entries e he
    · rw [List.mem_singleton.mp he]
      exact nofun

/-- The names of the other entries are the other names. -/
theorem filter_name_eq (es : List Entry) :
    (es.filter fun e => decide (e.name ≠ name)).map Entry.name =
      (es.map Entry.name).filter fun n => decide (n ≠ name) := by
  rw [List.filter_map]
  rfl

/-- The pipeline says what its driver says: whether there was a generator of the name. -/
theorem removeGenerator_fst : (p.removeGenerator name).1 = (p.driver.remove name).1 := by
  unfold removeGenerator
  split
  · rename_i removed
    rw [removed]
  · rename_i absent
    rw [absent]

/-- Removing a generator comes to nothing exactly if there is none of the name. -/
theorem removeGenerator_false_iff :
    (p.removeGenerator name).1 = false ↔ name ∉ p.driver.names := by
  have kept : (p.driver.remove name).1 = false ↔
      (p.driver.entries.filter fun e => decide (e.name ≠ name)).length =
        p.driver.entries.length := by
    unfold Driver.remove
    rw [decide_eq_false_iff_not, not_not]
  rw [removeGenerator_fst, kept, List.length_filter_eq_length_iff, Driver.names, List.mem_map]
  simp

/-- Where there was none, nothing changes. -/
theorem removeGenerator_of_false (h : (p.removeGenerator name).1 = false) :
    (p.removeGenerator name).2 = p := by
  unfold removeGenerator at h ⊢
  split
  · rename_i removed
    rw [removed] at h
    cases h
  · rfl

/-- Where there was one, the pipeline is marked as changed. -/
theorem removeGenerator_of_true (h : (p.removeGenerator name).1 = true) :
    (p.removeGenerator name).2 = { p with driver := (p.driver.remove name).2 }.invalidate := by
  unfold removeGenerator at h ⊢
  split
  · rename_i removed
    rw [removed]
  · rename_i removed
    rw [removed] at h
    cases h

/-- Removing a generator leaves the pipeline coherent, with the other names. -/
theorem Coherent.removeGenerator (h : p.Coherent w asked names) (name : String) :
    (p.removeGenerator name).2.Coherent w asked (names.filter (· ≠ name)) := by
  cases removed : (p.removeGenerator name).1 with
  | false =>
    have absent : name ∉ names := by
      rw [← h.registered]
      exact removeGenerator_false_iff.mp removed
    have all : names.filter (· ≠ name) = names := by
      rw [List.filter_eq_self]
      intro n hn
      exact decide_eq_true fun same => absent (same ▸ hn)
    rw [removeGenerator_of_false removed, all]
    exact h
  | true =>
    rw [removeGenerator_of_true removed]
    refine h.invalidate rfl rfl h.input ?_ (h.distinct.filter _) ?_
    · rw [← h.registered]
      exact filter_name_eq p.driver.entries
    · intro e he
      exact h.entries e (List.mem_filter.mp he).1

end Registrations

/-! ### Inputs -/

section Inputs

variable {s : Snapshot} {name text : String}

/-- Setting inputs leaves the pipeline coherent, whether they are ignored or not. -/
theorem Coherent.setInput (h : p.Coherent w asked names)
    (given : ∃ texts, s.compilation.inputs = (Compilation.ofTexts texts).inputs) :
    (p.setInput s w).1.Coherent (p.setInput s w).2 asked names ∧ w.Grows (p.setInput s w).2 := by
  unfold Pipeline.setInput
  split
  · exact ⟨h, .refl w⟩
  · obtain ⟨texts, inputs⟩ := given
    have grows := w.grows_withoutGenerated s
    exact ⟨(h.grow grows).invalidate rfl rfl ⟨texts, w.withoutGenerated_compilation s inputs⟩
      h.registered h.distinct h.entries, grows⟩

/-- New inputs, of which a snapshot is made first, leave a coherent pipeline coherent. -/
theorem Coherent.setNewInput (h : p.Coherent w asked names) {c : Compilation}
    (given : ∃ texts, c = .ofTexts texts) :
    (p.setInput (w.snapshot c).1 (w.snapshot c).2).1.Coherent
        (p.setInput (w.snapshot c).1 (w.snapshot c).2).2 asked names ∧
      w.Grows (p.setInput (w.snapshot c).1 (w.snapshot c).2).2 := by
  obtain ⟨texts, rfl⟩ := given
  have grows := w.grows_snapshot (.ofTexts texts)
  obtain ⟨coherent, further⟩ := (h.grow grows).setInput (s := (w.snapshot (.ofTexts texts)).1)
    ⟨texts, rfl⟩
  exact ⟨coherent, grows.trans further⟩

/-- An update of a source leaves the pipeline coherent. -/
theorem Coherent.updateSource (h : p.Coherent w asked names) (name text : String) :
    (p.updateSource name text w).1.Coherent (p.updateSource name text w).2 asked names ∧
      w.Grows (p.updateSource name text w).2 := by
  refine h.setNewInput ?_
  obtain ⟨texts, input⟩ := h.input
  exact ⟨_, by rw [input, Compilation.withSource_ofTexts]⟩

/-- Removing a source leaves the pipeline coherent. -/
theorem Coherent.removeSource (h : p.Coherent w asked names) {p' : Pipeline} {w' : Workshop σ}
    (removed : p.removeSource name w = .ok (p', w')) :
    p'.Coherent w' asked names ∧ w.Grows w' := by
  obtain ⟨texts, input⟩ := h.input
  unfold Pipeline.removeSource at removed
  split at removed
  · cases removed
  · rename_i c hc
    rw [input] at hc
    have set := Except.ok.inj removed
    have pipeline : (p.setInput (w.snapshot c).1 (w.snapshot c).2).1 = p' := congrArg Prod.fst set
    have workshop : (p.setInput (w.snapshot c).1 (w.snapshot c).2).2 = w' := congrArg Prod.snd set
    rw [← pipeline, ← workshop]
    exact h.setNewInput ⟨_, Compilation.withoutSource_ofTexts hc⟩

/-- Taking sources out fails exactly if there is none of the name. -/
theorem withoutSource_error_iff {c : Compilation} :
    (∃ e, c.withoutSource name = .error e) ↔ ∀ f ∈ c.inputs, f.name ≠ name := by
  rw [Compilation.withoutSource_eq]
  split
  · rename_i present
    obtain ⟨f, hf, named⟩ := present
    exact ⟨nofun, fun absent => absurd named (absent f hf)⟩
  · rename_i absent
    exact ⟨fun _ f hf named => absent ⟨f, hf, named⟩, fun _ => ⟨_, rfl⟩⟩

/-- Removing a source fails exactly if the inputs have none of the name. -/
theorem removeSource_error_iff :
    (∃ e, p.removeSource name w = .error e) ↔ ∀ f ∈ p.input.compilation.inputs, f.name ≠ name := by
  rw [← withoutSource_error_iff]
  unfold Pipeline.removeSource
  cases p.input.compilation.withoutSource name with
  | error e => exact ⟨fun _ => ⟨e, rfl⟩, fun _ => ⟨e, rfl⟩⟩
  | ok c => exact ⟨nofun, nofun⟩

end Inputs

/-! ### Passes -/

/-- A pass that a driver runs is one of the inputs and of the registered generators. -/
theorem Coherent.driverRun (h : p.Coherent w asked names) :
    ∃ q driver w', p.driver.run p.input w = (q, driver, w') ∧ w.Grows w' ∧
      ({ p with driver, phase := .generated, current := some q, stale := false } :
        Pipeline).Coherent w' true names := by
  obtain ⟨texts, input⟩ := h.input
  obtain ⟨rs, es, w₁, grows, results, renewed, ran⟩ := Driver.run_keeps h.entries
    (w.upkeep_grows (w.withoutGenerated p.input).1) (w.grows_withoutGenerated p.input)
  have generators : rs.map RunResult.generator = names := by
    rw [results.generators, ← h.registered]
    rfl
  have further := w₁.grows_snapshot (p.input.compilation.withGenerated (RunResult.allFiles rs))
  refine ⟨_, _, _, ran, grows.trans further, ?_⟩
  refine ⟨h.input, ?_, h.distinct, renewed.tidy, by simp, by simp, ?_, ?_, ?_, nofun⟩
  · rw [← h.registered]
    exact renewed.names
  · rintro q ⟨⟩
    show w₁.archive.known.size < (w₁.archive.known.push none).size
    rw [Array.size_push]
    exact Nat.lt_succ_self _
  · rintro q ⟨⟩
    have inputs : p.input.compilation.inputs = (Compilation.ofTexts texts).inputs := by rw [input]
    exact ⟨⟨texts, inputs⟩, rfl, results.tidy, generators.symm ▸ h.distinct⟩
  · rintro q ⟨⟩ _
    exact ⟨rfl, generators⟩

/-- Running leaves the pipeline coherent, with the pass that it returns as the last one, and nothing
changed since. -/
theorem Coherent.run (h : p.Coherent w asked names) :
    ∃ q p' w', p.run w = (q, p', w') ∧ p'.current = some q ∧ p'.stale = false ∧ w.Grows w' ∧
      p'.Coherent w' true names := by
  rcases p.run_cases w with ⟨_, _, _, made, result⟩ | ⟨q, current, stale, result⟩
  · obtain ⟨q, driver, w', ran, grows, coherent⟩ := h.driverRun
    cases ran.symm.trans made
    exact ⟨_, _, _, result, rfl, rfl, grows, coherent⟩
  · have asked' : asked = true := by
      by_contra never
      have none := h.current.mpr (Bool.eq_false_iff.mpr never)
      rw [current] at none
      cases none
    exact ⟨q, p, w, result, current, stale, .refl w, asked' ▸ h⟩

/-- Binding leaves the pipeline coherent, after a pass if one was needed. -/
theorem Coherent.bind (h : p.Coherent w asked names) :
    ∃ k p' w', p.bind w = (k, p', w') ∧ w.Grows w' ∧ p'.Coherent w' true names := by
  obtain ⟨q, p', w', ran, current, stale, grows, coherent⟩ := h.run
  have further := w'.grows_bind q.snapshot
  unfold Pipeline.bind
  rw [ran]
  refine ⟨_, _, _, rfl, grows.trans further, ?_⟩
  refine { coherent.grow further with initial := by simp, bound := fun _ => ⟨stale, ?_⟩ }
  intro q' hq'
  have same : q = q' := Option.some.inj (current.symm.trans hq')
  rw [← same]
  exact Archive.isBound_bind (coherent.issued q current)

/-! ### What coherence says -/

/-- No pass is needed exactly if there is one, and nothing has changed since. -/
theorem needsPass_eq_false_iff :
    p.needsPass = false ↔ p.stale = false ∧ ∃ q, p.current = some q := by
  rw [needsPass, Bool.or_eq_false_iff, Option.isNone_eq_false_iff, Option.isSome_iff_exists]

/-- In the last phase no pass is needed, and the symbols of the last one are bound. -/
theorem Coherent.of_bound (h : p.Coherent w asked names) (phase : p.phase = .bound) :
    p.needsPass = false ∧ ∃ q, p.current = some q ∧ w.archive.isBound q.snapshot = true := by
  obtain ⟨stale, bound⟩ := h.bound phase
  have begun : ¬ asked = false := by
    intro never
    have first := h.initial.mpr never
    rw [phase] at first
    cases first
  obtain ⟨q, hq⟩ := Option.ne_none_iff_exists'.mp (mt h.current.mp begun)
  exact ⟨needsPass_eq_false_iff.mpr ⟨stale, q, hq⟩, q, hq, bound q hq⟩

/-- The files of the inputs are inputs, all of them. -/
theorem Coherent.input_files (h : p.Coherent w asked names) :
    p.input.compilation.files = p.input.compilation.inputs := by
  obtain ⟨texts, input⟩ := h.input
  have none : p.input.compilation.generated = [] := congrArg Compilation.generated input
  rw [Compilation.files, none, List.append_nil]

/-- No file among the inputs was written by a generator. -/
theorem Coherent.input_isGenerated (h : p.Coherent w asked names) :
    ∀ f ∈ p.input.compilation.files, f.isGenerated = false := by
  obtain ⟨texts, input⟩ := h.input
  intro f hf
  rw [h.input_files, input] at hf
  obtain ⟨t, -, rfl⟩ := List.mem_map.mp hf
  rfl

/-- Where no pass is needed, the last one is of the inputs and of the registered generators. -/
theorem Coherent.of_needsPass (h : p.Coherent w asked names) (needs : p.needsPass = false) :
    ∃ q, p.current = some q ∧ q.snapshot.compilation.inputs = p.input.compilation.files ∧
      q.results.map RunResult.generator = names := by
  obtain ⟨stale, q, hq⟩ := needsPass_eq_false_iff.mp needs
  obtain ⟨inputs, generators⟩ := h.fresh q hq stale
  exact ⟨q, hq, inputs.trans h.input_files.symm, generators⟩

end Pipeline

/-! ### Histories -/

namespace World

/-- The pipeline is coherent, in a workshop that has grown from `start`, and what is held was given
by texts. -/
structure Coherent (start : Workshop σ) (a : World σ) (asked : Bool) (names : List String) : Prop where
  grown : start.Grows a.workshop
  pipeline : a.pipeline.Coherent a.workshop asked names
  held : ∀ s ∈ a.held, ∃ texts, s.compilation.inputs = (Compilation.ofTexts texts).inputs

variable {start : Workshop σ} {a : World σ} {asked : Bool} {names : List String}

/-- A new pipeline is coherent: it has no generators, and nothing was asked of it. -/
theorem start_coherent (texts : Texts) (generated : List SourceFile) (config : Config)
    (w : Workshop σ) : (World.start texts generated config w).Coherent w false [] := by
  have first := w.grows_snapshot ((Compilation.ofTexts texts).withGenerated generated)
  refine ⟨first.trans (Workshop.grows_withoutGenerated _ _), ?_, ?_⟩
  · refine ⟨⟨texts, Workshop.withoutGenerated_compilation _ _ rfl⟩, rfl, .nil, nofun, ?_, ?_, nofun,
      nofun, nofun, nofun⟩
    · exact ⟨fun _ => rfl, fun _ => rfl⟩
    · exact ⟨fun _ => rfl, fun _ => rfl⟩
  · intro s hs
    rw [List.mem_singleton.mp hs]
    exact ⟨texts, rfl⟩

/-- The pipeline refuses to do what the event asks for. -/
def Refuses (a : World σ) : Event → Prop
  | .addGenerator i =>
    ∃ name e, a.workshop.name? i = some name ∧ a.pipeline.addGenerator name i = .error e
  | .removeGenerator name => (a.pipeline.removeGenerator name).1 = false
  | .removeSource name => ∃ e, a.pipeline.removeSource name a.workshop = .error e
  | _ => False

/-- A number that has a name has a generator of that name. -/
theorem name?_instances {w : Workshop σ} {i : Nat} {name : String} (h : w.name? i = some name) :
    ∃ x, w.instances[i]? = some x ∧ x.generator.name = name :=
  Option.map_eq_some_iff.mp h

/-- What is refused changes nothing. -/
theorem perform_of_refuses {e : Event} (h : a.Refuses e) : a.perform e = a := by
  cases e with
  | addGenerator i =>
    obtain ⟨name, e, named, refused⟩ := h
    obtain ⟨x, hx, rfl⟩ := name?_instances named
    have hx : a.session.workshop.instances[i]? = some x := hx
    have refused : a.session.pipeline.addGenerator x.generator.name i = .error e := refused
    simp only [perform, Session.perform, hx, refused]
  | removeGenerator name =>
    have same : (a.session.pipeline.removeGenerator name).2 = a.session.pipeline :=
      Pipeline.removeGenerator_of_false h
    simp only [perform, Session.perform, same]
  | removeSource name =>
    obtain ⟨e, refused⟩ := h
    have refused : a.session.pipeline.removeSource name a.session.workshop = .error e := refused
    simp only [perform, Session.perform, refused]
  | _ => exact h.elim

/-- An operation of the pipeline, whatever the callers hold. -/
theorem Coherent.operate (h : a.Coherent start asked names) {p : Pipeline} {w : Workshop σ}
    {asked' : Bool} {names' : List String} (coherent : p.Coherent w asked' names')
    (grows : a.workshop.Grows w) : Coherent start ⟨⟨p, w⟩, a.held⟩ asked' names' :=
  ⟨h.grown.trans grows, coherent, h.held⟩

/-- A change of the workshop alone. -/
theorem Coherent.grow (h : a.Coherent start asked names) {w : Workshop σ}
    (grows : a.workshop.Grows w) : Coherent start ⟨⟨a.pipeline, w⟩, a.held⟩ asked names :=
  h.operate (h.pipeline.grow grows) grows

/-- Callers may hold more snapshots of inputs that can be given. -/
theorem Coherent.hold (h : a.Coherent start asked names) {ss : List Snapshot}
    (given : ∀ s ∈ ss, ∃ texts, s.compilation.inputs = (Compilation.ofTexts texts).inputs) :
    Coherent start { a with held := a.held ++ ss } asked names :=
  ⟨h.grown, h.pipeline, fun s hs => (List.mem_append.mp hs).elim (h.held s) (given s)⟩

section Registering

variable {w : Workshop σ} {i : Nat} {name : String}

/-- No name comes in where there is no generator. -/
theorem register_missing (h : w.name? i = none) :
    (Event.addGenerator i).register w names = names := by
  simp only [Event.register, Directive.register, h]

/-- No name comes in where it is there already. -/
theorem register_taken (h : w.name? i = some name) (taken : name ∈ names) :
    (Event.addGenerator i).register w names = names := by
  simp only [Event.register, Directive.register, h, taken, if_true]

/-- A new name comes last. -/
theorem register_free (h : w.name? i = some name) (free : name ∉ names) :
    (Event.addGenerator i).register w names = names ++ [name] := by
  simp only [Event.register, Directive.register, h, free, if_false]

end Registering

/-- The event of registering a generator leaves the world coherent, whether it succeeds or not. -/
theorem Coherent.addGenerator (h : a.Coherent start asked names) (i : Nat) :
    (a.perform (.addGenerator i)).Coherent start asked
      ((Event.addGenerator i).register start names) := by
  have named : a.workshop.name? i = start.name? i := congrFun h.grown.name? i
  cases hn : start.name? i with
  | none =>
    have missing : a.session.workshop.instances[i]? = none :=
      Option.map_eq_none_iff.mp (named.trans hn)
    rw [register_missing hn]
    simpa only [perform, Session.perform, missing] using h
  | some name =>
    cases added : a.pipeline.addGenerator name i with
    | error e =>
      have taken : name ∈ names := by
        rw [← h.pipeline.registered]
        exact Pipeline.addGenerator_error_iff.mp ⟨e, added⟩
      have refused : a.Refuses (.addGenerator i) := ⟨name, e, named.trans hn, added⟩
      rw [perform_of_refuses refused, register_taken hn taken]
      exact h
    | ok p =>
      obtain ⟨x, hx, same⟩ := name?_instances (named.trans hn)
      obtain ⟨free, coherent⟩ := h.pipeline.addGenerator added
      have hx : a.session.workshop.instances[i]? = some x := hx
      have added : a.session.pipeline.addGenerator name i = .ok p := added
      rw [register_free hn free]
      simp only [perform, Session.perform, hx, same, added]
      exact ⟨h.grown, coherent, h.held⟩

/-- One event keeps the state of a pipeline coherent. -/
theorem Coherent.perform (h : a.Coherent start asked names) (e : Event) :
    (a.perform e).Coherent start (asked || e.asksForPass) (e.register start names) := by
  have quiet : ∀ {b : World σ} {names' : List String}, b.Coherent start asked names' →
      b.Coherent start (asked || false) names' := by
    intro b names' hb
    rwa [Bool.or_false]
  have asks : ∀ {b : World σ} {names' : List String}, b.Coherent start true names' →
      b.Coherent start (asked || true) names' := by
    intro b names' hb
    rwa [Bool.or_true]
  cases e with
  | make texts generated =>
    refine quiet ?_
    have grows := a.workshop.grows_snapshot ((Compilation.ofTexts texts).withGenerated generated)
    refine (h.grow grows).hold ?_
    intro s hs
    rw [List.mem_singleton.mp hs]
    exact ⟨texts, rfl⟩
  | holdInput =>
    refine quiet ?_
    refine h.hold ?_
    intro s hs
    obtain ⟨texts, input⟩ := h.pipeline.input
    rw [List.mem_singleton.mp hs]
    exact ⟨texts, congrArg Compilation.inputs input⟩
  | holdSnapshot =>
    refine quiet ?_
    refine h.hold ?_
    intro s hs
    obtain ⟨q, hq, rfl⟩ := Option.map_eq_some_iff.mp (Option.mem_toList.mp hs)
    exact (h.pipeline.tidy q hq).inputs
  | addGenerator i =>
    refine quiet ?_
    exact h.addGenerator i
  | removeGenerator name =>
    refine quiet ?_
    exact h.operate (h.pipeline.removeGenerator name) (.refl _)
  | setInput n =>
    refine quiet ?_
    rw [World.perform]
    split
    · exact h
    · rename_i s hs
      obtain ⟨coherent, grows⟩ := h.pipeline.setInput (h.held s (List.mem_of_getElem? hs))
      exact h.operate coherent grows
  | updateSource name text =>
    refine quiet ?_
    obtain ⟨coherent, grows⟩ := h.pipeline.updateSource name text
    exact h.operate coherent grows
  | removeSource name =>
    refine quiet ?_
    cases removed : a.pipeline.removeSource name a.workshop with
    | error e =>
      have refused : a.Refuses (.removeSource name) := ⟨e, removed⟩
      rw [perform_of_refuses refused]
      exact h
    | ok moved =>
      obtain ⟨p, w⟩ := moved
      obtain ⟨coherent, grows⟩ := h.pipeline.removeSource removed
      have removed : a.session.pipeline.removeSource name a.session.workshop = .ok (p, w) := removed
      simp only [World.perform, Session.perform, removed]
      exact h.operate coherent grows
  | run =>
    obtain ⟨q, p, w, ran, -, -, grows, coherent⟩ := h.pipeline.run
    have ran : a.session.pipeline.run a.session.workshop = (q, p, w) := ran
    refine asks ?_
    simp only [World.perform, Session.perform, ran]
    exact h.operate coherent grows
  | bind =>
    obtain ⟨k, p, w, bound, grows, coherent⟩ := h.pipeline.bind
    have bound : a.session.pipeline.bind a.session.workshop = (k, p, w) := bound
    refine asks ?_
    simp only [World.perform, Session.perform, bound]
    exact h.operate coherent grows
  | inquire n i =>
    refine quiet ?_
    rw [World.perform]
    split
    · exact h
    · exact h.grow (a.workshop.grows_inquire _ i)
  | release i =>
    refine quiet ?_
    exact h.grow (a.workshop.grows_release i)

/-- Any history leaves the world coherent, by induction on its events. -/
theorem Coherent.performAll (h : a.Coherent start asked names) (es : List Event) :
    (a.performAll es).Coherent start (asked || es.any Event.asksForPass)
      (es.foldl (Event.register start) names) := by
  induction es generalizing a asked names with
  | nil =>
    rw [List.any_nil, Bool.or_false]
    exact h
  | cons e es ih =>
    rw [List.any_cons, ← Bool.or_assoc]
    exact ih (h.perform e)

/-! ### What is refused -/

/-- Registering is refused exactly if the name of the generator is taken. -/
theorem Coherent.refuses_addGenerator (h : a.Coherent start asked names) (i : Nat) :
    a.Refuses (.addGenerator i) ↔ ∃ name ∈ names, start.name? i = some name := by
  have named : a.workshop.name? i = start.name? i := congrFun h.grown.name? i
  have taken : ∀ name, (∃ e, a.pipeline.addGenerator name i = .error e) ↔ name ∈ names := by
    intro name
    rw [← h.pipeline.registered]
    exact Pipeline.addGenerator_error_iff
  constructor
  · rintro ⟨name, e, found, refused⟩
    exact ⟨name, (taken name).mp ⟨e, refused⟩, named.symm.trans found⟩
  · rintro ⟨name, listed, found⟩
    obtain ⟨e, refused⟩ := (taken name).mpr listed
    exact ⟨name, e, named.trans found, refused⟩

/-- Removing a generator is refused exactly if none of the name is registered. -/
theorem Coherent.refuses_removeGenerator (h : a.Coherent start asked names) (name : String) :
    a.Refuses (.removeGenerator name) ↔ name ∉ names := by
  rw [← h.pipeline.registered]
  exact Pipeline.removeGenerator_false_iff

/-- Removing a source is refused exactly if no file of the name is among the inputs. -/
theorem Coherent.refuses_removeSource (h : a.Coherent start asked names) (name : String) :
    a.Refuses (.removeSource name) ↔ ∀ f ∈ a.pipeline.input.compilation.files, f.name ≠ name := by
  rw [h.pipeline.input_files]
  exact Pipeline.removeSource_error_iff

end World

/-- After every history of a pipeline among its callers, whatever its generators do: the phase is
the first one exactly if no pass was asked for; in the last phase no pass is needed and the symbols
of the last one are bound; no input is a generated file; and where no pass is needed, the last one is
of exactly the inputs, with one result for each registered generator in the order of registration.
What the pipeline refuses to do changes nothing, and it refuses to register a name that is taken, to
remove a generator that is not registered, and to remove a source that is not there. -/
theorem pipeline_state_coherent (texts : Texts) (generated : List SourceFile) (config : Config)
    (w : Workshop σ) (es : List Event) :
    let a := (World.start texts generated config w).performAll es
    let p := a.pipeline
    let names := es.foldl (Event.register w) []
    (p.phase = .initial ↔ ∀ e ∈ es, e.asksForPass = false) ∧
    (p.phase = .bound → p.needsPass = false ∧
      ∃ q, p.current = some q ∧ a.workshop.archive.isBound q.snapshot = true) ∧
    (∀ f ∈ p.input.compilation.files, f.isGenerated = false) ∧
    (p.needsPass = false → ∃ q, p.current = some q ∧
      q.snapshot.compilation.inputs = p.input.compilation.files ∧
      q.results.map (·.generator) = names) ∧
    p.driver.names = names ∧
    (∀ e, a.Refuses e → a.perform e = a) ∧
    (∀ i, a.Refuses (.addGenerator i) ↔ ∃ name ∈ names, w.name? i = some name) ∧
    (∀ name, a.Refuses (.removeGenerator name) ↔ name ∉ names) ∧
    (∀ name, a.Refuses (.removeSource name) ↔ ∀ f ∈ p.input.compilation.files, f.name ≠ name) := by
  intro a p names
  have coherent : a.Coherent w (es.any Event.asksForPass) names :=
    (World.start_coherent texts generated config w).performAll es
  have state := coherent.pipeline
  have never : es.any Event.asksForPass = false ↔ ∀ e ∈ es, e.asksForPass = false := by
    simp
  exact ⟨state.initial.trans never, state.of_bound, state.input_isGenerated, state.of_needsPass,
    state.registered, fun e => World.perform_of_refuses, coherent.refuses_addGenerator,
    coherent.refuses_removeGenerator, coherent.refuses_removeSource⟩

end DeclFront
