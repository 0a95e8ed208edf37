import DeclFront.Proofs.Generator.Bench

/-!
# Generators are isolated from each other

Of two benches one takes a whole history, and the other all of it that does not concern a certain
generator. They stay alike in everything but what is of that generator: in the entries, in the workers,
and, in every pass, in the results, the files and the diagnostics.
-/

set_option autoImplicit false

namespace DeclFront

variable {σ : Type}

/-- Parts of which each is kept or left out with its owner. -/
theorem filter_flatMap_of_owner {α β : Type} {f : α → List β} {p : β → Bool} {q : α → Bool}
    {l : List α} (h : ∀ a ∈ l, ∀ b ∈ f a, p b = q a) :
    (l.flatMap f).filter p = (l.filter q).flatMap f := by
  induction l with
  | nil => rfl
  | cons a l ih =>
    rw [List.flatMap_cons, List.filter_append, ih fun a' ha' => h a' (List.mem_cons_of_mem a ha')]
    cases hq : q a with
    | true =>
      rw [List.filter_cons_of_pos hq, List.flatMap_cons]
      congr 1
      exact List.filter_eq_self.mpr fun b hb => (h a List.mem_cons_self b hb).trans hq
    | false =>
      have dropped : (f a).filter p = [] :=
        List.filter_eq_nil_iff.mpr fun b hb => by simp [h a List.mem_cons_self b hb, hq]
      rw [List.filter_cons_of_neg (by simp [hq]), dropped, List.nil_append]

namespace Pass

/-- What a pass came to, whichever number its snapshot got. -/
def content (p : Pass) : Compilation × List Diagnostic × List RunResult :=
  (p.snapshot.compilation, p.diagnostics, p.results)

/-- A pass but for the result, the files and the diagnostics of the generator called `name`. -/
def without (name : String) (p : Pass) : Pass where
  snapshot := { p.snapshot with
    compilation := p.snapshot.compilation.withGenerated
      (p.snapshot.compilation.generated.filter (·.generator? ≠ some name)) }
  diagnostics := p.diagnostics.filter (·.generator? ≠ some name)
  results := p.results.filter (·.generator ≠ name)

end Pass

namespace RunResult

variable {rs : List RunResult} {name : String}

/-- Files and diagnostics bear the name of the generator. -/
structure Owned (r : RunResult) : Prop where
  files : ∀ f ∈ r.files, f.generator? = some r.generator
  diagnostics : ∀ d ∈ r.output.diagnostics, d.generator? = some r.generator

/-- A result that accounts for itself owns its files and its diagnostics. -/
theorem Accounts.owned {r : RunResult} {past : List Pass} {c : Compilation}
    {b : Option (Worker σ)} (h : r.Accounts past c name b) : r.Owned := by
  constructor
  · intro f hf
    obtain ⟨s, -, filed⟩ := GeneratedSource.exists_filed_of_mem h.files hf
    rw [filed.generator?, h.generator]
  · intro d hd
    rw [Diagnostic.generator?, h.source d hd, h.generator]

/-- The files that are not of a generator are the files of the other results. -/
theorem allFiles_filter (h : ∀ r ∈ rs, r.Owned) :
    (allFiles rs).filter (·.generator? ≠ some name) = allFiles (rs.filter (·.generator ≠ name)) :=
  filter_flatMap_of_owner fun r hr f hf => by rw [(h r hr).files f hf]; simp

/-- The diagnostics that are not of a generator are those of the other results. -/
theorem allDiagnostics_filter (h : ∀ r ∈ rs, r.Owned) :
    (allDiagnostics rs).filter (·.generator? ≠ some name) =
      allDiagnostics (rs.filter (·.generator ≠ name)) :=
  filter_flatMap_of_owner fun r hr d hd => by rw [(h r hr).diagnostics d hd]; simp

end RunResult

namespace Bench

/-- The bench `b'` is like `b` in everything but what is of the generator called `name`. -/
structure Alike (name : String) (b b' : Bench σ) : Prop where
  config : b'.driver.config = b.driver.config
  entries : b'.driver.entries = b.driver.entries.filter (·.name ≠ name)
  workers : ∀ i, b.workshop.name? i ≠ some name → b'.workshop.workers i = b.workshop.workers i
  passes : b'.passes.map Pass.content = b.passes.map fun p => (p.without name).content

variable {w : Workshop σ} {b b' : Bench σ} {name : String}

/-- The entries that `b'` has left take the same turns. -/
theorem Alike.turn (h : Alike name b b') (sound : b.Sound w) {e : Entry}
    (he : e ∈ b.driver.entries) (other : e.name ≠ name) (c : Compilation) :
    e.turn b'.driver.config c (b'.workshop.workers e.index) =
      e.turn b.driver.config c (b.workshop.workers e.index) := by
  have named : b.workshop.name? e.index ≠ some name := by
    rw [sound.name?, sound.registered e he]
    exact fun same => other (Option.some.inj same)
  rw [h.config, h.workers _ named]

/-- What comes of the turns of `b'` is what comes of those of `b`, but for the generator. -/
theorem Alike.turns (h : Alike name b b') (sound : b.Sound w) (c : Compilation) {β : Type}
    {f : Turn σ → β} {g : β → String}
    (owner : ∀ e ∈ b.driver.entries,
      g (f (e.turn b.driver.config c (b.workshop.workers e.index))) = e.name) :
    (b'.driver.entries.map fun e =>
        f (e.turn b'.driver.config c (b'.workshop.workers e.index))) =
      (b.driver.entries.map fun e =>
        f (e.turn b.driver.config c (b.workshop.workers e.index))).filter (g · ≠ name) := by
  rw [h.entries, List.filter_map]
  have left : b.driver.entries.filter (·.name ≠ name) = b.driver.entries.filter
      ((fun x => decide (g x ≠ name)) ∘ fun e =>
        f (e.turn b.driver.config c (b.workshop.workers e.index))) :=
    List.filter_congr fun e he => by simp only [Function.comp_apply, owner e he]
  rw [← left]
  refine List.map_congr_left ?_
  intro e he
  obtain ⟨he, other⟩ := List.mem_filter.mp he
  rw [h.turn sound he (of_decide_eq_true other)]

/-- A pass over the same inputs keeps them alike. -/
theorem Alike.pass (h : Alike name b b') (sound : b.Sound w) (sound' : b'.Sound w)
    {s s' : Snapshot} (inputs : s'.compilation.inputs = s.compilation.inputs) :
    Alike name (b.pass s) (b'.pass s') := by
  have named : (b.pass s).workshop.name? = b.workshop.name? :=
    (sound.pass s).name?.trans sound.name?.symm
  obtain ⟨rs, es, after, id, ran, turned⟩ := sound.run_turned s
  obtain ⟨rs', es', after', id', ran', turned'⟩ := sound'.run_turned s'
  have shown : s'.compilation.withoutGenerated = s.compilation.withoutGenerated := by
    rw [Compilation.withoutGenerated, inputs]
    rfl
  rw [shown] at turned'
  have owned : ∀ r ∈ rs, r.Owned := by
    intro r hr
    rw [turned.results] at hr
    obtain ⟨e, he, rfl⟩ := List.mem_map.mp hr
    obtain ⟨k, -, -, accounts⟩ := sound.turn_accounts he s.compilation.withoutGenerated
    exact accounts.owned
  have results : rs' = rs.filter (·.generator ≠ name) := by
    rw [turned'.results, turned.results]
    refine h.turns sound _ ?_
    intro e he
    obtain ⟨k, -, -, accounts⟩ := sound.turn_accounts he s.compilation.withoutGenerated
    exact accounts.generator
  have entries : es' = es.filter (·.name ≠ name) := by
    rw [turned'.entries, turned.entries]
    refine h.turns sound _ ?_
    intro e he
    exact (Entry.turn_taken _ _ e _).registration.1
  unfold Bench.pass at named ⊢
  rw [ran] at named
  rw [ran, ran']
  refine ⟨h.config, entries, ?_, ?_⟩
  · intro i hi
    rw [named] at hi
    show after'.workers i = after.workers i
    -- The worker of an entry is where the same turn left it, and any other is where it was.
    by_cases mem : i ∈ b.driver.entries.map Entry.index
    · obtain ⟨e, he, rfl⟩ := List.mem_map.mp mem
      have other : e.name ≠ name := by
        rintro rfl
        rw [sound.name?, sound.registered e he] at hi
        exact hi rfl
      have left : e ∈ b'.driver.entries := by
        rw [h.entries]
        exact List.mem_filter.mpr ⟨he, decide_eq_true other⟩
      rw [turned.own e he, turned'.own e left, h.turn sound he other]
    · have left : i ∉ b'.driver.entries.map Entry.index := by
        rw [h.entries]
        exact fun hi => mem (List.filter_sublist.map _ |>.subset hi)
      rw [turned.others i mem, turned'.others i left, h.workers i hi]
  · dsimp only
    rw [List.map_append, List.map_append, h.passes, results]
    congr 1
    simp only [List.map_singleton, Pass.content, Pass.without, Compilation.withGenerated]
    rw [RunResult.allFiles_filter owned, RunResult.allDiagnostics_filter owned, inputs]

/-- But for the one generator, the same names are taken on both benches. -/
theorem Alike.mem_names (h : Alike name b b') {other : String} (apart : other ≠ name) :
    other ∈ b'.driver.names ↔ other ∈ b.driver.names := by
  rw [Driver.names, Driver.names, h.entries, List.mem_map, List.mem_map]
  constructor
  · rintro ⟨e, he, rfl⟩
    exact ⟨e, (List.mem_filter.mp he).1, rfl⟩
  · rintro ⟨e, he, rfl⟩
    exact ⟨e, List.mem_filter.mpr ⟨he, decide_eq_true apart⟩, rfl⟩

/-- A directive that concerns the generator, and that only `b` takes, keeps them alike. -/
theorem Alike.skip (h : Alike name b b') (sound : b.Sound w) {c : Directive}
    (concerns : c.concerns w name = true) : Alike name (b.perform c) b' := by
  cases c with
  | add i =>
    have named : w.name? i = some name := of_decide_eq_true concerns
    rw [perform_add (sound.name?.symm ▸ named)]
    split
    · exact h
    · refine ⟨h.config, ?_, h.workers, h.passes⟩
      rw [h.entries, List.filter_append, List.filter_singleton]
      simp
  | remove other =>
    obtain rfl : other = name := of_decide_eq_true concerns
    refine ⟨h.config, ?_, h.workers, h.passes⟩
    rw [h.entries]
    exact (List.filter_eq_self.mpr fun e he => (List.mem_filter.mp he).2).symm
  | run c => cases concerns
  | rerun n => cases concerns

/-- A directive that does not concern the generator, and that both take, keeps them alike. -/
theorem Alike.step (h : Alike name b b') (sound : b.Sound w) (sound' : b'.Sound w) {c : Directive}
    (apart : c.concerns w name = false) : Alike name (b.perform c) (b'.perform c) := by
  cases c with
  | add i =>
    cases named : w.name? i with
    | none =>
      rw [perform_add_missing (sound.name?.symm ▸ named),
        perform_add_missing (sound'.name?.symm ▸ named)]
      exact h
    | some other =>
      have differs : other ≠ name := by
        rintro rfl
        exact of_decide_eq_false apart named
      rw [perform_add (sound.name?.symm ▸ named), perform_add (sound'.name?.symm ▸ named)]
      by_cases taken : other ∈ b.driver.names
      · rw [if_pos taken, if_pos ((h.mem_names differs).mpr taken)]
        exact h
      · rw [if_neg taken, if_neg (mt (h.mem_names differs).mp taken)]
        refine ⟨h.config, ?_, h.workers, h.passes⟩
        rw [h.entries, List.filter_append]
        simp [differs]
  | remove other =>
    refine ⟨h.config, ?_, h.workers, h.passes⟩
    show b'.driver.entries.filter _ = (b.driver.entries.filter _).filter _
    rw [h.entries]
    exact List.filter_comm _ _ _
  | run c =>
    have started : Alike name { b with workshop := (b.workshop.snapshot c).2 }
        { b' with workshop := (b'.workshop.snapshot c).2 } :=
      ⟨h.config, h.entries, h.workers, h.passes⟩
    exact started.pass (sound.snapshot c) (sound'.snapshot c) rfl
  | rerun n =>
    -- The two earlier passes may differ in generated files, which no generator is shown.
    have same := congrArg (·[n]?) h.passes
    simp only [List.getElem?_map] at same
    unfold Bench.perform
    dsimp only
    cases earlier : b.passes[n]? with
    | none =>
      rw [earlier] at same
      rw [Option.map_eq_none_iff.mp same]
      exact h
    | some p =>
      rw [earlier] at same
      obtain ⟨p', earlier', content⟩ := Option.map_eq_some_iff.mp same
      rw [earlier']
      exact h.pass sound sound' (congrArg (fun x => x.1.inputs) content)

/-- A history keeps the benches alike when the second takes what does not concern the generator, by
induction on the directives. -/
theorem Alike.performAll (h : Alike name b b') (sound : b.Sound w) (sound' : b'.Sound w)
    (cs : List Directive) :
    Alike name (b.performAll cs) (b'.performAll (cs.filter fun c => !c.concerns w name)) := by
  induction cs generalizing b b' with
  | nil => exact h
  | cons c cs ih =>
    cases concerns : c.concerns w name with
    | true =>
      rw [List.filter_cons_of_neg (by simp [concerns])]
      exact ih (h.skip sound concerns) (sound.perform c).1 sound'
    | false =>
      rw [List.filter_cons_of_pos (by simp [concerns])]
      exact ih (h.step sound sound' concerns) (sound.perform c).1 (sound'.perform c).1

end Bench

/-- Leaving a generator out of a history, with every directive that concerns it, takes nothing out of
any pass but its own result, its files and its diagnostics. The generators are registered in the order
in which they were added, and whatever snapshot the next pass is made over, its files and diagnostics
are those of the registered generators in that order, and each result accounts for itself. -/
theorem generators_are_isolated (config : Config) (w : Workshop σ) (cs : List Directive)
    (name : String) :
    let b := (Bench.start config w).performAll cs
    let b' := (Bench.start config w).performAll (cs.filter fun c => !c.concerns w name)
    b'.passes.map Pass.content = b.passes.map (fun p => (p.without name).content) ∧
      b.driver.names = cs.foldl (Directive.register w) [] ∧
      ∀ s, b.Accounts s (b.driver.run s b.workshop).1 := by
  intro b b'
  have start := Bench.sound_start config w
  obtain ⟨sound, names⟩ := start.performAll cs
  have alike : Bench.Alike name (Bench.start config w) (Bench.start config w) :=
    ⟨rfl, rfl, fun _ _ => rfl, rfl⟩
  exact ⟨(alike.performAll start start cs).passes, names, sound.run_accounts⟩

end DeclFront
