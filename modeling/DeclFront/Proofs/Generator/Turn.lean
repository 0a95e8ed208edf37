import DeclFront.Proofs.Generator.Pass
import DeclFront.Proofs.Generator.Worker

/-!
# A pass gives every generator a turn of its own

The turn of an entry is what a pass does about it, worked out from the inputs, the entry and the
worker of its generator. Where no two entries are of one generator, a pass takes the turns of all
its entries, each from the worker that the generator has when the pass begins, whether it takes them
one after another or begins all executions before it waits for any.
-/

set_option autoImplicit false

namespace DeclFront

variable {σ : Type}

/-- What comes of a turn. -/
structure Turn (σ : Type) where
  result : RunResult
  entry : Entry
  worker : Option (Worker σ)

namespace Entry

/-- The entry and the worker once the generator is prepared, and what is kept of the preparation. -/
def ready (config : Config) (e : Entry) (k : Option (Worker σ)) : Except Diagnostic Policy × Entry × Option (Worker σ) :=
  match e.prepared with
  | some p => (p, e, k)
  | none =>
    let (prepared, k) := Worker.prepare? k
    let p := e.preparedBy config prepared
    (p, { e with prepared := some p }, k)

/-- What the entry keeps of inputs with the given fingerprint. -/
def kept (e : Entry) (fingerprint : Fingerprint) : Option CachedRun :=
  e.cache.filter (·.fingerprint = fingerprint)

/-- What comes of an attempt, for which no workshop is needed. -/
def attempted (config : Config) (fingerprint : Fingerprint) (e : Entry) (a : Attempt × Option (Worker σ)) : Turn σ :=
  let (r, e, _) := Driver.resolve config (.pending fingerprint a.1) e ({} : Workshop σ)
  ⟨r, e, a.2⟩

/-- The turn of an entry. -/
def turn (config : Config) (c : Compilation) (e : Entry) (k : Option (Worker σ)) : Turn σ :=
  match e.ready config k with
  | (.error d, e, k) => ⟨e.failure .unprepared d, e, k⟩
  | (.ok policy, e, k) =>
    match e.kept (policy.fingerprint c) with
    | some x => ⟨⟨e.name, .cached, x.output, x.files⟩, e, k⟩
    | none => e.attempted config (policy.fingerprint c) (Worker.execute? c k)

variable {config : Config} {c : Compilation} {e : Entry} {k : Option (Worker σ)}

/-- What is kept counts if it was made from inputs with the same fingerprint. -/
theorem kept_eq_some {fingerprint : Fingerprint} {x : CachedRun} :
    e.kept fingerprint = some x ↔ e.cache = some x ∧ x.fingerprint = fingerprint := by
  rw [kept, Option.filter_eq_some_iff, decide_eq_true_eq]

/-- Nothing counts if nothing is kept, or what is kept was made from inputs with
another fingerprint. -/
theorem kept_eq_none {fingerprint : Fingerprint} :
    e.kept fingerprint = none ↔ ∀ x, e.cache = some x → x.fingerprint ≠ fingerprint := by
  rw [kept, Option.filter_eq_none_iff]
  simp

end Entry

namespace Driver

variable {config : Config} {input : Snapshot} {e : Entry} {w : Workshop σ}

/-- The driver prepares an entry as its worker is prepared, and touches no other worker. -/
theorem prepare_ready (config : Config) (e : Entry) (w : Workshop σ) :
    ∃ w₁, prepare config e w =
        ((e.ready config (w.workers e.index)).1, (e.ready config (w.workers e.index)).2.1, w₁) ∧
      (e.ready config (w.workers e.index)).2.1.index = e.index ∧
      w₁.workers =
        Function.update w.workers e.index (e.ready config (w.workers e.index)).2.2 := by
  unfold prepare Entry.ready
  cases e.prepared with
  | some p => exact ⟨w, rfl, rfl, (Function.update_eq_self _ _).symm⟩
  | none =>
    obtain ⟨prepared, moved⟩ := w.prepare_worker e.index
    refine ⟨(w.prepare e.index).2, ?_, rfl, moved⟩
    dsimp only
    rw [prepared]

/-- Waiting needs no workshop and leaves every worker as it is. -/
theorem resolve_alone (config : Config) (p : Plan) (e : Entry) (w w' : Workshop σ) :
    (resolve config p e w).1 = (resolve config p e w').1 ∧
      (resolve config p e w).2.1 = (resolve config p e w').2.1 ∧
      (resolve config p e w).2.2.workers = w.workers := by
  cases p with
  | settled r => exact ⟨rfl, rfl, rfl⟩
  | pending fingerprint attempt =>
    cases attempt with
    | finished output => exact ⟨rfl, rfl, rfl⟩
    | faulted reason => exact ⟨rfl, rfl, rfl⟩
    | busy => exact ⟨rfl, rfl, rfl⟩
    | unfinished => exact ⟨rfl, rfl, w.workers_cancel e.index⟩

/-- Deciding about an entry moves on its worker, and to wait for what was decided, whenever that is,
completes the turn. -/
theorem plan_turn (config : Config) (input : Snapshot) (e : Entry) (w : Workshop σ) :
    ∃ p e₁ w₁, plan config input e w = (p, e₁, w₁) ∧
      w₁.workers = Function.update w.workers e.index
        (e.turn config input.compilation (w.workers e.index)).worker ∧
      ∀ w₂ : Workshop σ,
        (resolve config p e₁ w₂).1 =
          (e.turn config input.compilation (w.workers e.index)).result ∧
        (resolve config p e₁ w₂).2.1 =
          (e.turn config input.compilation (w.workers e.index)).entry := by
  obtain ⟨w₁, prepared, index, moved⟩ := prepare_ready config e w
  unfold Entry.turn
  rcases ready : e.ready config (w.workers e.index) with ⟨p | policy, e₁, k₁⟩
  · rw [ready] at prepared moved
    refine ⟨_, _, _, plan_unprepared prepared, moved, ?_⟩
    intro w₂
    exact ⟨rfl, rfl⟩
  · rw [ready] at prepared index moved
    dsimp only at prepared index moved ⊢
    cases kept : e₁.kept (policy.fingerprint input.compilation) with
    | some x =>
      obtain ⟨cache, same⟩ := Entry.kept_eq_some.mp kept
      refine ⟨_, _, _, plan_cached prepared cache same, moved, ?_⟩
      intro w₂
      exact ⟨rfl, rfl⟩
    | none =>
      obtain ⟨attempt, executed⟩ := w₁.execute_worker e₁.index input
      have own : w₁.workers e₁.index = k₁ := by
        rw [moved, index, Function.update_self]
      rw [own] at attempt executed
      refine ⟨_, _, _, plan_attempted prepared (Entry.kept_eq_none.mp kept), ?_, ?_⟩
      · rw [executed, moved, index, Function.update_idem]
        rfl
      · intro w₂
        rw [attempt]
        obtain ⟨result, entry, -⟩ := resolve_alone config
          (.pending (policy.fingerprint input.compilation)
            (Worker.execute? input.compilation k₁).1) e₁ w₂ {}
        exact ⟨result, entry⟩

/-- Entries, whose workers were as they were before, have had their turns. -/
structure Turned (config : Config) (c : Compilation) (es : List Entry) (before : Nat → Option (Worker σ)) (rs : List RunResult) (es' : List Entry) (after : Nat → Option (Worker σ)) : Prop where
  results : rs = es.map fun e => (e.turn config c (before e.index)).result
  entries : es' = es.map fun e => (e.turn config c (before e.index)).entry
  own : ∀ e ∈ es, after e.index = (e.turn config c (before e.index)).worker
  others : ∀ i ∉ es.map Entry.index, after i = before i

section Turned

variable {c : Compilation} {es es' : List Entry} {rs : List RunResult}
  {before next after : Nat → Option (Worker σ)}

/-- No entries have no turns. -/
theorem Turned.nil : Turned config c [] before [] [] before := by
  constructor <;> simp

/-- A turn before the others, of a generator that none of them has. -/
theorem Turned.cons (fresh : e.index ∉ es.map Entry.index)
    (moved : next =
      Function.update before e.index (e.turn config c (before e.index)).worker)
    (rest : Turned config c es next rs es' after) :
    Turned config c (e :: es) before ((e.turn config c (before e.index)).result :: rs)
      ((e.turn config c (before e.index)).entry :: es') after := by
  have untouched : ∀ i ≠ e.index, next i = before i := by
    intro i other
    rw [moved, Function.update_of_ne other]
  have same : ∀ e' ∈ es, next e'.index = before e'.index := by
    intro e' he'
    apply untouched
    intro clash
    exact fresh (clash ▸ List.mem_map_of_mem he')
  constructor
  · rw [rest.results, List.map_cons]
    congr 1
    exact List.map_congr_left fun e' he' => by rw [same e' he']
  · rw [rest.entries, List.map_cons]
    congr 1
    exact List.map_congr_left fun e' he' => by rw [same e' he']
  · intro e' he'
    rcases List.mem_cons.mp he' with rfl | he'
    · rw [rest.others _ fresh, moved, Function.update_self]
    · rw [rest.own e' he', same e' he']
  · intro i hi
    rw [List.map_cons, List.mem_cons, not_or] at hi
    rw [rest.others i hi.2, untouched i hi.1]

/-- Taking the generators one after another gives each entry its turn, by induction on the entries:
a turn leaves the workers of the entries behind it as they were. -/
theorem runSequential_turned (config : Config) (input : Snapshot)
    (distinct : (es.map Entry.index).Nodup) (w : Workshop σ) :
    ∃ rs es' w', runSequential config input es w = (rs, es', w') ∧
      Turned config input.compilation es w.workers rs es' w'.workers := by
  induction es generalizing w with
  | nil => exact ⟨[], [], w, rfl, .nil⟩
  | cons e es ih =>
    obtain ⟨fresh, distinct⟩ := List.nodup_cons.mp distinct
    obtain ⟨p, e₁, w₁, planned, moved, resolved⟩ := plan_turn config input e w
    obtain ⟨-, -, left⟩ := resolve_alone config p e₁ w₁ w₁
    obtain ⟨result, entry⟩ := resolved w₁
    obtain ⟨rs, es', w', ran, turned⟩ := ih distinct (resolve config p e₁ w₁).2.2
    refine ⟨_, _, w', ?_, .cons fresh (left.trans moved) turned⟩
    simp only [runSequential, planned, ran, result, entry]

/-- Deciding about all entries does everything to the workers that their turns do, and what is left
to wait for comes to the results of the turns in any workshop. -/
theorem planAll_turned (config : Config) (input : Snapshot)
    (distinct : (es.map Entry.index).Nodup) (w : Workshop σ) :
    ∃ ps w₁, planAll config input es w = (ps, w₁) ∧
      ∀ w₂ : Workshop σ, ∃ rs es' w₃, resolveAll config ps w₂ = (rs, es', w₃) ∧
        w₃.workers = w₂.workers ∧
        Turned config input.compilation es w.workers rs es' w₁.workers := by
  induction es generalizing w with
  | nil => exact ⟨[], w, rfl, fun w₂ => ⟨[], [], w₂, rfl, rfl, .nil⟩⟩
  | cons e es ih =>
    obtain ⟨fresh, distinct⟩ := List.nodup_cons.mp distinct
    obtain ⟨p, e₁, w₁, planned, moved, resolved⟩ := plan_turn config input e w
    obtain ⟨ps, w', others, rest⟩ := ih distinct w₁
    refine ⟨(p, e₁) :: ps, w', by simp only [planAll, planned, others], ?_⟩
    -- By the time this entry is waited for, the others have been planned too.
    intro w₂
    obtain ⟨-, -, left⟩ := resolve_alone config p e₁ w₂ w₂
    obtain ⟨result, entry⟩ := resolved w₂
    obtain ⟨rs, es', w₃, ran, unmoved, turned⟩ := rest (resolve config p e₁ w₂).2.2
    refine ⟨_, _, w₃, ?_, unmoved.trans left, .cons fresh moved turned⟩
    simp only [resolveAll, ran, result, entry]

/-- Beginning all executions at once gives each entry its turn, too. -/
theorem runParallel_turned (config : Config) (input : Snapshot)
    (distinct : (es.map Entry.index).Nodup) (w : Workshop σ) :
    ∃ rs es' w', runParallel config input es w = (rs, es', w') ∧
      Turned config input.compilation es w.workers rs es' w'.workers := by
  obtain ⟨ps, w₁, planned, rest⟩ := planAll_turned config input distinct w
  obtain ⟨rs, es', w', ran, unmoved, turned⟩ := rest w₁
  refine ⟨rs, es', w', ?_, unmoved ▸ turned⟩
  unfold runParallel
  rw [planned]
  exact ran

/-- A pass, parallel or not, shows every generator the inputs of the snapshot, and puts what comes of
the turns behind one another. -/
theorem run_turned (d : Driver) (s : Snapshot) (w : Workshop σ)
    (distinct : (d.entries.map Entry.index).Nodup) :
    ∃ rs es' w' id, d.run s w =
        (⟨⟨id, ⟨s.compilation.inputs, RunResult.allFiles rs⟩⟩, RunResult.allDiagnostics rs, rs⟩,
          { d with entries := es' }, w') ∧
      Turned d.config s.compilation.withoutGenerated d.entries w.workers rs es' w'.workers := by
  have shown := w.withoutGenerated_fst s
  have ran : ∃ rs es' w',
      (if d.config.parallel then runParallel else runSequential) d.config (w.withoutGenerated s).1
        d.entries (w.withoutGenerated s).2 = (rs, es', w') ∧
      Turned d.config s.compilation.withoutGenerated d.entries w.workers rs es' w'.workers := by
    rw [← shown]
    split
    · exact runParallel_turned d.config _ distinct (w.withoutGenerated s).2
    · exact runSequential_turned d.config _ distinct (w.withoutGenerated s).2
  obtain ⟨rs, es', w', ran, turned⟩ := ran
  refine ⟨rs, es', (w'.snapshot ⟨s.compilation.inputs, RunResult.allFiles rs⟩).2,
    (w'.snapshot ⟨s.compilation.inputs, RunResult.allFiles rs⟩).1.id, ?_, turned⟩
  unfold run
  dsimp only
  rw [ran]
  dsimp only
  rw [shown]
  rfl

end Turned

end Driver

end DeclFront
