import DeclFront.Proofs.Generator.Pass

/-!
# A pass over the same inputs again

A generator may do anything: look at its own state, fail every second time, or write something else
in each execution. Nothing of this shows in a second pass over inputs for which a pass has ended. The
entries keep what every generator came to, or that it could not be prepared, and fingerprints are of
the inputs alone, so that a second pass is settled before any generator is asked: it is the same in
any workshop, one with other generators in it included, and leaves all of them as they are.

Only a generator that a pass gave up or passed over is not settled, since nothing is kept of it.
-/

set_option autoImplicit false

namespace DeclFront

variable {σ τ : Type}

/-- Has the pass a result of the generator that it need not ask for again? -/
def RunStatus.hasEnded : RunStatus → Bool
  | executed => true
  | cached => true
  | faulted => true
  | timedOut => false
  | busy => false
  | unprepared => true

/-- The status of the same contribution when it is used again. -/
def RunStatus.again : RunStatus → RunStatus
  | executed => cached
  | faulted => cached
  | status => status

/-- The same contribution, used again. -/
def RunResult.again (r : RunResult) : RunResult :=
  { r with status := r.status.again }

/-- Contributions that are used again have the same files. -/
theorem RunResult.allFiles_again (rs : List RunResult) :
    RunResult.allFiles (rs.map RunResult.again) = RunResult.allFiles rs :=
  List.flatMap_map ..

/-- Contributions that are used again have the same diagnostics. -/
theorem RunResult.allDiagnostics_again (rs : List RunResult) :
    RunResult.allDiagnostics (rs.map RunResult.again) = RunResult.allDiagnostics rs :=
  List.flatMap_map ..

namespace Entry

/-- What the entry keeps settles a pass over a compilation, with the given result. -/
inductive Settled (c : Compilation) (e : Entry) : RunResult → Prop where
  | unprepared {d : Diagnostic} (prepared : e.prepared = some (.error d)) :
    e.Settled c (e.failure .unprepared d)
  | cached {policy : Policy} {x : CachedRun} (prepared : e.prepared = some (.ok policy))
    (cache : e.cache = some x) (same : x.fingerprint = policy.fingerprint c) :
    e.Settled c ⟨e.name, .cached, x.output, x.files⟩

/-- What was decided about an entry is settled by what it keeps, or its generator, which is
prepared, was to be executed for a compilation. -/
inductive Planned (c : Compilation) (e : Entry) : Plan → Prop where
  | settled {r : RunResult} (h : e.Settled c r) : e.Planned c (.settled r)
  | pending {policy : Policy} (prepared : e.prepared = some (.ok policy)) (a : Attempt) :
    e.Planned c (.pending (policy.fingerprint c) a)

variable {c : Compilation} {e : Entry} {r : RunResult}

/-- What an entry settles is used again already. -/
theorem Settled.again_eq (h : e.Settled c r) : r.again = r := by
  cases h <;> rfl

/-- A contribution that is stored under the fingerprint of a compilation settles a pass over it. -/
theorem settled_store {policy : Policy} (prepared : e.prepared = some (.ok policy))
    (name : r.generator = e.name) (status : r.status.again = .cached) :
    (e.store (policy.fingerprint c) r).Settled c r.again := by
  have eq : r.again = ⟨(e.store (policy.fingerprint c) r).name, .cached, r.output, r.files⟩ := by
    rw [RunResult.again, name, status]
    rfl
  rw [eq]
  exact .cached (x := ⟨policy.fingerprint c, r.output, r.files⟩) prepared rfl rfl

end Entry

namespace Driver

variable {config : Config} {input : Snapshot} {c : Compilation} {e : Entry} {es : List Entry}
  {r : RunResult} {rs : List RunResult}

/-! ### What a pass leaves behind -/

/-- The entry keeps how its preparation went. -/
theorem prepare_kept (config : Config) (e : Entry) (w : Workshop σ) :
    (prepare config e w).2.1.prepared = some (prepare config e w).1 := by
  unfold prepare
  cases kept : e.prepared with
  | some p => exact kept
  | none => rfl

/-- Whatever is decided about an entry is settled by what it keeps, or an execution was attempted
after its preparation. -/
theorem plan_planned (config : Config) (input : Snapshot) (e : Entry) (w : Workshop σ) :
    (plan config input e w).2.1.Planned input.compilation (plan config input e w).1 := by
  have kept := prepare_kept config e w
  rcases prepared : prepare config e w with ⟨d | policy, e₁, w₁⟩
  · rw [prepared] at kept
    rw [plan_unprepared prepared]
    exact .settled (.unprepared kept)
  · rw [prepared] at kept
    by_cases hit : ∃ x, e₁.cache = some x ∧
        x.fingerprint = policy.fingerprint input.compilation
    · obtain ⟨x, cache, same⟩ := hit
      rw [plan_cached prepared cache same]
      exact .settled (.cached kept cache same)
    · rw [plan_attempted prepared fun x cache same => hit ⟨x, cache, same⟩]
      exact .pending kept _

/-- Waiting for what was planned settles the entry, unless the generator is given up or
passed over. -/
theorem resolve_settles (config : Config) {p : Plan} (planned : e.Planned c p) (w : Workshop σ)
    (ended : (resolve config p e w).1.status.hasEnded = true) :
    (resolve config p e w).2.1.Settled c (resolve config p e w).1.again := by
  cases planned with
  | @settled r settled =>
    show e.Settled c r.again
    rw [settled.again_eq]
    exact settled
  | pending prepared attempt =>
    cases attempt with
    | finished output => exact Entry.settled_store prepared rfl rfl
    | faulted reason => exact Entry.settled_store prepared rfl rfl
    | busy => cases ended
    | unfinished => cases ended

/-- Every entry whose generator has ended is settled. -/
def Leaves (c : Compilation) (es : List Entry) (rs : List RunResult) : Prop :=
  List.Forall₂ (fun e r => r.status.hasEnded = true → e.Settled c r.again) es rs

/-- If every generator has ended, a second pass is settled at all entries. -/
theorem Leaves.all_settled (h : Leaves c es rs)
    (ended : ∀ r ∈ rs, r.status.hasEnded = true) :
    List.Forall₂ (Entry.Settled c) es (rs.map RunResult.again) := by
  induction h with
  | nil => exact .nil
  | cons settled _ ih =>
    obtain ⟨first, others⟩ := List.forall_mem_cons.mp ended
    exact .cons (settled first) (ih others)

/-- A result of a generator that has ended settles an entry. -/
theorem Leaves.exists_settled (h : Leaves c es rs) (hr : r ∈ rs)
    (ended : r.status.hasEnded = true) : ∃ e ∈ es, e.Settled c r.again := by
  induction h with
  | nil => cases hr
  | @cons e t es rs settled _ ih =>
    rcases List.mem_cons.mp hr with rfl | hr
    · exact ⟨e, List.mem_cons_self, settled ended⟩
    · obtain ⟨e', he', settled'⟩ := ih hr
      exact ⟨e', List.mem_cons_of_mem e he', settled'⟩

/-- A pass that takes the generators one after another leaves its results with the entries, by
induction on them. -/
theorem runSequential_leaves (config : Config) (input : Snapshot) (es : List Entry)
    (w : Workshop σ) :
    Leaves input.compilation (runSequential config input es w).2.1
      (runSequential config input es w).1 := by
  induction es generalizing w with
  | nil => exact .nil
  | cons e es ih =>
    have planned := plan_planned config input e w
    exact .cons (resolve_settles config planned _) (ih _)

/-- What is decided about all entries is settled or attempted, by induction on them. -/
theorem planAll_planned (config : Config) (input : Snapshot) (es : List Entry) (w : Workshop σ) :
    ∀ q ∈ (planAll config input es w).1, q.2.Planned input.compilation q.1 := by
  induction es generalizing w with
  | nil => exact List.forall_mem_nil _
  | cons e es ih => exact List.forall_mem_cons.mpr ⟨plan_planned config input e w, ih _⟩

/-- Waiting for all that was planned leaves the results with the entries, by induction on what
was planned. -/
theorem resolveAll_leaves (config : Config) {ps : List (Plan × Entry)}
    (planned : ∀ q ∈ ps, q.2.Planned c q.1) (w : Workshop σ) :
    Leaves c (resolveAll config ps w).2.1 (resolveAll config ps w).1 := by
  induction ps generalizing w with
  | nil => exact .nil
  | cons q ps ih =>
    obtain ⟨first, others⟩ := List.forall_mem_cons.mp planned
    exact .cons (resolve_settles config first w) (ih others _)

/-- What a pass makes of what came of its entries. -/
theorem run_of_ran {d : Driver} {s : Snapshot} {w w₁ : Workshop σ}
    (ran : (if d.config.parallel then runParallel else runSequential) d.config
      (w.withoutGenerated s).1 d.entries (w.withoutGenerated s).2 = (rs, es, w₁)) :
    d.run s w =
      (⟨⟨w₁.archive.known.size, ⟨s.compilation.inputs, RunResult.allFiles rs⟩⟩,
        RunResult.allDiagnostics rs, rs⟩, { d with entries := es },
        (w₁.snapshot ⟨s.compilation.inputs, RunResult.allFiles rs⟩).2) := by
  unfold run
  dsimp only
  rw [ran, w.withoutGenerated_fst s]
  rfl

/-- A pass leaves its results with the entries, in either mode. -/
theorem ran_leaves (d : Driver) (s : Snapshot) (w : Workshop σ) :
    ∃ rs es w₁, (if d.config.parallel then runParallel else runSequential) d.config
      (w.withoutGenerated s).1 d.entries (w.withoutGenerated s).2 = (rs, es, w₁) ∧
      Leaves s.compilation.withoutGenerated es rs := by
  rw [← w.withoutGenerated_fst s]
  split
  · exact ⟨_, _, _, rfl, resolveAll_leaves d.config (planAll_planned d.config _ d.entries _) _⟩
  · exact ⟨_, _, _, rfl, runSequential_leaves d.config _ d.entries _⟩

/-- After a pass every entry whose generator has ended is settled for its inputs. -/
theorem run_leaves (d : Driver) (s : Snapshot) (w : Workshop σ) :
    Leaves s.compilation.withoutGenerated (d.run s w).2.1.entries (d.run s w).1.results := by
  obtain ⟨rs, es, w₁, went, leaves⟩ := ran_leaves d s w
  rw [run_of_ran went]
  exact leaves

/-- After a pass all entries are settled for its inputs, if every generator has ended. -/
theorem run_settles {d d' : Driver} {s : Snapshot} {w w' : Workshop σ} {p : Pass}
    (ran : d.run s w = (p, d', w')) (ended : ∀ r ∈ p.results, r.status.hasEnded = true) :
    p.snapshot.compilation = ⟨s.compilation.inputs, RunResult.allFiles p.results⟩ ∧
      p.diagnostics = RunResult.allDiagnostics p.results ∧
      List.Forall₂ (Entry.Settled s.compilation.withoutGenerated) d'.entries
        (p.results.map RunResult.again) := by
  have leaves := run_leaves d s w
  obtain ⟨rs, es, w₁, went, -⟩ := ran_leaves d s w
  rw [ran] at leaves
  rw [run_of_ran went] at ran
  cases ran
  exact ⟨rfl, rfl, leaves.all_settled ended⟩

/-! ### A pass that is settled -/

/-- Nothing is begun for an entry that is settled. -/
theorem plan_settled (config : Config) (settled : e.Settled input.compilation r)
    (w : Workshop τ) : plan config input e w = (.settled r, e, w) := by
  cases settled with
  | unprepared prepared =>
    apply plan_unprepared
    unfold prepare
    rw [prepared]
  | cached prepared cache same =>
    refine plan_cached ?_ cache same
    unfold prepare
    rw [prepared]

/-- Where every entry is settled, taking the generators one after another asks none of them and
changes nothing. -/
theorem runSequential_settled (config : Config)
    (settled : List.Forall₂ (Entry.Settled input.compilation) es rs) (w : Workshop τ) :
    runSequential config input es w = (rs, es, w) := by
  induction settled with
  | nil => rfl
  | cons first _ ih =>
    rw [runSequential, plan_settled config first w]
    dsimp only [resolve]
    rw [ih]

/-- Where every entry is settled, beginning all executions at once begins none. -/
theorem runParallel_settled (config : Config)
    (settled : List.Forall₂ (Entry.Settled input.compilation) es rs) (w : Workshop τ) :
    runParallel config input es w = (rs, es, w) := by
  induction settled with
  | nil => rfl
  | cons first _ ih =>
    unfold runParallel at ih ⊢
    rw [planAll, plan_settled config first w]
    dsimp only [resolveAll, resolve] at ih ⊢
    rw [ih]

/-- The results of a pass in which every entry is settled were decided before, and no generator
is touched. -/
theorem run_settled (d : Driver) (s : Snapshot)
    (settled : List.Forall₂ (Entry.Settled s.compilation.withoutGenerated) d.entries rs)
    (w : Workshop τ) :
    ∃ id w', d.run s w =
        (⟨⟨id, ⟨s.compilation.inputs, RunResult.allFiles rs⟩⟩, RunResult.allDiagnostics rs, rs⟩, d,
          w') ∧
      w'.instances = w.instances := by
  rw [← w.withoutGenerated_fst s] at settled
  have ran : (if d.config.parallel then runParallel else runSequential) d.config
      (w.withoutGenerated s).1 d.entries (w.withoutGenerated s).2 =
      (rs, d.entries, (w.withoutGenerated s).2) := by
    split
    · exact runParallel_settled d.config settled _
    · exact runSequential_settled d.config settled _
  exact ⟨_, _, run_of_ran ran, rfl⟩

end Driver

/-- A pass in which every generator ended, well or not, need not be done again. A pass over any
snapshot of the same inputs, the one that the pass made included, is the same in any workshop, so that
it depends on no generator; it leaves all generators and the driver as they are, and comes to the same
files and diagnostics, with everything that was executed, or ended with an error, used again. -/
theorem pass_again_asks_no_generator {d d' : Driver} {s : Snapshot} {w w' : Workshop σ} {p : Pass}
    (ran : d.run s w = (p, d', w')) (ended : ∀ r ∈ p.results, r.status.hasEnded = true) :
    p.snapshot.compilation.inputs = s.compilation.inputs ∧
    ∀ (τ : Type) (other : Workshop τ) (s' : Snapshot),
      s'.compilation.inputs = s.compilation.inputs →
      ∃ p' left, d'.run s' other = (p', d', left) ∧ left.instances = other.instances ∧
        p'.snapshot.compilation = p.snapshot.compilation ∧ p'.diagnostics = p.diagnostics ∧
        p'.results = p.results.map RunResult.again := by
  obtain ⟨compilation, diagnostics, settled⟩ := Driver.run_settles ran ended
  refine ⟨by rw [compilation], ?_⟩
  intro τ other s' same
  have again : s'.compilation.withoutGenerated = s.compilation.withoutGenerated := by
    rw [Compilation.withoutGenerated, same]
    rfl
  rw [← again] at settled
  obtain ⟨id, left, reran, untouched⟩ := Driver.run_settled d' s' settled other
  refine ⟨_, left, reran, untouched, ?_, ?_, rfl⟩
  · rw [compilation, same, RunResult.allFiles_again]
  · rw [diagnostics, RunResult.allDiagnostics_again]

namespace Sample

/-- A generator that writes one more letter in each execution, one that ends with an error, one that
breaks off, and one that cannot be prepared. All of them count. -/
def crew : Workshop Nat :=
  { instances := List.map (fun generator => ⟨generator, 0, false, []⟩)
      [⟨"growing", fun n => (n, .watch "a" .done),
          fun n _ => (n + 1, .addSource "a" (String.ofList (List.replicate n 'x')) fun _ => .done)⟩,
        ⟨"failing", fun n => (n, .done), fun n _ => (n + 1, .fail "no")⟩,
        ⟨"breaking", fun n => (n, .done), fun n _ => (n + 1, .panic .other)⟩,
        ⟨"unready", fun n => (n + 1, .panic .other), fun n _ => (n, .done)⟩] }

/-- All of them, registered. -/
def crewDriver : Driver :=
  { config := {}
    entries := [{ name := "growing", index := 0 }, { name := "failing", index := 1 },
      { name := "breaking", index := 2 }, { name := "unready", index := 3 }] }

/-- The first pass of the crew. -/
def crewPass : Pass × Driver × Workshop Nat :=
  crewDriver.run ⟨0, .ofTexts [("a", "type A")]⟩ crew

end Sample

/-- A pass over what the first pass of the crew has made. -/
theorem crew_pass_again :
    Sample.crewPass.1.results.map RunResult.status = [.executed, .faulted, .faulted, .unprepared] ∧
    (∀ r ∈ Sample.crewPass.1.results, r.status.hasEnded = true) ∧
    ∃ p' left, Sample.crewPass.2.1.run Sample.crewPass.1.snapshot Sample.crewPass.2.2 =
        (p', Sample.crewPass.2.1, left) ∧
      left.instances = Sample.crewPass.2.2.instances ∧
      p'.snapshot.compilation = Sample.crewPass.1.snapshot.compilation ∧
      p'.diagnostics = Sample.crewPass.1.diagnostics ∧
      p'.results = Sample.crewPass.1.results.map RunResult.again := by
  have ran : Sample.crewDriver.run ⟨0, .ofTexts [("a", "type A")]⟩ Sample.crew =
      (Sample.crewPass.1, Sample.crewPass.2.1, Sample.crewPass.2.2) := rfl
  have ended : ∀ r ∈ Sample.crewPass.1.results, r.status.hasEnded = true := by decide +kernel
  obtain ⟨inputs, again⟩ := pass_again_asks_no_generator ran ended
  exact ⟨by decide +kernel, ended, again Nat Sample.crewPass.2.2 Sample.crewPass.1.snapshot inputs⟩

end DeclFront
