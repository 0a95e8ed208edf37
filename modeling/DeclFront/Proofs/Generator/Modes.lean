import DeclFront.Proofs.Generator.Occurrences
import DeclFront.Proofs.Generator.Turn

/-!
# Parallel and sequential passes agree

To wait for a generator changes nothing but that generator, and to decide about one neither sees nor
touches any other. So a generator may be waited for before the next is decided about or after all have
been, and it makes no difference in which mode a driver goes through its history: the passes are the
same, and so is everything that is left behind.
-/

set_option autoImplicit false

namespace DeclFront

variable {σ : Type}

/-! ### What is done to one generator and what another does -/

namespace Workshop

variable {i j : Nat} {f : Instance σ → Instance σ}

/-- Changes of two different generators can be made in either order. -/
theorem update_comm (w : Workshop σ) (apart : i ≠ j) (g : Instance σ → Instance σ) :
    (w.update i f).update j g = (w.update j g).update i f :=
  congrArg (Workshop.mk w.archive) (List.modify_modify_ne f g w.instances apart)

/-- A change of one generator leaves every other one as it is. -/
theorem instance_update_of_ne (w : Workshop σ) (apart : i ≠ j) :
    (w.update i f).instances[j]? = w.instances[j]? :=
  List.getElem?_modify_ne _ _ apart

/-- Binding a snapshot and changing a generator do not touch each other. -/
theorem bindIf_update (w : Workshop σ) (asked : Bool) (s : Snapshot) :
    (w.update i f).bindIf asked s = (w.bindIf asked s).update i f := by
  unfold bindIf
  split <;> rfl

/-- A generator is prepared in the same way whatever was done to another one. -/
theorem prepare_update (w : Workshop σ) (apart : i ≠ j) :
    (w.update i f).prepare j = ((w.prepare j).1, (w.prepare j).2.update i f) := by
  unfold prepare
  rw [instance_update_of_ne w apart]
  cases w.instances[j]? with
  | none => rfl
  | some x =>
    dsimp only
    rw [update_comm w apart]

/-- An activity of a generator goes the same way whatever was done to another one. -/
theorem perform_update (w : Workshop σ) (apart : i ≠ j) (x : Instance σ) (input : Snapshot)
    (progress : Progress) (activity : Activity σ) :
    (w.update i f).perform j x input progress activity =
      ((w.perform j x input progress activity).1,
        (w.perform j x input progress activity).2.update i f) := by
  unfold perform
  dsimp only
  rw [bindIf_update, update_comm _ apart]
  split
  · rfl
  · rfl
  · rw [update_comm _ apart]

/-- So an execution of a generator does, too. -/
theorem execute_update (w : Workshop σ) (apart : i ≠ j) (input : Snapshot) :
    (w.update i f).execute j input = ((w.execute j input).1, (w.execute j input).2.update i f) := by
  unfold execute
  rw [instance_update_of_ne w apart]
  cases w.instances[j]? with
  | none => rfl
  | some x =>
    dsimp only
    split
    · exact perform_update w apart ..
    · rfl

end Workshop

namespace Driver

variable {config : Config} {input : Snapshot} {i : Nat} {f : Instance σ → Instance σ}

/-- An entry is prepared in the same way whatever was done to a generator that is not its own. -/
theorem prepare_update {e : Entry} (apart : i ≠ e.index) (w : Workshop σ) :
    prepare config e (w.update i f) =
      ((prepare config e w).1, (prepare config e w).2.1, (prepare config e w).2.2.update i f) := by
  unfold prepare
  cases e.prepared with
  | some p => rfl
  | none =>
    dsimp only
    rw [Workshop.prepare_update w apart]

/-- The entry of a preparation stays that of the same generator. -/
theorem prepare_index (config : Config) (e : Entry) (w : Workshop σ) :
    (prepare config e w).2.1.index = e.index := by
  unfold prepare
  cases e.prepared <;> rfl

/-- To decide about an entry neither sees nor touches the generator of another. -/
theorem plan_update {e : Entry} (apart : i ≠ e.index) (w : Workshop σ) :
    plan config input e (w.update i f) =
      ((plan config input e w).1, (plan config input e w).2.1,
        (plan config input e w).2.2.update i f) := by
  have index := prepare_index config e w
  have moved : prepare config e (w.update i f) = _ := prepare_update apart w
  rcases prepared : prepare config e w with ⟨p | policy, e₁, w₁⟩
  · rw [prepared] at moved
    rw [plan_unprepared moved, plan_unprepared prepared]
  · rw [prepared] at moved index
    dsimp only at moved index
    by_cases hit : ∃ x, e₁.cache = some x ∧ x.fingerprint = policy.fingerprint input.compilation
    · obtain ⟨x, cache, same⟩ := hit
      rw [plan_cached moved cache same, plan_cached prepared cache same]
    · have fresh : ∀ x, e₁.cache = some x →
          x.fingerprint ≠ policy.fingerprint input.compilation :=
        fun x cache same => hit ⟨x, cache, same⟩
      rw [plan_attempted moved fresh, plan_attempted prepared fresh,
        Workshop.execute_update w₁ (index ▸ apart)]

/-- An entry that something was decided about stays with its generator. -/
theorem plan_index (config : Config) (input : Snapshot) (e : Entry) (w : Workshop σ) :
    (plan config input e w).2.1.index = e.index := by
  have index := prepare_index config e w
  rcases prepared : prepare config e w with ⟨p | policy, e₁, w₁⟩ <;> rw [prepared] at index
  · rw [plan_unprepared prepared]
    exact index
  · unfold plan
    rw [prepared]
    dsimp only
    split
    · exact index
    · split <;> exact index

/-- To wait for an entry changes nothing but its generator, and does not depend on when it is done. -/
theorem exists_resolve_eq (config : Config) (p : Plan) (e : Entry) :
    ∃ r e₁ f, ∀ w : Workshop σ, resolve config p e w = (r, e₁, w.update e.index f) := by
  have still (w : Workshop σ) : w.update e.index id = w := by
    unfold Workshop.update
    rw [List.modify_id]
  cases p with
  | settled r => exact ⟨_, _, id, fun w => by rw [still]; rfl⟩
  | pending fingerprint attempt =>
    cases attempt with
    | finished output => exact ⟨_, _, id, fun w => by rw [still]; rfl⟩
    | faulted reason => exact ⟨_, _, id, fun w => by rw [still]; rfl⟩
    | busy => exact ⟨_, _, id, fun w => by rw [still]; rfl⟩
    | unfinished => exact ⟨_, _, _, fun w => rfl⟩

/-! ### One pass -/

/-- What is decided about entries does not depend on a generator that is none of theirs, by
induction on them. -/
theorem planAll_update {es : List Entry} (apart : i ∉ es.map Entry.index) (w : Workshop σ) :
    planAll config input es (w.update i f) =
      ((planAll config input es w).1, (planAll config input es w).2.update i f) := by
  induction es generalizing w with
  | nil => rfl
  | cons e es ih =>
    obtain ⟨first, others⟩ := not_or.mp (mt List.mem_cons.mpr apart)
    simp only [planAll, plan_update first, ih others]

/-- Whether every generator is waited for before the next is decided about, or all of them after all
have been decided about, comes to the same. -/
theorem runParallel_eq (config : Config) (input : Snapshot) {es : List Entry}
    (distinct : (es.map Entry.index).Nodup) (w : Workshop σ) :
    runParallel config input es w = runSequential config input es w := by
  induction es generalizing w with
  | nil => rfl
  | cons e es ih =>
    obtain ⟨fresh, distinct⟩ := List.nodup_cons.mp distinct
    rcases planned : plan config input e w with ⟨p, e₁, w₁⟩
    have index : e₁.index = e.index := by
      rw [← plan_index config input e w, planned]
    obtain ⟨r, e₂, f, resolved⟩ := exists_resolve_eq (σ := σ) config p e₁
    -- The others are decided about after the first has been waited for.
    have rest := ih distinct (w₁.update e₁.index f)
    rw [runParallel, planAll_update (index ▸ fresh)] at rest
    simp only [runParallel, planAll, runSequential, planned, resolveAll, resolved, ← rest]

/-- The driver in the given mode. -/
def inMode (d : Driver) (parallel : Bool) : Driver :=
  { d with config.parallel := parallel }

/-- The mode does not matter to a generator that is taken on its own. -/
theorem runSequential_inMode (d : Driver) (parallel : Bool) (input : Snapshot) (es : List Entry)
    (w : Workshop σ) :
    runSequential (d.inMode parallel).config input es w = runSequential d.config input es w := by
  have same : (d.inMode parallel).config.timeoutMs = d.config.timeoutMs := rfl
  have planned (e : Entry) (w : Workshop σ) :
      plan (d.inMode parallel).config input e w = plan d.config input e w := by
    simp only [plan, prepare, Entry.preparedBy, same]
  have resolved (p : Plan) (e : Entry) (w : Workshop σ) :
      resolve (d.inMode parallel).config p e w = resolve d.config p e w := by
    simp only [resolve, same]
  induction es generalizing w with
  | nil => rfl
  | cons e es ih => simp only [runSequential, planned, resolved, ih]

/-- A pass comes to the same in either mode. -/
theorem run_inMode {d : Driver} (distinct : (d.entries.map Entry.index).Nodup) (parallel : Bool)
    (s : Snapshot) (w : Workshop σ) :
    (d.inMode parallel).run s w =
      ((d.run s w).1, (d.run s w).2.1.inMode parallel, (d.run s w).2.2) := by
  have sequential (config : Config) (input : Snapshot) (w : Workshop σ) :
      (if config.parallel then runParallel else runSequential) config input d.entries w =
        runSequential config input d.entries w := by
    split
    · exact runParallel_eq config input distinct w
    · rfl
  unfold run
  dsimp only
  rw [sequential, show (d.inMode parallel).entries = d.entries from rfl, sequential,
    runSequential_inMode]
  rfl

end Driver

/-! ### Histories -/

namespace Bench

variable {w : Workshop σ} {b : Bench σ}

/-- The bench with its driver in the given mode. -/
def inMode (b : Bench σ) (parallel : Bool) : Bench σ :=
  { b with driver := b.driver.inMode parallel }

/-- A pass goes the same way in either mode, as no two entries of a sound bench are of
one generator. -/
theorem Sound.pass_inMode (h : b.Sound w) (parallel : Bool) (s : Snapshot) :
    (b.inMode parallel).pass s = (b.pass s).inMode parallel := by
  unfold Bench.pass inMode
  dsimp only
  rw [Driver.run_inMode h.indices]

/-- A directive goes the same way in either mode: it is a pass, or it does not depend on
the mode. -/
theorem Sound.perform_inMode (h : b.Sound w) (parallel : Bool) (c : Directive) :
    (b.inMode parallel).perform c = (b.perform c).inMode parallel := by
  cases c with
  | add i =>
    cases named : b.workshop.name? i with
    | none => rw [perform_add_missing named, perform_add_missing (by exact named)]
    | some name =>
      rw [perform_add named, perform_add (b := b.inMode parallel) (by exact named)]
      by_cases taken : name ∈ b.driver.names
      · rw [if_pos taken, if_pos (by exact taken)]
      · rw [if_neg taken, if_neg (by exact taken)]
        rfl
  | remove name => rfl
  | run c => exact (h.snapshot c).pass_inMode parallel _
  | rerun n =>
    unfold Bench.perform
    dsimp only
    rw [show (b.inMode parallel).passes = b.passes from rfl]
    cases b.passes[n]? with
    | none => rfl
    | some p => exact h.pass_inMode parallel _

/-- All that happens goes the same way in either mode, by induction on it. -/
theorem Sound.undergoAll_inMode (h : b.Sound w) (parallel : Bool) (os : List Occurrence) :
    (b.inMode parallel).undergoAll os = (b.undergoAll os).inMode parallel := by
  induction os generalizing b with
  | nil => rfl
  | cons o os ih =>
    have step : (b.inMode parallel).undergo o = (b.undergo o).inMode parallel := by
      cases o with
      | directive c => exact h.perform_inMode parallel c
      | release i => rfl
    unfold Bench.undergoAll at ih ⊢
    rw [List.foldl_cons, List.foldl_cons, step]
    exact ih (h.undergo o)

end Bench

/-- Two drivers, one of which begins all executions of a pass before it waits for any while the other
takes the generators one by one, make the same passes whatever happens, with the same results, files,
diagnostics and snapshots, and leave the same behind: what they keep of their generators, and the
workshop, in which these are. -/
theorem modes_agree (config : Config) (w : Workshop σ) (os : List Occurrence) :
    let parallel := (Bench.start { config with parallel := true } w).undergoAll os
    let sequential := (Bench.start { config with parallel := false } w).undergoAll os
    parallel.passes = sequential.passes ∧
      parallel.driver.entries = sequential.driver.entries ∧
      parallel.workshop = sequential.workshop := by
  intro parallel sequential
  have same : parallel = sequential.inMode true :=
    (Bench.sound_start { config with parallel := false } w).undergoAll_inMode true os
  rw [same]
  exact ⟨rfl, rfl, rfl⟩

end DeclFront
