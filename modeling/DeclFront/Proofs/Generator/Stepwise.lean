import DeclFront.Proofs.Generator.Isolation
import DeclFront.Proofs.Generator.Late
import DeclFront.Proofs.Generator.Occurrences

/-!
# A bench, step by step

Whatever happens to a bench, steps on a floor lead to the same: the same entries, the same passes, and
the same generators with an execution that has not finished. In a pass the entries have their turns one
after another; in each turn the entry is decided about, and if a job is submitted, that is taken up, and
then ends and is received, or is given up.
-/

set_option autoImplicit false

namespace DeclFront

variable {σ : Type}

/-! ### Executions that go on -/

/-- At an open latch nothing waits. -/
theorem Activity.ending_ne_waiting {name : String} {input : Compilation} {state : σ} {bound : Bool}
    {progress : Progress} (a : Activity σ) (p : Progress) (next : Activity σ) :
    (a.run name input true state bound progress).ending ≠ .waiting p next := by
  induction a generalizing state bound progress with
  | done | fail | panic => exact fun same => Ending.noConfusion rfl (heq_of_eq same)
  | update f next ih => exact ih
  | addSource hint text next ih =>
    rw [run]
    split
    · exact ih _
    · exact ih _
  | report d next ih => exact ih
  | symbols next ih => exact ih _
  | isCancelled next ih => exact ih _
  | cancel next ih => exact ih
  | wait next ih => exact ih

namespace Workshop

variable {w : Workshop σ} {i : Nat} {x : Instance σ}

/-- What an execution does at an open latch is to change the state of its generator. -/
theorem perform_open (hx : w.instances[i]? = some x) (latch : x.latchOpen = true) (input : Snapshot)
    (progress : Progress) (activity : Activity σ) : ∃ state,
    (w.perform i x input progress activity).2.instances[i]? = some { x with state } ∧
      (w.perform i x input progress activity).2.workers =
        Function.update w.workers i (some (Instance.worker { x with state })) := by
  have ends : ∀ p next, (activity.run x.generator.name input.compilation x.latchOpen x.state false
      progress).ending ≠ .waiting p next := by
    rw [latch]
    exact activity.ending_ne_waiting
  have bound (asked : Bool) : (w.bindIf asked input).instances[i]? = some x := by
    rw [instances_bindIf, hx]
  unfold perform
  dsimp only
  generalize activity.run x.generator.name input.compilation x.latchOpen x.state false progress =
    trace at ends ⊢
  have left := instance_update (bound trace.bound) fun x => { x with state := trace.state }
  have moved := workers_update (bound trace.bound) fun x => { x with state := trace.state }
  rw [workers_bindIf] at moved
  cases ending : trace.ending with
  | finished output => exact ⟨trace.state, left, moved⟩
  | faulted reason => exact ⟨trace.state, left, moved⟩
  | waiting p next => exact absurd ending (ends p next)

/-- At an open latch the executions that are left behind all come to their ends, and change nothing
but the state of their generator. -/
theorem finish_open (hx : w.instances[i]? = some x) (latch : x.latchOpen = true)
    (es : List (Execution σ)) : ∃ state, (w.finish i es).workers =
      Function.update w.workers i (some (Instance.worker { x with state })) := by
  induction es generalizing w x with
  | nil =>
    refine ⟨x.state, ?_⟩
    rw [← workers_present hx, Function.update_eq_self]
    rfl
  | cons e es ih =>
    obtain ⟨state, left, moved⟩ := perform_open hx latch e.input e.progress e.next
    obtain ⟨state', finished⟩ := ih left latch
    refine ⟨state', ?_⟩
    rw [finish, hx]
    dsimp only
    rw [finished, moved, Function.update_idem]

/-- When its latch is opened, all executions of a generator finish. -/
theorem busy_release (w : Workshop σ) (i j : Nat) :
    ((w.release i).workers j).any Worker.busy =
      if j = i then false else (w.workers j).any Worker.busy := by
  unfold release
  cases hx : w.instances[i]? with
  | none =>
    dsimp only
    by_cases here : j = i
    · rw [here, workers_absent hx, if_pos rfl]
      rfl
    · rw [if_neg here]
  | some x =>
    dsimp only
    obtain ⟨state, finished⟩ := finish_open
      (instance_update hx fun x => { x with latchOpen := true, running := [] }) rfl x.running
    rw [finished, workers_update hx, Function.update_idem]
    by_cases here : j = i
    · rw [here, Function.update_self, if_pos rfl]
      rfl
    · rw [Function.update_of_ne here, if_neg here]

/-- No execution is under way. -/
def Idle (w : Workshop σ) : Prop :=
  ∀ x ∈ w.instances, x.running = []

/-- Where no execution is under way, no worker is busy. -/
theorem Idle.busy (h : w.Idle) (i : Nat) : (w.workers i).any Worker.busy = false := by
  cases hx : w.instances[i]? with
  | none =>
    rw [workers_absent hx]
    rfl
  | some x =>
    rw [workers_present hx, Option.any_some, Instance.worker, h x (List.mem_of_getElem? hx)]
    rfl

end Workshop

namespace Floor

variable {f : Floor}

/-- The first of some moves is made before the others. -/
theorem moveAll_cons (f : Floor) (m : Move) (ms : List Move) :
    f.moveAll (m :: ms) = (f.move m).moveAll ms := rfl

/-- Some moves are made before others. -/
theorem moveAll_append (f : Floor) (ms ns : List Move) :
    f.moveAll (ms ++ ns) = (f.moveAll ms).moveAll ns :=
  List.foldl_append

/-! ### One turn -/

/-- The floor with a job at some stage, submitted for the entry at a place. -/
def submitted (f : Floor) (n k : Nat) (r : Registration) (e : Entry) (fingerprint : Fingerprint)
    (s : Stage) : Floor :=
  { f.put n k r e (.pending fingerprint f.jobs.length) with
    jobs := f.jobs ++ [⟨e.index, r.guard, s⟩] }

/-- The floor after the turn of the entry at a place, for which some jobs were submitted. -/
def turned (f : Floor) (n k : Nat) (r : Registration) (t : Turn σ) (new : List Job) : Floor :=
  { f.put n k r t.entry (.settled t.result) with jobs := f.jobs ++ new }

section Submitted

variable {n k : Nat} {input : Compilation} {r : Registration} {e : Entry} {fingerprint : Fingerprint}
  {s : Stage} {standing : Standing}

/-- The job that was submitted last has the last number. -/
theorem job_submitted : (f.submitted n k r e fingerprint s).jobs[f.jobs.length]? =
    some ⟨e.index, r.guard, s⟩ :=
  List.getElem?_concat_length

/-- A change at the end of a list changes its last element. -/
theorem modify_concat {α : Type} (as : List α) (a : α) (g : α → α) :
    (as ++ [a]).modify as.length g = as ++ [g a] := by
  induction as with
  | nil => rfl
  | cons b as ih => exact congrArg (b :: ·) ih

/-- The job that was submitted last goes to another stage. -/
theorem setStage_submitted (s' : Stage) :
    (f.submitted n k r e fingerprint s).setStage f.jobs.length s' =
      f.submitted n k r e fingerprint s' :=
  congrArg (fun jobs => { f.put n k r e (.pending fingerprint f.jobs.length) with jobs })
    (modify_concat f.jobs _ _)

/-- A pass that has submitted a job for an entry stands pending with that entry. -/
theorem place_submitted (place : f.place? n k = some (input, r, standing)) :
    (f.submitted n k r e fingerprint s).place? n k =
      some (input, { r with entry := e }, .pending fingerprint f.jobs.length) := by
  obtain ⟨standings, opened, registered, stands⟩ := place?_eq_some.mp place
  refine place?_eq_some.mpr ⟨standings.set k (.pending fingerprint f.jobs.length), ?_, ?_, ?_⟩
  · show (f.rounds.modify n _)[n]? = _
    rw [List.getElem?_modify_eq, opened]
    rfl
  · exact List.getElem?_set_self (List.getElem?_eq_some_iff.mp registered).1
  · exact List.getElem?_set_self (List.getElem?_eq_some_iff.mp stands).1

/-- To be done with an attempt completes the turn. -/
theorem resolve_submitted (a : Attempt) (w : Option (Worker σ)) :
    (f.submitted n k r e fingerprint s).resolve n k { r with entry := e } fingerprint a =
      f.turned n k r (e.attempted f.config fingerprint (a, w)) [⟨e.index, r.guard, s⟩] := by
  have twice (e' : Entry) (s' : Standing) :
      (f.submitted n k r e fingerprint s).put n k { r with entry := e } e' s' =
        { f.put n k r e' s' with jobs := f.jobs ++ [⟨e.index, r.guard, s⟩] } := by
    unfold submitted put
    rw [List.set_set, List.modify_modify_eq, Option.map_comp_map]
    simp only [Function.comp_def, List.set_set]
  cases a <;> exact twice _ _

/-- Which generators are being executed depends on the new job where it runs, and on the
old jobs. -/
theorem executes_submitted (i : Nat) : (f.submitted n k r e fingerprint s).executes i =
    (f.executes i || (Job.runs ⟨e.index, r.guard, s⟩ && decide (e.index = i))) := by
  show (f.jobs ++ [_]).any _ = _
  rw [List.any_append]
  simp [executes]

/-- The job that was submitted last, and runs, ends with what it sends. -/
theorem move_finish_submitted (sent : Except String Output) :
    (f.submitted n k r e fingerprint .running).move (.finish f.jobs.length sent) =
      f.submitted n k r e fingerprint (.ended sent) :=
  (move_finish_of_running job_submitted rfl sent).trans (setStage_submitted _)

/-- A turn for which no job is submitted settles the entry. -/
theorem turned_nil (t : Turn σ) : f.turned n k r t [] = f.put n k r t.entry (.settled t.result) := by
  unfold turned
  rw [List.append_nil]
  rfl

end Submitted

section Turns

variable {n k : Nat} {input : Compilation} {r : Registration}

/-- The driver on the floor keeps the same of a preparation as the driver in the workshop. -/
theorem readyBy_eq (config : Config) (e : Entry) (v : Worker σ) :
    e.readyBy config v.prepare.1 = ((e.ready config (some v)).1, (e.ready config (some v)).2.1) := by
  unfold Entry.readyBy Entry.ready
  cases e.prepared <;> rfl

/-- To be prepared neither begins nor ends an execution. -/
theorem ready_worker (config : Config) (e : Entry) (v : Worker σ) :
    ∃ p e' v', e.ready config (some v) = (p, e', some v') ∧ e'.index = e.index ∧
      v'.busy = v.busy := by
  unfold Entry.ready
  cases e.prepared <;> exact ⟨_, _, _, rfl, rfl, rfl⟩

/-- What an attempt that was begun comes to, step by step. -/
theorem exists_attempt {e : Entry} {fingerprint : Fingerprint} {standing : Standing}
    (place : f.place? n k = some (input, r, standing)) (v : Worker σ) (idle : v.busy = false) :
    ∃ ms s, (f.submitted n k r e fingerprint .running).moveAll ms =
        f.turned n k r (e.attempted f.config fingerprint (Worker.execute? input (some v)))
          [⟨e.index, r.guard, s⟩] ∧
      s ≠ .submitted ∧ Job.runs ⟨e.index, r.guard, s⟩ = (v.execute input).2.busy := by
  have sent {s : Stage} {a : Attempt} (h : s.attempt? = some a) :
      (f.submitted n k r e fingerprint s).move (.receive n k) = _ :=
    (move_receive (place_submitted place) job_submitted h).trans
      (resolve_submitted a (some (v.execute input).2))
  have worker : (v.execute input).2.busy = decide ((v.trace input).ending.attempt = .unfinished) := by
    rw [Worker.execute, if_neg (by simp [idle])]
  rw [Worker.execute?, Worker.execute_idle idle, worker]
  cases attempt : (v.trace input).ending.attempt with
  | finished output =>
    refine ⟨[.finish f.jobs.length (.ok output), .receive n k], .ended (.ok output), ?_,
      Stage.noConfusion, rfl⟩
    rw [moveAll_cons, move_finish_submitted]
    exact sent rfl
  | faulted reason =>
    refine ⟨[.finish f.jobs.length (.error reason), .receive n k], .ended (.error reason), ?_,
      Stage.noConfusion, rfl⟩
    rw [moveAll_cons, move_finish_submitted]
    exact sent rfl
  | busy =>
    -- An execution that was begun is not refused.
    cases ending : (v.trace input).ending <;> rw [ending] at attempt <;> cases attempt
  | unfinished =>
    refine ⟨[.giveUp n k], .running, ?_, Stage.noConfusion, rfl⟩
    exact (move_giveUp (place_submitted place)).trans
      (resolve_submitted _ (some (v.execute input).2))

/-- A pass decides about an entry about which it has not decided. -/
theorem move_plan (place : f.place? n k = some (input, r, .undecided)) (p : Prepared) :
    f.move (.plan n k p) = f.plan n k input r p := by
  unfold move
  dsimp only
  rw [place]

/-- What a submitted job comes to, step by step. -/
theorem exists_execution {e : Entry} {fingerprint : Fingerprint} {standing : Standing}
    (place : f.place? n k = some (input, r, standing))
    (guarded : (f.submitted n k r e fingerprint .submitted).Guarded) (v : Worker σ)
    (busy : f.executes e.index = v.busy) :
    ∃ ms s, (f.submitted n k r e fingerprint .submitted).moveAll ms =
        f.turned n k r (e.attempted f.config fingerprint (Worker.execute? input (some v)))
          [⟨e.index, r.guard, s⟩] ∧
      s ≠ .submitted ∧
      (f.executes e.index || Job.runs ⟨e.index, r.guard, s⟩) = (v.execute input).2.busy := by
  have started := guarded.move_start job_submitted rfl
  have idle : Job.runs ⟨e.index, r.guard, .submitted⟩ = false := rfl
  rw [setStage_submitted, executes_submitted, idle, Bool.false_and, Bool.or_false, busy] at started
  cases taken : v.busy with
  | true =>
    rw [taken, if_pos rfl] at started
    refine ⟨[.start f.jobs.length, .receive n k], .refused, ?_, Stage.noConfusion, ?_⟩
    · rw [moveAll_cons, started, Worker.execute?, Worker.execute_busy taken]
      exact (move_receive (place_submitted place) job_submitted rfl).trans
        (resolve_submitted .busy (some v))
    · rw [busy, Worker.execute_busy taken, taken]
      rfl
  | false =>
    rw [taken, if_neg Bool.false_ne_true] at started
    obtain ⟨ms, s, moved, ended, runs⟩ := exists_attempt place v taken
    refine ⟨.start f.jobs.length :: ms, s, ?_, ended, ?_⟩
    · rw [moveAll_cons, started]
      exact moved
    · rw [busy, taken, Bool.false_or]
      exact runs

/-- The turn of an entry, step by step. -/
theorem exists_turn (place : f.place? n k = some (input, r, .undecided)) (guarded : f.Guarded)
    (v : Worker σ) (busy : f.executes r.entry.index = v.busy) :
    ∃ ms new, f.moveAll ms = f.turned n k r (r.entry.turn f.config input (some v)) new ∧
      (∀ x ∈ new, x.stage ≠ .submitted) ∧
      ∀ i, (f.executes i || new.any fun x => x.runs && x.index = i) =
        if i = r.entry.index
          then (r.entry.turn f.config input (some v)).worker.any Worker.busy else f.executes i := by
  have planned := move_plan place v.prepare.1
  obtain ⟨p, e, v', ready, index, still⟩ := ready_worker f.config r.entry v
  have unmoved (i : Nat) : (f.executes i || [].any fun x : Job => x.runs && x.index = i) =
      if i = r.entry.index then v'.busy else f.executes i := by
    rw [List.any_nil, Bool.or_false]
    split
    · rename_i here
      rw [here, busy, still]
    · rfl
  unfold Floor.plan at planned
  rw [readyBy_eq, ready] at planned
  unfold Entry.turn
  rw [ready]
  cases p with
  | error d =>
    refine ⟨[.plan n k v.prepare.1], [], ?_, List.forall_mem_nil _, unmoved⟩
    rw [turned_nil]
    exact planned
  | ok policy =>
    dsimp only at planned ⊢
    unfold Entry.kept
    cases kept : e.cache.filter (·.fingerprint = policy.fingerprint input) with
    | some x =>
      rw [kept] at planned
      refine ⟨[.plan n k v.prepare.1], [], ?_, List.forall_mem_nil _, unmoved⟩
      rw [turned_nil]
      exact planned
    | none =>
      rw [kept] at planned
      have submitted : f.move (.plan n k v.prepare.1) =
          f.submitted n k r e (policy.fingerprint input) .submitted := planned
      obtain ⟨ms, s, moved, ended, runs⟩ := exists_execution place (submitted ▸ guarded.move _) v'
        (by rw [index, busy, still])
      refine ⟨.plan n k v.prepare.1 :: ms, [⟨e.index, r.guard, s⟩], ?_,
        List.forall_mem_singleton.mpr ended, fun i => ?_⟩
      · rw [moveAll_cons, submitted]
        exact moved
      · rw [List.any_cons, List.any_nil, Bool.or_false]
        by_cases here : i = r.entry.index
        · rw [if_pos here, here, ← index]
          show _ = (v'.execute input).2.busy
          simpa using runs
        · have other : e.index ≠ i := fun same => here (same.symm.trans index)
          rw [if_neg here]
          simp [other]

end Turns

/-! ### One pass -/

/-- The last pass that was begun is under way, with some entries settled and some still to be
decided about. -/
structure Midway (f : Floor) (before : List (Option Round)) (input : Compilation)
    (done : List (Registration × RunResult)) (todo : List Registration) : Prop where
  registrations : f.registrations = done.map Prod.fst ++ todo
  rounds : f.rounds = before ++
    [some ⟨input, done.map (fun d => .settled d.2) ++ todo.map fun _ => .undecided⟩]

/-- Every job has been taken up. -/
def Taken (f : Floor) : Prop :=
  ∀ x ∈ f.jobs, x.stage ≠ .submitted

section Midway

variable {before : List (Option Round)} {input : Compilation}
  {done : List (Registration × RunResult)} {r : Registration} {todo : List Registration}

/-- In the middle of a pass, the next entry is one about which nothing has been decided. -/
theorem Midway.place (h : f.Midway before input done (r :: todo)) :
    f.place? before.length done.length = some (input, r, .undecided) := by
  have opened := h.rounds ▸ List.getElem?_concat_length
  refine place?_eq_some.mpr ⟨_, opened, ?_, ?_⟩
  · rw [h.registrations, List.getElem?_append_right (by simp)]
    simp
  · rw [List.getElem?_append_right (by simp)]
    simp

/-- After one more turn a pass is in the middle again, with one entry more behind it. -/
theorem Midway.turned (h : f.Midway before input done (r :: todo)) (t : Turn σ) (new : List Job) :
    (f.turned before.length done.length r t new).Midway before input
      (done ++ [({ r with entry := t.entry }, t.result)]) todo := by
  constructor
  · show f.registrations.set _ _ = _
    rw [h.registrations, List.set_append_right _ _ (by simp)]
    simp
  · show f.rounds.modify _ _ = _
    rw [h.rounds, modify_concat, Option.map_some, List.set_append_right _ _ (by simp)]
    simp

/-- What becomes of a registration in the turn of its entry, and the result. -/
def afterTurn (config : Config) (input : Compilation) (workers : Nat → Option (Worker σ))
    (r : Registration) : Registration × RunResult :=
  let t := r.entry.turn config input (workers r.entry.index)
  ({ r with entry := t.entry }, t.result)

/-- Entries of different generators have their turns, step by step. -/
theorem exists_turns (h : f.Midway before input done todo) (guarded : f.Guarded) (taken : f.Taken)
    (distinct : (todo.map (·.entry.index)).Nodup) (workers : Nat → Option (Worker σ))
    (present : ∀ r ∈ todo, ∃ k, workers r.entry.index = some k ∧
      f.executes r.entry.index = k.busy) :
    ∃ ms, (f.moveAll ms).Midway before input
        (done ++ todo.map (afterTurn f.config input workers)) [] ∧
      (f.moveAll ms).config = f.config ∧ (f.moveAll ms).passes = f.passes ∧ (f.moveAll ms).Taken ∧
      (∀ r ∈ todo, (f.moveAll ms).executes r.entry.index =
        (r.entry.turn f.config input (workers r.entry.index)).worker.any Worker.busy) ∧
      ∀ i ∉ todo.map (·.entry.index), (f.moveAll ms).executes i = f.executes i := by
  induction todo generalizing f done with
  | nil =>
    refine ⟨[], ?_, rfl, rfl, taken, List.forall_mem_nil _, fun _ _ => rfl⟩
    rw [List.map_nil, List.append_nil]
    exact h
  | cons r todo ih =>
    obtain ⟨fresh, distinct⟩ := List.nodup_cons.mp distinct
    obtain ⟨⟨k, own, busy⟩, others⟩ := List.forall_mem_cons.mp present
    obtain ⟨ms, new, moved, ended, executes⟩ := exists_turn h.place guarded k busy
    rw [← own] at moved executes
    have after (i : Nat) : (f.moveAll ms).executes i =
        (f.executes i || new.any fun x => x.runs && x.index = i) := by
      rw [moved]
      exact List.any_append
    have executed := fun i => (after i).trans (executes i)
    have apart {r' : Registration} (hr' : r' ∈ todo) : r'.entry.index ≠ r.entry.index := fun same =>
      fresh (List.mem_map.mpr ⟨r', hr', same⟩)
    have midway : (f.moveAll ms).Midway before input
        (done ++ [afterTurn f.config input workers r]) todo := by
      rw [moved]
      exact h.turned _ new
    have config : (f.moveAll ms).config = f.config := by rw [moved]; rfl
    have passes : (f.moveAll ms).passes = f.passes := by rw [moved]; rfl
    have taken : (f.moveAll ms).Taken := by
      rw [moved]
      exact List.forall_mem_append.mpr ⟨taken, ended⟩
    obtain ⟨ms', midway', config', passes', taken', own', others'⟩ := ih midway
      (guarded.moveAll ms) taken distinct fun r' hr' => by
        rw [executed, if_neg (apart hr')]
        exact others r' hr'
    rw [config] at midway' own'
    refine ⟨ms ++ ms', ?_⟩
    rw [moveAll_append, List.map_cons]
    refine ⟨by simpa using midway', config'.trans config, passes'.trans passes, taken', ?_, ?_⟩
    · refine List.forall_mem_cons.mpr ⟨?_, own'⟩
      rw [others' _ fresh, executed, if_pos rfl]
    · intro i hi
      rw [List.map_cons, List.mem_cons, not_or] at hi
      rw [others' i hi.2, executed, if_neg hi.1]

end Midway

/-! ### Whatever happens -/

/-- The floor of a bench between two passes: the same entries and passes, and executions of the same
generators have not finished. -/
structure Shows (f : Floor) (b : Bench σ) : Prop where
  config : f.config = b.driver.config
  entries : f.registrations.map Registration.entry = b.driver.entries
  passes : f.passes = b.passes.map Pass.content
  closed : f.closed = true
  taken : f.Taken
  executes : ∀ i, f.executes i = (b.workshop.workers i).any Worker.busy

variable {w : Workshop σ} {b : Bench σ}

/-- A floor without registrations shows a bench without any, if nothing is under way in
the workshop. -/
theorem shows_start (address : Nat → Nat) (config : Config) (idle : w.Idle) :
    (start address config).Shows (Bench.start config w) :=
  ⟨rfl, rfl, rfl, rfl, List.forall_mem_nil _, fun i => (idle.busy i).symm⟩

/-- Where a pass is done with every entry, there are all results. -/
theorem mapM_settled (rs : List RunResult) :
    (rs.map Standing.settled).mapM Standing.result? = some rs := by
  induction rs with
  | nil => rfl
  | cons r rs ih => rw [List.map_cons, List.mapM_cons, ih]; rfl

/-- The floor has the generators of the bench, in the order of their registration. -/
theorem Shows.indices (h : f.Shows b) :
    f.registrations.map (·.entry.index) = b.driver.entries.map Entry.index := by
  rw [← h.entries, List.map_map]
  rfl

/-- A pass that is done with every entry ends, and comes to its files, its diagnostics and
its results. -/
theorem move_closePass {before : List (Option Round)} {input : Compilation} {rs : List RunResult}
    (rounds : f.rounds = before ++ [some ⟨input, rs.map .settled⟩]) :
    f.move (.closePass before.length) = { f with
      rounds := before ++ [none]
      passes := f.passes ++
        [(input.withGenerated (RunResult.allFiles rs), RunResult.allDiagnostics rs, rs)] } := by
  have opened : f.rounds[before.length]?.join = some ⟨input, rs.map .settled⟩ := by
    rw [rounds, List.getElem?_concat_length]
    rfl
  unfold move
  dsimp only
  rw [opened]
  dsimp only
  rw [mapM_settled]
  dsimp only
  rw [rounds, List.set_append_right _ _ (Nat.le_refl _), Nat.sub_self]
  rfl

/-- A pass, step by step. -/
theorem Shows.pass (h : f.Shows b) (sound : b.Sound w) (guarded : f.Guarded) (s : Snapshot) :
    ∃ ms, (f.moveAll ms).Shows (b.pass s) := by
  obtain ⟨rs, es, w', id, ran, turned⟩ := sound.run_turned s
  let begun := f.move (.openPass s.compilation)
  have midway : begun.Midway f.rounds s.compilation.withoutGenerated [] f.registrations := ⟨rfl, rfl⟩
  have present : ∀ r ∈ f.registrations, ∃ k, b.workshop.workers r.entry.index = some k ∧
      begun.executes r.entry.index = k.busy := by
    intro r hr
    have entry : r.entry ∈ b.driver.entries := h.entries ▸ List.mem_map_of_mem hr
    obtain ⟨k, own, -⟩ := sound.worker entry
    exact ⟨k, own, (h.executes _).trans (by rw [own]; rfl)⟩
  obtain ⟨ms, after, config, passes, taken, own, others⟩ := exists_turns midway (guarded.move _)
    h.taken (by rw [h.indices]; exact sound.indices) b.workshop.workers present
  have config₁ : begun.config = b.driver.config := h.config
  rw [config₁] at after config own
  have results : (f.registrations.map (afterTurn b.driver.config s.compilation.withoutGenerated
      b.workshop.workers)).map (fun d => Standing.settled d.2) = rs.map .settled := by
    rw [turned.results, ← h.entries, List.map_map, List.map_map, List.map_map]
    rfl
  have entries : (f.registrations.map (afterTurn b.driver.config s.compilation.withoutGenerated
      b.workshop.workers)).map (fun d => d.1.entry) = es := by
    rw [turned.entries, ← h.entries, List.map_map, List.map_map]
    rfl
  have rounds := after.rounds
  rw [List.nil_append, results, List.map_nil, List.append_nil] at rounds
  refine ⟨.openPass s.compilation :: (ms ++ [.closePass f.rounds.length]), ?_⟩
  rw [moveAll_cons, moveAll_append]
  show ((begun.moveAll ms).move (.closePass f.rounds.length)).Shows _
  rw [move_closePass rounds]
  unfold Bench.pass
  rw [ran]
  refine ⟨config, ?_, ?_, ?_, taken, fun i => ?_⟩
  · show (begun.moveAll ms).registrations.map _ = es
    rw [after.registrations, List.nil_append, List.append_nil, List.map_map]
    exact entries
  · show (begun.moveAll ms).passes ++ _ = _
    rw [passes, List.map_append, ← h.passes]
    rfl
  · show (f.rounds ++ [none]).all _ = true
    rw [List.all_append, show f.rounds.all Option.isNone = true from h.closed]
    rfl
  · show (begun.moveAll ms).executes i = (w'.workers i).any Worker.busy
    by_cases mem : i ∈ b.driver.entries.map Entry.index
    · rw [← h.indices] at mem
      obtain ⟨r, hr, rfl⟩ := List.mem_map.mp mem
      have entry : r.entry ∈ b.driver.entries := h.entries ▸ List.mem_map_of_mem hr
      rw [own r hr, turned.own _ entry]
    · rw [others i (by rw [h.indices]; exact mem), turned.others i mem]
      exact h.executes i

/-- A generator that is registered under a free name has its entry behind the others. -/
theorem add_of_free {name : String} (free : ∀ r ∈ f.registrations, r.entry.name ≠ name)
    (index : Nat) : ∃ guard guards made, f.add name index = { f with
      registrations := f.registrations ++ [⟨{ name, index }, guard⟩], guards, made } := by
  have unused : ¬f.registrations.any (fun r => decide (r.entry.name = name)) = true := by
    simpa using free
  unfold add
  rw [if_neg unused]
  split <;> exact ⟨_, _, _, rfl⟩

/-- Where every generator has an address of its own, each can be alive at any time. -/
theorem admits_of_injective (injective : Function.Injective f.address) (index : Nat) :
    f.admits index = true := by
  refine List.all_eq_true.mpr fun h _ => ?_
  by_cases same : h.1 = index
  · simp [same]
  · simp [injective.ne same]

/-- When an execution has ended, its generator is not executed any more. -/
theorem Guarded.executes_ended (guarded : f.Guarded) {j : Nat} {x : Job} (job : f.jobs[j]? = some x)
    (runs : x.runs = true) (r : Except String Output) (i : Nat) :
    (f.setStage j (.ended r)).executes i = if i = x.index then false else f.executes i := by
  have still : ∀ k y, (f.setStage j (.ended r)).jobs[k]? = some y → y.runs = true →
      k ≠ j ∧ f.jobs[k]? = some y := by
    intro k y hy running
    rcases getElem?_setStage hy with old | ⟨-, z, -, rfl⟩
    · exact old
    · cases running
  split
  · rename_i here
    refine Bool.eq_false_iff.mpr fun executed => ?_
    obtain ⟨y, hy, running, index⟩ := executes_eq_true.mp executed
    obtain ⟨k, hk⟩ := List.mem_iff_getElem?.mp hy
    obtain ⟨other, old⟩ := still k y hk running
    exact other (guarded.one_execution old job running runs (index.trans here))
  · rename_i other
    rw [Bool.eq_iff_iff, executes_eq_true, executes_eq_true]
    constructor
    · rintro ⟨y, hy, running, index⟩
      obtain ⟨k, hk⟩ := List.mem_iff_getElem?.mp hy
      exact ⟨y, List.mem_of_getElem? (still k y hk running).2, running, index⟩
    · rintro ⟨y, hy, running, index⟩
      obtain ⟨k, hk⟩ := List.mem_iff_getElem?.mp hy
      have apart : j ≠ k := by
        rintro rfl
        rw [job] at hk
        cases hk
        exact other index.symm
      exact ⟨y, List.mem_of_getElem? ((List.getElem?_modify_ne _ _ apart).trans hk), running, index⟩

/-- What the bench does when it is told to add a generator, the floor can do too. -/
theorem Shows.add (h : f.Shows b) (injective : Function.Injective f.address) {index : Nat}
    {name : String} (named : b.workshop.name? index = some name) :
    ∃ ms, (f.moveAll ms).Shows (b.perform (.add index)) := by
  rw [Bench.perform_add named]
  split
  · exact ⟨[], h⟩
  · rename_i free
    have unused : ∀ r ∈ f.registrations, r.entry.name ≠ name := by
      rintro r hr rfl
      refine free (List.mem_map.mpr ⟨r.entry, ?_, rfl⟩)
      rw [← h.entries]
      exact List.mem_map_of_mem hr
    obtain ⟨guard, guards, made, added⟩ := add_of_free unused index
    have moved : f.move (.add name index) = f.add name index := by
      unfold move
      dsimp only
      rw [if_pos (by rw [h.closed, admits_of_injective injective]; rfl)]
    refine ⟨[.add name index], ?_⟩
    rw [moveAll_cons, moved, added]
    refine ⟨h.config, ?_, h.passes, h.closed, h.taken, h.executes⟩
    show (f.registrations ++ _).map _ = _
    rw [List.map_append, h.entries]
    rfl

/-- What the bench does when it is told to remove a generator, the floor can do too. -/
theorem Shows.remove (h : f.Shows b) (name : String) :
    ∃ ms, (f.moveAll ms).Shows (b.perform (.remove name)) := by
  have moved : f.move (.remove name) =
      { f with registrations := f.registrations.filter (·.entry.name ≠ name) } := by
    unfold move
    dsimp only
    rw [if_pos h.closed]
  refine ⟨[.remove name], ?_⟩
  rw [moveAll_cons, moved]
  refine ⟨h.config, ?_, h.passes, h.closed, h.taken, h.executes⟩
  show (f.registrations.filter _).map _ = b.driver.entries.filter _
  rw [← h.entries, List.filter_map]
  rfl

/-- What happens to the bench when a latch is opened, the floor shows when the job of the generator
ends, if it has one that runs. -/
theorem Shows.release (h : f.Shows b) (guarded : f.Guarded) (i : Nat) :
    ∃ ms, (f.moveAll ms).Shows (b.undergo (.release i)) := by
  cases executed : f.executes i with
  | false =>
    refine ⟨[], h.config, h.entries, h.passes, h.closed, h.taken, fun j => ?_⟩
    show f.executes j = ((b.workshop.release i).workers j).any Worker.busy
    rw [Workshop.busy_release, ← h.executes]
    split
    · rename_i here
      rw [here, executed]
    · rfl
  | true =>
    obtain ⟨x, hx, runs, rfl⟩ := executes_eq_true.mp executed
    obtain ⟨j, job⟩ := List.mem_iff_getElem?.mp hx
    refine ⟨[.finish j (.ok {})], ?_⟩
    rw [moveAll_cons, move_finish_of_running job (runs_eq_true.mp runs)]
    refine ⟨h.config, h.entries, h.passes, h.closed, fun y hy => ?_, fun k => ?_⟩
    · rcases mem_setStage hy with old | ⟨z, -, rfl⟩
      · exact h.taken y old
      · exact Stage.noConfusion
    · show _ = ((b.workshop.release x.index).workers k).any Worker.busy
      rw [Workshop.busy_release, ← h.executes]
      exact guarded.executes_ended job runs _ k

/-- Whatever happens to the bench, some moves show it on the floor. -/
theorem Shows.undergo (h : f.Shows b) (sound : b.Sound w) (guarded : f.Guarded)
    (injective : Function.Injective f.address) (o : Occurrence) :
    ∃ ms, (f.moveAll ms).Shows (b.undergo o) := by
  cases o with
  | release i => exact h.release guarded i
  | directive c =>
    cases c with
    | add i =>
      cases named : b.workshop.name? i with
      | none =>
        refine ⟨[], ?_⟩
        show f.Shows (b.perform (.add i))
        rw [Bench.perform_add_missing named]
        exact h
      | some name => exact h.add injective named
    | remove name => exact h.remove name
    | run c =>
      have started : f.Shows { b with workshop := (b.workshop.snapshot c).2 } :=
        ⟨h.config, h.entries, h.passes, h.closed, h.taken, h.executes⟩
      exact started.pass (sound.snapshot c) guarded _
    | rerun n =>
      show ∃ ms, (f.moveAll ms).Shows (b.perform (.rerun n))
      unfold Bench.perform
      dsimp only
      cases b.passes[n]? with
      | none => exact ⟨[], h⟩
      | some p => exact h.pass sound guarded _

/-- No step moves a generator. -/
theorem Step.address {m : Move} {f' : Floor} (h : Step f m f') : f'.address = f.address := by
  rcases h.holders with ⟨same, -⟩ | ⟨name, index, -, rfl⟩
  · exact same
  · unfold Floor.add
    split
    · rfl
    · split <;> rfl

/-- Generators stay where they are, whatever moves are made. -/
theorem address_moveAll (f : Floor) (ms : List Move) : (f.moveAll ms).address = f.address := by
  induction ms generalizing f with
  | nil => rfl
  | cons m ms ih => exact (ih (f.move m)).trans (step_move f m).address

/-- All that happens to the bench is shown by moves on the floor, by induction on what happens. -/
theorem Shows.undergoAll (h : f.Shows b) (sound : b.Sound w) (guarded : f.Guarded)
    (injective : Function.Injective f.address) (os : List Occurrence) :
    ∃ ms, (f.moveAll ms).Shows (b.undergoAll os) := by
  induction os generalizing f b with
  | nil => exact ⟨[], h⟩
  | cons o os ih =>
    obtain ⟨ms, shows⟩ := h.undergo sound guarded injective o
    have injective' : Function.Injective (f.moveAll ms).address := by
      rw [address_moveAll]
      exact injective
    obtain ⟨ms', shows'⟩ := ih shows (sound.undergo o) (guarded.moveAll ms) injective'
    refine ⟨ms ++ ms', ?_⟩
    rw [moveAll_append]
    exact shows'

end Floor

end DeclFront
