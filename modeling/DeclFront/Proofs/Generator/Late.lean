import DeclFront.Proofs.Generator.Guards

/-!
# What comes too late is not seen

A pass waits for the jobs that it has submitted itself, for each until it is done with the entry. What
any other job sends is not received any more: whatever it is, all steps from then on leave the same
entries and come to the same passes.
-/

set_option autoImplicit false

namespace DeclFront

namespace Floor

variable {f : Floor}

/-! ### What a pass waits for -/

/-- A pass under way waits for a job on behalf of the entry at a place. -/
def WaitsAt (f : Floor) (n k j : Nat) : Prop :=
  ∃ round fingerprint, f.rounds[n]? = some (some round) ∧
    round.standings[k]? = some (Standing.pending fingerprint j)

/-- A pass under way waits for a job. -/
def Awaits (f : Floor) (j : Nat) : Prop :=
  ∃ n k, f.WaitsAt n k j

/-- The passes under way wait for jobs that there are, for each on behalf of one entry. -/
structure Waits (f : Floor) : Prop where
  submitted : ∀ n k j, f.WaitsAt n k j → j < f.jobs.length
  once : ∀ n k n' k' j, f.WaitsAt n k j → f.WaitsAt n' k' j → n = n' ∧ k = k'

/-- A pass that stands pending with an entry waits for its job there. -/
theorem waitsAt_of_place {n k j : Nat} {input : Compilation} {r : Registration}
    {fingerprint : Fingerprint} (place : f.place? n k = some (input, r, .pending fingerprint j)) :
    f.WaitsAt n k j := by
  obtain ⟨standings, opened, -, stands⟩ := place?_eq_some.mp place
  exact ⟨_, fingerprint, opened, stands⟩

/-- Where no pass is under way, no job is waited for. -/
theorem not_awaits_of_closed (closed : f.closed = true) (j : Nat) : ¬f.Awaits j := by
  rintro ⟨n, k, round, -, opened, -⟩
  have gone := List.all_eq_true.mp closed _ (List.mem_of_getElem? opened)
  cases gone

/-- What the passes wait for when one of them stands otherwise with one entry. -/
theorem waitsAt_put {n k n' k' j : Nat} {input : Compilation} {r : Registration} {s s' : Standing}
    {e : Entry} (place : f.place? n k = some (input, r, s))
    (h : (f.put n k r e s').WaitsAt n' k' j) :
    (n' = n ∧ k' = k ∧ ∃ fingerprint, s' = .pending fingerprint j) ∨
      (¬(n' = n ∧ k' = k) ∧ f.WaitsAt n' k' j) := by
  obtain ⟨standings, opened, -, stands⟩ := place?_eq_some.mp place
  obtain ⟨round, fingerprint, opened', stands'⟩ := h
  unfold put at opened'
  by_cases pass : n = n'
  · subst pass
    rw [List.getElem?_modify_eq, opened] at opened'
    cases opened'
    rw [List.getElem?_set] at stands'
    by_cases here : k = k'
    · rw [if_pos here] at stands'
      split at stands'
      · exact .inl ⟨rfl, here.symm, fingerprint, Option.some.inj stands'⟩
      · cases stands'
    · rw [if_neg here] at stands'
      exact .inr ⟨fun same => here same.2.symm, _, fingerprint, opened, stands'⟩
  · rw [List.getElem?_modify_ne _ _ pass] at opened'
    exact .inr ⟨fun same => pass same.1.symm, round, fingerprint, opened', stands'⟩

/-- A job at another stage is the same job. -/
theorem length_setStage (f : Floor) (j : Nat) (s : Stage) :
    (f.setStage j s).jobs.length = f.jobs.length :=
  List.length_modify _ _ _

/-- Jobs are never forgotten, so their numbers stay what they are. -/
theorem Step.length {m : Move} {f' : Floor} (h : Step f m f') :
    f.jobs.length ≤ f'.jobs.length := by
  cases h with
  | idle | remove | openPass | settle | closePass => exact Nat.le_refl _
  | add => exact Nat.le_of_eq (congrArg List.length (jobs_add ..)).symm
  | submit => simp
  | start | finish => exact Nat.le_of_eq (length_setStage ..).symm

/-- Registering a generator leaves the passes under way as they are. -/
theorem rounds_add (f : Floor) (name : String) (index : Nat) :
    (f.add name index).rounds = f.rounds := by
  unfold Floor.add
  split
  · rfl
  · split <;> rfl

/-- A pass comes to wait for a job only when it submits it. -/
theorem Step.waitsAt {m : Move} {f' : Floor} (h : Step f m f') {n k j : Nat}
    (waits : f'.WaitsAt n k j) :
    f.WaitsAt n k j ∨ (j = f.jobs.length ∧ j < f'.jobs.length ∧ ∃ p, m = .plan n k p) := by
  cases h with
  | idle | remove | start | finish => exact .inl waits
  | add =>
    unfold WaitsAt at waits
    rw [rounds_add] at waits
    exact .inl waits
  | openPass =>
    obtain ⟨round, fingerprint, opened, stands⟩ := waits
    rcases getElem?_concat opened with old | ⟨-, new⟩
    · exact .inl ⟨round, fingerprint, old, stands⟩
    · cases new
      obtain ⟨r, -, same⟩ := List.getElem?_map .. ▸ stands |> Option.map_eq_some_iff.mp
      cases same
  | settle place =>
    rcases waitsAt_put place waits with ⟨-, -, fingerprint, same⟩ | ⟨-, old⟩
    · cases same
    · exact .inl old
  | @submit n' k' p input r e fingerprint place =>
    have put : (f.put n' k' r e (.pending fingerprint f.jobs.length)).WaitsAt _ _ j := waits
    rcases waitsAt_put place put with ⟨rfl, rfl, _, same⟩ | ⟨-, old⟩
    · cases same
      exact .inr ⟨rfl, by simp, p, rfl⟩
    · exact .inl old
  | @closePass ended =>
    obtain ⟨round, fingerprint, opened, stands⟩ := waits
    rw [List.getElem?_set] at opened
    split at opened
    · split at opened <;> cases opened
    · exact .inl ⟨round, fingerprint, opened, stands⟩

/-- Who waits after a step for a job that there was waited for it before. -/
theorem Step.waitsAt_of_lt {m : Move} {f' : Floor} (h : Step f m f') {n k j : Nat}
    (bound : j < f.jobs.length) (waits : f'.WaitsAt n k j) : f.WaitsAt n k j := by
  rcases h.waitsAt waits with old | ⟨new, -, -⟩
  · exact old
  · exact absurd bound (new ▸ Nat.lt_irrefl _)

/-- Where a pass waits for an old job after some moves, it did so before them. -/
theorem waitsAt_of_moveAll {n k j : Nat} (bound : j < f.jobs.length) (ms : List Move)
    (waits : (f.moveAll ms).WaitsAt n k j) : f.WaitsAt n k j := by
  induction ms generalizing f with
  | nil => exact waits
  | cons m ms ih =>
    have step := step_move f m
    exact step.waitsAt_of_lt bound (ih (Nat.lt_of_lt_of_le bound step.length) waits)

/-- A job that no pass waits for is never waited for again. -/
theorem not_awaits_moveAll {j : Nat} (bound : j < f.jobs.length) (unawaited : ¬f.Awaits j)
    (ms : List Move) : ¬(f.moveAll ms).Awaits j := by
  rintro ⟨n, k, waits⟩
  exact unawaited ⟨n, k, waitsAt_of_moveAll bound ms waits⟩

/-- A job that is over stays as it is. -/
theorem Step.job_of_past {m : Move} {f' : Floor} (h : Step f m f') {j : Nat} {x : Job}
    (job : f.jobs[j]? = some x) (past : x.alive = false) : f'.jobs[j]? = some x := by
  have other {k : Nat} {y : Job} (hy : f.jobs[k]? = some y) (alive : y.alive = true) : k ≠ j := by
    rintro rfl
    rw [job] at hy
    cases hy
    rw [past] at alive
    cases alive
  cases h with
  | idle | remove | openPass | settle | closePass => exact job
  | add =>
    rw [jobs_add]
    exact job
  | submit => exact (List.getElem?_append_left (List.getElem?_eq_some_iff.mp job).1).trans job
  | start hy stage | finish hy stage =>
    have apart := other hy (by rw [Job.alive, stage])
    exact (List.getElem?_modify_ne _ _ apart).trans job

/-- A job that is over stays at its stage, whatever moves are made. -/
theorem job_moveAll {j : Nat} {x : Job} (job : f.jobs[j]? = some x) (past : x.alive = false)
    (ms : List Move) : (f.moveAll ms).jobs[j]? = some x := by
  induction ms generalizing f with
  | nil => exact job
  | cons m ms ih => exact ih ((step_move f m).job_of_past job past)

/-- At the start there is no pass that could wait. -/
theorem waits_start (address : Nat → Nat) (config : Config) : (start address config).Waits := by
  have none (n k j : Nat) : ¬(start address config).WaitsAt n k j := fun waits =>
    not_awaits_of_closed rfl j ⟨n, k, waits⟩
  exact ⟨fun n k j waits => absurd waits (none n k j),
    fun n k _ _ j waits => absurd waits (none n k j)⟩

/-- A move keeps what the passes wait for in order: a new job gets a new number, and one place waits
for it. -/
theorem Waits.move (h : f.Waits) (m : Move) : (f.move m).Waits := by
  have step := step_move f m
  constructor
  · intro n k j waits
    rcases step.waitsAt waits with old | ⟨-, bound, -⟩
    · exact Nat.lt_of_lt_of_le (h.submitted n k j old) step.length
    · exact bound
  · intro n k n' k' j first second
    rcases step.waitsAt first with old | ⟨new, -, p, planned⟩ <;>
      rcases step.waitsAt second with old' | ⟨new', -, p', planned'⟩
    · exact h.once n k n' k' j old old'
    · exact absurd (h.submitted n k j old) (new' ▸ Nat.lt_irrefl _)
    · exact absurd (h.submitted n' k' j old') (new ▸ Nat.lt_irrefl _)
    · rw [planned] at planned'
      cases planned'
      exact ⟨rfl, rfl⟩

/-- Any number of moves keeps what the passes wait for in order, by induction on them. -/
theorem Waits.moveAll (h : f.Waits) (ms : List Move) : (f.moveAll ms).Waits := by
  induction ms generalizing f with
  | nil => exact h
  | cons m ms ih => exact ih (h.move m)

/-- A pass that is done with an entry does not wait for its job any more. -/
theorem Waits.not_awaits_put (h : f.Waits) {n k j : Nat} {input : Compilation} {r : Registration}
    {fingerprint : Fingerprint} (place : f.place? n k = some (input, r, .pending fingerprint j))
    (e : Entry) (result : RunResult) : ¬(f.put n k r e (.settled result)).Awaits j := by
  rintro ⟨n', k', waits⟩
  rcases waitsAt_put place waits with ⟨-, -, _, same⟩ | ⟨other, old⟩
  · cases same
  · exact other (h.once n' k' n k j old (waitsAt_of_place place))

/-- A job is waited for by one pass alone, and by nobody when that has ended. -/
theorem Waits.outlived (h : f.Waits) {n k j : Nat} (waits : f.WaitsAt n k j) (ms : List Move)
    (ended : (f.moveAll ms).rounds[n]? = some none) : ¬(f.moveAll ms).Awaits j := by
  rintro ⟨n', k', later⟩
  have before := waitsAt_of_moveAll (h.submitted n k j waits) ms later
  obtain ⟨rfl, -⟩ := h.once n k n' k' j waits before
  obtain ⟨round, -, opened, -⟩ := later
  rw [ended] at opened
  cases opened

/-! ### What a job sends that nobody waits for -/

/-- A job has ended, and nobody waits for it. -/
structure Spent (f : Floor) (j : Nat) (x : Job) : Prop where
  job : f.jobs[j]? = some x
  ended : ∃ r, x.stage = .ended r
  unawaited : ¬f.Awaits j

/-- The floor, had a job that has ended sent something else. -/
def resend (f : Floor) (j : Nat) (r : Except String Output) : Floor :=
  f.setStage j (.ended r)

section Resend

variable {j : Nat} {x : Job} {r : Except String Output}

/-- A job that sends something else differs in its stage and in nothing else, at its place between
the same jobs. -/
theorem jobs_resend (job : f.jobs[j]? = some x) (r : Except String Output) :
    ∃ before after, f.jobs = before ++ x :: after ∧
      (f.resend j r).jobs = before ++ { x with stage := .ended r } :: after := by
  have bound := (List.getElem?_eq_some_iff.mp job).1
  obtain ⟨before, y, after, split, rfl, changed⟩ :=
    List.exists_of_modify (fun x : Job => { x with stage := .ended r }) bound
  rw [split, List.getElem?_append_right (Nat.le_refl _), Nat.sub_self] at job
  cases job
  exact ⟨before, after, split, changed⟩

/-- What a spent job has sent does not change who holds what, since it holds nothing itself. -/
theorem Spent.holders (h : f.Spent j x) : (f.resend j r).holders = f.holders := by
  obtain ⟨before, after, split, changed⟩ := jobs_resend h.job r
  obtain ⟨sent, ended⟩ := h.ended
  have gone : x.alive = false := by rw [Job.alive, ended]
  have gone' : Job.alive { x with stage := .ended r } = false := rfl
  show _ ++ ((f.resend j r).jobs.filter Job.alive).map _ = _ ++ (f.jobs.filter Job.alive).map _
  rw [changed, split, List.filter_append, List.filter_append, List.filter_cons, List.filter_cons,
    gone, gone']
  rfl

/-- What a spent job has sent does not change which guards are locked. -/
theorem Spent.locked (h : f.Spent j x) : (f.resend j r).locked = f.locked := by
  obtain ⟨before, after, split, changed⟩ := jobs_resend h.job r
  obtain ⟨sent, ended⟩ := h.ended
  have still : x.runs = false := by rw [Job.runs, ended]
  have still' : Job.runs { x with stage := .ended r } = false := rfl
  funext guard
  simp only [Floor.locked, changed, split, List.any_append, List.any_cons, still, still']

/-- What a spent job has sent does not change which guard an address has. -/
theorem Spent.guardAt (h : f.Spent j x) : (f.resend j r).guardAt = f.guardAt := by
  have holds : (f.resend j r).holds = f.holds := by
    funext guard
    rw [Floor.holds, h.holders, Floor.holds]
  funext a
  rw [Floor.guardAt, holds]
  rfl

/-- What a spent job has sent does not change which generators can be alive. -/
theorem Spent.admits (h : f.Spent j x) (index : Nat) :
    (f.resend j r).admits index = f.admits index := by
  rw [Floor.admits, h.holders]
  rfl

/-- The spent job itself has then ended with what it sends. -/
theorem Spent.job_resend (h : f.Spent j x) (r : Except String Output) :
    (f.resend j r).jobs[j]? = some { x with stage := .ended r } := by
  rw [resend, setStage, List.getElem?_modify_eq, h.job]
  rfl

/-- All other jobs are as they were. -/
theorem getElem?_resend {k : Nat} (other : k ≠ j) (r : Except String Output) :
    (f.resend j r).jobs[k]? = f.jobs[k]? :=
  List.getElem?_modify_ne _ _ (Ne.symm other)

/-- A job that has ended takes no part in any step that changes a stage. -/
theorem setStage_resend {k : Nat} (other : k ≠ j) (s : Stage) (r : Except String Output) :
    (f.resend j r).setStage k s = (f.setStage k s).resend j r :=
  congrArg (fun jobs => { f with jobs }) (List.modify_modify_ne _ _ _ (Ne.symm other))

/-- A job that is submitted comes behind the spent one either way. -/
theorem submit_resend (bound : j < f.jobs.length) (new : Job) :
    (f.resend j r).jobs ++ [new] = (resend { f with jobs := f.jobs ++ [new] } j r).jobs := by
  refine List.ext_getElem? fun k => ?_
  simp only [resend, setStage, List.getElem?_modify, List.getElem?_append, List.length_modify]
  split
  · rfl
  · rename_i behind
    have other : j ≠ k := by omega
    simp [other]

/-- Registering a generator goes the same way, whatever the spent job has sent. -/
theorem Spent.add (h : f.Spent j x) (name : String) (index : Nat) :
    (f.resend j r).add name index = (f.add name index).resend j r := by
  have registrations : (f.resend j r).registrations = f.registrations := rfl
  have address : (f.resend j r).address = f.address := rfl
  unfold Floor.add
  rw [h.guardAt, registrations, address]
  split
  · rfl
  · split <;> rfl

/-- Deciding about an entry goes the same way, whatever the spent job has sent. -/
theorem Spent.plan (h : f.Spent j x) (n k : Nat) (input : Compilation) (reg : Registration)
    (p : Prepared) : (f.resend j r).plan n k input reg p = (f.plan n k input reg p).resend j r := by
  have config : (f.resend j r).config = f.config := rfl
  have length : (f.resend j r).jobs.length = f.jobs.length := length_setStage ..
  have bound := (List.getElem?_eq_some_iff.mp h.job).1
  unfold Floor.plan
  rw [config, length]
  split
  · rfl
  · dsimp only
    split
    · rfl
    · rw [submit_resend bound]
      rfl

/-- A job that has ended is not taken up again. -/
theorem move_start_of_ended (job : f.jobs[j]? = some x) (ended : x.stage = .ended r) :
    f.move (.start j) = f := by
  obtain ⟨index, guard, _⟩ := x
  cases ended
  unfold move
  dsimp only
  rw [job]

/-- A job that has ended does not end again. -/
theorem move_finish_of_ended (job : f.jobs[j]? = some x) (ended : x.stage = .ended r)
    (sent : Except String Output) : f.move (.finish j sent) = f := by
  obtain ⟨index, guard, _⟩ := x
  cases ended
  unfold move
  dsimp only
  rw [job]

/-- The job that a pass waits for is not the spent one. -/
theorem Spent.other (h : f.Spent j x) {n k : Nat} {input : Compilation} {reg : Registration}
    {fingerprint : Fingerprint} {i : Nat}
    (place : f.place? n k = some (input, reg, .pending fingerprint i)) : i ≠ j := by
  rintro rfl
  exact h.unawaited ⟨n, k, waitsAt_of_place place⟩

/-- Whatever a job has sent that nobody waits for, a step does the same. -/
theorem Spent.move_resend (h : f.Spent j x) (r : Except String Output) (m : Move) :
    (f.resend j r).move m = (f.move m).resend j r := by
  have place : (f.resend j r).place? = f.place? := rfl
  have rounds : (f.resend j r).rounds = f.rounds := rfl
  have closed : (f.resend j r).closed = f.closed := rfl
  obtain ⟨sent, ended⟩ := h.ended
  cases m with
  | add name index =>
    unfold Floor.move
    dsimp only
    rw [closed, h.admits, h.add]
    split <;> rfl
  | remove name =>
    unfold Floor.move
    dsimp only
    rw [closed]
    split <;> rfl
  | openPass c => rfl
  | plan n k p =>
    unfold Floor.move
    dsimp only
    rw [place]
    split
    · exact h.plan ..
    · rfl
  | start k =>
    by_cases here : k = j
    · subst here
      rw [move_start_of_ended h.job ended, move_start_of_ended (h.job_resend r) rfl]
    · unfold Floor.move
      dsimp only
      rw [getElem?_resend here, h.locked]
      split
      · exact setStage_resend here ..
      · rfl
  | finish k sent' =>
    by_cases here : k = j
    · subst here
      rw [move_finish_of_ended h.job ended, move_finish_of_ended (h.job_resend r) rfl]
    · unfold Floor.move
      dsimp only
      rw [getElem?_resend here]
      split
      · exact setStage_resend here ..
      · rfl
  | receive n k =>
    unfold Floor.move
    dsimp only
    rw [place]
    split
    · rename_i placed
      rw [getElem?_resend (h.other placed)]
      split <;> rfl
    · rfl
  | giveUp n k =>
    unfold Floor.move
    dsimp only
    rw [place]
    split <;> rfl
  | closePass n =>
    unfold Floor.move
    dsimp only
    rw [rounds]
    split
    · split <;> rfl
    · rfl

/-- A job that has ended and that nobody waits for stays so. -/
theorem Spent.move (h : f.Spent j x) (m : Move) : (f.move m).Spent j x := by
  have step := step_move f m
  have bound := (List.getElem?_eq_some_iff.mp h.job).1
  obtain ⟨sent, ended⟩ := h.ended
  have past : x.alive = false := by rw [Job.alive, ended]
  refine ⟨step.job_of_past h.job past, ⟨sent, ended⟩, ?_⟩
  rintro ⟨n, k, waits⟩
  exact h.unawaited ⟨n, k, step.waitsAt_of_lt bound waits⟩

/-- All moves go the same way, whatever the spent job has sent, by induction on them. -/
theorem Spent.moveAll_resend (h : f.Spent j x) (r : Except String Output) (ms : List Move) :
    (f.resend j r).moveAll ms = (f.moveAll ms).resend j r := by
  induction ms generalizing f with
  | nil => rfl
  | cons m ms ih =>
    unfold Floor.moveAll at ih ⊢
    rw [List.foldl_cons, List.foldl_cons, h.move_resend]
    exact ih (h.move m)

end Resend

/-! ### What is seen of a driver -/

/-- What it keeps of its generators, how far its passes have come, and what they came to. -/
def seen (f : Floor) : List Registration × List (Option Round) ×
    List (Compilation × List Diagnostic × List RunResult) :=
  (f.registrations, f.rounds, f.passes)

/-- A job that runs ends with what it sends. -/
theorem move_finish_of_running {j : Nat} {x : Job} (job : f.jobs[j]? = some x)
    (running : x.stage = .running) (r : Except String Output) :
    f.move (.finish j r) = f.setStage j (.ended r) := by
  obtain ⟨index, guard, _⟩ := x
  cases running
  unfold move
  dsimp only
  rw [job]

/-- An execution ends, or the step is not possible. -/
theorem move_finish (f : Floor) (j : Nat) :
    (∀ r, f.move (.finish j r) = f) ∨ ∃ x, f.jobs[j]? = some x ∧ x.stage = .running := by
  unfold move
  dsimp only
  cases job : f.jobs[j]? with
  | none => exact .inl fun _ => rfl
  | some x =>
    obtain ⟨index, guard, stage⟩ := x
    cases stage with
    | running => exact .inr ⟨_, rfl, rfl⟩
    | submitted | ended | refused => exact .inl fun _ => rfl

/-- That an execution ends is not seen before a pass receives what it has sent. -/
theorem seen_finish (f : Floor) (j : Nat) (r : Except String Output) :
    (f.move (.finish j r)).seen = f.seen := by
  rcases move_finish f j with still | ⟨x, job, running⟩
  · rw [still]
  · rw [move_finish_of_running job running]
    rfl

/-- What an execution comes to that no pass waits for is never seen. -/
theorem seen_late {j : Nat} (unawaited : ¬f.Awaits j) (r r' : Except String Output)
    (ms : List Move) :
    ((f.move (.finish j r)).moveAll ms).seen = ((f.move (.finish j r')).moveAll ms).seen := by
  rcases move_finish f j with still | ⟨x, job, running⟩
  · rw [still, still]
  · have spent : (f.setStage j (.ended r)).Spent j { x with stage := .ended r } := by
      refine ⟨?_, ⟨r, rfl⟩, unawaited⟩
      rw [setStage, List.getElem?_modify_eq, job]
      rfl
    have other : f.setStage j (.ended r') = (f.setStage j (.ended r)).resend j r' := by
      rw [resend, setStage, setStage, setStage, List.modify_modify_eq]
      rfl
    rw [move_finish_of_running job running, move_finish_of_running job running, other,
      spent.moveAll_resend]
    rfl

/-! ### A pass that gets nothing -/

section Nothing

variable {n k j : Nat} {input : Compilation} {r : Registration} {fingerprint : Fingerprint} {x : Job}

/-- A pass that settles an entry as it is changes no entry. -/
theorem registrations_put {s s' : Standing} (place : f.place? n k = some (input, r, s)) :
    (f.put n k r r.entry s').registrations = f.registrations := by
  obtain ⟨-, -, registered, -⟩ := place?_eq_some.mp place
  obtain ⟨bound, rfl⟩ := List.getElem?_eq_some_iff.mp registered
  exact List.set_getElem_self bound

/-- A pass that receives an answer is done with the attempt. -/
theorem move_receive (place : f.place? n k = some (input, r, .pending fingerprint j))
    (job : f.jobs[j]? = some x) {a : Attempt} (sent : x.stage.attempt? = some a) :
    f.move (.receive n k) = f.resolve n k r fingerprint a := by
  unfold move
  dsimp only
  rw [place]
  dsimp only
  rw [job, Option.bind_some, sent]

/-- A pass that gives a job up is done with it as with one that has not finished. -/
theorem move_giveUp (place : f.place? n k = some (input, r, .pending fingerprint j)) :
    f.move (.giveUp n k) = f.resolve n k r fingerprint .unfinished := by
  unfold move
  dsimp only
  rw [place]

/-- A job that was refused leaves the entry as it is. -/
theorem resolve_busy : f.resolve n k r fingerprint .busy =
    f.put n k r r.entry (.settled (r.entry.failure .busy
      (r.entry.report (.generatorBusy r.entry.name)))) := rfl

/-- A job that is given up leaves the entry as it is. -/
theorem resolve_unfinished : f.resolve n k r fingerprint .unfinished =
    f.put n k r r.entry (.settled (r.entry.failure .timedOut
      (r.entry.report (.generatorTimedOut r.entry.name f.config.timeoutMs)))) := rfl

end Nothing

end Floor

end DeclFront
