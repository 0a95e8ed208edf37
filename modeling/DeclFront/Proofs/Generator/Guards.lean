import DeclFront.Generator.Floor
import Mathlib.Logic.Basic

/-!
# Executions of a generator never overlap

Whatever steps are taken, all who hold a generator hold the same guard with it, whether it was removed
and registered again in between or not, and those who hold different generators hold different guards.
As a guard is locked by one execution at a time, at most one execution of a generator runs, and a job
that is taken up meanwhile is refused.
-/

set_option autoImplicit false

namespace DeclFront

namespace Floor

variable {f : Floor}

/-! ### What a step does -/

/-- What a step can do to the floor. -/
inductive Step (f : Floor) : Move → Floor → Prop where
  | idle (m : Move) : Step f m f
  | add {name : String} {index : Nat} (closed : f.closed = true) (admitted : f.admits index = true) :
    Step f (.add name index) (f.add name index)
  | remove {name : String} (closed : f.closed = true) :
    Step f (.remove name)
      { f with registrations := f.registrations.filter (·.entry.name ≠ name) }
  | openPass {c : Compilation} :
    Step f (.openPass c)
      { f with
        rounds := f.rounds ++
          [some ⟨c.withoutGenerated, f.registrations.map fun _ => .undecided⟩] }
  /-- A pass is done with an entry. -/
  | settle {m : Move} {n k : Nat} {input : Compilation} {r : Registration} {s : Standing} {e : Entry}
    {result : RunResult} (place : f.place? n k = some (input, r, s))
    (index : e.index = r.entry.index) : Step f m (f.put n k r e (.settled result))
  /-- A job is submitted for an entry. -/
  | submit {n k : Nat} {p : Prepared} {input : Compilation} {r : Registration} {e : Entry}
    {fingerprint : Fingerprint} (place : f.place? n k = some (input, r, .undecided))
    (index : e.index = r.entry.index) :
    Step f (.plan n k p)
      { f.put n k r e (.pending fingerprint f.jobs.length) with
        jobs := f.jobs ++ [{ index := e.index, guard := r.guard }] }
  | start {j : Nat} {x : Job} (job : f.jobs[j]? = some x) (stage : x.stage = .submitted) :
    Step f (.start j) (f.setStage j (if f.locked x.guard then .refused else .running))
  | finish {j : Nat} {r : Except String Output} {x : Job} (job : f.jobs[j]? = some x)
    (stage : x.stage = .running) : Step f (.finish j r) (f.setStage j (.ended r))
  | closePass {n : Nat} {input : Compilation} {standings : List Standing} {rs : List RunResult}
    (opened : f.rounds[n]? = some (some ⟨input, standings⟩))
    (settled : standings.mapM Standing.result? = some rs) :
    Step f (.closePass n)
      { f with
        rounds := f.rounds.set n none
        passes := f.passes ++
          [(input.withGenerated (RunResult.allFiles rs), RunResult.allDiagnostics rs, rs)] }

/-- A preparation leaves an entry its generator. -/
theorem index_readyBy (e : Entry) (config : Config) (p : Prepared) :
    (e.readyBy config p).2.index = e.index := by
  unfold Entry.readyBy
  split <;> rfl

/-- Deciding about an entry settles it or submits a job for it. -/
theorem step_plan {n k : Nat} {input : Compilation} {r : Registration}
    (place : f.place? n k = some (input, r, .undecided)) (p : Prepared) :
    Step f (.plan n k p) (f.plan n k input r p) := by
  have index := index_readyBy r.entry f.config p
  unfold Floor.plan
  split
  · rename_i ready
    rw [ready] at index
    exact .settle place index
  · rename_i ready
    rw [ready] at index
    dsimp only
    split
    · exact .settle place index
    · exact .submit place index

/-- Being done with an attempt settles the entry. -/
theorem step_resolve {m : Move} {n k : Nat} {input : Compilation} {r : Registration} {s : Standing}
    (place : f.place? n k = some (input, r, s)) (fingerprint : Fingerprint) (a : Attempt) :
    Step f m (f.resolve n k r fingerprint a) := by
  cases a <;> exact .settle place rfl

/-- Every move is a step: it does nothing, or one of the things that a step can do. -/
theorem step_move (f : Floor) (m : Move) : Step f m (f.move m) := by
  cases m with
  | add name index =>
    unfold move
    dsimp only
    split
    · rename_i possible
      rw [Bool.and_eq_true] at possible
      exact .add possible.1 possible.2
    · exact .idle _
  | remove name =>
    unfold move
    dsimp only
    split
    · rename_i closed
      exact .remove closed
    · exact .idle _
  | openPass c => exact .openPass
  | plan n k p =>
    unfold move
    dsimp only
    split
    · rename_i place
      exact step_plan place p
    · exact .idle _
  | start j =>
    unfold move
    dsimp only
    split
    · rename_i job
      exact .start job rfl
    · exact .idle _
  | finish j r =>
    unfold move
    dsimp only
    split
    · rename_i job
      exact .finish job rfl
    · exact .idle _
  | receive n k =>
    unfold move
    dsimp only
    split
    · rename_i place
      split
      · exact step_resolve place _ _
      · exact .idle _
    · exact .idle _
  | giveUp n k =>
    unfold move
    dsimp only
    split
    · rename_i place
      exact step_resolve place _ _
    · exact .idle _
  | closePass n =>
    unfold move
    dsimp only
    split
    · rename_i opened
      split
      · rename_i settled
        exact .closePass (Option.join_eq_some_iff.mp opened) settled
      · exact .idle _
    · exact .idle _

/-- A pass is about something at a place if it is under way, the registration is there, and the pass
stands somehow with it. -/
theorem place?_eq_some {n k : Nat} {input : Compilation} {r : Registration} {s : Standing} :
    f.place? n k = some (input, r, s) ↔ ∃ standings, f.rounds[n]? = some (some ⟨input, standings⟩) ∧
      f.registrations[k]? = some r ∧ standings[k]? = some s := by
  simp only [place?, Option.bind_eq_bind, Option.bind_eq_some_iff, Option.pure_def,
    Option.join_eq_some_iff, Option.some.injEq, Prod.mk.injEq]
  constructor
  · rintro ⟨⟨_, standings⟩, opened, _, registered, _, stands, rfl, rfl, rfl⟩
    exact ⟨standings, opened, registered, stands⟩
  · rintro ⟨standings, opened, registered, stands⟩
    exact ⟨⟨input, standings⟩, opened, r, registered, s, stands, rfl, rfl, rfl⟩

/-! ### Who holds generators and guards -/

/-- Those who hold a generator are the registrations of it and its jobs that are not over. -/
theorem mem_holders {h : Nat × Nat} : h ∈ f.holders ↔
    (∃ r ∈ f.registrations, (r.entry.index, r.guard) = h) ∨
      ∃ x ∈ f.jobs, x.alive = true ∧ (x.index, x.guard) = h := by
  simp only [holders, List.mem_append, List.mem_map, List.mem_filter, and_assoc]

/-- A job runs at one stage only. -/
theorem runs_eq_true {x : Job} : x.runs = true ↔ x.stage = .running := by
  unfold Job.runs
  split <;> simp_all

/-- A job that runs is not over. -/
theorem alive_of_runs {x : Job} (h : x.runs = true) : x.alive = true := by
  rw [Job.alive, runs_eq_true.mp h]

/-- A pass that gets further with an entry makes nobody hold anything that was not held before. -/
theorem holders_put {n k : Nat} {input : Compilation} {r : Registration} {s s' : Standing} {e : Entry}
    (place : f.place? n k = some (input, r, s)) (index : e.index = r.entry.index) :
    ∀ h ∈ (f.put n k r e s').holders, h ∈ f.holders := by
  obtain ⟨-, -, registered, -⟩ := place?_eq_some.mp place
  intro h hh
  rcases mem_holders.mp hh with ⟨r', hr', rfl⟩ | job
  · rcases List.mem_or_eq_of_mem_set hr' with old | rfl
    · exact mem_holders.mpr (.inl ⟨r', old, rfl⟩)
    · refine mem_holders.mpr (.inl ⟨r, List.mem_of_getElem? registered, ?_⟩)
      rw [index]
  · exact mem_holders.mpr (.inr job)

/-- Of the jobs, one is at another stage afterwards, and the others are as they were. -/
theorem getElem?_setStage {j k : Nat} {s : Stage} {x' : Job}
    (h : (f.setStage j s).jobs[k]? = some x') :
    (k ≠ j ∧ f.jobs[k]? = some x') ∨
      (k = j ∧ ∃ x, f.jobs[j]? = some x ∧ x' = { x with stage := s }) := by
  rw [setStage, List.getElem?_modify] at h
  obtain ⟨x, hx, rfl⟩ := Option.map_eq_some_iff.mp h
  by_cases here : j = k
  · rw [if_pos here]
    exact .inr ⟨here.symm, x, here ▸ hx, rfl⟩
  · rw [if_neg here]
    exact .inl ⟨Ne.symm here, hx⟩

/-- Every job afterwards was there before, at the same stage or at another. -/
theorem mem_setStage {j : Nat} {s : Stage} {x' : Job} (h : x' ∈ (f.setStage j s).jobs) :
    x' ∈ f.jobs ∨ ∃ x, f.jobs[j]? = some x ∧ x' = { x with stage := s } := by
  obtain ⟨k, hk⟩ := List.mem_iff_getElem?.mp h
  rcases getElem?_setStage hk with ⟨-, old⟩ | ⟨-, changed⟩
  · exact .inl (List.mem_of_getElem? old)
  · exact .inr changed

/-- A job that was alive holds nothing more at another stage. -/
theorem holders_setStage {j : Nat} {x : Job} (job : f.jobs[j]? = some x) (alive : x.alive = true)
    (s : Stage) : ∀ h ∈ (f.setStage j s).holders, h ∈ f.holders := by
  intro h hh
  rcases mem_holders.mp hh with registered | ⟨x', hx', alive', rfl⟩
  · exact mem_holders.mpr (.inl registered)
  · refine mem_holders.mpr (.inr ?_)
    rcases mem_setStage hx' with old | ⟨y, hy, rfl⟩
    · exact ⟨x', old, alive', rfl⟩
    · rw [job] at hy
      cases hy
      exact ⟨x, List.mem_of_getElem? job, alive, rfl⟩

/-- Only by registering a generator something comes to be held that was not. -/
theorem Step.holders {m : Move} {f' : Floor} (h : Step f m f') :
    (f'.address = f.address ∧ f'.guards = f.guards ∧ f'.made = f.made ∧
      ∀ h ∈ f'.holders, h ∈ f.holders) ∨
    ∃ name index, f.admits index = true ∧ f' = f.add name index := by
  cases h with
  | idle => exact .inl ⟨rfl, rfl, rfl, fun _ h => h⟩
  | add closed admitted => exact .inr ⟨_, _, admitted, rfl⟩
  | remove closed =>
    refine .inl ⟨rfl, rfl, rfl, fun h hh => ?_⟩
    rcases mem_holders.mp hh with ⟨r, hr, rfl⟩ | job
    · exact mem_holders.mpr (.inl ⟨r, (List.mem_filter.mp hr).1, rfl⟩)
    · exact mem_holders.mpr (.inr job)
  | openPass => exact .inl ⟨rfl, rfl, rfl, fun _ h => h⟩
  | settle place index => exact .inl ⟨rfl, rfl, rfl, holders_put place index⟩
  | @submit n k p input r e fingerprint place index =>
    refine .inl ⟨rfl, rfl, rfl, fun h hh => ?_⟩
    rcases mem_holders.mp hh with registered | ⟨x, hx, alive, rfl⟩
    · have same : ∃ r' ∈ (f.put n k r e (.pending fingerprint f.jobs.length)).registrations,
          (r'.entry.index, r'.guard) = h := registered
      exact holders_put place index h (mem_holders.mpr (.inl same))
    · rcases List.mem_append.mp hx with old | new
      · exact mem_holders.mpr (.inr ⟨x, old, alive, rfl⟩)
      · -- The job holds what the registration holds.
        rw [List.mem_singleton.mp new]
        obtain ⟨-, -, registered, -⟩ := place?_eq_some.mp place
        exact mem_holders.mpr (.inl ⟨r, List.mem_of_getElem? registered, by rw [index]⟩)
  | @start j x job stage =>
    have alive : x.alive = true := by rw [Job.alive, stage]
    exact .inl ⟨rfl, rfl, rfl, holders_setStage job alive _⟩
  | @finish j r x job stage =>
    have alive : x.alive = true := by rw [Job.alive, stage]
    exact .inl ⟨rfl, rfl, rfl, holders_setStage job alive _⟩
  | closePass opened settled => exact .inl ⟨rfl, rfl, rfl, fun _ h => h⟩

/-! ### Generators and their guards -/

/-- Who holds one generator holds one guard with it, and at most one execution runs under a guard. -/
structure Guarded (f : Floor) : Prop where
  /-- A guard that is held is remembered for the address of the generator. -/
  remembered : ∀ h ∈ f.holders, f.guards (f.address h.1) = some h.2
  /-- No guard was made for two addresses. -/
  apart : ∀ a b g, f.guards a = some g → f.guards b = some g → a = b
  made : ∀ a g, f.guards a = some g → g < f.made
  /-- Different generators that are alive are at different addresses. -/
  alone : ∀ h ∈ f.holders, ∀ h' ∈ f.holders, f.address h.1 = f.address h'.1 → h.1 = h'.1
  locked : ∀ (j j' : Nat) (x x' : Job), f.jobs[j]? = some x → f.jobs[j']? = some x' → x.runs = true →
    x'.runs = true → x.guard = x'.guard → j = j'

/-- On a floor without registrations and jobs nothing is held, and the guards are in order. -/
theorem guarded_start (address : Nat → Nat) (config : Config) : (start address config).Guarded := by
  constructor <;> simp [start, holders]

/-- Of those who hold something, those and only those with the same generator have the same guard. -/
theorem Guarded.guard_eq_iff (h : f.Guarded) {a b : Nat × Nat} (ha : a ∈ f.holders)
    (hb : b ∈ f.holders) : a.2 = b.2 ↔ a.1 = b.1 := by
  have first := h.remembered a ha
  have second := h.remembered b hb
  constructor
  · intro same
    exact h.alone a ha b hb (h.apart _ _ _ first (same ▸ second))
  · intro same
    rw [same, second] at first
    exact (Option.some.inj first).symm

/-- The guard of an address is the one that was made for it, as long as somebody holds it. -/
theorem guardAt_eq_some {a g : Nat} :
    f.guardAt a = some g ↔ f.guards a = some g ∧ f.holds g = true := by
  rw [guardAt, Option.filter_eq_some_iff]

/-- A guard that somebody holds is alive. -/
theorem holds_of_mem {h : Nat × Nat} (hh : h ∈ f.holders) : f.holds h.2 = true :=
  List.any_eq_true.mpr ⟨h, hh, decide_eq_true rfl⟩

/-- The guard of a generator that something holds is found at its address. -/
theorem Guarded.guardAt (h : f.Guarded) {a : Nat × Nat} (ha : a ∈ f.holders) :
    f.guardAt (f.address a.1) = some a.2 :=
  guardAt_eq_some.mpr ⟨h.remembered a ha, holds_of_mem ha⟩

/-- A registration adds one holder at most. -/
theorem mem_holders_register {r : Registration} {h : Nat × Nat}
    (hh : h ∈ holders { f with registrations := f.registrations ++ [r] }) :
    h ∈ f.holders ∨ h = (r.entry.index, r.guard) := by
  rcases mem_holders.mp hh with ⟨r', hr', rfl⟩ | job
  · rcases List.mem_append.mp hr' with old | new
    · exact .inl (mem_holders.mpr (.inl ⟨r', old, rfl⟩))
    · exact .inr (by rw [List.mem_singleton.mp new])
  · exact .inl (mem_holders.mpr (.inr job))

/-- Where a generator can be alive, no other one that is held is at its address. -/
theorem ne_address_of_admits {index : Nat} (admitted : f.admits index = true) {a : Nat × Nat}
    (ha : a ∈ f.holders) (same : f.address a.1 = f.address index) : a.1 = index := by
  have either := List.all_eq_true.mp admitted a ha
  simpa [same] using either

/-- A generator that is registered gets the guard that is held with it, if there is one. -/
theorem Guarded.add (h : f.Guarded) (name : String) {index : Nat}
    (admitted : f.admits index = true) : (f.add name index).Guarded := by
  unfold Floor.add
  split
  · exact h
  · split
    · rename_i guard found
      have new := (guardAt_eq_some.mp found).1
      refine ⟨fun a ha => ?_, fun a b g ha hb => ?_, fun a g ha => ?_, fun a ha b hb same => ?_,
        h.locked⟩
      · rcases mem_holders_register ha with old | rfl
        · exact h.guardAt old
        · exact found
      · exact h.apart a b g (guardAt_eq_some.mp ha).1 (guardAt_eq_some.mp hb).1
      · exact h.made a g (guardAt_eq_some.mp ha).1
      · rcases mem_holders_register ha with oldA | rfl <;>
          rcases mem_holders_register hb with oldB | rfl
        · exact h.alone a oldA b oldB same
        · exact ne_address_of_admits admitted oldA same
        · exact (ne_address_of_admits admitted oldB same.symm).symm
        · rfl
    · rename_i missing
      -- Nothing at the address is alive, and the guard is one that was not there.
      have free : ∀ a ∈ f.holders, f.address a.1 ≠ f.address index := by
        intro a ha same
        have there := h.guardAt ha
        rw [same, missing] at there
        cases there
      have old : ∀ a g, f.guardAt a = some g → g < f.made := fun a g hg =>
        h.made a g (guardAt_eq_some.mp hg).1
      refine ⟨fun a ha => ?_, fun a b g ha hb => ?_, fun a g ha => ?_, fun a ha b hb same => ?_,
        h.locked⟩
      · rcases mem_holders_register ha with before | rfl
        · exact (if_neg (free a before)).trans (h.guardAt before)
        · exact if_pos rfl
      · dsimp only at ha hb
        split at ha <;> split at hb
        · rename_i hereA hereB
          exact hereA.trans hereB.symm
        · rw [← Option.some.inj ha] at hb
          exact absurd (old b _ hb) (Nat.lt_irrefl _)
        · rw [← Option.some.inj hb] at ha
          exact absurd (old a _ ha) (Nat.lt_irrefl _)
        · exact h.apart a b g (guardAt_eq_some.mp ha).1 (guardAt_eq_some.mp hb).1
      · dsimp only at ha ⊢
        split at ha
        · rw [← Option.some.inj ha]
          exact Nat.lt_succ_self _
        · exact Nat.lt_succ_of_lt (old a g ha)
      · rcases mem_holders_register ha with oldA | rfl <;>
          rcases mem_holders_register hb with oldB | rfl
        · exact h.alone a oldA b oldB same
        · exact absurd same (free a oldA)
        · exact absurd same.symm (free b oldB)
        · rfl

/-! ### Locks -/

/-- An element of a list with one more behind it is an old one or the new one. -/
theorem getElem?_concat {α : Type} {as : List α} {j : Nat} {x y : α} (h : (as ++ [y])[j]? = some x) :
    as[j]? = some x ∨ (j = as.length ∧ x = y) := by
  rw [List.getElem?_append] at h
  split at h
  · exact .inl h
  · rename_i behind
    rw [List.getElem?_singleton] at h
    split at h
    · exact .inr ⟨by omega, (Option.some.inj h).symm⟩
    · cases h

/-- A guard is locked if a job runs under it. -/
theorem locked_eq_true {guard : Nat} :
    f.locked guard = true ↔ ∃ x ∈ f.jobs, x.runs = true ∧ x.guard = guard := by
  simp only [Floor.locked, List.any_eq_true, Bool.and_eq_true, decide_eq_true_eq]

/-- Registering a generator leaves all jobs as they are. -/
theorem jobs_add (f : Floor) (name : String) (index : Nat) : (f.add name index).jobs = f.jobs := by
  unfold Floor.add
  split
  · rfl
  · split <;> rfl

/-- What runs after a step ran before it, or it was just taken up and its guard was not locked. -/
theorem Step.runs {m : Move} {f' : Floor} (h : Step f m f') {j : Nat} {x : Job}
    (hx : f'.jobs[j]? = some x) (runs : x.runs = true) :
    f.jobs[j]? = some x ∨ (m = .start j ∧ f.locked x.guard = false) := by
  cases h with
  | idle | remove | openPass | settle | closePass => exact .inl hx
  | add =>
    rw [jobs_add] at hx
    exact .inl hx
  | submit =>
    rcases getElem?_concat hx with old | ⟨-, rfl⟩
    · exact .inl old
    · cases runs
  | start job stage =>
    rcases getElem?_setStage hx with ⟨-, old⟩ | ⟨rfl, y, hy, rfl⟩
    · exact .inl old
    · rw [job] at hy
      cases hy
      dsimp only [Job.runs] at runs ⊢
      split at runs
      · rename_i running
        split at running
        · cases running
        · rename_i free
          exact .inr ⟨rfl, Bool.eq_false_iff.mpr free⟩
      · cases runs
  | finish job stage =>
    rcases getElem?_setStage hx with ⟨-, old⟩ | ⟨rfl, y, -, rfl⟩
    · exact .inl old
    · cases runs

/-- A step locks no guard that is locked. -/
theorem Step.locked {m : Move} {f' : Floor} (h : Step f m f') (guarded : f.Guarded) (j j' : Nat)
    (x x' : Job) (hx : f'.jobs[j]? = some x) (hx' : f'.jobs[j']? = some x') (runs : x.runs = true)
    (runs' : x'.runs = true) (same : x.guard = x'.guard) : j = j' := by
  have apart {k : Nat} {y : Job} (hy : f.jobs[k]? = some y) (running : y.runs = true) {guard : Nat}
      (free : f.locked guard = false) : y.guard ≠ guard := by
    rintro rfl
    rw [locked_eq_true.mpr ⟨y, List.mem_of_getElem? hy, running, rfl⟩] at free
    cases free
  rcases h.runs hx runs with old | ⟨first, free⟩ <;> rcases h.runs hx' runs' with old' | ⟨second, free'⟩
  · exact guarded.locked j j' x x' old old' runs runs' same
  · exact absurd same (apart old runs free')
  · exact absurd same.symm (apart old' runs' free)
  · rw [first] at second
    exact Move.start.inj second

/-- A move keeps the guards in order, whichever step it is. -/
theorem Guarded.move (h : f.Guarded) (m : Move) : (f.move m).Guarded := by
  have step := step_move f m
  rcases step.holders with ⟨address, guards, made, holders⟩ | ⟨name, index, admitted, added⟩
  · refine ⟨?_, ?_, ?_, ?_, step.locked h⟩
    · rw [address, guards]
      exact fun a ha => h.remembered a (holders a ha)
    · rw [guards]
      exact h.apart
    · rw [guards, made]
      exact h.made
    · rw [address]
      exact fun a ha b hb => h.alone a (holders a ha) b (holders b hb)
  · rw [added]
    exact h.add name admitted

/-- Any number of moves keeps the guards in order, by induction on them. -/
theorem Guarded.moveAll (h : f.Guarded) (ms : List Move) : (f.moveAll ms).Guarded := by
  induction ms generalizing f with
  | nil => exact h
  | cons m ms ih => exact ih (h.move m)

/-! ### Executions -/

/-- Is the generator being executed? -/
def executes (f : Floor) (index : Nat) : Bool :=
  f.jobs.any fun x => x.runs && x.index = index

/-- A generator is being executed if a job of it runs. -/
theorem executes_eq_true {index : Nat} :
    f.executes index = true ↔ ∃ x ∈ f.jobs, x.runs = true ∧ x.index = index := by
  simp only [executes, List.any_eq_true, Bool.and_eq_true, decide_eq_true_eq]

/-- A job that is not over holds its generator and its guard. -/
theorem holders_of_alive {x : Job} (hx : x ∈ f.jobs) (alive : x.alive = true) :
    (x.index, x.guard) ∈ f.holders :=
  mem_holders.mpr (.inr ⟨x, hx, alive, rfl⟩)

/-- No two executions of a generator run. -/
theorem Guarded.one_execution (h : f.Guarded) {j j' : Nat} {x x' : Job} (hx : f.jobs[j]? = some x)
    (hx' : f.jobs[j']? = some x') (runs : x.runs = true) (runs' : x'.runs = true)
    (same : x.index = x'.index) : j = j' := by
  have first := holders_of_alive (List.mem_of_getElem? hx) (alive_of_runs runs)
  have second := holders_of_alive (List.mem_of_getElem? hx') (alive_of_runs runs')
  exact h.locked j j' x x' hx hx' runs runs' ((h.guard_eq_iff first second).mpr same)

/-- The guard of a job that is alive is locked if and only if its generator is being executed. -/
theorem Guarded.locked_eq (h : f.Guarded) {x : Job} (hx : x ∈ f.jobs) (alive : x.alive = true) :
    f.locked x.guard = f.executes x.index := by
  have holds := holders_of_alive hx alive
  rw [Bool.eq_iff_iff, locked_eq_true, executes_eq_true]
  constructor
  · rintro ⟨y, hy, runs, same⟩
    exact ⟨y, hy, runs, (h.guard_eq_iff (holders_of_alive hy (alive_of_runs runs)) holds).mp same⟩
  · rintro ⟨y, hy, runs, same⟩
    exact ⟨y, hy, runs, (h.guard_eq_iff (holders_of_alive hy (alive_of_runs runs)) holds).mpr same⟩

/-- A job that is taken up is refused if its generator is being executed, and else it runs. -/
theorem Guarded.move_start (h : f.Guarded) {j : Nat} {x : Job} (hx : f.jobs[j]? = some x)
    (stage : x.stage = .submitted) :
    f.move (.start j) = f.setStage j (if f.executes x.index then .refused else .running) := by
  have alive : x.alive = true := by rw [Job.alive, stage]
  rw [← h.locked_eq (List.mem_of_getElem? hx) alive]
  obtain ⟨index, guard, _⟩ := x
  cases stage
  unfold Floor.move
  dsimp only
  rw [hx]

end Floor

end DeclFront
