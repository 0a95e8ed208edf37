import DeclFront.Proofs.Generator.Stepwise

/-!
# Executions that outlive their pass

An execution can outlive the pass that began it, and the registration of its generator. Whatever is done
with the driver meanwhile, no second execution of the generator begins, and what the first one comes to
in the end is seen by nobody. All that happens to a driver that is told what to do is a sequence of such
steps.
-/

set_option autoImplicit false

namespace DeclFront

variable {σ : Type}

/-- What holds of executions and their guards at a time. -/
structure Floor.Exclusive (f : Floor) : Prop where
  /-- Who holds one generator, be it a registration or a job that is not over, holds one guard with it,
  and who holds different ones holds different guards. -/
  guards : ∀ a ∈ f.holders, ∀ b ∈ f.holders, a.2 = b.2 ↔ a.1 = b.1
  /-- At most one execution of a generator runs. -/
  one : ∀ (j j' : Nat) (x x' : Job), f.jobs[j]? = some x → f.jobs[j']? = some x' →
    x.stage = .running → x'.stage = .running → x.index = x'.index → j = j'
  /-- A job that is taken up while its generator is executed is refused, and any other one runs. -/
  attempt : ∀ (j : Nat) (x : Job), f.jobs[j]? = some x → x.stage = .submitted →
    f.move (.start j) = f.setStage j (if f.executes x.index then .refused else .running)
  /-- A job that was refused or has ended stays as it is. -/
  stays : ∀ (j : Nat) (x : Job), f.jobs[j]? = some x → x.alive = false →
    ∀ ms, (f.moveAll ms).jobs[j]? = some x
  /-- A job that was refused makes its generator busy, and changes no entry. -/
  refused : ∀ (n k j : Nat) (x : Job) (c : Compilation) (r : Registration) (fingerprint : Fingerprint),
    f.place? n k = some (c, r, .pending fingerprint j) → f.jobs[j]? = some x → x.stage = .refused →
    f.move (.receive n k) = f.put n k r r.entry (.settled (r.entry.failure .busy
      (r.entry.report (.generatorBusy r.entry.name)))) ∧
    (f.move (.receive n k)).registrations = f.registrations
  /-- A job that is given up has timed out and changes no entry, and nobody waits for it then. -/
  givenUp : ∀ (n k j : Nat) (c : Compilation) (r : Registration) (fingerprint : Fingerprint),
    f.place? n k = some (c, r, .pending fingerprint j) →
    f.move (.giveUp n k) = f.put n k r r.entry (.settled (r.entry.failure .timedOut
      (r.entry.report (.generatorTimedOut r.entry.name f.config.timeoutMs)))) ∧
    (f.move (.giveUp n k)).registrations = f.registrations ∧ ¬(f.move (.giveUp n k)).Awaits j
  /-- A job is waited for by one pass alone, and by nobody when that has ended. -/
  outlived : ∀ n k j, f.WaitsAt n k j → ∀ ms, (f.moveAll ms).rounds[n]? = some none →
    ¬(f.moveAll ms).Awaits j
  /-- Between passes nobody waits for any. -/
  closed : f.closed = true → ∀ j, ¬f.Awaits j
  /-- A job that nobody waits for is not waited for again. -/
  forgotten : ∀ j, j < f.jobs.length → ¬f.Awaits j → ∀ ms, ¬(f.moveAll ms).Awaits j
  /-- To end is not seen, in a pass or after it. -/
  ended : ∀ j r, (f.move (.finish j r)).seen = f.seen
  /-- What an execution comes to that nobody waits for is not seen then or ever after. -/
  late : ∀ j, ¬f.Awaits j → ∀ r r' ms,
    ((f.move (.finish j r)).moveAll ms).seen = ((f.move (.finish j r')).moveAll ms).seen

namespace Floor

/-- A floor whose guards are in order lets no two executions of a generator run at once, refuses a
job that is taken up meanwhile, and does not see what comes too late. -/
theorem exclusive {f : Floor} (guarded : f.Guarded) (waits : f.Waits) : f.Exclusive where
  guards _ ha _ hb := guarded.guard_eq_iff ha hb
  one _ _ _ _ hx hx' running running' same :=
    guarded.one_execution hx hx' (runs_eq_true.mpr running) (runs_eq_true.mpr running') same
  attempt _ _ hx stage := guarded.move_start hx stage
  stays _ _ := job_moveAll
  refused n k j x c r fingerprint place job refused := by
    rw [move_receive place job (by rw [refused]; rfl), resolve_busy]
    exact ⟨rfl, registrations_put place⟩
  givenUp n k j c r fingerprint place := by
    rw [move_giveUp place, resolve_unfinished]
    exact ⟨rfl, registrations_put place, waits.not_awaits_put place _ _⟩
  outlived _ _ _ := waits.outlived
  closed := not_awaits_of_closed
  forgotten _ := not_awaits_moveAll
  ended := seen_finish f
  late _ unawaited := seen_late unawaited

end Floor

/-- Through any sequence of steps, in which passes may overlap, at most one execution of a generator
runs at a time, though it be removed and registered again; an attempt made meanwhile is refused; a
timeout or a refusal changes nothing that is kept; and what an execution comes to after its pass is
never seen. Whatever happens to a driver in a workshop, in which nothing was under way at first, is such
a sequence of steps: it leaves the same entries and passes, and the same generators being executed. -/
theorem executions_never_overlap (address : Nat → Nat) (config : Config) :
    (∀ ms, ((Floor.start address config).moveAll ms).Exclusive) ∧
    (Function.Injective address → ∀ w : Workshop σ, w.Idle → ∀ os,
      ∃ ms, ((Floor.start address config).moveAll ms).Shows
        ((Bench.start config w).undergoAll os)) := by
  constructor
  · intro ms
    exact Floor.exclusive ((Floor.guarded_start address config).moveAll ms)
      ((Floor.waits_start address config).moveAll ms)
  · intro injective w idle os
    exact (Floor.shows_start address config idle).undergoAll (Bench.sound_start config w)
      (Floor.guarded_start address config) injective os

namespace Sample

/-- A generator that writes a file when it is released. -/
def slow : Workshop Unit :=
  { instances := [⟨⟨"slow", fun s => (s, .done),
      fun s _ => (s, .wait (.addSource "slow" "type Slow { }" fun _ => .done))⟩, (), false, []⟩] }

/-- A pass over nothing executes a generator and gives it up. The generator is removed and registered
again, and the next pass asks for another execution while the first one goes on. -/
def readded : List Move :=
  [.add "slow" 0, .openPass (.ofTexts []), .plan 0 0 (.policy .anyInput), .start 0, .giveUp 0 0,
    .closePass 0, .remove "slow", .add "slow" 0, .openPass (.ofTexts []),
    .plan 1 0 (.policy .anyInput), .start 1, .receive 1 0, .closePass 1]

/-- The floor after that. -/
def readdedFloor : Floor :=
  (Floor.start id {}).moveAll readded

end Sample

/-- The first execution still runs, the second one was refused, and whatever the first one comes to is
not seen. -/
theorem readded_never_overlaps :
    Sample.readdedFloor.passes.map (fun p => p.2.2.map RunResult.status) = [[.timedOut], [.busy]] ∧
    Sample.readdedFloor.jobs = [⟨0, 0, .running⟩, ⟨0, 0, .refused⟩] ∧
    (∀ r r' ms, ((Sample.readdedFloor.move (.finish 0 r)).moveAll ms).seen =
      ((Sample.readdedFloor.move (.finish 0 r')).moveAll ms).seen) ∧
    ∀ os, ∃ ms, ((Floor.start id {}).moveAll ms).Shows ((Bench.start {} Sample.slow).undergoAll os) := by
  obtain ⟨exclusive, reached⟩ := executions_never_overlap (σ := Unit) id {}
  have now : Sample.readdedFloor.Exclusive := exclusive Sample.readded
  have idle : Sample.slow.Idle := by
    unfold Workshop.Idle
    simp [Sample.slow]
  exact ⟨rfl, rfl, now.late 0 (now.closed (by decide) 0), reached Function.injective_id _ idle⟩

end DeclFront
