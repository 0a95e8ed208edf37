import DeclFront.Proofs.Generator.Turn

/-!
# Every result accounts for itself

A result bears the name of its generator, and so do its diagnostics and its files, one for each
source. Where an execution was begun, its ending decides the result: what it emitted, if it finished,
and a single error, if it ended with an error or broke off. Where none was begun, the result repeats
that of an earlier execution or is a single diagnostic.
-/

set_option autoImplicit false

namespace DeclFront

variable {σ : Type}

/-- Everything that is reported comes from the generator of the name. -/
def Output.IsFrom (o : Output) (name : String) : Prop :=
  ∀ d ∈ o.diagnostics, d.source = .generator name

/-- The generator of the name put this out, and into these files, when it was executed in one of
the passes. -/
def Pass.Recorded (past : List Pass) (name : String) (o : Output) (files : List SourceFile) : Prop :=
  ∃ p ∈ past, ∃ r ∈ p.results, r.generator = name ∧ (r.status = .executed ∨ r.status = .faulted) ∧
    r.output = o ∧ r.files = files

/-- What was recorded in some passes is so when others follow. -/
theorem Pass.Recorded.mono {past : List Pass} {name : String} {o : Output} {files : List SourceFile}
    (h : Recorded past name o files) (later : List Pass) :
    Recorded (past ++ later) name o files := by
  obtain ⟨p, hp, rest⟩ := h
  exact ⟨p, List.mem_append_left later hp, rest⟩

/-- What is kept was put out before, and comes from the generator of the name. -/
structure CachedRun.Sound (x : CachedRun) (past : List Pass) (name : String) : Prop where
  files : List.Forall₂ (GeneratedSource.Filed name) x.output.sources x.files
  source : x.output.IsFrom name
  recorded : Pass.Recorded past name x.output x.files

/-- What an entry keeps after some passes comes from its generator. -/
structure Entry.Sound (e : Entry) (past : List Pass) : Prop where
  unprepared : ∀ d, e.prepared = some (.error d) → d.source = .generator e.name ∧ d.isError = true
  kept : ∀ x, e.cache = some x → x.Sound past e.name

/-- The result of a turn of the generator called `name` over some inputs, after some passes, given
the worker whose execution was begun in it. Of an execution that finished it has the emissions: the
diagnostics in their order, and in theirs the sources, each in a file of its own. What is used again
was put out in one of the passes, into the same files. -/
structure RunResult.Accounts (r : RunResult) (past : List Pass) (c : Compilation) (name : String) (begun : Option (Worker σ)) : Prop where
  generator : r.generator = name
  files : List.Forall₂ (GeneratedSource.Filed name) r.output.sources r.files
  source : r.output.IsFrom name
  finished : ∀ k output, begun = some k → (k.trace c).ending = .finished output →
      r.status = .executed ∧ r.output = Output.emit {} name (k.emissions c) ∧
        List.Forall₂ (GeneratedSource.Filed name) ((k.emissions c).filterMap Emission.source?) r.files
  faulted : ∀ k reason, begun = some k → (k.trace c).ending = .faulted reason →
      ∃ d, d.isError = true ∧ r = ⟨name, .faulted, ⟨[], [d]⟩, []⟩
  waiting : ∀ k progress next, begun = some k → (k.trace c).ending = .waiting progress next →
      ∃ d, d.isError = true ∧ r = ⟨name, .timedOut, ⟨[], [d]⟩, []⟩
  unbegun : begun = none →
      (r.status = .cached ∧ Pass.Recorded past name r.output r.files) ∨
      (∃ d, r = ⟨name, .busy, ⟨[], [d]⟩, []⟩) ∨
      ∃ d, d.isError = true ∧ r = ⟨name, .unprepared, ⟨[], [d]⟩, []⟩

namespace Entry

/-- The worker as it is when an execution is begun in the turn of an entry, if one is. -/
def begun (config : Config) (c : Compilation) (e : Entry) (k : Option (Worker σ)) : Option (Worker σ) :=
  match e.ready config k with
  | (.error _, _, _) => none
  | (.ok policy, e, k) =>
    match e.kept (policy.fingerprint c) with
    | some _ => none
    | none => k.filter fun k => !k.busy

variable {config : Config} {c : Compilation} {e : Entry} {k : Option (Worker σ)} {past : List Pass}

/-! ### What a preparation leaves -/

section Ready

variable {p : Except Diagnostic Policy} {e₁ : Entry} {k₁ : Option (Worker σ)}

/-- The entry of a generator that was prepared keeps how that went, and is otherwise as it was. -/
theorem ready_entry (h : e.ready config k = (p, e₁, k₁)) : e₁ = { e with prepared := some p } := by
  unfold ready at h
  split at h <;> cases h
  · rename_i kept
    rw [← kept]
  · rfl

/-- A preparation leaves an entry its name. -/
theorem ready_name (h : e.ready config k = (p, e₁, k₁)) : e₁.name = e.name := by
  rw [ready_entry h]

/-- A preparation leaves a worker of the same generator. -/
theorem ready_generator (h : e.ready config k = (p, e₁, k₁)) :
    k₁.map Worker.generator = k.map Worker.generator := by
  unfold ready at h
  split at h <;> cases h
  · rfl
  · cases k <;> rfl

/-- What is kept of a preparation that went wrong is an error that comes from the generator. -/
theorem preparedBy_error {prepared : Prepared} {d : Diagnostic}
    (h : e.preparedBy config prepared = .error d) :
    d.source = .generator e.name ∧ d.isError = true := by
  cases prepared <;> cases h <;> exact ⟨rfl, rfl⟩

/-- What an entry keeps stays accounted for when one more pass has been made. -/
theorem Sound.mono (sound : e.Sound past) (p : Pass) : e.Sound (past ++ [p]) := by
  refine ⟨sound.unprepared, ?_⟩
  intro x hx
  obtain ⟨files, source, recorded⟩ := sound.kept x hx
  exact ⟨files, source, recorded.mono [p]⟩

/-- A preparation keeps an entry sound: if it went wrong, the report of it comes from
the generator. -/
theorem Sound.ready (sound : e.Sound past) (h : e.ready config k = (p, e₁, k₁)) :
    e₁.Sound past := by
  unfold Entry.ready at h
  split at h <;> cases h
  · exact sound
  · refine ⟨?_, sound.kept⟩
    intro d hd
    exact preparedBy_error (Option.some.inj hd)

end Ready

/-! ### How a turn goes -/

/-- A turn, given the worker whose execution was begun in it: the generator could not be prepared,
or what was kept is used again, or an execution is attempted. -/
inductive Taken (config : Config) (c : Compilation) (e : Entry) (k : Option (Worker σ)) : Option (Worker σ) → Turn σ → Prop
  | unprepared {d : Diagnostic} {e₁ : Entry} {k₁ : Option (Worker σ)}
      (ready : e.ready config k = (.error d, e₁, k₁)) :
      Taken config c e k none ⟨e₁.failure .unprepared d, e₁, k₁⟩
  | reused {policy : Policy} {e₁ : Entry} {k₁ : Option (Worker σ)} {x : CachedRun}
      (ready : e.ready config k = (.ok policy, e₁, k₁)) (cache : e₁.cache = some x) :
      Taken config c e k none ⟨⟨e₁.name, .cached, x.output, x.files⟩, e₁, k₁⟩
  | attempted {policy : Policy} {e₁ : Entry} {k₁ : Option (Worker σ)}
      (ready : e.ready config k = (.ok policy, e₁, k₁)) :
      Taken config c e k (k₁.filter fun k => !k.busy)
        (e₁.attempted config (policy.fingerprint c) (Worker.execute? c k₁))

/-- Every turn goes in one of the three ways, and in the third alone may an execution be begun. -/
theorem turn_taken (config : Config) (c : Compilation) (e : Entry) (k : Option (Worker σ)) :
    Taken config c e k (e.begun config c k) (e.turn config c k) := by
  unfold begun turn
  rcases ready : e.ready config k with ⟨d | policy, e₁, k₁⟩
  · exact .unprepared ready
  · dsimp only
    cases kept : e₁.kept (policy.fingerprint c) with
    | some x => exact .reused ready (kept_eq_some.mp kept).1
    | none => exact .attempted ready

end Entry

namespace RunResult.Accounts

variable {config : Config} {c : Compilation} {e : Entry} {past : List Pass} {name : String}
  {d : Diagnostic}

/-- An entry that could not be prepared accounts for it by the error that it keeps. -/
theorem unprepared (hd : d.source = .generator e.name) (error : d.isError = true) :
    (e.failure .unprepared d).Accounts past c e.name (none : Option (Worker σ)) where
  generator := rfl
  files := .nil
  source := List.forall_mem_singleton.mpr hd
  finished := nofun
  faulted := nofun
  waiting := nofun
  unbegun := fun _ => .inr (.inr ⟨d, error, rfl⟩)

/-- What is used again accounts for itself by the pass in which it was put out. -/
theorem reused {x : CachedRun} (sound : x.Sound past e.name) :
    RunResult.Accounts ⟨e.name, .cached, x.output, x.files⟩ past c e.name
      (none : Option (Worker σ)) where
  generator := rfl
  files := sound.files
  source := sound.source
  finished := nofun
  faulted := nofun
  waiting := nofun
  unbegun := fun _ => .inl ⟨rfl, sound.recorded⟩

/-- A generator that was passed over, since an execution of it has not finished, is accounted for by
a single diagnostic. -/
theorem busy : (e.failure .busy (e.report (.generatorBusy e.name))).Accounts past c e.name
    (none : Option (Worker σ)) where
  generator := rfl
  files := .nil
  source := List.forall_mem_singleton.mpr rfl
  finished := nofun
  faulted := nofun
  waiting := nofun
  unbegun := fun _ => .inr (.inl ⟨_, rfl⟩)

/-- An execution that was begun decides the result by how it ends. -/
theorem executed {k : Worker σ} (named : k.generator.name = e.name) (fingerprint : Fingerprint)
    (after : Option (Worker σ)) :
    (e.attempted config fingerprint ((k.trace c).ending.attempt, after)).result.Accounts past c
      e.name (some k) := by
  cases ending : (k.trace c).ending with
  | finished output =>
    have emitted : output = Output.emit {} e.name (k.emissions c) :=
      named ▸ Worker.output_eq_emit ending
    have filed := output.files_filed e.name
    refine ⟨rfl, filed, ?_, ?_, ?_, ?_, nofun⟩
    · show output.IsFrom e.name
      rw [emitted]
      exact fun d hd => Output.source_of_mem_emit hd
    · rintro k' output' ⟨⟩ _
      -- An output that starts empty has no sources but the emitted ones.
      have sources : output.sources = (k.emissions c).filterMap Emission.source? :=
        congrArg Output.sources emitted
      rw [sources] at filed
      exact ⟨rfl, emitted, filed⟩
    · rintro k' reason ⟨⟩ faulted
      cases ending.symm.trans faulted
    · rintro k' progress next ⟨⟩ waiting
      cases ending.symm.trans waiting
  | faulted reason =>
    refine ⟨rfl, .nil, List.forall_mem_singleton.mpr rfl, ?_, ?_, ?_, nofun⟩
    · rintro k' output ⟨⟩ finished
      cases ending.symm.trans finished
    · rintro k' reason' ⟨⟩ _
      exact ⟨_, rfl, rfl⟩
    · rintro k' progress next ⟨⟩ waiting
      cases ending.symm.trans waiting
  | waiting progress next =>
    refine ⟨rfl, .nil, List.forall_mem_singleton.mpr rfl, ?_, ?_, ?_, nofun⟩
    · rintro k' output ⟨⟩ finished
      cases ending.symm.trans finished
    · rintro k' reason ⟨⟩ faulted
      cases ending.symm.trans faulted
    · rintro k' progress' next' ⟨⟩ _
      exact ⟨_, rfl, rfl⟩

end RunResult.Accounts

namespace Entry

variable {config : Config} {c : Compilation} {e : Entry} {past : List Pass} {k : Worker σ}

/-- An attempt accounts for itself, by the ending of the execution if one was begun, and as passed
over if the worker was busy. -/
theorem attempted_accounts (named : k.generator.name = e.name) (fingerprint : Fingerprint) :
    (e.attempted config fingerprint (Worker.execute? c (some k))).result.Accounts past c e.name
      ((some k).filter fun k => !k.busy) := by
  cases busy : k.busy with
  | true =>
    rw [Worker.execute?, Worker.execute_busy busy, Option.filter_some_neg (by simp [busy])]
    exact .busy
  | false =>
    rw [Worker.execute?, Worker.execute_idle busy, Option.filter_some_pos (by simp [busy])]
    exact .executed named fingerprint _

/-- The result of a turn accounts for itself, in whichever way the turn went. -/
theorem Taken.accounts {b : Option (Worker σ)} {t : Turn σ} (h : Taken config c e (some k) b t)
    (sound : e.Sound past) (named : k.generator.name = e.name) :
    t.result.Accounts past c e.name b := by
  cases h with
  | unprepared ready =>
    have prepared := congrArg Entry.prepared (ready_entry ready)
    obtain ⟨source, error⟩ := (sound.ready ready).unprepared _ prepared
    rw [← ready_name ready]
    exact .unprepared source error
  | reused ready cache =>
    rw [← ready_name ready]
    exact .reused ((sound.ready ready).kept _ cache)
  | attempted ready =>
    obtain ⟨k₁, rfl, same⟩ := Option.map_eq_some_iff.mp (ready_generator ready)
    rw [← ready_name ready] at named ⊢
    exact attempted_accounts (same ▸ named) _

/-- Of an attempt, the entry keeps nothing but the result of an execution. -/
theorem attempted_entry (fingerprint : Fingerprint) (a : Attempt × Option (Worker σ)) :
    (e.attempted config fingerprint a).entry = e ∨
      (e.attempted config fingerprint a).entry =
          e.store fingerprint (e.attempted config fingerprint a).result ∧
        ((e.attempted config fingerprint a).result.status = .executed ∨
          (e.attempted config fingerprint a).result.status = .faulted) := by
  obtain ⟨attempt, k⟩ := a
  cases attempt with
  | finished output => exact .inr ⟨rfl, .inl rfl⟩
  | faulted reason => exact .inr ⟨rfl, .inr rfl⟩
  | busy => exact .inl rfl
  | unfinished => exact .inl rfl

/-- The result of an execution may be kept, once it stands in a pass. -/
theorem Sound.store {b : Option (Worker σ)} {r : RunResult} (sound : e.Sound past)
    (accounts : r.Accounts past c e.name b) (status : r.status = .executed ∨ r.status = .faulted)
    {p : Pass} (hp : r ∈ p.results) (fingerprint : Fingerprint) :
    (e.store fingerprint r).Sound (past ++ [p]) := by
  refine ⟨sound.unprepared, ?_⟩
  intro x hx
  cases hx
  exact ⟨accounts.files, accounts.source, p, List.mem_append_right past (List.mem_singleton_self p),
    r, hp, accounts.generator, status, rfl, rfl⟩

/-- What an entry keeps after a turn comes from its generator, once the result is in a pass. -/
theorem Taken.sound {b : Option (Worker σ)} {t : Turn σ} (h : Taken config c e (some k) b t)
    (sound : e.Sound past) (named : k.generator.name = e.name) {p : Pass}
    (hp : t.result ∈ p.results) : t.entry.Sound (past ++ [p]) := by
  have accounts := h.accounts sound named
  cases h with
  | unprepared ready => exact (sound.ready ready).mono p
  | reused ready => exact (sound.ready ready).mono p
  | attempted ready =>
    rw [← ready_name ready] at accounts
    rcases attempted_entry _ _ with kept | ⟨stored, status⟩
    · rw [kept]
      exact (sound.ready ready).mono p
    · rw [stored]
      exact (sound.ready ready).store accounts status hp _

/-- A turn leaves the registration as it is, under its name and of its generator. -/
theorem Taken.registration {k b : Option (Worker σ)} {t : Turn σ} (h : Taken config c e k b t) :
    t.entry.name = e.name ∧ t.entry.index = e.index := by
  have registered : ∀ {p e₁ k₁}, e.ready config k = (p, e₁, k₁) →
      e₁.name = e.name ∧ e₁.index = e.index := by
    intro p e₁ k₁ ready
    rw [ready_entry ready]
    exact ⟨rfl, rfl⟩
  cases h with
  | unprepared ready => exact registered ready
  | reused ready => exact registered ready
  | attempted ready =>
    obtain ⟨name, index⟩ := registered ready
    rcases attempted_entry _ _ with kept | ⟨stored, -⟩
    · rw [kept]
      exact ⟨name, index⟩
    · rw [stored]
      exact ⟨name, index⟩

/-- A turn leaves a worker of the same generator. -/
theorem Taken.generator {k b : Option (Worker σ)} {t : Turn σ} (h : Taken config c e k b t) :
    t.worker.map Worker.generator = k.map Worker.generator := by
  cases h with
  | unprepared ready => exact ready_generator ready
  | reused ready => exact ready_generator ready
  | @attempted policy e₁ k₁ ready =>
    rw [← ready_generator ready]
    cases k₁ with
    | none => rfl
    | some k₁ => exact congrArg some (k₁.execute_generator c)

end Entry

end DeclFront
