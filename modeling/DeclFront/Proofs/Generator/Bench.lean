import DeclFront.Proofs.Generator.Contribution
import Mathlib.Data.List.Nodup

/-!
# Histories of a driver

A bench is a driver in its workshop with the passes that it has made, and a history is a list of
directives to it. After every history the registered generators are those that they ask for, in
order of registration, and the pass that is made next consists of their turns: each result accounts
for itself, and the files and the diagnostics are those of the results behind one another.
-/

set_option autoImplicit false

namespace DeclFront

variable {σ : Type}

/-- What a driver can be told to do. Generators are named by their number in the workshop. -/
inductive Directive where
  | add (index : Nat)
  | remove (name : String)
  /-- A pass over a new snapshot. -/
  | run (c : Compilation)
  /-- A pass over what an earlier pass came to. -/
  | rerun (pass : Nat)

/-- The name of a generator of the workshop. -/
def Workshop.name? (w : Workshop σ) (i : Nat) : Option String :=
  w.instances[i]?.map fun x => x.generator.name

/-- A driver in its workshop, and the passes that it has made. -/
structure Bench (σ : Type) where
  driver : Driver
  workshop : Workshop σ
  passes : List Pass := []

namespace Bench

/-- A bench on which nothing has been done yet. -/
def start (config : Config) (w : Workshop σ) : Bench σ :=
  ⟨{ config }, w, []⟩

/-- The bench after one more pass. -/
def pass (b : Bench σ) (s : Snapshot) : Bench σ :=
  let (p, driver, workshop) := b.driver.run s b.workshop
  ⟨driver, workshop, b.passes ++ [p]⟩

/-- The bench after a directive. One that fails changes nothing. -/
def perform (b : Bench σ) : Directive → Bench σ
  | .add i =>
    match b.workshop.name? i with
    | none => b
    | some name =>
      match b.driver.add name i with
      | .error _ => b
      | .ok driver => { b with driver }
  | .remove name => { b with driver := (b.driver.remove name).2 }
  | .run c =>
    let (s, workshop) := b.workshop.snapshot c
    { b with workshop }.pass s
  | .rerun n =>
    match b.passes[n]? with
    | none => b
    | some p => b.pass p.snapshot

/-- The bench after a history. -/
def performAll (b : Bench σ) (cs : List Directive) : Bench σ :=
  cs.foldl perform b

end Bench

namespace Directive

/-- Does the directive add or remove the generator called `name`? -/
def concerns (w : Workshop σ) (name : String) : Directive → Bool
  | add i => w.name? i = some name
  | remove other => other = name
  | run _ | rerun _ => false

/-- The names of the registered generators, in order of registration, after a directive. -/
def register (w : Workshop σ) (names : List String) : Directive → List String
  | add i =>
    match w.name? i with
    | none => names
    | some name => if name ∈ names then names else names ++ [name]
  | remove name => names.filter (· ≠ name)
  | run _ | rerun _ => names

end Directive

namespace Bench

/-! ### What holds after every history -/

/-- The generators are those of the workshop `w`, each entry registers one of them under its name,
no two under one, and what the entries keep comes from them. -/
structure Sound (w : Workshop σ) (b : Bench σ) : Prop where
  name? : b.workshop.name? = w.name?
  distinct : b.driver.names.Nodup
  registered : ∀ e ∈ b.driver.entries, w.name? e.index = some e.name
  sound : ∀ e ∈ b.driver.entries, e.Sound b.passes

/-- A pass over a snapshot accounts for itself: its files and diagnostics are those of the results,
which are the results of the turns of the registered generators, in order. -/
structure Accounts (b : Bench σ) (s : Snapshot) (p : Pass) : Prop where
  inputs : p.snapshot.compilation.inputs = s.compilation.inputs
  generated : p.snapshot.compilation.generated = p.results.flatMap (·.files)
  diagnostics : p.diagnostics = p.results.flatMap (·.output.diagnostics)
  results : List.Forall₂ (fun e r => ∃ k, b.workshop.workers e.index = some k ∧
      k.generator.name = e.name ∧
      r.Accounts b.passes s.compilation.withoutGenerated e.name
        (e.begun b.driver.config s.compilation.withoutGenerated (some k)))
    b.driver.entries p.results

end Bench

/-! ### Generators by name -/

/-- The name of a generator is that of its worker. -/
theorem Workshop.name?_eq (w : Workshop σ) (i : Nat) :
    w.name? i = (w.workers i).map fun k => k.generator.name := by
  rw [name?, workers, Option.map_map]
  rfl

/-- Changing a generator leaves all generators their names, if it leaves its own. -/
theorem Workshop.name?_update (w : Workshop σ) (i : Nat) {f : Instance σ → Instance σ}
    (named : ∀ x, (f x).generator.name = x.generator.name) : (w.update i f).name? = w.name? := by
  funext j
  unfold name? update
  rw [List.getElem?_modify]
  cases w.instances[j]? with
  | none => rfl
  | some x =>
    show some (if i = j then f x else x).generator.name = some x.generator.name
    split
    · rw [named]
    · rfl

namespace Driver

variable {config : Config} {c : Compilation} {es es' : List Entry} {rs : List RunResult}
  {before after : Nat → Option (Worker σ)}

/-- The turns leave at every number a worker of the same generator, whether it had a turn or not. -/
theorem Turned.generators (h : Turned config c es before rs es' after) (i : Nat) :
    (after i).map Worker.generator = (before i).map Worker.generator := by
  by_cases hi : i ∈ es.map Entry.index
  · obtain ⟨e, he, rfl⟩ := List.mem_map.mp hi
    rw [h.own e he]
    exact (Entry.turn_taken config c e _).generator
  · rw [h.others i hi]

/-- The entries after their turns are of the same registrations as before. -/
theorem Turned.registrations (h : Turned config c es before rs es' after) :
    es'.map (fun e => (e.name, e.index)) = es.map fun e => (e.name, e.index) := by
  rw [h.entries, List.map_map]
  refine List.map_congr_left fun e _ => ?_
  obtain ⟨name, index⟩ := (Entry.turn_taken config c e (before e.index)).registration
  exact Prod.ext name index

/-- Every entry after the turns goes back to one before them, with its name and its generator. -/
theorem Turned.exists_registration (h : Turned config c es before rs es' after) {e' : Entry}
    (he' : e' ∈ es') : ∃ e ∈ es, e.name = e'.name ∧ e.index = e'.index := by
  have kept := List.mem_map_of_mem (f := fun e : Entry => (e.name, e.index)) he'
  rw [h.registrations] at kept
  obtain ⟨e, he, same⟩ := List.mem_map.mp kept
  exact ⟨e, he, congrArg Prod.fst same, congrArg Prod.snd same⟩

end Driver

namespace Bench

variable {w : Workshop σ} {b : Bench σ}

/-- A new bench is sound: nothing is registered and nothing is kept. -/
theorem sound_start (config : Config) (w : Workshop σ) : (start config w).Sound w := by
  constructor
  · rfl
  · exact List.nodup_nil
  · exact List.forall_mem_nil _
  · exact List.forall_mem_nil _

/-- Every entry has a worker, of a generator of its name. -/
theorem Sound.worker (h : b.Sound w) {e : Entry} (he : e ∈ b.driver.entries) :
    ∃ k, b.workshop.workers e.index = some k ∧ k.generator.name = e.name := by
  have named := h.registered e he
  rw [← h.name?, Workshop.name?_eq] at named
  exact Option.map_eq_some_iff.mp named

/-- No two entries are of one generator. -/
theorem Sound.indices (h : b.Sound w) : (b.driver.entries.map Entry.index).Nodup := by
  have names : (b.driver.entries.map Entry.index).map w.name? = b.driver.names.map some := by
    rw [Driver.names, List.map_map, List.map_map]
    exact List.map_congr_left h.registered
  refine List.Nodup.of_map w.name? ?_
  rw [names]
  exact h.distinct.map fun _ _ => Option.some.inj

/-! ### What a pass does -/

/-- A pass consists of the turns of the entries. -/
theorem Sound.run_turned (h : b.Sound w) (s : Snapshot) :
    ∃ rs es' w' id, b.driver.run s b.workshop =
        (⟨⟨id, ⟨s.compilation.inputs, RunResult.allFiles rs⟩⟩, RunResult.allDiagnostics rs, rs⟩,
          { b.driver with entries := es' }, w') ∧
      Driver.Turned b.driver.config s.compilation.withoutGenerated b.driver.entries
        b.workshop.workers rs es' w'.workers :=
  Driver.run_turned b.driver s b.workshop h.indices

/-- The result of a turn of an entry accounts for itself. -/
theorem Sound.turn_accounts (h : b.Sound w) {e : Entry} (he : e ∈ b.driver.entries)
    (c : Compilation) :
    ∃ k, b.workshop.workers e.index = some k ∧ k.generator.name = e.name ∧
      (e.turn b.driver.config c (b.workshop.workers e.index)).result.Accounts b.passes c e.name
        (e.begun b.driver.config c (some k)) := by
  obtain ⟨k, own, named⟩ := h.worker he
  rw [own]
  exact ⟨k, rfl, named, (Entry.turn_taken _ c e (some k)).accounts (h.sound e he) named⟩

/-- The next pass over any snapshot accounts for itself. -/
theorem Sound.run_accounts (h : b.Sound w) (s : Snapshot) :
    b.Accounts s (b.driver.run s b.workshop).1 := by
  obtain ⟨rs, es', w', id, ran, turned⟩ := h.run_turned s
  rw [ran]
  refine ⟨rfl, rfl, rfl, ?_⟩
  dsimp only
  rw [turned.results, List.forall₂_map_right_iff, List.forall₂_same]
  intro e he
  exact h.turn_accounts he _

/-- A pass leaves the registrations as they are. -/
theorem Sound.names_pass (h : b.Sound w) (s : Snapshot) :
    (b.pass s).driver.names = b.driver.names := by
  obtain ⟨rs, es', w', id, ran, turned⟩ := h.run_turned s
  unfold Bench.pass Driver.names
  rw [ran]
  dsimp only
  rw [turned.entries, List.map_map]
  exact List.map_congr_left fun e _ => (Entry.turn_taken _ _ e _).registration.1

/-- A pass keeps the bench sound. What the entries keep from now on was put out in that pass, if it
was not in one before. -/
theorem Sound.pass (h : b.Sound w) (s : Snapshot) : (b.pass s).Sound w := by
  have distinct : (b.pass s).driver.names.Nodup := by
    rw [h.names_pass]
    exact h.distinct
  obtain ⟨rs, es', w', id, ran, turned⟩ := h.run_turned s
  unfold Bench.pass at distinct ⊢
  rw [ran] at distinct ⊢
  refine ⟨?_, distinct, ?_, ?_⟩
  · funext i
    have same := congrArg (Option.map Generator.name) (turned.generators i)
    rw [Option.map_map, Option.map_map] at same
    rw [← h.name?, Workshop.name?_eq, Workshop.name?_eq]
    exact same
  · intro e' he'
    obtain ⟨e, he, name, index⟩ := turned.exists_registration he'
    rw [← name, ← index]
    exact h.registered e he
  · intro e' he'
    rw [turned.entries] at he'
    obtain ⟨e, he, rfl⟩ := List.mem_map.mp he'
    obtain ⟨k, own, named⟩ := h.worker he
    rw [own]
    refine (Entry.turn_taken _ _ e (some k)).sound (h.sound e he) named ?_
    rw [← own]
    show _ ∈ rs
    rw [turned.results]
    exact List.mem_map_of_mem he

/-! ### What a history does -/

/-- Nothing is registered where there is no generator. -/
theorem perform_add_missing {i : Nat} (h : b.workshop.name? i = none) : b.perform (.add i) = b := by
  simp only [perform, h]

/-- A generator is registered behind all others, unless its name is taken. -/
theorem perform_add {i : Nat} {name : String} (h : b.workshop.name? i = some name) :
    b.perform (.add i) =
      if name ∈ b.driver.names then b
      else { b with driver.entries := b.driver.entries ++ [{ name, index := i }] } := by
  simp only [perform, h, Driver.add_eq]
  by_cases taken : name ∈ b.driver.names
  · rw [if_pos taken, if_pos taken]
  · rw [if_neg taken, if_neg taken]

/-- A registration under a free name keeps the bench sound, as it keeps nothing yet. -/
theorem Sound.add (h : b.Sound w) {i : Nat} {name : String} (named : w.name? i = some name)
    (free : name ∉ b.driver.names) :
    Sound w { b with driver.entries := b.driver.entries ++ [{ name, index := i }] } := by
  refine ⟨h.name?, ?_, ?_, ?_⟩
  · rw [Driver.names, List.map_append, List.map_singleton, ← List.concat_eq_append]
    exact h.distinct.concat free
  · exact List.forall_mem_append.mpr ⟨h.registered, List.forall_mem_singleton.mpr named⟩
  · refine List.forall_mem_append.mpr ⟨h.sound, List.forall_mem_singleton.mpr ?_⟩
    constructor
    · intro d prepared
      cases prepared
    · intro x cached
      cases cached

/-- Taking registrations out keeps the bench sound. -/
theorem Sound.remove (h : b.Sound w) (name : String) :
    (b.perform (.remove name)).Sound w where
  name? := h.name?
  distinct := h.distinct.sublist (List.filter_sublist.map _)
  registered := fun e he => h.registered e (List.mem_filter.mp he).1
  sound := fun e he => h.sound e (List.mem_filter.mp he).1

/-- Making a snapshot for a pass keeps the bench sound. -/
theorem Sound.snapshot (h : b.Sound w) (c : Compilation) :
    Sound w { b with workshop := (b.workshop.snapshot c).2 } where
  name? := h.name?
  distinct := h.distinct
  registered := h.registered
  sound := h.sound

/-- A directive keeps the bench sound, and changes the names of the registered generators as
it says. -/
theorem Sound.perform (h : b.Sound w) (c : Directive) :
    (b.perform c).Sound w ∧ (b.perform c).driver.names = c.register w b.driver.names := by
  cases c with
  | add i =>
    cases named : w.name? i with
    | none =>
      rw [perform_add_missing (h.name?.symm ▸ named), Directive.register, named]
      exact ⟨h, rfl⟩
    | some name =>
      simp only [perform_add (h.name?.symm ▸ named), Directive.register, named]
      by_cases taken : name ∈ b.driver.names
      · rw [if_pos taken, if_pos taken]
        exact ⟨h, rfl⟩
      · rw [if_neg taken, if_neg taken]
        exact ⟨h.add named taken, List.map_append⟩
  | remove name =>
    refine ⟨h.remove name, ?_⟩
    rw [Directive.register, Driver.names, Driver.names, List.filter_map]
    rfl
  | run c =>
    have started := h.snapshot c
    exact ⟨started.pass _, started.names_pass _⟩
  | rerun n =>
    rw [Bench.perform]
    split
    · exact ⟨h, rfl⟩
    · exact ⟨h.pass _, h.names_pass _⟩

/-- A whole history keeps the bench sound, by induction on its directives, and the registered
generators are those that it asks for. -/
theorem Sound.performAll (h : b.Sound w) (cs : List Directive) :
    (b.performAll cs).Sound w ∧
      (b.performAll cs).driver.names = cs.foldl (Directive.register w) b.driver.names := by
  induction cs generalizing b with
  | nil => exact ⟨h, rfl⟩
  | cons c cs ih =>
    obtain ⟨sound, names⟩ := h.perform c
    rw [List.foldl_cons, ← names]
    exact ih sound

end Bench

end DeclFront
