import DeclFront.Proofs.Generator.Bench
import DeclFront.Proofs.Generator.Upkeep

/-!
# What a driver goes through

Generators are registered and removed, and passes are made over any snapshots. Between two passes
anything may happen to the generators: a pass is made in whatever workshop there is by then. Every
generator has one name, which may be any text. Through all of this no two registrations are under one
name, so that no two are of one generator, and what is kept of the generators is tidy.
-/

set_option autoImplicit false

namespace DeclFront

variable {σ : Type}

/-- What is done with a driver. -/
inductive Operation (σ : Type) where
  /-- The generator of a number is registered under its name. -/
  | add (index : Nat)
  | remove (name : String)
  /-- A pass over a snapshot, in the workshop that there is by then. -/
  | pass (s : Snapshot) (w : Workshop σ)

/-- Nothing a generator does is forbidden. -/
theorem Workshop.upkeep_true (input : Snapshot) : Upkeep (σ := σ) input fun _ => True :=
  ⟨fun _ _ => trivial, fun _ _ _ _ => trivial, fun _ _ _ _ _ => trivial, fun _ _ _ => trivial⟩

namespace Driver

/-- The driver after an operation, with generators of the given names. One that fails
changes nothing. -/
def operate (nameOf : Nat → String) (d : Driver) : Operation σ → Driver
  | .add index =>
    match d.add (nameOf index) index with
    | .ok d' => d'
    | .error _ => d
  | .remove name => (d.remove name).2
  | .pass s w => (d.run s w).2.1

/-- The driver after some operations. -/
def operateAll (nameOf : Nat → String) (d : Driver) (os : List (Operation σ)) : Driver :=
  os.foldl (operate nameOf) d

/-- No two registrations are under one name, nothing untidy is kept, and every entry registers a
generator under the name that it has. -/
structure Orderly (nameOf : Nat → String) (d : Driver) : Prop where
  distinct : d.names.Nodup
  tidy : ∀ e ∈ d.entries, e.Tidy
  own : ∀ e ∈ d.entries, nameOf e.index = e.name

variable {nameOf : Nat → String} {d : Driver}

/-- A driver without registrations is orderly. -/
theorem orderly_empty (nameOf : Nat → String) (config : Config) : Orderly nameOf { config } :=
  ⟨List.nodup_nil, List.forall_mem_nil _, List.forall_mem_nil _⟩

/-- No two entries are of one generator. -/
theorem Orderly.indices (h : d.Orderly nameOf) : (d.entries.map Entry.index).Nodup := by
  have names : (d.entries.map Entry.index).map nameOf = d.names := by
    rw [Driver.names, List.map_map]
    exact List.map_congr_left h.own
  exact List.Nodup.of_map nameOf (names ▸ h.distinct)

/-- A generator is registered behind all others, unless its name is taken. -/
theorem operate_add (nameOf : Nat → String) (d : Driver) (index : Nat) :
    d.operate nameOf (.add index : Operation σ) =
      if nameOf index ∈ d.names then d
      else { d with entries := d.entries ++ [{ name := nameOf index, index }] } := by
  simp only [operate, add_eq]
  by_cases taken : nameOf index ∈ d.names
  · rw [if_pos taken, if_pos taken]
  · rw [if_neg taken, if_neg taken]

/-- A pass over a snapshot leaves an orderly driver, and has one tidy result for each registration. -/
theorem Orderly.run (h : d.Orderly nameOf) (s : Snapshot) (w : Workshop σ) :
    (d.run s w).2.1.Orderly nameOf ∧ Results d.entries (d.run s w).1.results ∧
      (d.run s w).1.snapshot.compilation.generated =
        RunResult.allFiles (d.run s w).1.results := by
  have own : ∀ e ∈ (d.run s w).2.1.entries, nameOf e.index = e.name := by
    obtain ⟨rs, es, w', id, ran, turned⟩ := run_turned d s w h.indices
    rw [ran]
    intro e he
    obtain ⟨e₀, he₀, name, index⟩ := turned.exists_registration he
    rw [← name, ← index]
    exact h.own e₀ he₀
  obtain ⟨rs, es, w₁, -, results, renewed, ran⟩ :=
    run_keeps h.tidy (Workshop.upkeep_true (w.withoutGenerated s).1) trivial
  rw [ran] at own ⊢
  refine ⟨⟨?_, renewed.tidy, own⟩, results, rfl⟩
  show (es.map Entry.name).Nodup
  rw [renewed.names]
  exact h.distinct

/-- One operation keeps a driver orderly, whatever it is. -/
theorem Orderly.operate (h : d.Orderly nameOf) (o : Operation σ) :
    (d.operate nameOf o).Orderly nameOf := by
  cases o with
  | add index =>
    rw [operate_add]
    split
    · exact h
    · rename_i free
      refine ⟨?_, List.forall_mem_append.mpr ⟨h.tidy, List.forall_mem_singleton.mpr ?_⟩,
        List.forall_mem_append.mpr ⟨h.own, List.forall_mem_singleton.mpr rfl⟩⟩
      · rw [names, List.map_append, List.map_singleton, ← List.concat_eq_append]
        exact h.distinct.concat free
      · intro x cached
        cases cached
  | remove name =>
    exact ⟨h.distinct.sublist (List.filter_sublist.map _),
      fun e he => h.tidy e (List.mem_filter.mp he).1,
      fun e he => h.own e (List.mem_filter.mp he).1⟩
  | pass s w => exact (h.run s w).1

/-- Any number of operations keeps a driver orderly, by induction on them. -/
theorem Orderly.operateAll (h : d.Orderly nameOf) (os : List (Operation σ)) :
    (d.operateAll nameOf os).Orderly nameOf := by
  induction os generalizing d with
  | nil => exact h
  | cons o os ih => exact ih (h.operate o)

end Driver

end DeclFront
