import DeclFront.Pipeline
import DeclFront.Proofs.Compilation.Derivations
import DeclFront.Proofs.Generator.Behaviour

/-!
# Histories of a pipeline

A session is a pipeline in its workshop, and a history is a list of commands to it. Beside the
session stands the request: the inputs and the registered generators that the same commands ask
for, worked out from the commands alone, without a fingerprint, a pass or anything kept.
-/

set_option autoImplicit false

namespace DeclFront

/-- The snapshots that callers can make: inputs given by name and text, and any generated files. -/
def Snapshot.given (id : Nat) (texts : Texts) (generated : List SourceFile) : Snapshot :=
  ⟨id, (Compilation.ofTexts texts).withGenerated generated⟩

/-- Results are those of a new pass, or of the last one if nothing has changed since. -/
theorem Pipeline.run_cases {σ : Type} (p : Pipeline) (w : Workshop σ) :
    (∃ q driver w', p.driver.run p.input w = (q, driver, w') ∧ p.run w =
      (q, { p with driver, phase := .generated, current := some q, stale := false }, w')) ∨
    ∃ q, p.current = some q ∧ p.stale = false ∧ p.run w = (q, p, w) := by
  unfold run
  cases current : p.current with
  | none => exact .inl ⟨_, _, _, rfl, rfl⟩
  | some q =>
    cases stale : p.stale with
    | true => exact .inl ⟨_, _, _, rfl, rfl⟩
    | false => exact .inr ⟨q, rfl, rfl, rfl⟩

/-- What can be done to a pipeline. Generators are named by their number in the workshop. -/
inductive Command where
  | new (id : Nat) (texts : Texts) (generated : List SourceFile) (config : Config)
  | addGenerator (index : Nat)
  | removeGenerator (name : String)
  | setInput (id : Nat) (texts : Texts) (generated : List SourceFile)
  | updateSource (name text : String)
  | removeSource (name : String)
  | run
  | bind

/-- A pipeline in its workshop. -/
structure Session (σ : Type) where
  pipeline : Pipeline
  workshop : Workshop σ

namespace Session

variable {σ : Type}

/-- A new pipeline in a workshop. -/
def start (s : Snapshot) (config : Config) (w : Workshop σ) : Session σ :=
  let (pipeline, workshop) := Pipeline.new s config w
  { pipeline, workshop }

/-- The session after a command. One that fails changes nothing. -/
def perform (s : Session σ) : Command → Session σ
  | .new id texts generated config => start (.given id texts generated) config s.workshop
  | .addGenerator i =>
    match s.workshop.instances[i]? with
    | none => s
    | some x =>
      match s.pipeline.addGenerator x.generator.name i with
      | .error _ => s
      | .ok pipeline => { s with pipeline }
  | .removeGenerator name => { s with pipeline := (s.pipeline.removeGenerator name).2 }
  | .setInput id texts generated =>
    let (pipeline, workshop) := s.pipeline.setInput (.given id texts generated) s.workshop
    { pipeline, workshop }
  | .updateSource name text =>
    let (pipeline, workshop) := s.pipeline.updateSource name text s.workshop
    { pipeline, workshop }
  | .removeSource name =>
    match s.pipeline.removeSource name s.workshop with
    | .error _ => s
    | .ok (pipeline, workshop) => { pipeline, workshop }
  | .run =>
    let (_, pipeline, workshop) := s.pipeline.run s.workshop
    { pipeline, workshop }
  | .bind =>
    let (_, pipeline, workshop) := s.pipeline.bind s.workshop
    { pipeline, workshop }

/-- The session after a history. -/
def performAll (s : Session σ) (cs : List Command) : Session σ :=
  cs.foldl perform s

/-- A new pipeline for the same inputs, with the same generators registered in the same order. -/
def fresh {τ : Type} (s : Session σ) (config : Config) (w : Workshop τ) : Session τ :=
  (start s.pipeline.input config w).performAll
    (s.pipeline.driver.entries.map fun e => .addGenerator e.index)

/-- The last pass, after running one if that is needed. -/
def pass (s : Session σ) : Pass :=
  (s.pipeline.run s.workshop).1

end Session

/-- Inputs with the text of the first one of a name replaced, or with one more. -/
def Texts.put (name text : String) : Texts → Texts
  | [] => [(name, text)]
  | t :: ts => if t.1 = name then (name, text) :: ts else t :: put name text ts

/-- The inputs and the generators that a pipeline is to work with. -/
structure Request where
  texts : Texts
  generators : List Nat := []

namespace Request

/-- Is a generator of the name registered? -/
def isTaken (names : List String) (r : Request) (name : String) : Bool :=
  r.generators.any fun j => names[j]? = some name

/-- What is asked for after a command, where the generators have the given names. -/
def perform (names : List String) (r : Request) : Command → Request
  | .new _ texts _ _ => { texts }
  | .addGenerator i =>
    match names[i]? with
    | none => r
    | some name => if r.isTaken names name then r else { r with generators := r.generators ++ [i] }
  | .removeGenerator name =>
    { r with generators := r.generators.filter fun j => names[j]? ≠ some name }
  | .setInput _ texts _ => { r with texts }
  | .updateSource name text => { r with texts := Texts.put name text r.texts }
  | .removeSource name => { r with texts := r.texts.filter (·.1 ≠ name) }
  | .run => r
  | .bind => r

/-- What is asked for after a history. -/
def performAll (names : List String) (r : Request) (cs : List Command) : Request :=
  cs.foldl (perform names) r

/-- Everything that is asked for in the course of a history. -/
def trail (names : List String) (r : Request) : List Command → List Request
  | [] => [r]
  | c :: cs => r :: trail names (r.perform names c) cs

/-- What is asked for before a history is asked for in the course of it. -/
theorem mem_trail_self (names : List String) (r : Request) (cs : List Command) :
    r ∈ trail names r cs := by
  cases cs <;> simp [trail]

section Adding

variable {names : List String} {r : Request} {i : Nat} {name : String}

/-- Nothing more is asked for where there is no generator. -/
theorem perform_addGenerator_missing (h : names[i]? = none) :
    r.perform names (.addGenerator i) = r := by
  simp only [perform, h]

/-- Nothing more is asked for where the name of the generator is taken. -/
theorem perform_addGenerator_taken (h : names[i]? = some name)
    (taken : r.isTaken names name = true) : r.perform names (.addGenerator i) = r := by
  simp only [perform, h, taken, if_true]

/-- A generator with a free name is asked for behind all others. -/
theorem perform_addGenerator_free (h : names[i]? = some name)
    (free : r.isTaken names name = false) :
    r.perform names (.addGenerator i) = { r with generators := r.generators ++ [i] } := by
  simp [perform, h, free]

/-- A name is taken if one of the generators that are asked for has it. -/
theorem isTaken_iff :
    r.isTaken names name = true ↔ some name ∈ r.generators.map fun j => names[j]? := by
  unfold isTaken
  rw [List.any_eq_true, List.mem_map]
  simp only [decide_eq_true_eq]

end Adding

/-- The registered generators exist, and no two have one name. -/
structure Proper (names : List String) (r : Request) : Prop where
  exist : ∀ i ∈ r.generators, i < names.length
  distinct : (r.generators.map fun i => names[i]?).Nodup

/-- A request without generators is proper. -/
theorem proper_start (names : List String) (texts : Texts) : Proper names { texts } := by
  constructor <;> simp

/-- A generator whose name is free is registered behind the others. -/
theorem Proper.append {names : List String} {r : Request} (h : Proper names r) {i : Nat}
    {name : String} (hi : names[i]? = some name) (free : r.isTaken names name = false) :
    Proper names { r with generators := r.generators ++ [i] } := by
  constructor
  · intro j hj
    rcases List.mem_append.mp hj with hj | hj
    · exact h.exist j hj
    · rw [List.mem_singleton.mp hj]
      exact (List.getElem?_eq_some_iff.mp hi).1
  · rw [List.map_append, List.map_singleton, hi]
    refine List.nodup_append.mpr ⟨h.distinct, by simp, ?_⟩
    intro a ha b hb same
    rw [same, List.mem_singleton.mp hb, ← isTaken_iff, free] at ha
    simp at ha

/-- A command leaves a request proper, since it adds no generator whose name is taken. -/
theorem Proper.perform {names : List String} {r : Request} (h : Proper names r) (c : Command) :
    Proper names (r.perform names c) := by
  cases c with
  | new => exact proper_start names _
  | addGenerator i =>
      cases hi : names[i]? with
      | none =>
          rw [perform_addGenerator_missing hi]
          exact h
      | some name =>
          cases taken : r.isTaken names name with
          | true =>
              rw [perform_addGenerator_taken hi taken]
              exact h
          | false =>
              rw [perform_addGenerator_free hi taken]
              exact h.append hi taken
  | removeGenerator name =>
      constructor
      · intro j hj
        exact h.exist j (List.mem_filter.mp hj).1
      · exact h.distinct.sublist (List.filter_sublist.map _)
  | setInput => exact ⟨h.exist, h.distinct⟩
  | updateSource => exact ⟨h.exist, h.distinct⟩
  | removeSource => exact ⟨h.exist, h.distinct⟩
  | run => exact h
  | bind => exact h

/-- Any history leaves a request proper, by induction on its commands. -/
theorem Proper.performAll {names : List String} {r : Request} (h : Proper names r)
    (cs : List Command) : Proper names (r.performAll names cs) := by
  induction cs generalizing r with
  | nil => exact h
  | cons c cs ih => exact ih (h.perform c)

/-- Registering the generators of a request one after another asks for them in the same order. -/
theorem performAll_addGenerators {names : List String} {texts : Texts} {is js : List Nat}
    (h : Proper names ⟨texts, is ++ js⟩) :
    performAll names ⟨texts, is⟩ (js.map .addGenerator) = ⟨texts, is ++ js⟩ := by
  induction js generalizing is with
  | nil => simp [performAll]
  | cons j js ih =>
      have bound := h.exist j (by simp)
      have name := List.getElem?_eq_getElem bound
      have free : Request.isTaken names ⟨texts, is⟩ names[j] = false := by
        rw [Bool.eq_false_iff, ne_eq, isTaken_iff]
        intro taken
        have distinct := h.distinct
        rw [List.map_append, List.nodup_append] at distinct
        exact distinct.2.2 _ taken names[j]? (by simp) name.symm
      rw [List.map_cons, performAll, List.foldl_cons, perform_addGenerator_free name free]
      have moved : Proper names ⟨texts, (is ++ [j]) ++ js⟩ := by
        rw [List.append_assoc]
        exact h
      have rest := ih moved
      rw [List.append_assoc] at rest
      exact rest

end Request

/-! ### Requests and compilations -/

/-- Putting a source into new inputs makes the inputs with the text put in. -/
theorem Compilation.withSource_ofTexts (texts : Texts) (name text : String) :
    (Compilation.ofTexts texts).withSource name text = .ofTexts (Texts.put name text texts) := by
  unfold withSource ofTexts
  congr 1
  induction texts with
  | nil => rfl
  | cons t ts ih =>
      by_cases same : t.1 = name
      · simp [Texts.put, replaceFirst, SourceFile.input, same]
      · simp only [List.map_cons, Texts.put, replaceFirst, same, if_false, ← ih]
        rw [if_neg (by exact same)]

/-- Taking sources out of new inputs makes the inputs without them. -/
theorem Compilation.withoutSource_ofTexts {texts : Texts} {name : String} {c : Compilation}
    (h : (Compilation.ofTexts texts).withoutSource name = .ok c) :
    c = .ofTexts (texts.filter (·.1 ≠ name)) := by
  rw [inputs_of_withoutSource h, ofTexts, ofTexts, List.filter_map]
  rfl

/-- Where removing a source fails, there is nothing to remove. -/
theorem Compilation.withoutSource_error {texts : Texts} {name : String} {e : Error}
    (h : (Compilation.ofTexts texts).withoutSource name = .error e) :
    texts.filter (·.1 ≠ name) = texts := by
  rw [withoutSource_eq] at h
  split at h
  · cases h
  · rename_i absent
    refine List.filter_eq_self.mpr fun t ht => decide_eq_true fun named => ?_
    exact absent ⟨_, List.mem_map_of_mem ht, named⟩

end DeclFront
