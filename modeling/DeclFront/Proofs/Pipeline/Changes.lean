import DeclFront.Proofs.Compilation.Fingerprints
import DeclFront.Proofs.Pipeline.History

/-!
# Which changes of the inputs are noticed

A pipeline compares inputs by fingerprint. After any history, a change of the inputs is noticed
exactly if it changes the fingerprint (`change_noticed_iff_fingerprint_changes`). It does if it
changes a single word (`updateSource_of_one_word`), whatever the other files are; but zeros behind a
text can leave all words as they are, and then the change is ignored (`updateSource_append_nul`).
-/

set_option autoImplicit false

namespace DeclFront

namespace Compilation

variable {c : Compilation} {name text : String}

/-- The text that is put in is that of the first input of the name. -/
theorem text?_withSource : (c.withSource name text).text? name = some text := by
  have found : (c.withSource name text).input? name = some (.input name text) :=
    find?_replaceFirst (.input name text) c.inputs
  rw [text?, found]
  rfl

/-- Where the first input of a name has the text before, an update changes neither names nor texts. -/
theorem texts_withSource_of_text? (h : c.text? name = some text) :
    (c.withSource name text).texts = c.texts := by
  unfold text? input? at h
  unfold texts withSource
  dsimp only
  generalize c.inputs = fs at h ⊢
  induction fs with
  | nil => simp at h
  | cons f fs ih =>
    unfold replaceFirst
    by_cases same : f.name = name
    · rw [List.find?_cons_of_pos (by simpa using same)] at h
      have text := Option.some.inj h
      simp [SourceFile.input, same, text]
    · rw [List.find?_cons_of_neg (by simpa using same)] at h
      simpa [SourceFile.input, same] using ih h

/-- The words of a compilation when the first input of a name has other words. -/
theorem words_withSource_of_textWords {old : String} (h : c.text? name = some old)
    (same : Fingerprint.textWords text = Fingerprint.textWords old) :
    (c.withSource name text).words = c.words := by
  have back : (c.withSource name text).words = (c.withSource name old).words := by
    unfold words texts withSource
    dsimp only
    induction c.inputs with
    | nil => simp [replaceFirst, SourceFile.input, same]
    | cons f fs ih =>
      unfold replaceFirst
      by_cases first : f.name = name
      · simp [SourceFile.input, first, same]
      · simpa [SourceFile.input, first] using ih
  rw [back, words, texts_withSource_of_text? h, words]

/-- Compilations with the same words have the same fingerprint. -/
theorem fingerprint_congr {d : Compilation} (h : c.words = d.words) :
    c.fingerprint = d.fingerprint := by
  rw [fingerprint_eq, fingerprint_eq, h]

/-- Without generated files, the first file of a name is the first input of the name. -/
theorem file?_text (h : c.generated = []) : (c.file? name).map (·.text) = c.text? name := by
  unfold file? files text? input?
  rw [h, List.append_nil]

end Compilation

section Steps

variable {σ : Type}

namespace Pipeline

variable {p : Pipeline} {s : Snapshot} {w : Workshop σ} {name text : String}

/-- Inputs with the fingerprint of the present ones are ignored. -/
theorem setInput_of_eq (h : s.compilation.fingerprint = p.input.compilation.fingerprint) :
    (p.setInput s w).1 = p := by
  unfold setInput
  rw [if_pos h]

/-- Inputs with another fingerprint are set without their generated files, and a pass is needed. -/
theorem setInput_of_ne (h : s.compilation.fingerprint ≠ p.input.compilation.fingerprint) :
    (p.setInput s w).1.input.compilation = s.compilation.withoutGenerated ∧
      (p.setInput s w).1.needsPass = true := by
  unfold setInput
  rw [if_neg h]
  exact ⟨w.withoutGenerated_fst s, rfl⟩

/-- A text that leaves the fingerprint as it is is ignored. -/
theorem updateSource_of_eq (h : (p.input.compilation.withSource name text).fingerprint =
    p.input.compilation.fingerprint) : (p.updateSource name text w).1 = p :=
  setInput_of_eq h

/-- A text that changes the fingerprint is put in, and a pass is needed. -/
theorem updateSource_of_ne (h : (p.input.compilation.withSource name text).fingerprint ≠
    p.input.compilation.fingerprint) :
    (p.updateSource name text w).1.input.compilation = p.input.compilation.withSource name text ∧
      (p.updateSource name text w).1.needsPass = true :=
  setInput_of_ne h

/-- Setting inputs lets no generated file in among them. -/
theorem setInput_generated (h : p.input.compilation.generated = []) :
    (p.setInput s w).1.input.compilation.generated = [] := by
  by_cases same : s.compilation.fingerprint = p.input.compilation.fingerprint
  · rw [setInput_of_eq same, h]
  · rw [(setInput_of_ne same).1]
    rfl

/-- A pass leaves the inputs as they are. -/
theorem run_input (p : Pipeline) (w : Workshop σ) : (p.run w).2.1.input = p.input := by
  rcases p.run_cases w with ⟨_, _, _, -, ran⟩ | ⟨_, -, -, ran⟩
  · rw [ran]
  · rw [ran]

/-- Binding leaves the inputs as they are. -/
theorem bind_input (p : Pipeline) (w : Workshop σ) : (p.bind w).2.1.input = p.input :=
  run_input p w

/-- Registering a generator leaves the inputs as they are. -/
theorem addGenerator_input {q : Pipeline} {i : Nat} (h : p.addGenerator name i = .ok q) :
    q.input = p.input := by
  unfold addGenerator at h
  split at h
  · cases h
  · cases h
    rfl

/-- Removing one does, too. -/
theorem removeGenerator_input (p : Pipeline) (name : String) :
    (p.removeGenerator name).2.input = p.input := by
  unfold removeGenerator
  split <;> rfl

end Pipeline

namespace Session

/-- No generated file is ever among the inputs of a pipeline: one command keeps it so. -/
theorem perform_generated {s : Session σ} (h : s.pipeline.input.compilation.generated = [])
    (c : Command) : (s.perform c).pipeline.input.compilation.generated = [] := by
  cases c with
  | new id texts generated config =>
    exact congrArg Compilation.generated (s.workshop.withoutGenerated_fst _)
  | addGenerator i =>
    cases hi : s.workshop.instances[i]? with
    | none => simpa only [perform, hi]
    | some x =>
      cases added : s.pipeline.addGenerator x.generator.name i with
      | error e => simpa only [perform, hi, added]
      | ok q => simpa only [perform, hi, added, Pipeline.addGenerator_input added]
  | removeGenerator name => simpa only [perform, Pipeline.removeGenerator_input]
  | setInput id texts generated => exact Pipeline.setInput_generated h
  | updateSource name text => exact Pipeline.setInput_generated h
  | removeSource name =>
    cases removed : s.pipeline.input.compilation.withoutSource name with
    | error e => simpa only [perform, Pipeline.removeSource, removed]
    | ok c => simpa only [perform, Pipeline.removeSource, removed] using Pipeline.setInput_generated h
  | run => simpa only [perform, Pipeline.run_input]
  | bind => simpa only [perform, Pipeline.bind_input]

/-- No command lets a generated file in among the inputs, and so no history does. -/
theorem performAll_generated {s : Session σ} (h : s.pipeline.input.compilation.generated = [])
    (cs : List Command) : (s.performAll cs).pipeline.input.compilation.generated = [] := by
  induction cs generalizing s with
  | nil => exact h
  | cons c cs ih => exact ih (perform_generated h c)

/-- A pipeline never has a generated file among its inputs. -/
theorem start_performAll_generated (given : Snapshot) (config : Config) (w : Workshop σ)
    (cs : List Command) :
    ((start given config w).performAll cs).pipeline.input.compilation.generated = [] :=
  performAll_generated (congrArg Compilation.generated (w.withoutGenerated_fst given)) cs

end Session

end Steps

section Noticed

variable {σ : Type} {p : Pipeline} {w : Workshop σ} {name text : String}

/-- A change of a single word is noticed. -/
theorem Pipeline.updateSource_of_one_word {us vs : List UInt64} {a b : UInt64}
    (before : p.input.compilation.words = us ++ a :: vs)
    (after : (p.input.compilation.withSource name text).words = us ++ b :: vs) (ne : a ≠ b) :
    (p.updateSource name text w).1.input.compilation = p.input.compilation.withSource name text ∧
      (p.updateSource name text w).1.needsPass = true :=
  updateSource_of_ne (Compilation.fingerprint_ne_of_one_word before after ne).symm

/-- A zero behind a text of a byte more than a multiple of four is not noticed. -/
theorem Pipeline.updateSource_append_nul (found : p.input.compilation.text? name = some text)
    (length : (text.toList.flatMap String.utf8EncodeChar).length % 4 = 1) :
    (p.updateSource name (text ++ "\x00") w).1 = p :=
  updateSource_of_eq (Compilation.fingerprint_congr
    (Compilation.words_withSource_of_textWords found (Fingerprint.textWords_append_nul length)))

/-- After any history: an update leaves the text as the first of its name, with a pass needed if it
was not so before, exactly if it was so before or the fingerprint changes. Inputs that are set are
the inputs then, with a pass needed if they are not those before, exactly if they are those before or
the fingerprint changes. -/
theorem change_noticed_iff_fingerprint_changes (given : Snapshot) (config : Config)
    (w : Workshop σ) (cs : List Command) :
    let s := (Session.start given config w).performAll cs
    let p := s.pipeline
    (∀ name text, let q := (p.updateSource name text s.workshop).1
      ((q.input.compilation.file? name).map (·.text) = some text ∧
          ((p.input.compilation.file? name).map (·.text) ≠ some text → q.needsPass = true)) ↔
        ((p.input.compilation.file? name).map (·.text) = some text ∨
          (p.input.compilation.withSource name text).fingerprint ≠
            p.input.compilation.fingerprint)) ∧
    ∀ t : Snapshot, let q := (p.setInput t s.workshop).1
      (q.input.compilation.texts = t.compilation.texts ∧
          (t.compilation.texts ≠ p.input.compilation.texts → q.needsPass = true)) ↔
        (t.compilation.texts = p.input.compilation.texts ∨
          t.compilation.fingerprint ≠ p.input.compilation.fingerprint) := by
  intro s p
  have generated : p.input.compilation.generated = [] :=
    Session.start_performAll_generated given config w cs
  constructor
  · intro name text q
    by_cases same : (p.input.compilation.withSource name text).fingerprint =
        p.input.compilation.fingerprint
    · have kept : q = p := Pipeline.updateSource_of_eq same
      rw [kept]
      exact ⟨fun h => .inl h.1, fun h => h.elim (fun h => ⟨h, (absurd h ·)⟩) (absurd same ·)⟩
    · obtain ⟨input, needs⟩ : q.input.compilation = _ ∧ q.needsPass = true :=
        Pipeline.updateSource_of_ne same
      have found : (q.input.compilation.file? name).map (·.text) = some text := by
        rw [input, Compilation.file?_text rfl, Compilation.text?_withSource]
      exact ⟨fun _ => .inr same, fun _ => ⟨found, fun _ => needs⟩⟩
  · intro t q
    by_cases same : t.compilation.fingerprint = p.input.compilation.fingerprint
    · have kept : q = p := Pipeline.setInput_of_eq same
      rw [kept]
      exact ⟨fun h => .inl h.1.symm,
        fun h => h.elim (fun h => ⟨h.symm, (absurd h ·)⟩) (absurd same ·)⟩
    · obtain ⟨input, needs⟩ : q.input.compilation = _ ∧ q.needsPass = true :=
        Pipeline.setInput_of_ne same
      have texts : q.input.compilation.texts = t.compilation.texts := by
        rw [input]
        rfl
      exact ⟨fun _ => .inr same, fun _ => ⟨texts, fun _ => needs⟩⟩

/-- A zero behind a text of nine bytes is ignored: after a run, an update to it keeps the pass and
the inputs. -/
theorem nul_update_ignored :
    let w : Workshop Unit := {}
    let s := (Session.start (.given 0 [("a.decl", "type A{ }")] []) {} w).performAll [.run]
    let q := (s.pipeline.updateSource "a.decl" "type A{ }\x00" s.workshop).1
    (q.input.compilation.file? "a.decl").map (·.text) = some "type A{ }" ∧ q.needsPass = false := by
  intro w s q
  have found : s.pipeline.input.compilation.text? "a.decl" = some "type A{ }" := by
    decide +kernel
  have kept : q = s.pipeline := Pipeline.updateSource_append_nul found (by decide +kernel)
  rw [kept]
  decide +kernel

end Noticed

end DeclFront
