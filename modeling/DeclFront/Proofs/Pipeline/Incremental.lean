import DeclFront.Proofs.Generator.Pass
import DeclFront.Proofs.Pipeline.History

/-!
# Working incrementally comes to the same as starting over

Three things are kept from one pass to the next: the last pass itself, while nothing was marked as
changed; the contribution of each generator, under a fingerprint; and how its preparation went. After
any history the pipeline `Upholds` the request that the history makes: its inputs and registrations
are the ones asked for, what its entries keep is right, and the last pass, unless it is stale, is
the pass from scratch. One command keeps this (`Upholds.perform`), so a whole history does, and the
next pass is the pass from scratch, which is what a new pipeline gives.
-/

set_option autoImplicit false

namespace DeclFront

/-- The pipeline has the inputs and generators that are asked for, and what it keeps is right. -/
structure Session.Upholds {σ : Type} (s : Session σ) (bs : List Behaviour) (seen : Texts → Prop)
    (r : Request) : Prop where
  workshop : s.workshop.Follows bs
  input : s.pipeline.input.compilation = .ofTexts r.texts
  inputSeen : seen r.texts
  registered : Driver.Registered bs seen s.pipeline.driver.entries r.generators
  current : ∀ p, s.pipeline.current = some p → s.pipeline.stale = false →
    (p.snapshot.compilation, p.diagnostics) =
      Behaviour.pass (Driver.behaviours bs r.generators) r.texts

namespace Driver

variable {bs : List Behaviour} {seen : Texts → Prop} {es : List Entry} {is : List Nat}

/-- The names of the entries are those of the behaviours. -/
theorem Registered.names_eq (h : Registered bs seen es is) :
    (es.map fun e => some e.name) = is.map fun i => (bs.map Behaviour.name)[i]? := by
  induction h with
  | nil => rfl
  | cons first _ ih =>
      obtain ⟨b, stands⟩ := first
      rw [List.map_cons, List.map_cons, ih, List.getElem?_map, stands.behaviour, stands.name]
      rfl

/-- A name is taken by an entry if it is taken in the request. -/
theorem Registered.any_name (h : Registered bs seen es is) (texts : Texts) (name : String) :
    (es.any fun e => e.name = name) = Request.isTaken (bs.map Behaviour.name) ⟨texts, is⟩ name := by
  have names := congrArg (fun l => l.any fun n => decide (n = some name)) h.names_eq
  simpa [Request.isTaken, List.any_map, Function.comp_def] using names

/-- The entries of other names are those of the other generators. -/
theorem Registered.filter_name (h : Registered bs seen es is) (name : String) :
    Registered bs seen (es.filter fun e => e.name ≠ name)
    (is.filter fun i => (bs.map Behaviour.name)[i]? ≠ some name) := by
  induction h with
  | nil => exact .nil
  | @cons e i es is first _ ih =>
      obtain ⟨b, stands⟩ := first
      have same : (bs.map Behaviour.name)[i]? = some e.name := by
        rw [List.getElem?_map, stands.behaviour, stands.name]
        rfl
      by_cases hn : e.name = name
      · rw [List.filter_cons_of_neg (by simp [hn]), List.filter_cons_of_neg (by simp [same, hn])]
        exact ih
      · rw [List.filter_cons_of_pos (by simp [hn]), List.filter_cons_of_pos (by simp [same, hn])]
        exact .cons ⟨b, stands⟩ ih

/-- A new entry stands for one more generator behind the others, and keeps nothing. -/
theorem Registered.append (h : Registered bs seen es is) {i : Nat} {b : Behaviour}
    (behaviour : bs[i]? = some b) :
    Registered bs seen (es ++ [{ name := b.name, index := i }]) (is ++ [i]) :=
  List.rel_append h (.cons ⟨b, Entry.stands_new behaviour⟩ .nil)

end Driver

namespace Session

variable {σ : Type} {s : Session σ} {bs : List Behaviour} {seen : Texts → Prop} {r : Request}

/-- A new pipeline upholds the request for its inputs and no generators. -/
theorem start_upholds {w : Workshop σ} (hw : w.Follows bs) {t : Snapshot} {texts : Texts}
    (ht : t.compilation.inputs = (Compilation.ofTexts texts).inputs) (hseen : seen texts)
    (config : Config) : (start t config w).Upholds bs seen { texts } := by
  refine ⟨hw.withoutGenerated t, w.withoutGenerated_compilation t ht, hseen, .nil, ?_⟩
  intro p hp
  simp [start, Pipeline.new] at hp

/-- Running a pass gives the pass from scratch. -/
theorem Upholds.run (h : s.Upholds bs seen r) (separated : Separated seen bs) :
    ∃ p pipeline workshop, s.pipeline.run s.workshop = (p, pipeline, workshop) ∧
      (p.snapshot.compilation, p.diagnostics) =
        Behaviour.pass (Driver.behaviours bs r.generators) r.texts ∧
      Upholds ⟨pipeline, workshop⟩ bs seen r := by
  obtain ⟨p, es, w, ran, content, registered, follows⟩ :=
    Driver.run_eq_pass separated h.inputSeen (congrArg Compilation.inputs h.input) h.workshop
      h.registered
  have kept : ∀ q, some p = some q → (q.snapshot.compilation, q.diagnostics) =
      Behaviour.pass (Driver.behaviours bs r.generators) r.texts := by
    intro q hq
    rw [← Option.some.inj hq]
    exact content
  rcases s.pipeline.run_cases s.workshop with
    ⟨_, _, _, made, result⟩ | ⟨q, current, stale, result⟩
  · cases ran.symm.trans made
    exact ⟨_, _, _, result, content, follows, h.input, h.inputSeen, registered,
      fun q hq _ => kept q hq⟩
  · exact ⟨_, _, _, result, h.current q current stale, h⟩

/-- After other inputs were set, the request for them is upheld. If their fingerprint is the one of
the inputs before, they are the same inputs. -/
theorem Upholds.setInput (h : s.Upholds bs seen r) (separated : Separated seen bs) {t : Snapshot}
    {texts : Texts} {w : Workshop σ} (hw : w.Follows bs) (hseen : seen texts)
    (ht : t.compilation.inputs = (Compilation.ofTexts texts).inputs) :
    Upholds ⟨(s.pipeline.setInput t w).1, (s.pipeline.setInput t w).2⟩ bs seen
      { r with texts } := by
  have fingerprint : t.compilation.fingerprint = (Compilation.ofTexts texts).fingerprint := by
    unfold Compilation.fingerprint
    rw [ht]
  unfold Pipeline.setInput
  split
  · rename_i same
    rw [fingerprint, h.input] at same
    have eq : texts = r.texts := separated.inputs texts r.texts hseen h.inputSeen same
    rw [eq]
    exact ⟨hw, h.input, h.inputSeen, h.registered, h.current⟩
  · refine ⟨hw.withoutGenerated t, w.withoutGenerated_compilation t ht, hseen, h.registered, ?_⟩
    intro p _ stale
    simp [Pipeline.invalidate] at stale

/-- Registering a generator does what is asked for, also where its name is taken. -/
theorem Upholds.addGenerator (h : s.Upholds bs seen r) (i : Nat) :
    (s.perform (.addGenerator i)).Upholds bs seen
      (r.perform (bs.map Behaviour.name) (.addGenerator i)) := by
  cases hb : bs[i]? with
  | none =>
      have missing : s.workshop.instances[i]? = none := by
        rw [List.getElem?_eq_none_iff, h.workshop.length]
        exact List.getElem?_eq_none_iff.mp hb
      rw [Request.perform_addGenerator_missing (by rw [List.getElem?_map, hb]; rfl)]
      simp only [perform, missing]
      exact h
  | some b =>
      obtain ⟨x, hx, follows⟩ := h.workshop.exists_instance hb
      have name : (bs.map Behaviour.name)[i]? = some b.name := by
        rw [List.getElem?_map, hb]
        rfl
      have any := h.registered.any_name r.texts b.name
      cases taken : r.isTaken (bs.map Behaviour.name) b.name with
      | true =>
          rw [Request.perform_addGenerator_taken name taken]
          simp only [perform, hx, follows.name, Pipeline.addGenerator, Driver.add, any, taken,
            if_true]
          exact h
      | false =>
          rw [Request.perform_addGenerator_free name taken]
          simp only [perform, hx, follows.name, Pipeline.addGenerator, Driver.add, any, taken,
            Bool.false_eq_true, if_false]
          refine ⟨h.workshop, h.input, h.inputSeen, h.registered.append hb, ?_⟩
          intro p _ stale
          simp [Pipeline.invalidate] at stale

/-- Registering some generators one after another does, too, by induction on them. -/
theorem Upholds.addGenerators (h : s.Upholds bs seen r) (is : List Nat) :
    (s.performAll (is.map .addGenerator)).Upholds bs seen
      (r.performAll (bs.map Behaviour.name) (is.map .addGenerator)) := by
  induction is generalizing s r with
  | nil => exact h
  | cons i is ih => exact ih (h.addGenerator i)

/-- Removing a generator does what is asked for, also where there is none of the name. -/
theorem Upholds.removeGenerator (h : s.Upholds bs seen r) (name : String) :
    (s.perform (.removeGenerator name)).Upholds bs seen
      (r.perform (bs.map Behaviour.name) (.removeGenerator name)) := by
  have filtered := h.registered.filter_name name
  by_cases same : (s.pipeline.driver.entries.filter fun e => e.name ≠ name).length =
      s.pipeline.driver.entries.length
  · have kept : (r.generators.filter fun i => (bs.map Behaviour.name)[i]? ≠ some name) =
        r.generators := by
      rw [List.filter_eq_self, ← List.length_filter_eq_length_iff, ← filtered.length_eq, same,
        h.registered.length_eq]
    have absent : decide ((s.pipeline.driver.entries.filter fun e => e.name ≠ name).length ≠
          s.pipeline.driver.entries.length) = false := by
      simpa using same
    rw [Request.perform, kept]
    simp only [perform, Pipeline.removeGenerator, Driver.remove, absent]
    exact h
  · have present : decide ((s.pipeline.driver.entries.filter fun e => e.name ≠ name).length ≠
          s.pipeline.driver.entries.length) = true := by
      simpa using same
    simp only [perform, Pipeline.removeGenerator, Driver.remove, present]
    refine ⟨h.workshop, h.input, h.inputSeen, filtered, ?_⟩
    intro p _ stale
    simp [Pipeline.invalidate] at stale

/-- An update of a source does what is asked for: it is ignored only if the inputs stay the same. -/
theorem Upholds.updateSource (h : s.Upholds bs seen r) (separated : Separated seen bs)
    (name text : String) (hseen : seen (Texts.put name text r.texts)) :
    (s.perform (.updateSource name text)).Upholds bs seen
      (r.perform (bs.map Behaviour.name) (.updateSource name text)) := by
  have inputs : (s.pipeline.input.compilation.withSource name text).inputs =
      (Compilation.ofTexts (Texts.put name text r.texts)).inputs := by
    rw [h.input, Compilation.withSource_ofTexts]
  exact h.setInput separated
    (h.workshop.snapshot (s.pipeline.input.compilation.withSource name text)) hseen inputs

/-- Removing a source does what is asked for, also where there is none. -/
theorem Upholds.removeSource (h : s.Upholds bs seen r) (separated : Separated seen bs)
    (name : String) (hseen : seen (r.texts.filter (·.1 ≠ name))) :
    (s.perform (.removeSource name)).Upholds bs seen
      (r.perform (bs.map Behaviour.name) (.removeSource name)) := by
  cases removed : (Compilation.ofTexts r.texts).withoutSource name with
  | error e =>
      have kept := Compilation.withoutSource_error removed
      simp only [perform, Pipeline.removeSource, Request.perform, h.input, removed, kept]
      exact h
  | ok c =>
      have inputs : c.inputs = (Compilation.ofTexts (r.texts.filter (·.1 ≠ name))).inputs := by
        rw [Compilation.withoutSource_ofTexts removed]
      simp only [perform, Pipeline.removeSource, h.input, removed]
      exact h.setInput separated (h.workshop.snapshot c) hseen inputs

/-- Binding changes nothing that is asked for. -/
theorem Upholds.bind (h : s.Upholds bs seen r) (separated : Separated seen bs) :
    (s.perform .bind).Upholds bs seen r := by
  obtain ⟨p, pipeline, workshop, ran, _, upheld⟩ := h.run separated
  simp only [perform, Pipeline.bind, ran]
  exact ⟨upheld.workshop.bind _, upheld.input, upheld.inputSeen, upheld.registered, upheld.current⟩

/-- One command keeps a pipeline in step with what is asked for, if inputs that it asks for count as
seen. -/
theorem Upholds.perform (h : s.Upholds bs seen r) (separated : Separated seen bs) (c : Command)
    (hseen : seen (r.perform (bs.map Behaviour.name) c).texts) :
    (s.perform c).Upholds bs seen (r.perform (bs.map Behaviour.name) c) := by
  cases c with
  | new id texts generated config => exact start_upholds h.workshop rfl hseen config
  | addGenerator i => exact h.addGenerator i
  | removeGenerator name => exact h.removeGenerator name
  | setInput id texts generated => exact h.setInput separated h.workshop hseen rfl
  | updateSource name text => exact h.updateSource separated name text hseen
  | removeSource name => exact h.removeSource separated name hseen
  | run =>
      obtain ⟨p, pipeline, workshop, ran, _, upheld⟩ := h.run separated
      simp only [Session.perform, ran]
      exact upheld
  | bind => exact h.bind separated

/-- A whole history upholds what is asked for, by induction on the commands. -/
theorem Upholds.performAll (h : s.Upholds bs seen r) (separated : Separated seen bs)
    (cs : List Command) (hseen : ∀ r' ∈ r.trail (bs.map Behaviour.name) cs, seen r'.texts) :
    (s.performAll cs).Upholds bs seen (r.performAll (bs.map Behaviour.name) cs) := by
  induction cs generalizing s r with
  | nil => exact h
  | cons c cs ih =>
      have next := hseen (r.perform (bs.map Behaviour.name) c)
          (List.mem_cons_of_mem _ (Request.mem_trail_self _ _ _))
      exact ih (h.perform separated c next) fun r' hr' => hseen r' (List.mem_cons_of_mem _ hr')

/-- The next pass is the pass from scratch over what is asked for. -/
theorem Upholds.pass_eq (h : s.Upholds bs seen r) (separated : Separated seen bs) :
    (s.pass.snapshot.compilation, s.pass.diagnostics) =
    Behaviour.pass (Driver.behaviours bs r.generators) r.texts := by
  obtain ⟨p, pipeline, workshop, ran, content, _⟩ := h.run separated
  unfold pass
  rw [ran]
  exact content

/-- The entries are of the generators that are asked for, in their order. -/
theorem Upholds.indices_eq (h : s.Upholds bs seen r) :
    s.pipeline.driver.entries.map Entry.index = r.generators := by
  have registered := h.registered
  generalize s.pipeline.driver.entries = es at registered
  generalize r.generators = is at registered
  induction registered with
  | nil => rfl
  | cons first _ ih =>
      obtain ⟨b, stands⟩ := first
      rw [List.map_cons, ih, stands.index]

/-- A new pipeline that is given the inputs and generators of another upholds the same request. -/
theorem Upholds.fresh {τ : Type} {w : Workshop τ} (h : s.Upholds bs seen r)
    (proper : r.Proper (bs.map Behaviour.name)) (hw : w.Follows bs) (config : Config) :
    (s.fresh config w).Upholds bs (fun t => t = r.texts) r := by
  have started : (start s.pipeline.input config w).Upholds bs (fun t => t = r.texts)
      { texts := r.texts } := by
    refine start_upholds hw (congrArg Compilation.inputs h.input) ?_ config
    rfl
  have asked : Request.performAll (bs.map Behaviour.name) ⟨r.texts, []⟩
      (r.generators.map .addGenerator) = r := Request.performAll_addGenerators proper
  have added := started.addGenerators r.generators
  rw [asked, ← h.indices_eq, List.map_map] at added
  exact added

end Session

/-- After any history, a pass comes to the same as in a new pipeline that is given the last inputs
and the registered generators, in any workshop with such generators and under any configuration.
The last inputs and the registered generators are the ones that the history asks for. -/
theorem pass_after_history_eq_pass_of_fresh {σ τ : Type} {bs : List Behaviour} {w : Workshop σ}
    {w' : Workshop τ} (hw : w.Follows bs) (hw' : w'.Follows bs) (id : Nat) (texts : Texts)
    (generated : List SourceFile) (config config' : Config) (cs : List Command)
    (separated : Separated
      (fun t => ∃ r ∈ Request.trail (bs.map Behaviour.name) { texts } cs, r.texts = t) bs) :
    let asked := Request.performAll (bs.map Behaviour.name) { texts } cs
    let s := (Session.start (.given id texts generated) config w).performAll cs
    let s' := s.fresh config' w'
    s.pipeline.input.compilation = .ofTexts asked.texts ∧
      s.pipeline.driver.entries.map Entry.index = asked.generators ∧
      s'.pipeline.driver.entries.map Entry.index = asked.generators ∧
      (s.pass.snapshot.compilation, s.pass.diagnostics) =
        (s'.pass.snapshot.compilation, s'.pass.diagnostics) := by
  intro asked s s'
  have given : (Session.start (.given id texts generated) config w).Upholds bs
      (fun t => ∃ r ∈ Request.trail (bs.map Behaviour.name) { texts } cs, r.texts = t) { texts } :=
    Session.start_upholds hw rfl ⟨_, Request.mem_trail_self _ _ _, rfl⟩ config
  have upheld : s.Upholds bs _ asked := given.performAll separated cs fun r' hr' => ⟨r', hr', rfl⟩
  have proper : asked.Proper (bs.map Behaviour.name) := (Request.proper_start _ texts).performAll cs
  have fresh : s'.Upholds bs _ asked := upheld.fresh proper hw' config'
  have apart : Separated (fun t => t = asked.texts) bs :=
    .of_subsingleton bs fun t t' ht ht' => ht.trans ht'.symm
  refine ⟨upheld.input, upheld.indices_eq, fresh.indices_eq, ?_⟩
  rw [upheld.pass_eq separated, fresh.pass_eq apart]

namespace Sample

/-- A generator that counts its executions and adds the texts of all inputs as one source. -/
def tally : Generator Nat where
  name := "tally"
  prepare n := (n, .done)
  execute n c := (n + 1, .addSource "all" (String.join (c.inputs.map (·.text))) fun _ => .done)

/-- A generator that copies the input called `a` and breaks off if there is none. -/
def copy : Generator Nat where
  name := "copy"
  prepare n := (n, .watch "a" .done)
  execute n c := (n + 1, match c.text? "a" with
    | some text => .addSource "a" text fun _ => .done
    | none => .panic (.message "no a"))

/-- What `tally` does. -/
def tallying : Behaviour where
  name := "tally"
  prepared := .ok .anyInput
  executed texts :=
    .ok ⟨[⟨"all.decl", String.join ((Compilation.ofTexts texts).inputs.map (·.text))⟩], []⟩
  watchful := by simp

/-- What `copy` does. -/
def copying : Behaviour where
  name := "copy"
  prepared := .ok (.watched ["a"])
  executed texts :=
    match (Compilation.ofTexts texts).text? "a" with
    | some text => .ok ⟨[⟨"a.decl", text⟩], []⟩
    | none => .error "no a"
  watchful := by
    intro names h t t' agree
    cases h
    rw [agree "a" (by simp)]

/-- Both generators, executed three times before. -/
def workshop : Workshop Nat :=
  { instances := [⟨tally, 3, false, []⟩, ⟨copy, 3, false, []⟩] }

/-- The two sample generators behave as they should, however often they were executed before. -/
theorem workshop_follows : workshop.Follows [tallying, copying] := by
  constructor
  · rfl
  · intro i x b hx hb
    rcases i with _ | _ | i
    · cases hx
      cases hb
      exact ⟨rfl, rfl, fun _ => rfl, fun _ _ => rfl⟩
    · cases hx
      cases hb
      refine ⟨rfl, rfl, fun _ => rfl, fun n texts => ?_⟩
      show ((match (Compilation.ofTexts texts).text? "a" with
        | some text => Activity.addSource "a" text fun _ => .done
        | none => .panic (.message "no a")).run "copy" (.ofTexts texts) false (n + 1) false
          {}).ending = _
      unfold Behaviour.ending copying
      dsimp only
      cases (Compilation.ofTexts texts).text? "a" with
      | some text => rfl
      | none => rfl
    · simp [workshop] at hx

/-- Files appear, change and disappear, and generators are removed and registered again. -/
def history : List Command :=
  [.addGenerator 0, .addGenerator 1, .run, .updateSource "b" "type B {}", .bind, .removeSource "a",
    .removeGenerator "tally", .run, .addGenerator 0, .updateSource "a" "type A { }"]

/-- Fingerprints tell the inputs of the history apart. -/
theorem history_separated :
    Separated
      (fun t => ∃ r ∈ Request.trail ["tally", "copy"] { texts := [("a", "type A {}")] } history,
        r.texts = t)
      [tallying, copying] := by
  constructor
  · rintro t t' ⟨r, hr, rfl⟩ ⟨r', hr', rfl⟩
    revert r r'
    decide +kernel
  · intro b hb names hp t t' ht ht' same
    rcases List.mem_pair.mp hb with rfl | rfl
    · simp [tallying] at hp
    · cases hp
      obtain ⟨r, hr, rfl⟩ := ht
      obtain ⟨r', hr', rfl⟩ := ht'
      revert r r'
      decide +kernel

end Sample

/-- The sample history comes to the same as a new pipeline that runs the generators one by one. -/
theorem pass_after_sample_history : Sample.workshop.Follows [Sample.tallying, Sample.copying] ∧
    let s := (Session.start (.given 0 [("a", "type A {}")] []) {} Sample.workshop).performAll
      Sample.history
    let s' := s.fresh { parallel := false } Sample.workshop
    (s.pass.snapshot.compilation, s.pass.diagnostics) =
      (s'.pass.snapshot.compilation, s'.pass.diagnostics) :=
  ⟨Sample.workshop_follows,
    (pass_after_history_eq_pass_of_fresh Sample.workshop_follows Sample.workshop_follows 0
      [("a", "type A {}")] [] {} { parallel := false } Sample.history
      Sample.history_separated).2.2.2⟩

end DeclFront
