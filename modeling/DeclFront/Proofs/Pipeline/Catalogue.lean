import DeclFront.Proofs.Compilation.Raised
import DeclFront.Proofs.Pipeline.Phases

/-!
# A snapshot is known by its own files

Snapshots are told apart by number, and what is known is kept by number. A catalogue lists the
compilation of each snapshot that was given out. It only grows, and whatever happens between a
pipeline and its callers, all that is known about a snapshot was found out by inquiries about its
own files.
-/

set_option autoImplicit false

namespace DeclFront

variable {σ : Type} {cat cat' : List Compilation}

/-- The catalogue lists the compilation of the snapshot. -/
def Snapshot.Listed (s : Snapshot) (cat : List Compilation) : Prop :=
  cat[s.id]? = some s.compilation

/-- Each compilation of the catalogue is that of one snapshot, and what is known about this was found
out by inquiries about the compilation. -/
structure Archive.Keeps (a : Archive) (cat : List Compilation) : Prop where
  issued : a.known.size = cat.length
  knows : ∀ (i : Nat) c, cat[i]? = some c → c.Knows (a.known[i]?).join

/-- The archive keeps the catalogue, which lists the inputs of all executions that have not
finished. -/
structure Workshop.Keeps (w : Workshop σ) (cat : List Compilation) : Prop where
  archive : w.archive.Keeps cat
  running : ∀ x ∈ w.instances, ∀ e ∈ x.running, e.input.Listed cat

/-- A longer catalogue lists what a shorter one does. -/
theorem Snapshot.Listed.mono {s : Snapshot} (h : s.Listed cat) (longer : cat <+: cat') :
    s.Listed cat' := by
  obtain ⟨more, rfl⟩ := longer
  exact (List.getElem?_append_left (List.getElem?_eq_some_iff.mp h).1).trans h

namespace Compilation

variable {c : Compilation}

/-- Of a snapshot that is not bound nothing is known, and that much is right for any compilation. -/
theorem knows_none : c.Knows none :=
  nofun

/-- What binding finds out is about the files that were bound. -/
theorem knows_ofFiles : c.Knows (some (Knowledge.ofFiles c.files)) := by
  rintro k ⟨⟩
  exact ⟨[], rfl⟩

/-- What an inquiry finds out is about the same files. -/
theorem Knows.inquire {k : Knowledge} (h : c.Knows (some k)) (i : Inquiry) :
    c.Knows (some (k.inquire i)) := by
  obtain ⟨is, rfl⟩ := h k rfl
  rintro k' ⟨⟩
  exact ⟨is ++ [i], by rw [Knowledge.after, Knowledge.after, List.foldl_append]; rfl⟩

end Compilation

namespace Archive

variable {a : Archive} {s : Snapshot}

/-- What is known about a listed snapshot is about its own files. -/
theorem Keeps.known? (h : a.Keeps cat) (listed : s.Listed cat) :
    s.compilation.Knows (a.known? s) :=
  h.knows s.id _ listed

/-- A new snapshot gets the next number, and its compilation comes last in the catalogue. -/
theorem Keeps.snapshot (h : a.Keeps cat) (c : Compilation) :
    (a.snapshot c).2.Keeps (cat ++ [c]) ∧ (a.snapshot c).1.Listed (cat ++ [c]) := by
  refine ⟨⟨?_, fun i d hd => ?_⟩, ?_⟩
  · show (a.known.push none).size = (cat ++ [c]).length
    rw [Array.size_push, h.issued, List.length_append]
    rfl
  · show d.Knows ((a.known.push none)[i]?).join
    rw [Array.getElem?_push, h.issued]
    split
    · exact Compilation.knows_none
    · rename_i other
      have bound : i < (cat ++ [c]).length := (List.getElem?_eq_some_iff.mp hd).1
      rw [List.length_append, List.length_singleton] at bound
      rw [List.getElem?_append_left (by omega)] at hd
      exact h.knows i d hd
  · show (cat ++ [c])[a.known.size]? = some c
    rw [h.issued, List.getElem?_concat_length]

/-- An archive may learn about a listed snapshot what is right about its files. -/
theorem Keeps.learn (h : a.Keeps cat) (listed : s.Listed cat) {k : Knowledge}
    (knows : s.compilation.Knows (some k)) : (a.learn s k).Keeps cat := by
  refine ⟨(size_learn a s k).trans h.issued, fun i c hc => ?_⟩
  rw [Archive.learn, Array.getElem?_setIfInBounds]
  split
  · rename_i same
    subst same
    cases listed.symm.trans hc
    split
    · exact knows
    · exact Compilation.knows_none
  · exact h.knows i c hc

/-- Binding a listed snapshot finds out about its own files, or that has been done before. -/
theorem Keeps.bind (h : a.Keeps cat) (listed : s.Listed cat) :
    (a.bind s).2.Keeps cat ∧ s.compilation.Knows (some (a.bind s).1) := by
  have knows := h.known? listed
  unfold Archive.bind
  split
  · rename_i k known
    exact ⟨h, known ▸ knows⟩
  · exact ⟨h.learn listed Compilation.knows_ofFiles, Compilation.knows_ofFiles⟩

end Archive

/-! ### What generators and callers do to a workshop -/

namespace Workshop

variable {w : Workshop σ} {s : Snapshot}

/-- A workshop that makes a snapshot makes its catalogue longer by one. -/
theorem Keeps.snapshot (h : w.Keeps cat) (c : Compilation) :
    (w.snapshot c).2.Keeps (cat ++ [c]) ∧ (w.snapshot c).1.Listed (cat ++ [c]) := by
  obtain ⟨archive, listed⟩ := h.archive.snapshot c
  exact ⟨⟨archive, fun x hx e he => (h.running x hx e he).mono (List.prefix_append _ _)⟩, listed⟩

/-- A snapshot without generated files is listed already, or makes the catalogue longer. -/
theorem Keeps.withoutGenerated (h : w.Keeps cat) (listed : s.Listed cat) :
    ∃ cat', cat <+: cat' ∧ (w.withoutGenerated s).2.Keeps cat' ∧
      (w.withoutGenerated s).1.Listed cat' := by
  unfold Workshop.withoutGenerated Archive.withoutGenerated
  cases s.compilation.generated.isEmpty with
  | true => exact ⟨cat, List.prefix_refl cat, h, listed⟩
  | false => exact ⟨_, List.prefix_append _ _, h.snapshot s.compilation.withoutGenerated⟩

/-- A workshop that binds a listed snapshot keeps its catalogue. -/
theorem Keeps.bind (h : w.Keeps cat) (listed : s.Listed cat) : (w.bind s).2.Keeps cat :=
  ⟨(h.archive.bind listed).1, h.running⟩

/-- A workshop keeps its catalogue when somebody asks about a listed snapshot. -/
theorem Keeps.inquire (h : w.Keeps cat) (listed : s.Listed cat) (i : Inquiry) :
    (w.inquire s i).Keeps cat := by
  obtain ⟨archive, knows⟩ := h.archive.bind listed
  exact ⟨archive.learn listed (knows.inquire i), h.running⟩

/-- A workshop keeps its catalogue when a generator changes, if its executions still work with
listed inputs. -/
theorem Keeps.update (h : w.Keeps cat) (i : Nat) {f : Instance σ → Instance σ}
    (running : ∀ x, (∀ e ∈ x.running, e.input.Listed cat) → ∀ e ∈ (f x).running, e.input.Listed cat) :
    (w.update i f).Keeps cat := by
  refine ⟨h.archive, fun x hx => ?_⟩
  obtain ⟨j, hj⟩ := List.mem_iff_getElem?.mp hx
  rw [Workshop.update, List.getElem?_modify] at hj
  obtain ⟨y, hy, rfl⟩ := Option.map_eq_some_iff.mp hj
  have before := h.running y (List.mem_of_getElem? hy)
  split
  · exact running y before
  · exact before

/-- Generators at work with inputs that are listed find out about nothing but these. -/
theorem upkeep_keeps {input : Snapshot} (listed : input.Listed cat) :
    Upkeep input fun w : Workshop σ => w.Keeps cat where
  bind _ h := h.bind listed
  state _ i _ h := h.update i fun _ before => before
  wait _ i progress next h := by
    refine h.update i fun x before e he => ?_
    rcases List.mem_append.mp he with earlier | new
    · exact before e earlier
    · rw [List.mem_singleton.mp new]
      exact listed
  cancel _ i h := by
    refine h.update i fun x before e he => ?_
    obtain ⟨e', he', rfl⟩ := List.mem_map.mp he
    exact before e' he'

/-- A workshop keeps its catalogue when a latch is opened, since the executions go on with the
inputs that they were shown. -/
theorem Keeps.release (h : w.Keeps cat) (i : Nat) : (w.release i).Keeps cat := by
  unfold Workshop.release
  split
  · exact h
  · rename_i x hx
    refine finish_keeps (fun e he => upkeep_keeps (h.running x (List.mem_of_getElem? hx) e he)) ?_ i
    exact h.update i fun _ _ => List.forall_mem_nil _

end Workshop

/-! ### Operations of a pipeline -/

namespace Pipeline

/-- The workshop keeps a catalogue that lists the inputs of the pipeline and the last pass. -/
structure Keeps (p : Pipeline) (w : Workshop σ) (cat : List Compilation) : Prop where
  workshop : w.Keeps cat
  input : p.input.Listed cat
  current : ∀ q, p.current = some q → q.snapshot.Listed cat

variable {p : Pipeline} {w : Workshop σ} {s : Snapshot}

/-- A pipeline is fine with a workshop that keeps a longer catalogue. -/
theorem Keeps.mono (h : p.Keeps w cat) {w' : Workshop σ} (longer : cat <+: cat')
    (workshop : w'.Keeps cat') : p.Keeps w' cat' :=
  ⟨workshop, h.input.mono longer, fun q hq => (h.current q hq).mono longer⟩

/-- Registering a generator makes no snapshot. -/
theorem Keeps.addGenerator (h : p.Keeps w cat) {name : String} {i : Nat} {p' : Pipeline}
    (added : p.addGenerator name i = .ok p') : p'.Keeps w cat := by
  unfold Pipeline.addGenerator at added
  split at added
  · cases added
  · cases added
    exact ⟨h.workshop, h.input, h.current⟩

/-- Removing a generator makes no snapshot. -/
theorem Keeps.removeGenerator (h : p.Keeps w cat) (name : String) :
    (p.removeGenerator name).2.Keeps w cat := by
  unfold Pipeline.removeGenerator
  split
  · exact ⟨h.workshop, h.input, h.current⟩
  · exact h

/-- The inputs of a pipeline are a listed snapshot, or one that is made of it. -/
theorem Keeps.setInput (h : p.Keeps w cat) (listed : s.Listed cat) :
    ∃ cat', cat <+: cat' ∧ (p.setInput s w).1.Keeps (p.setInput s w).2 cat' := by
  unfold Pipeline.setInput
  split
  · exact ⟨cat, List.prefix_refl cat, h⟩
  · obtain ⟨cat', longer, workshop, input⟩ := h.workshop.withoutGenerated listed
    exact ⟨cat', longer, workshop, input, fun q hq => (h.current q hq).mono longer⟩

/-- Inputs that are new are listed before they are set. -/
theorem Keeps.setNewInput (h : p.Keeps w cat) (c : Compilation) :
    ∃ cat', cat <+: cat' ∧ (p.setInput (w.snapshot c).1 (w.snapshot c).2).1.Keeps
      (p.setInput (w.snapshot c).1 (w.snapshot c).2).2 cat' := by
  obtain ⟨workshop, listed⟩ := h.workshop.snapshot c
  have longer : cat <+: cat ++ [c] := List.prefix_append _ _
  obtain ⟨cat', further, kept⟩ := (h.mono longer workshop).setInput listed
  exact ⟨cat', longer.trans further, kept⟩

/-- Inputs from which a source was taken are listed before they are set. -/
theorem Keeps.removeSource (h : p.Keeps w cat) {name : String} {p' : Pipeline} {w' : Workshop σ}
    (removed : p.removeSource name w = .ok (p', w')) :
    ∃ cat', cat <+: cat' ∧ p'.Keeps w' cat' := by
  unfold Pipeline.removeSource at removed
  split at removed
  · cases removed
  · rename_i c hc
    have set : p.setInput (w.snapshot c).1 (w.snapshot c).2 = (p', w') := Except.ok.inj removed
    have kept := h.setNewInput c
    rwa [set] at kept

/-- A pass makes the catalogue longer, and what it came to is listed. -/
theorem Keeps.driverRun (h : p.Keeps w cat) (tidy : ∀ e ∈ p.driver.entries, e.Tidy) :
    ∃ q driver w' cat', p.driver.run p.input w = (q, driver, w') ∧ cat <+: cat' ∧
      ({ p with driver, phase := .generated, current := some q, stale := false } :
        Pipeline).Keeps w' cat' := by
  obtain ⟨shown, longer, kept, listed⟩ := h.workshop.withoutGenerated h.input
  obtain ⟨rs, es, w₁, kept₁, -, -, ran⟩ :=
    Driver.run_keeps tidy (Workshop.upkeep_keeps listed) kept
  obtain ⟨kept₂, made⟩ :=
    kept₁.snapshot (p.input.compilation.withGenerated (RunResult.allFiles rs))
  have further := longer.trans
    (List.prefix_append shown [p.input.compilation.withGenerated (RunResult.allFiles rs)])
  refine ⟨_, _, _, _, ran, further, kept₂, h.input.mono further, ?_⟩
  rintro q ⟨⟩
  exact made

/-- Running a pass or returning the last one leaves a result that is listed. -/
theorem Keeps.run (h : p.Keeps w cat) (tidy : ∀ e ∈ p.driver.entries, e.Tidy) :
    ∃ q p' w' cat', p.run w = (q, p', w') ∧ p'.current = some q ∧ cat <+: cat' ∧
      p'.Keeps w' cat' := by
  rcases p.run_cases w with ⟨_, _, _, made, result⟩ | ⟨q, current, -, result⟩
  · obtain ⟨q, driver, w', cat', ran, longer, kept⟩ := h.driverRun tidy
    cases ran.symm.trans made
    exact ⟨_, _, _, cat', result, rfl, longer, kept⟩
  · exact ⟨q, p, w, cat, result, current, List.prefix_refl cat, h⟩

/-- Binding the last pass, after running one if that is needed, keeps the catalogue or makes
it longer. -/
theorem Keeps.bind (h : p.Keeps w cat) (tidy : ∀ e ∈ p.driver.entries, e.Tidy) :
    ∃ k p' w' cat', p.bind w = (k, p', w') ∧ cat <+: cat' ∧ p'.Keeps w' cat' := by
  obtain ⟨q, p', w', cat', ran, current, longer, kept⟩ := h.run tidy
  unfold Pipeline.bind
  rw [ran]
  exact ⟨_, _, _, cat', rfl, longer, kept.workshop.bind (kept.current q current), kept.input,
    kept.current⟩

end Pipeline

/-! ### Histories -/

/-- The workshop with some generators in their states, before anything has happened. -/
def Workshop.ofGenerators (gs : List (Generator σ × σ)) : Workshop σ :=
  { instances := gs.map fun g => { generator := g.1, state := g.2 } }

/-- Before anything has happened there are no snapshots, and the catalogue is empty. -/
theorem Workshop.ofGenerators_keeps (gs : List (Generator σ × σ)) :
    (Workshop.ofGenerators gs).Keeps [] := by
  refine ⟨⟨rfl, nofun⟩, fun x hx => ?_⟩
  obtain ⟨g, -, rfl⟩ := List.mem_map.mp hx
  exact List.forall_mem_nil _

namespace World

/-- The workshop keeps a catalogue that lists the snapshots of the pipeline and of its callers. -/
structure Keeps (a : World σ) (cat : List Compilation) : Prop where
  pipeline : a.pipeline.Keeps a.workshop cat
  held : ∀ s ∈ a.held, s.Listed cat

variable {a : World σ} {start : Workshop σ} {asked : Bool} {names : List String}

/-- A new pipeline has the snapshot that it is made for. -/
theorem start_keeps {w : Workshop σ} (h : w.Keeps cat) (texts : Texts)
    (generated : List SourceFile) (config : Config) :
    ∃ cat', (World.start texts generated config w).Keeps cat' := by
  obtain ⟨workshop, listed⟩ :=
    h.snapshot ((Compilation.ofTexts texts).withGenerated generated)
  obtain ⟨cat', longer, workshop', input⟩ := workshop.withoutGenerated listed
  refine ⟨cat', ⟨workshop', input, nofun⟩, fun s hs => ?_⟩
  rw [List.mem_singleton.mp hs]
  exact listed.mono longer

/-- Callers may hold any snapshots that are listed. -/
theorem Keeps.hold (h : a.Keeps cat) {ss : List Snapshot} (listed : ∀ s ∈ ss, s.Listed cat) :
    Keeps { a with held := a.held ++ ss } cat :=
  ⟨h.pipeline, fun s hs => (List.mem_append.mp hs).elim (h.held s) (listed s)⟩

/-- An operation of the pipeline, whatever the callers hold. -/
theorem Keeps.operate (h : a.Keeps cat) {p : Pipeline} {w : Workshop σ} (longer : cat <+: cat')
    (kept : p.Keeps w cat') : Keeps ⟨⟨p, w⟩, a.held⟩ cat' :=
  ⟨kept, fun s hs => (h.held s hs).mono longer⟩

/-- Registering a generator keeps the catalogue, whether it succeeds or not. -/
theorem Keeps.addGenerator (h : a.Keeps cat) (i : Nat) :
    (a.perform (.addGenerator i)).Keeps cat := by
  have same : cat <+: cat := List.prefix_refl cat
  rw [perform, Session.perform]
  split
  · exact h
  · split
    · exact h
    · rename_i added
      exact h.operate same (h.pipeline.addGenerator added)

/-- One event can make the catalogue longer. -/
theorem Keeps.perform (h : a.Keeps cat) (coherent : a.Coherent start asked names) (e : Event) :
    ∃ cat', (a.perform e).Keeps cat' := by
  have same : cat <+: cat := List.prefix_refl cat
  have tidy := coherent.pipeline.entries
  cases e with
  | make texts generated =>
    obtain ⟨workshop, listed⟩ :=
      h.pipeline.workshop.snapshot ((Compilation.ofTexts texts).withGenerated generated)
    have longer := List.prefix_append cat [(Compilation.ofTexts texts).withGenerated generated]
    refine ⟨_, (h.operate longer (h.pipeline.mono longer workshop)).hold fun s hs => ?_⟩
    rw [List.mem_singleton.mp hs]
    exact listed
  | holdInput =>
    refine ⟨cat, h.hold fun s hs => ?_⟩
    rw [List.mem_singleton.mp hs]
    exact h.pipeline.input
  | holdSnapshot =>
    refine ⟨cat, h.hold fun s hs => ?_⟩
    obtain ⟨q, hq, rfl⟩ := Option.map_eq_some_iff.mp (Option.mem_toList.mp hs)
    exact h.pipeline.current q hq
  | addGenerator i => exact ⟨cat, h.addGenerator i⟩
  | removeGenerator name => exact ⟨cat, h.operate same (h.pipeline.removeGenerator name)⟩
  | setInput n =>
    rw [World.perform]
    split
    · exact ⟨cat, h⟩
    · rename_i s hs
      obtain ⟨cat', longer, kept⟩ := h.pipeline.setInput (h.held s (List.mem_of_getElem? hs))
      exact ⟨cat', h.operate longer kept⟩
  | updateSource name text =>
    obtain ⟨cat', longer, kept⟩ :=
      h.pipeline.setNewInput (a.pipeline.input.compilation.withSource name text)
    exact ⟨cat', h.operate longer kept⟩
  | removeSource name =>
    rw [World.perform, Session.perform]
    split
    · exact ⟨cat, h⟩
    · rename_i removed
      obtain ⟨cat', longer, kept⟩ := h.pipeline.removeSource removed
      exact ⟨cat', h.operate longer kept⟩
  | run =>
    obtain ⟨q, p, w, cat', ran, -, longer, kept⟩ := h.pipeline.run tidy
    have ran : a.session.pipeline.run a.session.workshop = (q, p, w) := ran
    refine ⟨cat', ?_⟩
    simp only [World.perform, Session.perform, ran]
    exact h.operate longer kept
  | bind =>
    obtain ⟨k, p, w, cat', bound, longer, kept⟩ := h.pipeline.bind tidy
    have bound : a.session.pipeline.bind a.session.workshop = (k, p, w) := bound
    refine ⟨cat', ?_⟩
    simp only [World.perform, Session.perform, bound]
    exact h.operate longer kept
  | inquire n i =>
    rw [World.perform]
    split
    · exact ⟨cat, h⟩
    · rename_i s hs
      have listed := h.held s (List.mem_of_getElem? hs)
      exact ⟨cat, h.operate same (h.pipeline.mono same (h.pipeline.workshop.inquire listed i))⟩
  | release i =>
    exact ⟨cat, h.operate same (h.pipeline.mono same (h.pipeline.workshop.release i))⟩

/-- Any history makes the catalogue longer at most, by induction on its events. -/
theorem Keeps.performAll (h : a.Keeps cat) (coherent : a.Coherent start asked names)
    (es : List Event) : ∃ cat', (a.performAll es).Keeps cat' := by
  induction es generalizing a cat asked names with
  | nil => exact ⟨cat, h⟩
  | cons e es ih =>
    obtain ⟨cat', kept⟩ := h.perform coherent e
    exact ih kept (coherent.perform e)

end World

end DeclFront
