import DeclFront.Proofs.Generator.Behaviour
import Mathlib.Data.List.Forall2

/-!
# A pass comes to the same as a pass from scratch

What an entry keeps is right for the inputs that were seen so far: its preparation is the one that
the generator always gives, and a kept contribution is what the generator contributes to some inputs
that were seen, under the fingerprint of those. As long as fingerprints tell the seen inputs apart,
a contribution that is used again is the one that an execution would give, so that a pass over
inputs that were seen, parallel or not, contributes what a pass from scratch does.
-/

set_option autoImplicit false

namespace DeclFront

/-- Fingerprints tell apart the inputs that were seen: no two different ones share a fingerprint,
and no two that differ in what a generator watches share the fingerprint of that. -/
structure Separated (seen : Texts → Prop) (bs : List Behaviour) : Prop where
  inputs : ∀ t t', seen t → seen t' →
      (Compilation.ofTexts t).fingerprint = (Compilation.ofTexts t').fingerprint → t = t'
  watched : ∀ b ∈ bs, ∀ names, b.prepared = .ok (.watched names) → ∀ t t', seen t → seen t' →
      (Compilation.ofTexts t).fingerprintOf names = (Compilation.ofTexts t').fingerprintOf names →
      ∀ n ∈ names, (Compilation.ofTexts t).text? n = (Compilation.ofTexts t').text? n

/-- A single input is never mistaken for another. -/
theorem Separated.of_subsingleton {seen : Texts → Prop} (bs : List Behaviour)
    (h : ∀ t t', seen t → seen t' → t = t') : Separated seen bs := by
  constructor
  · intro t t' ht ht' _
    exact h t t' ht ht'
  · intro b _ names _ t t' ht ht' _ n _
    rw [h t t' ht ht']

/-- Inputs that were seen and have the same fingerprint, for what matters to a generator, get the
same contribution from it. -/
theorem Separated.contribution_eq {seen : Texts → Prop} {bs : List Behaviour}
    (h : Separated seen bs) {b : Behaviour} (hb : b ∈ bs) {policy : Policy}
    (hp : b.prepared = .ok policy) {t t' : Texts} (ht : seen t) (ht' : seen t')
    (same : policy.fingerprint (.ofTexts t) = policy.fingerprint (.ofTexts t')) :
    b.contribution t = b.contribution t' := by
  cases policy with
  | anyInput =>
      have eq : t = t' := h.inputs t t' ht ht' same
      rw [eq]
  | watched names =>
      have agree := h.watched b hb names hp t t' ht ht' same
      have executed := b.watchful names hp t t' agree
      unfold Behaviour.contribution
      rw [executed]

/-- An entry registers generator number `i`, and what it keeps is right for the behaviour of that
and the inputs that were seen. -/
structure Entry.Stands (e : Entry) (bs : List Behaviour) (seen : Texts → Prop) (i : Nat)
    (b : Behaviour) : Prop where
  index : e.index = i
  behaviour : bs[i]? = some b
  name : e.name = b.name
  prepared : ∀ p, e.prepared = some p → p = b.readiness
  cache : ∀ c, e.cache = some c → ∃ t policy, seen t ∧ b.prepared = .ok policy ∧
      c.fingerprint = policy.fingerprint (.ofTexts t) ∧ (c.output, c.files) = b.contribution t

/-- What is decided about a generator is its contribution already, or an execution was begun that
comes to it. -/
def Plan.Fits (b : Behaviour) (texts : Texts) : Plan → Prop
  | .settled r => (r.output, r.files) = b.contribution texts
  | .pending fingerprint attempt => ∃ policy, b.prepared = .ok policy ∧
      fingerprint = policy.fingerprint (.ofTexts texts) ∧ attempt = b.attempt texts

namespace Behaviour

variable {b : Behaviour} {texts : Texts}

/-- What is kept of a preparation that goes well is the policy. -/
theorem readiness_of_ok {policy : Policy} (h : b.prepared = .ok policy) :
    b.readiness = .ok policy := by
  unfold readiness
  rw [h]

/-- Where a policy is kept, the preparation went well. -/
theorem prepared_of_readiness {policy : Policy} (h : b.readiness = .ok policy) :
    b.prepared = .ok policy := by
  unfold readiness at h
  split at h
  · rename_i p hp
    rw [hp, Except.ok.inj h]
  · simp at h

/-- A generator that cannot be prepared contributes the report of it and nothing else. -/
theorem contribution_unprepared {d : Diagnostic} (h : b.readiness = .error d) :
    b.contribution texts = (⟨[], [d]⟩, []) := by
  unfold contribution
  rw [h]

/-- An execution that finishes contributes its output and the files of that. -/
theorem contribution_finished {policy : Policy} {output : Output} (h : b.prepared = .ok policy)
    (ends : b.executed texts = .ok output) :
    b.contribution texts = (output, output.files b.name) := by
  unfold contribution
  rw [readiness_of_ok h, ends]

/-- An execution that fails contributes the report of it and nothing else. -/
theorem contribution_faulted {policy : Policy} {reason : String} (h : b.prepared = .ok policy)
    (ends : b.executed texts = .error reason) :
    b.contribution texts =
      (⟨[], [(Finding.generatorFailed b.name reason).report (.generator b.name) none]⟩, []) := by
  unfold contribution
  rw [readiness_of_ok h, ends]

end Behaviour

namespace Entry

variable {e : Entry} {bs : List Behaviour} {seen : Texts → Prop} {i : Nat} {b : Behaviour}

/-- What an entry keeps of the preparation of its generator is what its behaviour says. -/
theorem preparedBy_preparation (config : Config) (h : e.name = b.name) :
    e.preparedBy config b.preparation = b.readiness := by
  unfold Behaviour.preparation Behaviour.readiness
  cases b.prepared with
  | ok policy => rfl
  | error p => simp [preparedBy, report, h]

/-- An entry may keep how the preparation of its generator goes. -/
theorem Stands.withPrepared (h : e.Stands bs seen i b) :
    Stands { e with prepared := some b.readiness } bs seen i b :=
  { h with prepared := fun _ hp => (Option.some.inj hp).symm }

/-- An entry may keep a contribution to inputs that were seen, under their fingerprint. -/
theorem Stands.store (h : e.Stands bs seen i b) {texts : Texts} (hseen : seen texts)
    {policy : Policy} (hp : b.prepared = .ok policy) {r : RunResult}
    (hr : (r.output, r.files) = b.contribution texts) :
    (e.store (policy.fingerprint (.ofTexts texts)) r).Stands bs seen i b := by
  refine { h with cache := ?_ }
  intro c hc
  cases hc
  exact ⟨texts, policy, hseen, hp, rfl, hr⟩

/-- A new registration keeps nothing. -/
theorem stands_new (behaviour : bs[i]? = some b) :
    Stands { name := b.name, index := i } bs seen i b := by
  refine ⟨rfl, behaviour, rfl, ?_, ?_⟩
  · intro p hp
    simp at hp
  · intro c hc
    simp at hc

end Entry

namespace Driver

variable {σ : Type} {w : Workshop σ} {bs : List Behaviour} {seen : Texts → Prop} {e : Entry}
  {i : Nat} {b : Behaviour} {texts : Texts}

/-- A registration fails where its name is taken, and is put behind the others where it is free. -/
theorem add_eq (d : Driver) (name : String) (index : Nat) :
    d.add name index =
      if name ∈ d.names then .error (.duplicateGenerator name)
      else .ok { d with entries := d.entries ++ [{ name, index }] } := by
  have taken : (d.entries.any fun e => e.name = name) = true ↔ name ∈ d.names := by
    simp [names]
  simp only [add, taken]

/-- A preparation goes as the behaviour says, if it was not made before, and leaves entry and
workshop right. -/
theorem prepare_stands (config : Config) (hw : w.Follows bs) (h : e.Stands bs seen i b) :
    ∃ e' w', prepare config e w = (b.readiness, e', w') ∧ e'.Stands bs seen i b ∧
    w'.Follows bs := by
  unfold prepare
  cases kept : e.prepared with
  | some p =>
      rw [h.prepared p kept]
      exact ⟨e, w, rfl, h, hw⟩
  | none =>
      obtain ⟨ends, follows⟩ := hw.prepare h.behaviour
      have ready : e.preparedBy config (w.prepare e.index).1 = b.readiness := by
        rw [h.index, ends]
        exact Entry.preparedBy_preparation config h.name
      rw [h.index] at ready
      refine ⟨{ e with prepared := some b.readiness }, (w.prepare i).2, ?_, h.withPrepared, follows⟩
      dsimp only
      rw [h.index, ready]

/-! ### What `plan` answers -/

section Plan

variable {config : Config} {input : Snapshot} {e' : Entry} {w' : Workshop σ}

/-- Nothing is executed for a generator that could not be prepared. -/
theorem plan_unprepared {d : Diagnostic} (h : prepare config e w = (.error d, e', w')) :
    plan config input e w = (.settled (e'.failure .unprepared d), e', w') := by
  unfold plan
  rw [h]

/-- What is kept under the fingerprint of the inputs is used again, and nothing is executed. -/
theorem plan_cached {policy : Policy} {c : CachedRun}
    (h : prepare config e w = (.ok policy, e', w')) (cache : e'.cache = some c)
    (same : c.fingerprint = policy.fingerprint input.compilation) :
    plan config input e w = (.settled ⟨e'.name, .cached, c.output, c.files⟩, e', w') := by
  unfold plan
  rw [h]
  simp only [cache, same, if_true]

/-- Where nothing is kept under the fingerprint of the inputs, an execution is attempted. -/
theorem plan_attempted {policy : Policy} (h : prepare config e w = (.ok policy, e', w'))
    (fresh : ∀ c, e'.cache = some c → c.fingerprint ≠ policy.fingerprint input.compilation) :
    plan config input e w =
      (.pending (policy.fingerprint input.compilation) (w'.execute e'.index input).1, e',
        (w'.execute e'.index input).2) := by
  unfold plan
  rw [h]
  cases cache : e'.cache with
  | none => simp only [cache]
  | some c => simp only [cache, fresh c cache, if_false]

end Plan

/-- What is decided about a generator fits what it contributes, since a kept contribution was made
from inputs that it cannot tell from these. -/
theorem plan_fits (config : Config) (id : Nat) (separated : Separated seen bs) (hseen : seen texts)
    (hw : w.Follows bs) (h : e.Stands bs seen i b) :
    ∃ p e' w', plan config ⟨id, .ofTexts texts⟩ e w = (p, e', w') ∧ p.Fits b texts ∧
    e'.Stands bs seen i b ∧ w'.Follows bs := by
  obtain ⟨e', w', prepared, stands, follows⟩ := prepare_stands config hw h
  cases ready : b.readiness with
  | error d =>
      rw [ready] at prepared
      refine ⟨_, _, _, plan_unprepared prepared, ?_, stands, follows⟩
      exact (Behaviour.contribution_unprepared ready).symm
  | ok policy =>
      rw [ready] at prepared
      have hp := Behaviour.prepared_of_readiness ready
      by_cases hit : ∃ c, e'.cache = some c ∧ c.fingerprint = policy.fingerprint (.ofTexts texts)
      · obtain ⟨c, cache, same⟩ := hit
        obtain ⟨t, policy', ht, hp', fingerprint, kept⟩ := stands.cache c cache
        have policies : policy' = policy := Except.ok.inj (hp'.symm.trans hp)
        rw [policies] at fingerprint
        refine ⟨_, _, _, plan_cached prepared cache same, ?_, stands, follows⟩
        show (c.output, c.files) = b.contribution texts
        rw [kept]
        exact separated.contribution_eq (List.mem_of_getElem? h.behaviour)
          hp ht hseen (fingerprint.symm.trans same)
      · have fresh : ∀ c, e'.cache = some c → c.fingerprint ≠ policy.fingerprint (.ofTexts texts) :=
            fun c cache same => hit ⟨c, cache, same⟩
        obtain ⟨ends, follows'⟩ := follows.execute stands.behaviour id texts
        rw [← stands.index] at ends follows'
        exact ⟨_, _, _, plan_attempted prepared fresh, ⟨policy, hp, rfl, ends⟩, stands, follows'⟩

/-- What was decided comes to the contribution of the generator, and only that is kept. -/
theorem resolve_contributes (config : Config) (hseen : seen texts) (hw : w.Follows bs)
    (h : e.Stands bs seen i b) {p : Plan} (hp : p.Fits b texts) :
    ∃ r e' w', resolve config p e w = (r, e', w') ∧ (r.output, r.files) = b.contribution texts ∧
    e'.Stands bs seen i b ∧ w'.Follows bs := by
  cases p with
  | settled r => exact ⟨r, e, w, rfl, hp, h, hw⟩
  | pending fingerprint attempt =>
      obtain ⟨policy, prepared, rfl, rfl⟩ := hp
      unfold Behaviour.attempt
      cases ends : b.executed texts with
      | ok output =>
          have contributed : (output, output.files e.name) = b.contribution texts := by
            rw [Behaviour.contribution_finished prepared ends, h.name]
          exact ⟨_, _, _, rfl, contributed, h.store hseen prepared contributed, hw⟩
      | error reason =>
          have contributed :
              ((⟨[], [e.report (.generatorFailed e.name reason)]⟩ : Output), ([] : List SourceFile)) =
                b.contribution texts := by
            rw [Behaviour.contribution_faulted prepared ends, Entry.report, h.name]
          exact ⟨_, _, _, rfl, contributed, h.store hseen prepared contributed, hw⟩

/-- The entries register the generators of the given numbers, in this order, and all of them stand. -/
def Registered (bs : List Behaviour) (seen : Texts → Prop) (es : List Entry) (is : List Nat) :
    Prop :=
  List.Forall₂ (fun e i => ∃ b, e.Stands bs seen i b) es is

/-- The behaviours of the generators of the given numbers. -/
def behaviours (bs : List Behaviour) (is : List Nat) : List Behaviour :=
  is.filterMap fun i => bs[i]?

/-- The behaviours of some generators are those of the first and of the others. -/
theorem behaviours_cons {is : List Nat} (h : bs[i]? = some b) :
    behaviours bs (i :: is) = b :: behaviours bs is := by
  rw [behaviours, List.filterMap_cons, h]
  rfl

/-- Results contribute what the behaviours do to a pass over the given inputs. -/
def Contribute (bs : List Behaviour) (is : List Nat) (texts : Texts) (rs : List RunResult) : Prop :=
  rs.map (fun r => (r.output, r.files)) = (behaviours bs is).map fun b => b.contribution texts

/-- One more result that is right stands in front of results that are right. -/
theorem Contribute.cons {is : List Nat} {r : RunResult} {rs : List RunResult}
    (behaviour : bs[i]? = some b) (first : (r.output, r.files) = b.contribution texts)
    (others : Contribute bs is texts rs) : Contribute bs (i :: is) texts (r :: rs) := by
  unfold Contribute at others ⊢
  rw [behaviours_cons behaviour, List.map_cons, List.map_cons, others, first]

variable {es : List Entry} {is : List Nat}

/-- What is decided about all entries fits what their generators contribute, by induction on
the entries. -/
theorem planAll_fits (config : Config) (id : Nat) (separated : Separated seen bs)
    (hseen : seen texts) (hw : w.Follows bs) (h : Registered bs seen es is) :
    ∃ ps w', planAll config ⟨id, .ofTexts texts⟩ es w = (ps, w') ∧
      List.Forall₂ (fun (pe : Plan × Entry) i => ∃ b, pe.1.Fits b texts ∧ pe.2.Stands bs seen i b)
        ps is ∧ w'.Follows bs := by
  induction h generalizing w with
  | nil => exact ⟨[], w, rfl, .nil, hw⟩
  | cons first _ ih =>
      obtain ⟨b, stands⟩ := first
      obtain ⟨p, e', w₁, planned, fits, stands', follows⟩ :=
        plan_fits config id separated hseen hw stands
      obtain ⟨ps, w₂, others, fitting, follows'⟩ := ih follows
      refine ⟨(p, e') :: ps, w₂, ?_, .cons ⟨b, fits, stands'⟩ fitting, follows'⟩
      rw [planAll, planned]
      dsimp only
      rw [others]

/-- All that was decided comes to the contributions, by induction on what was decided. -/
theorem resolveAll_contributes (config : Config) (hseen : seen texts) (hw : w.Follows bs)
    {ps : List (Plan × Entry)}
    (h : List.Forall₂
      (fun (pe : Plan × Entry) i => ∃ b, pe.1.Fits b texts ∧ pe.2.Stands bs seen i b) ps is) :
    ∃ rs es' w', resolveAll config ps w = (rs, es', w') ∧ Contribute bs is texts rs ∧
      Registered bs seen es' is ∧ w'.Follows bs := by
  induction h generalizing w with
  | nil => exact ⟨[], [], w, rfl, rfl, .nil, hw⟩
  | @cons pe i ps is first _ ih =>
      obtain ⟨p, e⟩ := pe
      obtain ⟨b, fits, stands⟩ := first
      obtain ⟨r, e', w₁, resolved, contributed, stands', follows⟩ :=
        resolve_contributes config hseen hw stands fits
      obtain ⟨rs, es', w₂, others, contribute, registered, follows'⟩ := ih follows
      refine ⟨r :: rs, e' :: es', w₂, ?_, contribute.cons stands.behaviour contributed,
        .cons ⟨b, stands'⟩ registered, follows'⟩
      rw [resolveAll, resolved]
      dsimp only
      rw [others]

/-- A pass that begins all executions at once comes to the contributions of the generators. -/
theorem runParallel_contributes (config : Config) (id : Nat) (separated : Separated seen bs)
    (hseen : seen texts) (hw : w.Follows bs) (h : Registered bs seen es is) :
    ∃ rs es' w', runParallel config ⟨id, .ofTexts texts⟩ es w = (rs, es', w') ∧
    Contribute bs is texts rs ∧ Registered bs seen es' is ∧ w'.Follows bs := by
  obtain ⟨ps, w₁, planned, fits, follows⟩ := planAll_fits config id separated hseen hw h
  unfold runParallel
  rw [planned]
  exact resolveAll_contributes config hseen follows fits

/-- A pass that takes the generators one after another comes to the same contributions, by induction
on the entries. -/
theorem runSequential_contributes (config : Config) (id : Nat) (separated : Separated seen bs)
    (hseen : seen texts) (hw : w.Follows bs) (h : Registered bs seen es is) :
    ∃ rs es' w', runSequential config ⟨id, .ofTexts texts⟩ es w = (rs, es', w') ∧
    Contribute bs is texts rs ∧ Registered bs seen es' is ∧ w'.Follows bs := by
  induction h generalizing w with
  | nil => exact ⟨[], [], w, rfl, rfl, .nil, hw⟩
  | cons first _ ih =>
      obtain ⟨b, stands⟩ := first
      obtain ⟨p, e₁, w₁, planned, fits, stands₁, follows₁⟩ :=
        plan_fits config id separated hseen hw stands
      obtain ⟨r, e₂, w₂, resolved, contributed, stands₂, follows₂⟩ :=
        resolve_contributes config hseen follows₁ stands₁ fits
      obtain ⟨rs, es', w₃, others, contribute, registered, follows₃⟩ := ih follows₂
      refine ⟨r :: rs, e₂ :: es', w₃, ?_, contribute.cons stands₂.behaviour contributed,
        .cons ⟨b, stands₂⟩ registered, follows₃⟩
      rw [runSequential, planned]
      dsimp only
      rw [resolved]
      dsimp only
      rw [others]

/-- The files of right results are the contributed files, in order of registration. -/
theorem Contribute.allFiles {rs : List RunResult} (h : Contribute bs is texts rs) :
    RunResult.allFiles rs = (behaviours bs is).flatMap fun b => (b.contribution texts).2 := by
  have files := congrArg (List.flatMap Prod.snd) h
  rwa [List.flatMap_map, List.flatMap_map] at files

/-- The diagnostics of right results are the contributed ones, in order of registration. -/
theorem Contribute.allDiagnostics {rs : List RunResult} (h : Contribute bs is texts rs) :
    RunResult.allDiagnostics rs =
      (behaviours bs is).flatMap fun b => (b.contribution texts).1.diagnostics := by
  have diagnostics := congrArg (List.flatMap fun c : Output × List SourceFile => c.1.diagnostics) h
  rwa [List.flatMap_map, List.flatMap_map] at diagnostics

/-- A pass over inputs that were seen comes to the same as a pass from scratch, whatever its entries
have kept from earlier passes. -/
theorem run_eq_pass {d : Driver} {s : Snapshot} (separated : Separated seen bs) (hseen : seen texts)
    (hs : s.compilation.inputs = (Compilation.ofTexts texts).inputs) (hw : w.Follows bs)
    (h : Registered bs seen d.entries is) :
    ∃ p es w', d.run s w = (p, { d with entries := es }, w') ∧
    (p.snapshot.compilation, p.diagnostics) = Behaviour.pass (behaviours bs is) texts ∧
    Registered bs seen es is ∧ w'.Follows bs := by
  have input := w.withoutGenerated_compilation s hs
  have follows := hw.withoutGenerated s
  unfold run
  generalize w.withoutGenerated s = shown at input follows ⊢
  obtain ⟨⟨id, c⟩, w₁⟩ := shown
  dsimp only at input follows ⊢
  subst input
  have ran : ∃ rs es' w', (if d.config.parallel then runParallel else runSequential)
      d.config ⟨id, .ofTexts texts⟩ d.entries w₁ = (rs, es', w') ∧ Contribute bs is texts rs ∧
      Registered bs seen es' is ∧ w'.Follows bs := by
    split
    · exact runParallel_contributes d.config id separated hseen follows h
    · exact runSequential_contributes d.config id separated hseen follows h
  obtain ⟨rs, es', w₂, eq, contribute, registered, follows'⟩ := ran
  rw [eq]
  refine ⟨_, es', _, rfl, ?_, registered, follows'.snapshot _⟩
  rw [Behaviour.pass, ← contribute.allFiles, ← contribute.allDiagnostics]
  rfl

end Driver

end DeclFront
