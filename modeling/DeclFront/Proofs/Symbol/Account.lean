import DeclFront.Proofs.Symbol.Decoding
import DeclFront.Proofs.Symbol.Queries

/-!
# Every symbol of a table has an account

The account of a symbol is a ledger that begins with the memo that the symbol is bound with, on which
every question that can be asked about the symbol is told an answer, and on which everything is
complete and reported in the end. The symbols that are bound from files have one, since whatever is
looked at to find out their facts was read from a text.
-/

set_option autoImplicit false

namespace DeclFront

/-- What the attributes of a type or method come to; without a declaration there are none. -/
def DeclAttributes.result (a : DeclAttributes) : Except Fault (Completed AttributesBag) :=
  match a.tree with
  | none => .ok ⟨.empty, []⟩
  | some tree => a.compute tree

/-- What the attributes of a symbol come to. -/
def Symbol.boundAttributes : Symbol → Except Fault (Completed AttributesBag)
  | .type t => t.attributes.result
  | .method m => m.attributes.result
  | .parameter p =>
    match p.form with
    | .plain => .ok ⟨.empty, []⟩
    | .detailed tree display => Parameter.computeAttributes tree display

/-- The slots of a symbol hold what is computed from its declaration, as far as it was found out. -/
inductive Symbol.Filled : Symbol → SymbolFacts → Prop where
  | nothing {s : Symbol} : s.Filled {}
  | attributes {s : Symbol} {c : Completed AttributesBag} {b : Finset Fact} :
    s.parameter? = none → s.boundAttributes = .ok c →
      s.Filled (FactValues.shown { attributes := c } b)
  | values {p : Parameter} {tree : TreeRef} {display : String} {v : FactValues} {b : Finset Fact} :
    p.form = .detailed tree display → p.Computes tree display v →
      Symbol.Filled (.parameter p) (v.shown b)

/-- A ledger on which everything can be asked about a symbol, and what is reported in the end. -/
structure Symbol.Account (s : Symbol) (l : Ledger) (reported : List Diagnostic) : Prop where
  initial : l.memo ∅ = s.initialMemo
  attributes : ∃ c, s.boundAttributes = .ok c ∧ l.Tells s.attributes Fact.attributes.needs c.value
  filled : ∀ b, s.Filled (l.facts b)
  asks : ∀ q query, s.ask? q = some query → ∃ need x, l.Tells query need x
  completes : ∃ need, l.Tells s.completeAll need () ∧
    ∀ b, (l.state (b ∪ need)).isFullyComplete = true ∧
      s.diagnostics (l.facts (b ∪ need)) = reported
  reports : ∀ b, (s.diagnostics (l.facts b)).Sublist reported

/-! ### Types and methods -/

namespace DeclAttributes

/-- The attributes of a type or method, with a declaration whose tokens can be decoded. -/
structure Sound (a : DeclAttributes) : Prop where
  target : a.target ≠ .parameter
  tree : ∀ tree, a.tree = some tree → tree.Decodes

variable {a : DeclAttributes}

/-- The attributes of a sound declaration can be found out. -/
theorem Sound.compute_ok (h : a.Sound) {tree : TreeRef} (ht : a.tree = some tree) :
    ∃ c, a.compute tree = .ok c := by
  have decodes := h.tree tree ht
  have attrs : ∀ kind, ∀ attr ∈ (if tree.tree.kind = kind then tree.tree.attributes else []),
      attr.Decodes := by
    intro kind attr ha
    split at ha
    · exact decodes.attributes attr ha
    · simp at ha
  unfold compute
  dsimp only
  cases target : a.target with
  | type => exact Attributes.bind_ok (attrs .typeDecl) _ _
  | method => exact Attributes.bind_ok (attrs .methodDecl) _ _
  | parameter => exact absurd target h.target

/-- The attributes are told, and what was reported for them is all that ever is. -/
theorem Sound.query_told (h : a.Sound) {s : CompletionState}
    (relevant : s.relevant.contains Fact.attributes.part = true) :
    ∃ (l : Ledger) (c : Completed AttributesBag), l.state = s.having ∧ l.facts ∅ = {} ∧
      a.result = .ok c ∧ l.Tells a.query Fact.attributes.needs c.value ∧
      (∀ b, l.facts b = {} ∨ l.facts b = FactValues.shown { attributes := c } b) ∧
      ∀ b, (l.facts b).attributes.elim [] (·.diagnostics) =
        if .attributes ∈ b then c.diagnostics else [] := by
  unfold result
  cases ht : a.tree with
  | none =>
    refine ⟨.blank s, ⟨.empty, []⟩, rfl, rfl, rfl, ?_, fun b => .inl rfl,
      fun b => by simp [Ledger.blank]⟩
    unfold query
    rw [ht]
    exact .notePart (f := .attributes) (Ledger.blank_notes relevant) (fun _ => rfl) rfl _
  | some tree =>
    obtain ⟨c, hc⟩ := h.compute_ok ht
    refine ⟨.kept s { attributes := c }, c, rfl, rfl, hc, ?_, fun b => .inr rfl, ?_⟩
    · have computes : (Ledger.kept s { attributes := c }).Tells (Parameter.lift (a.compute tree))
          (Fact.attributes.needs.erase .attributes) c := by
        rw [Fact.erase_needs]
        exact .lift hc
      have told := Ledger.Tells.ensureComplete (Ledger.kept_notes relevant) Ledger.kept_attributes
        computes
      unfold query
      rw [ht]
      exact told.map (·.value)
    · intro b
      simp only [Ledger.kept, FactValues.shown]
      split <;> rfl

/-- A symbol about which nothing but its attributes is found out has an account. -/
theorem Sound.account (h : a.Sound) {s : Symbol} (attributes : s.attributes = a.query)
    (bound : s.boundAttributes = a.result)
    (completeAll : s.completeAll = do let _ ← a.query)
    (diagnostics : ∀ f, s.diagnostics f = f.attributes.elim [] (·.diagnostics))
    (other : s.parameter? = none)
    (relevant : s.initialState.relevant.contains Fact.attributes.part = true)
    (complete : (s.initialState.having Fact.attributes.needs).isFullyComplete = true) :
    ∃ l reported, s.Account l reported := by
  obtain ⟨l, c, state, empty, computed, told, facts, shown⟩ := h.query_told relevant
  refine ⟨l, c.diagnostics, ?_, ⟨c, bound.trans computed, attributes ▸ told⟩, fun b => ?_, ?_,
    ⟨Fact.attributes.needs, ?_, fun b => ⟨?_, ?_⟩⟩, fun b => ?_⟩
  · unfold Ledger.memo Symbol.initialMemo
    rw [state, empty, s.initialState.having_empty]
  · rcases facts b with nothing | some
    · rw [nothing]
      exact .nothing
    · rw [some]
      exact .attributes other (bound.trans computed)
  · intro q query asked
    cases q with
    | attributes =>
      rw [← Option.some.inj asked, attributes]
      exact ⟨_, _, told.map Answer.bag⟩
    | has attr =>
      rw [← Option.some.inj asked, attributes]
      exact ⟨_, _, told.map fun bag => Answer.bool (bag.has attr)⟩
    | completeAll =>
      rw [← Option.some.inj asked, completeAll]
      exact ⟨_, _, (told.map fun _ => ()).bind (.pure Answer.done)⟩
    | param q =>
      rw [Symbol.ask?, other] at asked
      simp at asked
  · rw [completeAll]
    exact told.map fun _ => ()
  · rw [state]
    exact CompletionState.isFullyComplete_having complete b
  · rw [diagnostics, shown, if_pos (by simp [Fact.needs])]
  · rw [diagnostics, shown]
    split
    · exact List.Sublist.refl _
    · exact List.nil_sublist _

end DeclAttributes

/-! ### Parameters -/

namespace Parameter

/-- A parameter with a location and, if it keeps its declaration, one whose tokens can be decoded. -/
structure Sound (p : Parameter) : Prop where
  located : p.locations ≠ []
  tree : ∀ tree display, p.form = .detailed tree display → tree.Decodes

variable {p : Parameter}

/-- All facts of a sound parameter that keeps its declaration can be found out. -/
theorem Sound.computes (h : p.Sound) {tree : TreeRef} {display : String}
    (form : p.form = .detailed tree display) : ∃ v, p.Computes tree display v := by
  have decodes := h.tree tree display form
  obtain ⟨attributes, ha⟩ := computeAttributes_ok decodes display
  obtain ⟨here, hh⟩ := here_ok h.located
  obtain ⟨written, hw⟩ := writtenDefault_ok (p := p) decodes
  obtain ⟨modifiers, hm⟩ := computeModifiers_ok h.located display
  exact ⟨⟨attributes, p.defaultFacts display here written attributes.value.data, modifiers,
    ⟨attributes.value.data.flow, attributes.value.data.notNullIf⟩,
    attributes.value.data.marshalling⟩, ha, ⟨here, written, hh, hw, rfl⟩, hm, rfl, rfl⟩

/-- A ledger on which the facts of a parameter are told is an account of it. -/
theorem Answers.account {l : Ledger} {v : FactValues} {reported : List Diagnostic}
    (h : p.Answers l v)
    (initial : l.memo ∅ = ⟨p.initialState, {}⟩)
    (bound : (Symbol.parameter p).boundAttributes = .ok v.attributes)
    (filled : ∀ b, (Symbol.parameter p).Filled (l.facts b))
    (complete : (l.state Finset.univ).isFullyComplete = true)
    (whole : p.diagnostics (l.facts Finset.univ) = reported)
    (reports : ∀ b, (p.diagnostics (l.facts b)).Sublist reported) :
    (Symbol.parameter p).Account l reported := by
  refine ⟨initial, ⟨_, bound, h.attributes⟩, filled, ?_, ⟨_, h.completeAll, fun b => ?_⟩, reports⟩
  · intro q query asked
    obtain ⟨need, told⟩ := h.asks asked
    exact ⟨need, _, told⟩
  · rw [Finset.union_eq_right.mpr (Finset.subset_univ b)]
    exact ⟨complete, whole⟩

/-- What has been reported so far is part of what is reported in the end, and in the same order. -/
theorem elim_sublist {α : Type} (c : Completed α) (found : Prop) [Decidable found] :
    ((if found then some c else none).elim [] (·.diagnostics)).Sublist c.diagnostics := by
  split
  · exact List.Sublist.refl _
  · exact List.nil_sublist _

/-- Nothing is ever reported about a parameter that keeps no declaration. -/
theorem diagnostics_plain (form : p.form = .plain) (f : SymbolFacts) : p.diagnostics f = [] := by
  unfold diagnostics
  rw [form]

/-- The account of a parameter that keeps its declaration, from the values that are computed from
it. -/
theorem Computes.account {tree : TreeRef} {display : String} {v : FactValues}
    (h : p.Computes tree display v) (form : p.form = .detailed tree display) :
    (Symbol.parameter p).Account (.kept p.initialState v)
      (v.attributes.diagnostics ++ v.defaults.diagnostics ++ v.modifiers.diagnostics) := by
  have state : p.initialState = (CompletionState.new .ofParameter).marked .type := by
    unfold initialState
    rw [form]
  refine (h.answers form).account Ledger.kept_empty ?_ (fun b => .values form h) ?_ ?_ fun b => ?_
  · simp only [Symbol.boundAttributes, form]
    exact h.attributes
  · show (p.initialState.having Finset.univ).isFullyComplete = true
    rw [state]
    decide
  · unfold diagnostics
    rw [form]
    simp [Ledger.kept, FactValues.shown]
  · unfold diagnostics
    rw [form]
    exact ((elim_sublist v.attributes _).append (elim_sublist v.defaults _)).append
      (elim_sublist v.modifiers _)

/-- The account of a parameter that keeps nothing. -/
theorem plain_account (form : p.form = .plain) :
    (Symbol.parameter p).Account (.blank p.initialState) [] := by
  have nothing := diagnostics_plain form
  have state : p.initialState = .completed .ofParameter := by
    unfold initialState
    rw [form]
  refine (plain_answers form).account Ledger.blank_empty ?_ (fun b => .nothing) ?_ (nothing _)
    fun b => ?_
  · simp only [Symbol.boundAttributes, form]
  · show (p.initialState.having Finset.univ).isFullyComplete = true
    rw [state]
    decide
  · rw [nothing]

/-- A sound parameter has an account: it keeps its declaration and has its facts from there, or
keeps nothing and needs nothing. -/
theorem Sound.account (h : p.Sound) : ∃ l reported, (Symbol.parameter p).Account l reported := by
  cases form : p.form with
  | plain => exact ⟨_, _, plain_account form⟩
  | detailed tree display =>
    obtain ⟨v, computes⟩ := h.computes form
    exact ⟨_, _, computes.account form⟩

end Parameter

/-! ### All symbols -/

/-- Nothing stands in the way of finding out what can be asked about a symbol. -/
def Symbol.Sound : Symbol → Prop
  | .type t => t.attributes.Sound
  | .method m => m.attributes.Sound
  | .parameter p => p.Sound

/-- Every sound symbol has an account, whatever its kind. -/
theorem Symbol.Sound.account {s : Symbol} (h : s.Sound) : ∃ l reported, s.Account l reported := by
  cases s with
  | type t =>
    have relevant : Parts.ofType.contains Fact.attributes.part = true := by decide
    have complete : (((CompletionState.new .ofType).marked .members).having
        Fact.attributes.needs).isFullyComplete = true := by decide
    exact DeclAttributes.Sound.account h rfl rfl rfl (fun _ => rfl) rfl relevant complete
  | method m =>
    have relevant : Parts.ofMethod.contains Fact.attributes.part = true := by decide
    have complete : (((CompletionState.new .ofMethod).marked (Parts.type.union .members)).having
        Fact.attributes.needs).isFullyComplete = true := by decide
    exact DeclAttributes.Sound.account h rfl rfl rfl (fun _ => rfl) rfl relevant complete
  | parameter p => exact Parameter.Sound.account h

end DeclFront
