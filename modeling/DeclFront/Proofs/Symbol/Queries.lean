import DeclFront.Proofs.Symbol.Values

/-!
# What queries about parameters tell

A parameter `Answers` with given values on a ledger when its five facts do. Everything else that can
be asked about it is put together from these, so it is told as well. A parameter that keeps its
declaration answers with the values that are computed from it, and one that keeps nothing with no
values at all.
-/

set_option autoImplicit false

namespace DeclFront

namespace Parameter

/-- The five facts of a parameter, and what its attributes alone decide, are told by its queries. -/
structure Answers (p : Parameter) (l : Ledger) (v : FactValues) : Prop where
  attributes : l.Tells p.attributes Fact.attributes.needs v.attributes.value
  defaults : l.Tells p.defaults Fact.defaults.needs v.defaults.value
  modifiers : l.Tells p.modifiers Fact.modifiers.needs v.modifiers.value
  flow : l.Tells p.flow Fact.flow.needs v.flow
  marshalling : l.Tells p.marshalling Fact.marshalling.needs v.marshalling
  flag : ∀ f : ParamData → Bool, f {} = false →
    l.Tells (p.attributeFlag f) Fact.attributes.needs (f v.attributes.value.data)

/-- What a parameter with the given values answers to a summary. -/
def factsOf (p : Parameter) (v : FactValues) : Facts where
  name := p.name
  ordinal := p.ordinal
  type := p.type.text
  refKind := p.refKind
  isDiscard := p.caps.isDiscard
  isParams := v.modifiers.value.isParams
  isOptional := p.caps.hasDefaultSyntax || v.attributes.value.data.optional
  defaultValue := (v.defaults.value.written.or v.defaults.value.attributed).map Constant.text
  caller := v.defaults.value.caller
  marshalling := v.marshalling
  flow := v.flow.annotations
  customModifiers := v.modifiers.value.customModifiers
  attributes := v.attributes.value.entries.map (·.name)

/-- What a parameter with the given values answers to each question about parameters. -/
def answerOf (p : Parameter) (v : FactValues) : ParamQuestion → Answer
  | .hasOptionalAttribute => .bool v.attributes.value.data.optional
  | .isMetadataOptional => .bool (p.caps.hasDefaultSyntax || v.attributes.value.data.optional)
  | .isIDispatchConstant => .bool v.attributes.value.data.iDispatchConstant
  | .isIUnknownConstant => .bool v.attributes.value.data.iUnknownConstant
  | .explicitDefaultValue => .constant (v.defaults.value.written.or v.defaults.value.attributed)
  | .defaultValueFromAttributes => .constant v.defaults.value.attributed
  | .hasDefaultValue => .bool (v.defaults.value.written.or v.defaults.value.attributed).isSome
  | .isCallerFilePath => .bool v.defaults.value.caller.filePath
  | .isCallerLineNumber => .bool v.defaults.value.caller.lineNumber
  | .isCallerMemberName => .bool v.defaults.value.caller.memberName
  | .isParams => .bool v.modifiers.value.isParams
  | .customModifiers => .customModifiers v.modifiers.value.customModifiers
  | .flowAnnotations => .flow v.flow.annotations
  | .notNullIf => .names v.flow.notNullIf
  | .marshalling => .marshalling v.marshalling
  | .hasDefaultSyntax => .bool p.caps.hasDefaultSyntax
  | .isDiscard => .bool p.caps.isDiscard
  | .isExtensionReceiver => .bool false
  | .facts => .facts (p.factsOf v)

/-- What a parameter with the given values answers to each question. -/
def reply (p : Parameter) (v : FactValues) : Question → Answer
  | .attributes => .bag v.attributes.value
  | .has attr => .bool (v.attributes.value.has attr)
  | .completeAll => .done
  | .param q => p.answerOf v q

namespace Answers

variable {p : Parameter} {l : Ledger} {v : FactValues}

/-- Whether a parameter is optional for its callers follows from its default syntax and from the
mark of its attributes. -/
theorem isMetadataOptional (h : p.Answers l v) : ∃ need, l.Tells p.isMetadataOptional need
    (p.caps.hasDefaultSyntax || v.attributes.value.data.optional) := by
  unfold Parameter.isMetadataOptional
  cases p.caps.hasDefaultSyntax with
  | true => exact ⟨_, .pure true⟩
  | false => exact ⟨_, h.flag (·.optional) rfl⟩

/-- The written default value comes before the one that an attribute gives. -/
theorem explicitDefaultValue (h : p.Answers l v) : l.Tells p.explicitDefaultValue
    Fact.defaults.needs (v.defaults.value.written.or v.defaults.value.attributed) :=
  h.defaults.map fun d => d.written.or d.attributed

/-- A summary is told by what the queries tell. -/
theorem facts (h : p.Answers l v) : ∃ need, l.Tells p.facts need (p.factsOf v) := by
  obtain ⟨need, optional⟩ := h.isMetadataOptional
  exact ⟨_, h.modifiers.bind <| optional.bind <| h.explicitDefaultValue.bind <| h.defaults.bind <|
    h.marshalling.bind <| h.flow.bind <| h.attributes.bind <| .pure _⟩

/-- Every question about a parameter is told so, one case for each question. -/
theorem ask (h : p.Answers l v) (q : ParamQuestion) :
    ∃ need, l.Tells (p.ask q) need (p.answerOf v q) := by
  cases q with
  | hasOptionalAttribute => exact ⟨_, (h.flag (·.optional) rfl).map Answer.bool⟩
  | isMetadataOptional =>
    obtain ⟨need, optional⟩ := h.isMetadataOptional
    exact ⟨need, optional.map Answer.bool⟩
  | isIDispatchConstant => exact ⟨_, (h.flag (·.iDispatchConstant) rfl).map Answer.bool⟩
  | isIUnknownConstant => exact ⟨_, (h.flag (·.iUnknownConstant) rfl).map Answer.bool⟩
  | explicitDefaultValue => exact ⟨_, h.explicitDefaultValue.map Answer.constant⟩
  | defaultValueFromAttributes => exact ⟨_, h.defaults.map fun d => Answer.constant d.attributed⟩
  | hasDefaultValue => exact ⟨_, h.explicitDefaultValue.map fun c => Answer.bool c.isSome⟩
  | isCallerFilePath => exact ⟨_, h.defaults.map fun d => Answer.bool d.caller.filePath⟩
  | isCallerLineNumber => exact ⟨_, h.defaults.map fun d => Answer.bool d.caller.lineNumber⟩
  | isCallerMemberName => exact ⟨_, h.defaults.map fun d => Answer.bool d.caller.memberName⟩
  | isParams => exact ⟨_, h.modifiers.map fun m => Answer.bool m.isParams⟩
  | customModifiers => exact ⟨_, h.modifiers.map fun m => Answer.customModifiers m.customModifiers⟩
  | flowAnnotations => exact ⟨_, h.flow.map fun f => Answer.flow f.annotations⟩
  | notNullIf => exact ⟨_, h.flow.map fun f => Answer.names f.notNullIf⟩
  | marshalling => exact ⟨_, h.marshalling.map Answer.marshalling⟩
  | hasDefaultSyntax => exact ⟨_, .pure _⟩
  | isDiscard => exact ⟨_, .pure _⟩
  | isExtensionReceiver => exact ⟨_, .pure _⟩
  | facts =>
    obtain ⟨need, told⟩ := h.facts
    exact ⟨need, told.map Answer.facts⟩

/-- To complete everything finds out all facts. -/
theorem completeAll (h : p.Answers l v) : l.Tells p.completeAll Finset.univ () := by
  have every : Finset.univ = Fact.attributes.needs ∪ (Fact.defaults.needs ∪ (Fact.modifiers.needs ∪
      (Fact.flow.needs ∪ Fact.marshalling.needs))) := by decide
  rw [every]
  exact h.attributes.bind <| h.defaults.bind <| h.modifiers.bind <| h.flow.bind <|
    h.marshalling.map fun _ => ()

/-- Whatever is asked about the parameter is told. -/
theorem asks (h : p.Answers l v) {q : Question} {query : Query Answer}
    (asked : (Symbol.parameter p).ask? q = some query) :
    ∃ need, l.Tells query need (p.reply v q) := by
  cases q with
  | attributes =>
    rw [← Option.some.inj asked]
    exact ⟨_, h.attributes.map Answer.bag⟩
  | has attr =>
    rw [← Option.some.inj asked]
    exact ⟨_, h.attributes.map fun bag => Answer.bool (bag.has attr)⟩
  | completeAll =>
    rw [← Option.some.inj asked]
    exact ⟨_, h.completeAll.bind (.pure Answer.done)⟩
  | param q =>
    rw [← Option.some.inj asked]
    exact h.ask q

end Answers

/-- The values of the facts of a parameter, computed from its declaration. -/
structure Computes (p : Parameter) (tree : TreeRef) (display : String) (v : FactValues) : Prop where
  attributes : computeAttributes tree display = .ok v.attributes
  defaults : ∃ here written, p.here = .ok here ∧ p.writtenDefault tree = .ok written ∧
    v.defaults = p.defaultFacts display here written v.attributes.value.data
  modifiers : p.computeModifiers display = .ok v.modifiers
  flow : v.flow = ⟨v.attributes.value.data.flow, v.attributes.value.data.notNullIf⟩
  marshalling : v.marshalling = v.attributes.value.data.marshalling

section Forms

variable {p : Parameter} {tree : TreeRef} {display : String} {v : FactValues}

/-- All parts of a parameter matter to it, whether it keeps its declaration or not. -/
theorem initialState_relevant (p : Parameter) : p.initialState.relevant = .ofParameter := by
  unfold initialState
  split <;> rfl

/-- So the part of each of its facts matters. -/
theorem relevant_contains (p : Parameter) (f : Fact) :
    p.initialState.relevant.contains f.part = true := by
  rw [p.initialState_relevant]
  cases f <;> decide

section Detailed

variable {l : Ledger}

/-- Asking for the attributes tells them, and needs nothing but themselves. -/
theorem attributes_told (form : p.form = .detailed tree display) (notes : l.Notes .attributes)
    (shows : l.Shows SymbolFacts.attributesSlot .attributes v.attributes)
    (computed : computeAttributes tree display = .ok v.attributes) :
    l.Tells p.attributes Fact.attributes.needs v.attributes.value := by
  have computes : l.Tells (lift (computeAttributes tree display))
      (Fact.attributes.needs.erase .attributes) v.attributes := by
    rw [Fact.erase_needs]
    exact .lift computed
  have told := Ledger.Tells.ensureComplete notes shows computes
  unfold Parameter.attributes
  rw [form]
  exact told.map (·.value)

/-- Asking for the default value tells it, once the attributes have been found out. -/
theorem defaults_told (h : p.Computes tree display v) (form : p.form = .detailed tree display)
    (notes : l.Notes .defaults) (shows : l.Shows SymbolFacts.defaultsSlot .defaults v.defaults)
    (attributes : l.Tells p.attributes Fact.attributes.needs v.attributes.value) :
    l.Tells p.defaults Fact.defaults.needs v.defaults.value := by
  obtain ⟨here, written, hh, hw, value⟩ := h.defaults
  have computes : l.Tells (p.computeDefaults tree display) (Fact.defaults.needs.erase .defaults)
      v.defaults := by
    have step : l.Tells (p.computeDefaults tree display) (∅ ∪ (∅ ∪ Fact.attributes.needs))
        v.defaults := by
      rw [value]
      refine (Ledger.Tells.lift hh).bind ?_
      refine (Ledger.Tells.lift hw).bind ?_
      exact attributes.map fun bag => p.defaultFacts display here written bag.data
    rw [Fact.erase_needs]
    rwa [Finset.empty_union, Finset.empty_union] at step
  have told := Ledger.Tells.ensureComplete notes shows computes
  unfold Parameter.defaults
  rw [form]
  exact told.map (·.value)

/-- Asking for the modifiers tells them, and needs nothing but themselves. -/
theorem modifiers_told (h : p.Computes tree display v) (form : p.form = .detailed tree display)
    (notes : l.Notes .modifiers)
    (shows : l.Shows SymbolFacts.modifiersSlot .modifiers v.modifiers) :
    l.Tells p.modifiers Fact.modifiers.needs v.modifiers.value := by
  have computes : l.Tells (lift (p.computeModifiers display))
      (Fact.modifiers.needs.erase .modifiers) v.modifiers := by
    rw [Fact.erase_needs]
    exact .lift h.modifiers
  have told := Ledger.Tells.ensureComplete notes shows computes
  unfold Parameter.modifiers
  rw [form]
  exact told.map (·.value)

/-- A fact that is read off the attributes. -/
theorem derived_told {α : Type} [DecidableEq α] {f : Fact} {slot : Slot SymbolFacts α}
    (needs : f.needs.erase f = Fact.attributes.needs) (notes : l.Notes f) (g : AttributesBag → α)
    (shows : l.Shows slot f (g v.attributes.value))
    (attributes : l.Tells p.attributes Fact.attributes.needs v.attributes.value) :
    l.Tells (Action.ensureComplete f.part slot do return g (← p.attributes)) f.needs
      (g v.attributes.value) := by
  apply Ledger.Tells.ensureComplete notes shows
  rw [needs]
  exact attributes.map g

end Detailed

/-- A parameter that keeps its declaration answers with what is computed from it. -/
theorem Computes.answers (h : p.Computes tree display v) (form : p.form = .detailed tree display) :
    p.Answers (.kept p.initialState v) v := by
  have notes (f : Fact) := Ledger.kept_notes (v := v) (p.relevant_contains f)
  have attributes := attributes_told form (notes .attributes) Ledger.kept_attributes h.attributes
  refine ⟨attributes, ?_, ?_, ?_, ?_, ?_⟩
  · exact defaults_told h form (notes .defaults) Ledger.kept_defaults attributes
  · exact modifiers_told h form (notes .modifiers) Ledger.kept_modifiers
  · have shows := Ledger.kept_flow (s := p.initialState) (v := v)
    unfold Parameter.flow
    rw [form]
    rw [h.flow] at shows ⊢
    exact derived_told (Fact.erase_needs .flow) (notes .flow)
      (fun bag => FlowFacts.mk bag.data.flow bag.data.notNullIf) shows attributes
  · have shows := Ledger.kept_marshalling (s := p.initialState) (v := v)
    unfold Parameter.marshalling
    rw [form]
    rw [h.marshalling] at shows ⊢
    exact derived_told (Fact.erase_needs .marshalling) (notes .marshalling)
      (fun bag => bag.data.marshalling) shows attributes
  · intro f _
    unfold attributeFlag
    rw [form]
    exact attributes.map _

/-- A parameter that keeps nothing answers without values, and its memo never changes. -/
theorem plain_answers (form : p.form = .plain) : p.Answers (.blank p.initialState) {} := by
  have state : p.initialState = .completed .ofParameter := by
    unfold initialState
    rw [form]
  have constant : ∀ b, (Ledger.blank p.initialState).memo b = ⟨.completed .ofParameter, {}⟩ := by
    intro b
    unfold Ledger.memo Ledger.blank CompletionState.having
    dsimp only
    rw [state]
    show Store.mk ⟨Parts.ofParameter.union (.ofFacts b), _⟩ _ = _
    rw [Parts.ofParameter_union_ofFacts]
    rfl
  have told {α : Type} {q : Query α} {x : α} (f : Fact) (h : q = pure x) :
      (Ledger.blank p.initialState).Tells q f.needs x := by
    refine ⟨Fact.closed_needs f, fun b _ => ?_⟩
    rw [h, constant, constant]
    rfl
  refine ⟨?_, told .defaults ?_, told .modifiers ?_, told .flow ?_, told .marshalling ?_, ?_⟩
  · unfold Parameter.attributes
    rw [form]
    exact .notePart (f := .attributes) (Ledger.blank_notes (p.relevant_contains .attributes))
      (fun _ => rfl) rfl _
  · unfold Parameter.defaults
    rw [form]
  · unfold Parameter.modifiers
    rw [form]
  · unfold Parameter.flow
    rw [form]
  · unfold Parameter.marshalling
    rw [form]
  · intro f empty
    refine told .attributes ?_
    unfold attributeFlag
    rw [form]
    exact congrArg pure empty.symm

end Forms

end Parameter

end DeclFront
