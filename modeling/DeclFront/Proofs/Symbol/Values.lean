import DeclFront.Proofs.Symbol.Ledger

/-!
# The values of facts

The facts of a symbol have values that do not depend on when they are found out. Here they are put
together, with the ledger of a symbol that keeps its declaration, whose slots show them one by one,
and the ledger of a symbol that keeps nothing.
-/

set_option autoImplicit false

namespace DeclFront

/-- The parts of the facts in a set. -/
def Parts.ofFacts (b : Finset Fact) : Parts :=
  let bits (f : Fact) := if f ∈ b then f.part.bits else 0
  ⟨bits .attributes ||| bits .defaults ||| bits .modifiers ||| bits .flow ||| bits .marshalling⟩

namespace Parts

/-- The parts of two sets of facts are those of either. -/
theorem ofFacts_union (a b : Finset Fact) : ofFacts (a ∪ b) = (ofFacts a).union (ofFacts b) := by
  have bits : ∀ f : Fact, (if f ∈ a ∪ b then f.part.bits else 0) =
      (if f ∈ a then f.part.bits else 0) ||| (if f ∈ b then f.part.bits else 0) := by
    intro f
    by_cases ha : f ∈ a <;> by_cases hb : f ∈ b <;> simp [ha, hb]
  unfold union ofFacts
  simp only [bits]
  congr 1
  ac_rfl

/-- The parts of a single fact are its part. -/
theorem ofFacts_singleton (f : Fact) : ofFacts {f} = f.part := by
  cases f <;> decide

end Parts

/-- The facts of a parameter have no parts but its own. -/
theorem Parts.ofParameter_union_ofFacts (b : Finset Fact) :
    ofParameter.union (ofFacts b) = ofParameter := by
  unfold ofFacts
  by_cases Fact.attributes ∈ b <;> by_cases Fact.defaults ∈ b <;> by_cases Fact.modifiers ∈ b <;>
    by_cases Fact.flow ∈ b <;> by_cases Fact.marshalling ∈ b <;> simp only [*] <;> decide

/-- A completion state with more facts found out. -/
def CompletionState.having (s : CompletionState) (b : Finset Fact) : CompletionState :=
  { s with done := s.done.union (.ofFacts b) }

/-- Marking the part of a fact is having found it out. -/
theorem CompletionState.note_having {s : CompletionState} {f : Fact}
    (h : s.relevant.contains f.part = true) (b : Finset Fact) :
    ∃ changed, (s.having b).note f.part = .ok (changed, s.having (b ∪ {f})) := by
  have next : (s.having b).marked f.part = s.having (b ∪ {f}) := by
    unfold marked having
    rw [Parts.ofFacts_union, Parts.ofFacts_singleton, ← Parts.union_assoc]
  have relevant : (s.having b).relevant.contains f.part = true := h
  rw [← next, note, if_pos relevant]
  exact ⟨_, rfl⟩

/-- The values of the facts of a symbol, with what was reported while they were found out. -/
structure FactValues where
  attributes : Completed AttributesBag := ⟨.empty, []⟩
  defaults : Completed DefaultFacts := ⟨{}, []⟩
  modifiers : Completed ModifierFacts := ⟨{}, []⟩
  flow : FlowFacts := {}
  marshalling : Option MarshalKind := none

/-- The slots, with the facts in a set found out. -/
def FactValues.shown (v : FactValues) (b : Finset Fact) : SymbolFacts where
  attributes := if .attributes ∈ b then some v.attributes else none
  defaults := if .defaults ∈ b then some v.defaults else none
  modifiers := if .modifiers ∈ b then some v.modifiers else none
  flow := if .flow ∈ b then some v.flow else none
  marshalling := if .marshalling ∈ b then some v.marshalling else none

/-- Nothing more found out leaves the state as it is. -/
theorem CompletionState.having_empty (s : CompletionState) : s.having ∅ = s := by
  have nothing : s.done.union (.ofFacts ∅) = s.done := by
    unfold Parts.union Parts.ofFacts
    simp
  rw [having, nothing]

/-- A state that is fully complete with some facts is so with more of them. -/
theorem CompletionState.isFullyComplete_having {s : CompletionState} {need : Finset Fact}
    (h : (s.having need).isFullyComplete = true) (b : Finset Fact) :
    (s.having (b ∪ need)).isFullyComplete = true := by
  unfold isFullyComplete incomplete having at h ⊢
  rw [decide_eq_true_eq] at h ⊢
  dsimp only at h ⊢
  have apart : s.done.union (.ofFacts (b ∪ need)) =
      (Parts.ofFacts b).union (s.done.union (.ofFacts need)) := by
    rw [Parts.ofFacts_union, ← Parts.union_assoc, ← Parts.union_assoc, Parts.union_comm s.done]
  rw [apart]
  exact Parts.diff_union_eq_none h _

namespace Ledger

/-- The ledger of a symbol that keeps its declaration. -/
def kept (s : CompletionState) (v : FactValues) : Ledger := ⟨s.having, v.shown⟩

/-- The ledger of a symbol that keeps nothing. -/
def blank (s : CompletionState) : Ledger := ⟨s.having, fun _ => {}⟩

variable {s : CompletionState} {v : FactValues}

/-- On the ledger of a symbol that keeps its declaration, a part is marked when its fact has been
found out. -/
theorem kept_notes {f : Fact} (h : s.relevant.contains f.part = true) : (kept s v).Notes f :=
  s.note_having h

/-- On the ledger of a symbol that keeps nothing, a part is marked when its fact has been found
out. -/
theorem blank_notes {f : Fact} (h : s.relevant.contains f.part = true) : (blank s).Notes f :=
  s.note_having h

/-- The ledger of a symbol that keeps its declaration begins with empty slots. -/
theorem kept_empty : (kept s v).memo ∅ = ⟨s, {}⟩ := by
  unfold memo kept
  dsimp only
  rw [s.having_empty]
  rfl

/-- The ledger of a symbol that keeps nothing begins with empty slots. -/
theorem blank_empty : (blank s).memo ∅ = ⟨s, {}⟩ := by
  unfold memo blank
  dsimp only
  rw [s.having_empty]

/-- The slot of the attributes is filled once they have been found out. -/
theorem kept_attributes : (kept s v).Shows SymbolFacts.attributesSlot .attributes v.attributes := by
  refine ⟨fun b => rfl, fun b _ => ?_⟩
  simp [kept, FactValues.shown, SymbolFacts.attributesSlot]

/-- The slot of the default value is filled once that has been found out. -/
theorem kept_defaults : (kept s v).Shows SymbolFacts.defaultsSlot .defaults v.defaults := by
  refine ⟨fun b => rfl, fun b _ => ?_⟩
  simp [kept, FactValues.shown, SymbolFacts.defaultsSlot]

/-- The slot of the modifiers is filled once they have been found out. -/
theorem kept_modifiers : (kept s v).Shows SymbolFacts.modifiersSlot .modifiers v.modifiers := by
  refine ⟨fun b => rfl, fun b _ => ?_⟩
  simp [kept, FactValues.shown, SymbolFacts.modifiersSlot]

/-- The slot of what flows through the parameter is filled once that has been found out. -/
theorem kept_flow : (kept s v).Shows SymbolFacts.flowSlot .flow v.flow := by
  refine ⟨fun b => rfl, fun b _ => ?_⟩
  simp [kept, FactValues.shown, SymbolFacts.flowSlot]

/-- The slot of the marshalling is filled once that has been found out. -/
theorem kept_marshalling :
    (kept s v).Shows SymbolFacts.marshallingSlot .marshalling v.marshalling := by
  refine ⟨fun b => rfl, fun b _ => ?_⟩
  simp [kept, FactValues.shown, SymbolFacts.marshallingSlot]

end Ledger

end DeclFront
