import DeclFront.Completion.Work
import DeclFront.Proofs.Completion.Actions

/-!
# What a failed call leaves behind

A value that is asked for may not come: its part does not matter to the symbol, its computation stops
with a fault, or it disagrees with a value that was put into the slot meanwhile. Marking is the last
thing a call does and the only thing that can fail after the value was put into its slot. So a failed
call has marked nothing. It has put nothing into its slot either, unless its part did not matter and
the slot was still empty when the computation ended.
-/

set_option autoImplicit false

namespace DeclFront

namespace Action

variable {β α : Type}

/-- The store when the computation of a value has ended. For a slot that was filled it is not begun,
and the store is the one before. -/
def ended (slot : Slot β α) (compute : Action β α) (s : Store β) : Store β :=
  match slot.get s.facts with
  | some _ => s
  | none => (compute.runOn s).2

section Ended

variable {slot : Slot β α} {compute : Action β α} {s : Store β}

/-- For a filled slot nothing has been computed. -/
theorem ended_of_filled {v : α} (h : slot.get s.facts = some v) : ended slot compute s = s := by
  unfold ended
  rw [h]

/-- For an empty slot the store is the one that the computation leaves. -/
theorem ended_of_empty {r : Except Fault α} {t : Store β} (h : slot.get s.facts = none)
    (ran : compute.runOn s = (r, t)) : ended slot compute s = t := by
  unfold ended
  rw [h, ran]

end Ended

/-- A call that fails leaves the state as it was when the computation had ended, for each of the three
reasons. It leaves the slots as they were then, unless its part does not matter and the slot was empty:
then the value has been put there before the part was to be marked. -/
theorem failed_call_marks_nothing [DecidableEq α] (part : Parts) (slot : Slot β α)
    (fills : ∀ x g, slot.get (slot.fill x g) = some x) (compute : Action β α) (s t : Store β)
    (f : Fault) (failed : (ensureComplete part slot compute).runOn s = (.error f, t)) :
    let last := ended slot compute s
    t.state = last.state ∧
    ((f = .irrelevantPart part last.state.relevant ∧ last.state.relevant.contains part = false ∧
        (((slot.get last.facts).isSome ∧ t.facts = last.facts) ∨
          (slot.get last.facts = none ∧
            ∃ x, compute.runOn s = (.ok x, last) ∧ t.facts = slot.fill x last.facts))) ∨
      (slot.get s.facts = none ∧ compute.runOn s = (.error f, last) ∧ t.facts = last.facts) ∨
      (slot.get s.facts = none ∧ t.facts = last.facts ∧
        ∃ x winner, compute.runOn s = (.ok x, last) ∧ slot.get last.facts = some winner ∧
          x ≠ winner ∧ f = .impureComputation part (slot.display winner) (slot.display x))) := by
  intro last
  cases failed ▸ ensureComplete_ensures fills with
  | found filled result =>
    obtain ⟨irrelevant, reason, rfl⟩ := noted_error result
    have same : last = t := ended_of_filled filled
    rw [same]
    exact ⟨rfl, .inl ⟨reason, irrelevant, .inl ⟨Option.isSome_of_eq_some filled, rfl⟩⟩⟩
  | stopped empty ran result =>
    have same : last = _ := ended_of_empty empty ran
    cases result
    rw [same]
    exact ⟨rfl, .inr (.inl ⟨empty, ran, rfl⟩)⟩
  | disagreed empty ran filled differs result =>
    have same : last = _ := ended_of_empty empty ran
    cases result
    rw [same]
    exact ⟨rfl, .inr (.inr ⟨empty, rfl, _, _, ran, filled, differs, rfl⟩)⟩
  | agreed empty ran filled result =>
    have same : last = _ := ended_of_empty empty ran
    obtain ⟨irrelevant, reason, rfl⟩ := noted_error result
    rw [same]
    exact ⟨rfl, .inl ⟨reason, irrelevant, .inl ⟨Option.isSome_of_eq_some filled, rfl⟩⟩⟩
  | published empty ran still result =>
    have same : last = _ := ended_of_empty empty ran
    obtain ⟨irrelevant, reason, rfl⟩ := noted_error result
    rw [same]
    exact ⟨rfl, .inl ⟨reason, irrelevant, .inr ⟨still, _, ran, rfl⟩⟩⟩

namespace Sample

/-- A call for an attribute of a method whose computation is outrun: it has another slot filled on its
way, and finds its own one filled by then. -/
def outrunCall : Except Fault Nat × Store (Cells Nat) :=
  (ensureComplete .attributes (Cells.slot Nat.repr 0)
    ((Work.rival 1 (.nested .type 1 (.answer 5) (.answer 2))).run Nat.repr 0)).runOn
    ⟨.new .ofMethod, .empty⟩

/-- A call for the marshalling of a type, which has no such part. -/
def irrelevantCall : Except Fault Nat × Store (Cells Nat) :=
  (ensureComplete .marshalling (Cells.slot Nat.repr 0) (pure 1)).runOn ⟨.new .ofType, .empty⟩

end Sample

/-- The outrun call fails, and leaves the mark of the call inside it and the two values. -/
theorem outrun_call_leaves_rival :
    (∀ x g, (Cells.slot Nat.repr 0).get ((Cells.slot Nat.repr 0).fill x g) = some x) ∧
      Sample.outrunCall.1 = .error (.impureComputation .attributes "1" "2") ∧
      Sample.outrunCall.2.state = ⟨.type, .ofMethod⟩ ∧
      Sample.outrunCall.2.facts.slots 0 = some 1 ∧ Sample.outrunCall.2.facts.slots 1 = some 5 := by
  have fills : ∀ x g, (Cells.slot Nat.repr 0).get ((Cells.slot Nat.repr 0).fill x g) = some x :=
    fun _ _ => rfl
  have failed : Sample.outrunCall.1 = .error (.impureComputation .attributes "1" "2") := by rfl
  obtain ⟨state, reasons⟩ :=
    failed_call_marks_nothing _ _ fills _ _ Sample.outrunCall.2 _ (Prod.ext failed rfl)
  refine ⟨fills, failed, state, ?_⟩
  rcases reasons with ⟨⟨⟩, -⟩ | ⟨-, stopped, -⟩ | ⟨-, facts, -⟩
  · cases congrArg Prod.fst stopped
  · exact ⟨congrArg (Cells.slots · 0) facts, congrArg (Cells.slots · 1) facts⟩

/-- The call for a part that a type has not fails, and yet it fills the slot that was empty when the
computation had ended. -/
theorem irrelevant_call_fills_slot :
    Sample.irrelevantCall.1 = .error (.irrelevantPart .marshalling .ofType) ∧
      (ended (Cells.slot Nat.repr 0) (pure 1) ⟨.new .ofType, .empty⟩).facts.slots 0 = none ∧
      Sample.irrelevantCall.2.facts.slots 0 = some 1 :=
  ⟨rfl, rfl, rfl⟩

end Action

end DeclFront
