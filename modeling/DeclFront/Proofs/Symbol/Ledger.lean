import DeclFront.Proofs.Completion.Actions
import DeclFront.Symbol.Question
import Mathlib.Data.Finset.Lattice.Lemmas
import Mathlib.Data.Finset.Basic
import Mathlib.Data.Fintype.Defs

/-!
# What has been found out about a symbol

A memo is determined by which facts of its symbol have been found out, since each fact can come to
one value only. A ledger is the memo as a function of that set. A query then answers one value
whatever has been found out before, and adds the same facts wherever it is asked: it `Tells` the
value. Queries one after another add the facts of both, so that what a long query tells follows from
what its parts do.
-/

set_option autoImplicit false

namespace DeclFront

/-- The facts of a symbol that are kept in slots. -/
inductive Fact where
  | attributes
  | defaults
  | modifiers
  | flow
  | marshalling
  deriving DecidableEq

instance : Fintype Fact where
  elems := {.attributes, .defaults, .modifiers, .flow, .marshalling}
  complete f := by cases f <;> decide

namespace Fact

/-- The part that is complete once a fact has been found out. -/
def part : Fact → Parts
  | attributes => .attributes
  | defaults => .defaultValue
  | modifiers => .modifiers
  | flow => .flowAnalysis
  | marshalling => .marshalling

/-- The facts that have been found out once a fact has, itself included. -/
def needs : Fact → Finset Fact
  | attributes => {.attributes}
  | defaults => {.attributes, .defaults}
  | modifiers => {.modifiers}
  | flow => {.attributes, .flow}
  | marshalling => {.attributes, .marshalling}

/-- A fact that has been found out has been found out. -/
theorem mem_needs (f : Fact) : f ∈ f.needs := by
  cases f <;> decide

/-- With each fact, what it needs has been found out. -/
def Closed (b : Finset Fact) : Prop :=
  ∀ f ∈ b, f.needs ⊆ b

/-- Where nothing has been found out, nothing is needed. -/
theorem closed_empty : Closed ∅ := fun f hf => absurd hf (Finset.notMem_empty f)

/-- What a fact needs needs nothing else. -/
theorem closed_needs (f : Fact) : Closed f.needs := by
  cases f <;> unfold Closed <;> decide

/-- Two closed sets of facts make a closed one. -/
theorem Closed.union {a b : Finset Fact} (ha : Closed a) (hb : Closed b) : Closed (a ∪ b) := by
  intro f hf
  rcases Finset.mem_union.mp hf with hf | hf
  · exact (ha f hf).trans Finset.subset_union_left
  · exact (hb f hf).trans Finset.subset_union_right

/-- Nothing else is needed for the attributes and the modifiers, and the attributes for the rest. -/
theorem erase_needs (f : Fact) : f.needs.erase f =
    if f = .attributes ∨ f = .modifiers then ∅ else attributes.needs := by
  cases f <;> decide

end Fact

/-- The memo of a symbol as a function of the facts that have been found out. -/
structure Ledger where
  state : Finset Fact → CompletionState
  facts : Finset Fact → SymbolFacts

namespace Ledger

open DeclFront.Fact DeclFront.Action

/-- The memo once the given facts have been found out. -/
def memo (l : Ledger) (b : Finset Fact) : Memo := ⟨l.state b, l.facts b⟩

/-- Whatever has been found out, the query answers `x`, and then the facts `need` have been found
out as well. -/
structure Tells {α : Type} (l : Ledger) (q : Query α) (need : Finset Fact) (x : α) : Prop where
  closed : Closed need
  answers : ∀ b, Closed b → q.runOn (l.memo b) = (.ok x, l.memo (b ∪ need))

/-- Marking the part of a fact is noting that it has been found out. -/
def Notes (l : Ledger) (f : Fact) : Prop :=
  ∀ b, ∃ changed, (l.state b).note f.part = .ok (changed, l.state (b ∪ {f}))

/-- A slot is filled with `x` once a fact has been found out, and empty before. -/
structure Shows {α : Type} (l : Ledger) (slot : Slot SymbolFacts α) (f : Fact) (x : α) : Prop where
  get : ∀ b, slot.get (l.facts b) = if f ∈ b then some x else none
  fill : ∀ b, f ∉ b → slot.fill x (l.facts b) = l.facts (b ∪ {f})

namespace Tells

variable {α γ : Type} {l : Ledger}

/-- An answer that is given at once needs nothing. -/
theorem pure (x : α) : l.Tells (pure x) ∅ x := by
  refine ⟨closed_empty, fun b _ => ?_⟩
  rw [Finset.union_empty]
  rfl

/-- A query that asks two things one after another needs what both need. -/
theorem bind {q : Query α} {r : α → Query γ} {need more : Finset Fact} {x : α} {y : γ}
    (hq : l.Tells q need x) (hr : l.Tells (r x) more y) : l.Tells (q >>= r) (need ∪ more) y := by
  refine ⟨hq.closed.union hr.closed, fun b hb => ?_⟩
  rw [runOn_bind_ok (hq.answers b hb), hr.answers _ (hb.union hq.closed), Finset.union_assoc]

/-- What is returned of an answer needs nothing more. -/
theorem map {q : Query α} {need : Finset Fact} {x : α} (hq : l.Tells q need x) (f : α → γ) :
    l.Tells (q >>= fun x => Pure.pure (f x)) need (f x) := by
  have both : l.Tells (q >>= fun x => Pure.pure (f x)) (need ∪ ∅) (f x) := hq.bind (pure (f x))
  rwa [Finset.union_empty] at both

/-- A value that is there without asking needs nothing. -/
theorem lift {a : Except Fault α} {x : α} (h : a = .ok x) : l.Tells (Parameter.lift a) ∅ x := by
  rw [h]
  exact pure x

/-- A part that has no slot is marked. -/
theorem notePart {f : Fact} (notes : l.Notes f) (facts : ∀ b, l.facts (b ∪ {f}) = l.facts b)
    (alone : f.needs = {f}) (x : α) :
    l.Tells (do let _ ← Action.notePart f.part; return x) f.needs x := by
  refine ⟨closed_needs f, fun b _ => ?_⟩
  obtain ⟨changed, noted⟩ := notes b
  rw [runOn_bind_ok (runOn_notePart (s := l.memo b) noted), runOn_pure, alone]
  unfold memo
  rw [facts]

/-- A fact is computed once, from what it needs; after that the value in its slot is the answer. -/
theorem ensureComplete [DecidableEq α] {f : Fact} {slot : Slot SymbolFacts α} {compute : Query α}
    {x : α} (notes : l.Notes f) (shows : l.Shows slot f x)
    (computes : l.Tells compute (f.needs.erase f) x) :
    l.Tells (Action.ensureComplete f.part slot compute) f.needs x := by
  refine ⟨closed_needs f, fun b hb => ?_⟩
  by_cases found : f ∈ b
  · have kept : b ∪ f.needs = b := Finset.union_eq_left.mpr (hb f found)
    have single : b ∪ {f} = b := Finset.union_eq_left.mpr (Finset.singleton_subset_iff.mpr found)
    have filled : slot.get (l.memo b).facts = some x := (shows.get b).trans (if_pos found)
    obtain ⟨changed, noted⟩ := notes b
    rw [single] at noted
    rw [runOn_ensureComplete_filled filled, kept]
    exact runOn_bind_ok (runOn_notePart (s := l.memo b) noted)
  · have rest : f ∉ b ∪ f.needs.erase f := by simp [found]
    have all : b ∪ f.needs.erase f ∪ {f} = b ∪ f.needs := by
      rw [Finset.union_assoc, Finset.union_comm _ {f}, ← Finset.insert_eq,
        Finset.insert_erase f.mem_needs]
    have before : slot.get (l.memo b).facts = none := (shows.get b).trans (if_neg found)
    have between : slot.get (l.memo (b ∪ f.needs.erase f)).facts = none :=
      (shows.get _).trans (if_neg rest)
    have published : slot.fill x (l.memo (b ∪ f.needs.erase f)).facts = l.facts (b ∪ f.needs) := by
      rw [← all]
      exact shows.fill _ rest
    have fills : slot.get (slot.fill x (l.memo (b ∪ f.needs.erase f)).facts) = some x := by
      rw [published, ← all]
      exact (shows.get _).trans (if_pos (by simp))
    obtain ⟨changed, noted⟩ := notes (b ∪ f.needs.erase f)
    rw [all] at noted
    have marked : (Action.notePart f.part).runOn
        ⟨(l.memo (b ∪ f.needs.erase f)).state, l.facts (b ∪ f.needs)⟩ =
        (.ok changed, l.memo (b ∪ f.needs)) :=
      runOn_notePart (s := ⟨l.state (b ∪ f.needs.erase f), l.facts (b ∪ f.needs)⟩) noted
    rw [runOn_ensureComplete_empty before, runOn_bind_ok (computes.answers b hb),
      runOn_settle_empty between fills, runOn_publish between x, published]
    exact runOn_bind_ok marked

end Tells

end Ledger

end DeclFront
