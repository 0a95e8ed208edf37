import DeclFront.Proofs.Completion.Steps
import Mathlib.Data.Nat.Order.Lemmas

/-!
# What is complete or filled stays so

One step loses nothing of what was complete or filled, and with that any number of steps.
So, of the moments between steps, a later one has all that an earlier one has, and there is one step
at which a part became complete.
-/

set_option autoImplicit false

namespace DeclFront

variable {α : Type}

/-- Nothing that was complete or filled is lost. -/
structure Store.Grows (s t : Store (Cells α)) : Prop where
  relevant : t.state.relevant = s.state.relevant
  within : s.state.relevant.contains s.state.done = true →
    t.state.relevant.contains t.state.done = true
  done : t.state.done.contains s.state.done = true
  slots : ∀ {i v}, s.facts.slots i = some v → t.facts.slots i = some v

namespace Store.Grows

/-- Where nothing happens, nothing is lost. -/
theorem refl (s : Store (Cells α)) : s.Grows s :=
  ⟨rfl, id, Parts.contains_refl _, id⟩

/-- What loses nothing twice loses nothing. -/
theorem trans {s t u : Store (Cells α)} (hst : s.Grows t) (htu : t.Grows u) : s.Grows u where
  relevant := htu.relevant.trans hst.relevant
  within h := htu.within (hst.within h)
  done := Parts.contains_trans htu.done hst.done
  slots h := htu.slots (hst.slots h)

end Store.Grows

/-- Does a step begin work? -/
def Step.isCompute : Step α → Bool
  | .compute _ _ _ => true
  | .ask _ _ _ => false
  | .publish _ _ => false
  | .note _ => false

section Growth

variable (display : α → String) {s : Store (Cells α)}

/-- Marking a part loses nothing, and marks what matters only. -/
theorem Action.grows_notePart (part : Parts) (s : Store (Cells α)) :
    s.Grows ((notePart part).runOn s).2 := by
  by_cases h : s.state.relevant.contains part = true
  · rw [runOn_notePart_relevant h]
    refine ⟨rfl, fun within => ?_, ?_, id⟩
    · exact Parts.contains_union.mpr ⟨within, h⟩
    · exact (Parts.contains_union.mp (Parts.contains_refl _)).1
  · rw [runOn_notePart_irrelevant h]
    exact .refl s

/-- Filling a slot loses nothing, since a filled one keeps its value. -/
theorem Action.grows_publish (slot : Nat) (v : α) (s : Store (Cells α)) :
    s.Grows ((publish (Cells.slot display slot) v).runOn s).2 := by
  cases h : (Cells.slot display slot).get s.facts with
  | some w =>
    rw [runOn_publish_filled h]
    exact .refl s
  | none =>
    rw [runOn_publish h]
    refine ⟨rfl, id, Parts.contains_refl _, fun {i w} filled => ?_⟩
    have other : i ≠ slot := by
      rintro rfl
      cases h.symm.trans filled
    exact (if_neg other).trans filled

/-- Filling a slot begins no computation. -/
theorem Action.publish_calls (slot : Nat) (v : α) (s : Store (Cells α)) :
    ((publish (Cells.slot display slot) v).runOn s).2.facts.calls = s.facts.calls := by
  cases h : (Cells.slot display slot).get s.facts with
  | some w => rw [runOn_publish_filled h]
  | none =>
    rw [runOn_publish h]
    rfl

/-- A step loses nothing. -/
theorem Step.grows (x : Step α) (s : Store (Cells α)) : s.Grows (x.after display s) := by
  cases x with
  | ask part slot work => exact .refl s
  | compute part slot work => exact ⟨rfl, id, Parts.contains_refl _, id⟩
  | publish slot v => exact Action.grows_publish display slot v s
  | note part => exact Action.grows_notePart part s

end Growth

section Moments

variable (display : α → String) {steps : List (Step α)} {s : Store (Cells α)} {m n : Nat}

/-- The store after the first steps. -/
def Step.moment (steps : List (Step α)) (s : Store (Cells α)) (n : Nat) : Store (Cells α) :=
  afterAll display (steps.take n) s

namespace Step

/-- The last moment is the one after all steps. -/
theorem moment_length (steps : List (Step α)) (s : Store (Cells α)) :
    moment display steps s steps.length = afterAll display steps s := by
  rw [moment, List.take_length]

/-- The next moment is the one after the step between. -/
theorem moment_succ {x : Step α} (h : steps[n]? = some x) :
    moment display steps s (n + 1) = x.after display (moment display steps s n) := by
  unfold moment
  rw [List.take_add_one, h, afterAll_append]
  rfl

/-- After the last step nothing changes any more. -/
theorem moment_succ_of_none (h : steps[n]? = none) :
    moment display steps s (n + 1) = moment display steps s n := by
  unfold moment
  rw [List.take_add_one, h, Option.toList_none, List.append_nil]

/-- From one moment to a later one, nothing is lost. -/
theorem moment_grows (steps : List (Step α)) (s : Store (Cells α)) (h : m ≤ n) :
    (moment display steps s m).Grows (moment display steps s n) := by
  induction n, h using Nat.le_induction with
  | base => exact .refl _
  | succ n _ ih =>
    refine ih.trans ?_
    cases hn : steps[n]? with
    | none =>
      rw [moment_succ_of_none display hn]
      exact .refl _
    | some x =>
      rw [moment_succ display hn]
      exact x.grows display _

/-- The moment after a stretch of the steps. -/
theorem moment_add {more : List (Step α)} (h : more <+: steps.drop n) :
    moment display steps s (n + more.length) =
      afterAll display more (moment display steps s n) := by
  have stretch : (steps.drop n).take more.length = more := (List.prefix_iff_eq_take.mp h).symm
  unfold moment
  rw [List.take_add, stretch, afterAll_append]

/-- Steps that come next are found behind those that have been taken. -/
theorem getElem?_of_prefix {more : List (Step α)} (h : more <+: steps.drop n) {i : Nat}
    (inside : i < more.length) : steps[n + i]? = more[i]? := by
  obtain ⟨rest, whole⟩ := h
  rw [← List.getElem?_drop, ← whole, List.getElem?_append_left inside]

/-- A step begins one computation or none. -/
theorem after_calls (x : Step α) (s : Store (Cells α)) :
    (x.after display s).facts.calls = s.facts.calls + if x.isCompute then 1 else 0 := by
  cases x with
  | ask part slot work => rfl
  | compute part slot work => rfl
  | publish slot v => exact Action.publish_calls display slot v s
  | note part => exact congrArg Cells.calls (Action.notePart_facts part s)

/-- The computations that are counted are those that were begun. -/
theorem afterAll_calls (steps : List (Step α)) (s : Store (Cells α)) :
    (afterAll display steps s).facts.calls = s.facts.calls + steps.countP isCompute := by
  induction steps generalizing s with
  | nil => rfl
  | cons x xs ih =>
    have first := x.after_calls display s
    have rest := ih (x.after display s)
    rw [List.countP_cons]
    show (afterAll display xs (x.after display s)).facts.calls = _
    omega

/-- A part that is complete at one moment and was not just before was marked between them. -/
theorem note_of_gain {i : Nat} (before : (moment display steps s n).state.done.has i = false)
    (behind : (moment display steps s (n + 1)).state.done.has i = true) :
    ∃ part, steps[n]? = some (.note part) := by
  cases hn : steps[n]? with
  | none =>
    rw [moment_succ_of_none display hn, before] at behind
    cases behind
  | some x =>
    rw [moment_succ display hn] at behind
    cases x with
    | note part => exact ⟨part, rfl⟩
    | publish slot v =>
      rw [Step.after, Action.runOn_publish_eq, before] at behind
      cases behind
    | ask part slot work => cases before.symm.trans behind
    | compute part slot work => cases before.symm.trans behind

/-- A part becomes complete once at most, and once if it is complete in the end. -/
theorem existsUnique_gain {i : Nat} (before : s.state.done.has i = false)
    (behind : (afterAll display steps s).state.done.has i = true) :
    ∃! n, (moment display steps s n).state.done.has i = false ∧
      (moment display steps s (n + 1)).state.done.has i = true := by
  have some : ∃ n, (moment display steps s n).state.done.has i = true :=
    ⟨steps.length, by rwa [moment_length]⟩
  have first : ¬(moment display steps s 0).state.done.has i = true := by
    show ¬s.state.done.has i = true
    simp [before]
  obtain ⟨n, hn, gained⟩ := Nat.exists_not_and_succ_of_not_zero_of_exists first some
  have late : ∀ {k l}, (moment display steps s (k + 1)).state.done.has i = true →
      (moment display steps s l).state.done.has i = false → l ≤ k := by
    intro k l hk hl
    by_contra later
    have kept := Parts.contains_iff.mp
      (moment_grows display steps s (Nat.lt_of_not_le later)).done i hk
    cases hl.symm.trans kept
  refine ⟨n, ⟨Bool.eq_false_of_not_eq_true hn, gained⟩, ?_⟩
  rintro k ⟨hk, gainedK⟩
  exact Nat.le_antisymm (late gained hk) (late gainedK (Bool.eq_false_of_not_eq_true hn))

/-- Marking returns exactly if the part matters, and says whether that changed anything. -/
theorem note_answer {R part : Parts} (relevant : s.state.relevant = R) :
    let answer := ((Action.notePart part).runOn s).1
    ((∃ changed, answer = .ok changed) ↔ R.contains part = true) ∧
      ∀ changed, answer = .ok changed →
        (changed = true ↔ ((note part).after display s).state.done ≠ s.state.done) := by
  subst relevant
  intro answer
  by_cases h : s.state.relevant.contains part = true
  · have told : answer = .ok (decide ((s.state.marked part).done ≠ s.state.done)) :=
      congrArg Prod.fst (Action.runOn_notePart_relevant h)
    have left : ((note part).after display s).state = s.state.marked part :=
      congrArg (fun r => r.2.state) (Action.runOn_notePart_relevant h)
    rw [told, left]
    refine ⟨⟨fun _ => h, fun _ => ⟨_, rfl⟩⟩, fun changed hc => ?_⟩
    rw [← Except.ok.inj hc, decide_eq_true_eq]
  · have told : answer = .error (.irrelevantPart part s.state.relevant) :=
      congrArg Prod.fst (Action.runOn_notePart_irrelevant h)
    rw [told]
    exact ⟨⟨nofun, (absurd · h)⟩, nofun⟩

end Step

end Moments

end DeclFront
