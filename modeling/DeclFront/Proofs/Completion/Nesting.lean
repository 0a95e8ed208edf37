import DeclFront.Proofs.Completion.Steps

/-!
# How calls nest

In the steps of calls, whatever is asked for is answered at once: the steps of that call come next,
with those of the calls it makes inside, and only then what comes after it. Work is begun nowhere but
behind the question for it.
-/

set_option autoImplicit false

namespace DeclFront

variable {α : Type}

/-- Work is begun only where a value has just been asked for. -/
def Step.Begun (steps : List (Step α)) : Prop :=
  ∀ n part slot work, steps[n]? = some (.compute part slot work) →
    ∃ m, n = m + 1 ∧ steps[m]? = some (.ask part slot work)

/-- Wherever a value is asked for in steps, the steps of that call follow at once. -/
def Step.Answered [DecidableEq α] (display : α → String) (steps : List (Step α))
    (s : Store (Cells α)) : Prop :=
  ∀ n part slot work, steps[n]? = some (.ask part slot work) →
    askSteps display part slot work (work.steps display slot)
      (afterAll display (steps.take n) s) <+: steps.drop n

/-- Does a step neither ask for a value nor begin to compute it? -/
def Step.isPlain : Step α → Bool
  | .ask _ _ _ => false
  | .compute _ _ _ => false
  | .publish _ _ => true
  | .note _ => true

namespace Step

section Begun

variable {steps more : List (Step α)}

/-- Steps that begin no work begin none in the wrong place. -/
theorem Begun.of_plain (h : ∀ x ∈ steps, x.isPlain = true) : Begun steps := by
  intro n part slot work hn
  cases h _ (List.mem_of_getElem? hn)

/-- No steps begin no work. -/
theorem Begun.nil : Begun ([] : List (Step α)) :=
  .of_plain fun _ h => absurd h List.not_mem_nil

/-- Two lists of steps in which work is begun where it was asked for make one. -/
theorem Begun.append (h : Begun steps) (hm : Begun more) : Begun (steps ++ more) := by
  intro n part slot work hn
  by_cases inside : n < steps.length
  · rw [List.getElem?_append_left inside] at hn
    obtain ⟨m, rfl, asked⟩ := h n part slot work hn
    exact ⟨m, rfl, (List.getElem?_append_left (by omega)).trans asked⟩
  · obtain ⟨k, rfl⟩ := Nat.exists_eq_add_of_le (Nat.le_of_not_lt inside)
    rw [List.getElem?_append_right (Nat.le_add_right _ _), Nat.add_sub_cancel_left] at hn
    obtain ⟨m, rfl, asked⟩ := hm k part slot work hn
    refine ⟨steps.length + m, rfl, ?_⟩
    rwa [List.getElem?_append_right (Nat.le_add_right _ _), Nat.add_sub_cancel_left]

/-- Work that is begun right after the question for it is begun in the right place. -/
theorem Begun.pair (part : Parts) (slot : Nat) (work : Work α) :
    Begun [.ask part slot work, .compute part slot work] := by
  intro n part' slot' work' hn
  match n, hn with
  | 1, hn =>
    cases hn
    exact ⟨0, rfl, rfl⟩

end Begun

variable [DecidableEq α] (display : α → String) {steps more : List (Step α)} {x : Step α}
  {part : Parts} {slot : Nat} {work : Work α} {s : Store (Cells α)}

/-- Steps that ask for nothing leave no question open. -/
theorem Answered.of_plain (h : ∀ x ∈ steps, x.isPlain = true) : Answered display steps s := by
  intro n part slot work hn
  cases h _ (List.mem_of_getElem? hn)

/-- One more step in front is right if what it asks for, in case it asks, is answered next. -/
theorem Answered.cons (first : ∀ part slot work, x = .ask part slot work →
    askSteps display part slot work (work.steps display slot) s <+: x :: steps)
    (h : Answered display steps (x.after display s)) : Answered display (x :: steps) s := by
  intro n part slot work hn
  cases n with
  | zero => exact first part slot work (Option.some.inj hn)
  | succ n => exact h n part slot work hn

/-- No steps ask for nothing. -/
theorem Answered.nil : Answered display [] s :=
  .of_plain display fun _ h => absurd h List.not_mem_nil

/-- A step that asks for nothing needs no answer. -/
theorem Answered.cons_quiet (quiet : ∀ part slot work, x ≠ .ask part slot work)
    (h : Answered display steps (x.after display s)) : Answered display (x :: steps) s :=
  .cons display (fun part slot work asks => absurd asks (quiet part slot work)) h

/-- What is answered within each of two lists of steps is answered when they follow one another. -/
theorem Answered.append (h : Answered display steps s)
    (hm : Answered display more (afterAll display steps s)) :
    Answered display (steps ++ more) s := by
  intro n part slot work hn
  by_cases inside : n < steps.length
  · have within := Nat.le_of_lt inside
    rw [List.getElem?_append_left inside] at hn
    rw [List.take_append_of_le_length within, List.drop_append_of_le_length within]
    exact (h n part slot work hn).trans (List.prefix_append _ _)
  · obtain ⟨k, rfl⟩ := Nat.exists_eq_add_of_le (Nat.le_of_not_lt inside)
    rw [List.getElem?_append_right (Nat.le_add_right _ _), Nat.add_sub_cancel_left] at hn
    rw [List.take_length_add_append, List.drop_length_add_append, afterAll_append]
    exact hm k part slot work hn

end Step

section Nesting

variable [DecidableEq α] (display : α → String) {part : Parts} {slot : Nat} {work : Work α}

/-- The steps at the end of a call neither ask for a value nor begin work. -/
theorem isPlain_of_mem_settleSteps {r : Except Fault α × Store (Cells α)} {x : Step α}
    (h : x ∈ settleSteps part slot r) : x.isPlain = true := by
  unfold settleSteps at h
  split at h
  · simp at h
  · split at h
    · split at h
      · obtain rfl := List.mem_singleton.mp h
        rfl
      · simp at h
    · simp only [List.mem_cons, List.not_mem_nil, or_false] at h
      rcases h with rfl | rfl <;> rfl

/-- In the steps of a call work is begun where it was asked for, if it is so in those of the
calls inside. -/
theorem begun_askSteps (part : Parts) (h : ∀ s, Step.Begun (work.steps display slot s))
    (s : Store (Cells α)) :
    Step.Begun (askSteps display part slot work (work.steps display slot) s) := by
  cases filled : s.facts.slots slot with
  | some v =>
    rw [askSteps_filled display filled]
    intro n part' slot' work' hn
    match n, hn with
    | 0, hn => cases hn
    | 1, hn => cases hn
  | none =>
    rw [askSteps_empty display filled]
    exact (Step.Begun.pair part slot work).append
      ((h _).append (.of_plain fun _ => isPlain_of_mem_settleSteps))

/-- In the steps of a call every question is answered at once, if it is so in those of the
calls inside. -/
theorem answered_askSteps (part : Parts)
    (h : ∀ s, Step.Answered display (work.steps display slot s) s) (s : Store (Cells α)) :
    Step.Answered display (askSteps display part slot work (work.steps display slot) s) s := by
  have whole : ∀ {rest part' slot' work'},
      askSteps display part slot work (work.steps display slot) s = .ask part slot work :: rest →
      Step.ask part slot work = .ask part' slot' work' →
      askSteps display part' slot' work' (work'.steps display slot') s <+:
        .ask part slot work :: rest := by
    rintro rest _ _ _ all ⟨⟩
    exact all ▸ List.prefix_refl _
  cases filled : s.facts.slots slot with
  | some v =>
    rw [askSteps_filled display filled]
    refine .cons display (fun _ _ _ => whole (askSteps_filled display filled)) (.of_plain display ?_)
    simp [Step.isPlain]
  | none =>
    rw [askSteps_empty display filled]
    refine .cons display (fun _ _ _ => whole (askSteps_empty display filled))
      (.cons_quiet display (by simp) ((h _).append display ?_))
    exact .of_plain display fun _ => isPlain_of_mem_settleSteps

/-- In the steps of work, calls nest. -/
theorem Work.steps_nest (w : Work α) (slot : Nat) (s : Store (Cells α)) :
    Step.Begun (w.steps display slot s) ∧ Step.Answered display (w.steps display slot s) s := by
  induction w generalizing slot s with
  | answer v => exact ⟨.nil, .nil display⟩
  | stop message => exact ⟨.nil, .nil display⟩
  | rival v next ih =>
    obtain ⟨begun, answered⟩ := ih slot ((Step.publish slot v).after display s)
    have plain : ∀ x ∈ [Step.publish slot v], x.isPlain = true := by simp [Step.isPlain]
    exact ⟨(Step.Begun.of_plain plain).append begun, .cons_quiet display (by simp) answered⟩
  | nested part other work next ihWork ihNext =>
    have begun := begun_askSteps display part (fun s => (ihWork other s).1) s
    have answered := answered_askSteps display part (fun s => (ihWork other s).2) s
    have left := afterAll_askSteps display part (work.afterAll_steps display other) s
    unfold Work.steps
    rcases h : (Work.ensure display part other work).runOn s with ⟨f | x, t⟩
    · exact ⟨begun.append .nil, answered.append display (.nil display)⟩
    · rw [h] at left
      obtain ⟨begunNext, answeredNext⟩ := ihNext slot t
      refine ⟨begun.append begunNext, answered.append display ?_⟩
      rwa [left]

/-- The steps of every call nest, by induction on the work that is done in it. -/
theorem Call.steps_nest (c : Call α) (s : Store (Cells α)) :
    Step.Begun (c.steps display s) ∧ Step.Answered display (c.steps display s) s := by
  cases c with
  | note part =>
    have plain : ∀ x ∈ [Step.note (α := α) part], x.isPlain = true := by simp [Step.isPlain]
    exact ⟨.of_plain plain, .of_plain display plain⟩
  | ensure part slot work =>
    exact ⟨begun_askSteps display part (fun s => (work.steps_nest display slot s).1) s,
      answered_askSteps display part (fun s => (work.steps_nest display slot s).2) s⟩

/-- In the steps of any calls, calls nest. -/
theorem Call.allSteps_nest (cs : List (Call α)) (s : Store (Cells α)) :
    Step.Begun (allSteps display cs s) ∧ Step.Answered display (allSteps display cs s) s := by
  induction cs generalizing s with
  | nil => exact ⟨.nil, .nil display⟩
  | cons c cs ih =>
    obtain ⟨begun, answered⟩ := c.steps_nest display s
    obtain ⟨begunRest, answeredRest⟩ := ih (c.after display s)
    refine ⟨begun.append begunRest, answered.append display ?_⟩
    rwa [Call.afterAll_steps]

end Nesting

end DeclFront
