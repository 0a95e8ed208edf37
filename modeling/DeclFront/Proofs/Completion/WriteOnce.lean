import DeclFront.Proofs.Completion.Growth
import DeclFront.Proofs.Completion.Nesting

/-!
# Completed once, written once

Whatever is asked of a symbol, its completion state and its slots only grow, a value that is returned
is the one in its slot, and it is computed only where the slot was empty. Since the steps of nested
calls and of calls that end in a fault are among the steps of a history, nothing that a computation
does is left out.
-/

set_option autoImplicit false

namespace DeclFront

variable {α : Type}

section History

variable [DecidableEq α] (display : α → String)

/-- A value that is returned is the one in the slot, and its part is complete. -/
theorem Work.ensure_ok {part : Parts} {slot : Nat} {work : Work α} {s t : Store (Cells α)} {v : α}
    (h : (Work.ensure display part slot work).runOn s = (.ok v, t)) :
    t.facts.slots slot = some v ∧ t.state.done.contains part = true :=
  Action.ensureComplete_ok (fun _ _ => if_pos rfl) h

/-- What holds of the steps of a history, with the store before each of them. -/
structure CompletesOnce (R : Parts) (steps : List (Step α)) (store : Nat → Store (Cells α)) :
    Prop where
  /-- The parts that matter stay the same, and only they become complete. -/
  within : ∀ n, (store n).state.relevant = R ∧ R.contains (store n).state.done = true
  /-- What is missing is counted, and nothing is exactly if everything is complete. -/
  missing : ∀ n, (store n).state.incompleteCount = R.count - (store n).state.done.count ∧
    ((store n).state.incompleteCount = 0 ↔ (store n).state.isFullyComplete = true)
  /-- A complete part stays complete. -/
  stays : ∀ {m n}, m ≤ n → (store n).state.done.contains (store m).state.done = true
  /-- A filled slot keeps its value. -/
  keeps : ∀ {m n}, m ≤ n → ∀ i v, (store m).facts.slots i = some v →
    (store n).facts.slots i = some v
  /-- Marking returns exactly if the part matters, and says whether that changed anything. -/
  note : ∀ n part, steps[n]? = some (.note part) →
    let answer := ((Action.notePart part).runOn (store n)).1
    ((∃ changed, answer = .ok changed) ↔ R.contains part = true) ∧
      ∀ changed, answer = .ok changed →
        (changed = true ↔ (store (n + 1)).state.done ≠ (store n).state.done)
  /-- A part that becomes complete does so at one marking. -/
  once : ∀ i, (store 0).state.done.has i = false →
    (store steps.length).state.done.has i = true →
    ∃! n, (∃ part, steps[n]? = some (.note part)) ∧
      (store n).state.done.has i = false ∧ (store (n + 1)).state.done.has i = true
  /-- Asking for a value ends at a later moment. If it returns, the value is in the slot and the part
  is complete. Its work is begun, and counted, exactly if the slot was empty. -/
  ask : ∀ n part slot work, steps[n]? = some (.ask part slot work) → ∃ m, n < m ∧
    m ≤ steps.length ∧
    let result := (Work.ensure display part slot work).runOn (store n)
    result.2 = store m ∧
      (∀ v, result.1 = .ok v →
        (store m).facts.slots slot = some v ∧ (store m).state.done.contains part = true) ∧
      ((store n).facts.slots slot = none ↔ steps[n + 1]? = some (.compute part slot work)) ∧
      ((store n).facts.slots slot = none ↔ (store n).facts.calls < (store m).facts.calls)
  /-- Work is begun for nothing else, and nothing else is counted. -/
  begun : ∀ n part slot work, steps[n]? = some (.compute part slot work) →
    ∃ m, n = m + 1 ∧ steps[m]? = some (.ask part slot work)
  counted : ∀ n, (store n).facts.calls =
    (store 0).facts.calls + (steps.take n).countP Step.isCompute

section Main

variable {display} {R : Parts} {steps : List (Step α)} {s : Store (Cells α)} {n : Nat}
  {part : Parts} {slot : Nat} {work : Work α}

section AskSteps

variable (display) (s) (part slot work) (inner : Store (Cells α) → List (Step α))

/-- The steps of a call are two at least, so a call ends later than it begins. -/
theorem two_le_length_askSteps : 2 ≤ (askSteps display part slot work inner s).length := by
  cases h : s.facts.slots slot with
  | some v => simp [askSteps_filled display h]
  | none => simp [askSteps_empty display h]

/-- The second step of a call begins work exactly if the slot was empty. -/
theorem getElem?_one_askSteps : s.facts.slots slot = none ↔
    (askSteps display part slot work inner s)[1]? = some (.compute part slot work) := by
  cases h : s.facts.slots slot with
  | some v => simp [askSteps_filled display h]
  | none => simp [askSteps_empty display h]

/-- Work is begun in the course of a call exactly if the slot was empty. -/
theorem countP_isCompute_askSteps : s.facts.slots slot = none ↔
    0 < (askSteps display part slot work inner s).countP Step.isCompute := by
  cases h : s.facts.slots slot with
  | some v => simp [askSteps_filled display h, Step.isCompute]
  | none => simp [askSteps_empty display h, Step.isCompute]

end AskSteps

/-- What comes of asking for a value, in steps in which calls nest. -/
theorem ask_answer (answered : Step.Answered display steps s)
    (asked : steps[n]? = some (.ask part slot work)) :
    let store := Step.moment display steps s
    ∃ m, n < m ∧ m ≤ steps.length ∧
      ((Work.ensure display part slot work).runOn (store n)).2 = store m ∧
      ((store n).facts.slots slot = none ↔ steps[n + 1]? = some (.compute part slot work)) ∧
      ((store n).facts.slots slot = none ↔ (store n).facts.calls < (store m).facts.calls) := by
  intro store
  let call := askSteps display part slot work (work.steps display slot) (store n)
  have whole : call <+: steps.drop n := answered n part slot work asked
  have inside := (List.getElem?_eq_some_iff.mp asked).1
  have long : 2 ≤ call.length := two_le_length_askSteps display (store n) part slot work _
  have fits := whole.length_le
  rw [List.length_drop] at fits
  have moved : store (n + call.length) = Step.afterAll display call (store n) :=
    Step.moment_add display whole
  have left := afterAll_askSteps display part (work.afterAll_steps display slot) (store n)
  refine ⟨n + call.length, by omega, by omega, (moved.trans left).symm, ?_, ?_⟩
  · rw [Step.getElem?_of_prefix whole (by omega)]
    exact getElem?_one_askSteps display (store n) part slot work _
  · rw [moved, Step.afterAll_calls, Nat.lt_add_right_iff_pos]
    exact countP_isCompute_askSteps display (store n) part slot work _

/-- Steps in which calls nest complete everything once. -/
theorem completesOnce_of_nest (relevant : s.state.relevant = R)
    (within : s.state.relevant.contains s.state.done = true) (begun : Step.Begun steps)
    (answered : Step.Answered display steps s) :
    CompletesOnce display R steps (Step.moment display steps s) := by
  have grows {m n : Nat} (h : m ≤ n) :
      (Step.moment display steps s m).Grows (Step.moment display steps s n) :=
    Step.moment_grows display steps s h
  have same (n : Nat) : (Step.moment display steps s n).state.relevant = R :=
    (grows n.zero_le).relevant.trans relevant
  have inside (n : Nat) : R.contains (Step.moment display steps s n).state.done = true :=
    same n ▸ (grows n.zero_le).within within
  constructor
  case within => exact fun n => ⟨same n, inside n⟩
  case missing =>
    intro n
    have sum := CompletionState.incompleteCount_add_count ((same n).symm ▸ inside n)
    rw [same n] at sum
    exact ⟨by omega, CompletionState.incompleteCount_eq_zero_iff⟩
  case stays => exact fun h => (grows h).done
  case keeps => exact fun h _ _ filled => (grows h).slots filled
  case note =>
    intro n part noted
    rw [Step.moment_succ display noted]
    exact Step.note_answer display (same n)
  case once =>
    intro i before behind
    rw [Step.moment_length] at behind
    obtain ⟨n, ⟨lacked, gained⟩, only⟩ := Step.existsUnique_gain display before behind
    refine ⟨n, ⟨Step.note_of_gain display lacked gained, lacked, gained⟩, ?_⟩
    rintro k ⟨-, turn⟩
    exact only k turn
  case ask =>
    intro n part slot work asked
    obtain ⟨m, later, bound, left, ran, counted⟩ := ask_answer answered asked
    refine ⟨m, later, bound, left, fun v hv => ?_, ran, counted⟩
    rw [← left]
    exact Work.ensure_ok display (Prod.ext hv rfl)
  case begun => exact begun
  case counted => exact fun n => Step.afterAll_calls display (steps.take n) s

/-- In every history of calls on a new or completed state, parts become complete once and stay so,
and slots are filled once and keep their value, whatever the calls inside do. The steps are those of
the calls: each call begins where those before it ended, and the last step leaves what they leave. -/
theorem calls_complete_once (display : α → String) (R : Parts) (complete : Bool) (cells : Cells α)
    (calls : List (Call α)) :
    let start : Store (Cells α) := ⟨if complete then .completed R else .new R, cells⟩
    let steps := Call.allSteps display calls start
    let store := Step.moment display steps start
    (∀ before c behind, calls = before ++ c :: behind →
      ∃ n, store n = Call.afterAll display before start ∧ steps[n]? = some c.first) ∧
    store 0 = start ∧ store steps.length = Call.afterAll display calls start ∧
    CompletesOnce display R steps store := by
  intro start steps store
  have relevant : start.state.relevant = R := by cases complete <;> rfl
  have within : start.state.relevant.contains start.state.done = true := by
    cases complete with
    | true => exact R.contains_refl
    | false => exact R.contains_none
  obtain ⟨begun, answered⟩ := Call.allSteps_nest display calls start
  have final : store steps.length = Call.afterAll display calls start :=
    (Step.moment_length display steps start).trans (Call.afterAll_allSteps display calls start)
  refine ⟨?_, rfl, final, completesOnce_of_nest relevant within begun answered⟩
  rintro before c behind rfl
  refine ⟨(Call.allSteps display before start).length, ?_,
    Call.getElem?_allSteps display before c behind start⟩
  have earlier : Call.allSteps display before start <+: steps.drop 0 :=
    ⟨_, (Call.allSteps_append display before (c :: behind) start).symm⟩
  rw [← Call.afterAll_allSteps, ← Nat.zero_add (List.length _)]
  exact Step.moment_add display earlier

end Main

end History

end DeclFront
