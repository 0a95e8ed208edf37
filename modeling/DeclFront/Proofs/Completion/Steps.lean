import DeclFront.Completion.Work
import DeclFront.Proofs.Completion.Actions

/-!
# What happens to cells, step by step

Calls nest: what is computed for one slot may ask for others. Here the calls of a whole history, the
nested ones and those that end in a fault included, are laid out as a list of steps in the order in
which they happen. A step is small enough to be looked at by itself, and the steps one after another
leave the store that the calls leave. Where a value is asked for, the steps of that call follow at
once, so that the end of a call is a moment between two steps as well.
-/

set_option autoImplicit false

namespace DeclFront

open DeclFront.Action (settle runOn_bind runOn_notePart_return)

/-- What is done to cells from outside. -/
inductive Call (α : Type) where
  | note (part : Parts)
  | ensure (part : Parts) (slot : Nat) (work : Work α)

/-- What happens to cells. -/
inductive Step (α : Type) where
  /-- A value is asked for. -/
  | ask (part : Parts) (slot : Nat) (work : Work α)
  /-- The work for a value is begun. -/
  | compute (part : Parts) (slot : Nat) (work : Work α)
  /-- A slot is filled, unless it has been. -/
  | publish (slot : Nat) (v : α)
  /-- A part is marked complete. -/
  | note (part : Parts)

/-- The step that a call begins with. -/
def Call.first {α : Type} : Call α → Step α
  | .note part => .note part
  | .ensure part slot work => .ask part slot work

section Steps

variable {α : Type} (display : α → String)

namespace Step

/-- The store after a step. -/
def after (s : Store (Cells α)) : Step α → Store (Cells α)
  | .ask _ _ _ => s
  | .compute _ _ _ => { s with facts := { s.facts with calls := s.facts.calls + 1 } }
  | .publish slot v => ((Action.publish (Cells.slot display slot) v).runOn s).2
  | .note part => ((Action.notePart part).runOn s).2

/-- The store after steps. -/
def afterAll (steps : List (Step α)) (s : Store (Cells α)) : Store (Cells α) :=
  steps.foldl (after display) s

/-- The steps of one list are taken before those of the next. -/
theorem afterAll_append (steps more : List (Step α)) (s : Store (Cells α)) :
    afterAll display (steps ++ more) s = afterAll display more (afterAll display steps s) :=
  List.foldl_append

end Step

variable [DecidableEq α]

/-- The steps that follow when the work for a slot came to a result. -/
def settleSteps (part : Parts) (slot : Nat) :
    Except Fault α × Store (Cells α) → List (Step α)
  | (.error _, _) => []
  | (.ok v, s) =>
    match s.facts.slots slot with
    | some winner => if v = winner then [.note part] else []
    | none => [.publish slot v, .note part]

/-- The steps of asking for a value, with those of the work for it. -/
def askSteps (part : Parts) (slot : Nat) (work : Work α)
    (inner : Store (Cells α) → List (Step α)) (s : Store (Cells α)) : List (Step α) :=
  .ask part slot work ::
    match s.facts.slots slot with
    | some _ => [.note part]
    | none =>
      let begun := (Step.compute part slot work).after display s
      .compute part slot work ::
        (inner begun ++ settleSteps part slot ((work.run display slot).runOn begun))

/-- The steps of the work for a slot. -/
def Work.steps (slot : Nat) : Work α → Store (Cells α) → List (Step α)
  | .answer _, _ => []
  | .stop _, _ => []
  | .rival v next, s => .publish slot v :: next.steps slot ((Step.publish slot v).after display s)
  | .nested part other work next, s =>
    askSteps display part other work (work.steps other) s ++
      match (Work.ensure display part other work).runOn s with
      | (.error _, _) => []
      | (.ok _, t) => next.steps slot t

namespace Call

/-- The store after a call, whether it returns or ends in a fault. -/
def after (s : Store (Cells α)) : Call α → Store (Cells α)
  | .note part => ((Action.notePart part).runOn s).2
  | .ensure part slot work => ((Work.ensure display part slot work).runOn s).2

/-- The store after calls. -/
def afterAll (calls : List (Call α)) (s : Store (Cells α)) : Store (Cells α) :=
  calls.foldl (after display) s

/-- The steps of a call. -/
def steps (s : Store (Cells α)) : Call α → List (Step α)
  | .note part => [.note part]
  | .ensure part slot work => askSteps display part slot work (work.steps display slot) s

/-- The steps of calls. -/
def allSteps : List (Call α) → Store (Cells α) → List (Step α)
  | [], _ => []
  | c :: cs, s => c.steps display s ++ allSteps cs (c.after display s)

end Call

variable {part : Parts} {slot : Nat} {work : Work α} {s : Store (Cells α)}
  {inner : Store (Cells α) → List (Step α)}

/-- A question for a filled slot takes two steps: it is asked, and the part is marked. -/
theorem askSteps_filled {v : α} (h : s.facts.slots slot = some v) :
    askSteps display part slot work inner s = [.ask part slot work, .note part] := by
  unfold askSteps
  rw [h]

/-- A question for an empty slot begins the work, goes through it, and settles what comes of it. -/
theorem askSteps_empty (h : s.facts.slots slot = none) :
    askSteps display part slot work inner s =
      let begun := (Step.compute part slot work).after display s
      [.ask part slot work, .compute part slot work] ++
        (inner begun ++ settleSteps part slot ((work.run display slot).runOn begun)) := by
  unfold askSteps
  rw [h]
  rfl

/-! ### The steps leave what the calls leave -/

/-- Where the slot is filled, the call marks the part and answers. -/
theorem Work.runOn_ensure_filled {v : α} (h : s.facts.slots slot = some v) :
    (Work.ensure display part slot work).runOn s =
      (do let _ ← Action.notePart part; return v : Action (Cells α) α).runOn s :=
  Action.runOn_ensureComplete_filled h

/-- Where the slot is empty, the call counts the work, runs it, and settles what comes of it. -/
theorem Work.runOn_ensure_empty (h : s.facts.slots slot = none) :
    (Work.ensure display part slot work).runOn s =
      (work.run display slot >>= settle part (Cells.slot display slot)).runOn
        ((Step.compute part slot work).after display s) :=
  Action.runOn_ensureComplete_empty h

/-- Work during which somebody else fills the slot goes on with the slot filled. -/
theorem Work.runOn_rival {v : α} {next : Work α} :
    ((Work.rival v next).run display slot).runOn s =
      (next.run display slot).runOn ((Step.publish slot v).after display s) := by
  have published : (Action.publish (Cells.slot display slot) v).runOn s =
      (.ok (), (Step.publish slot v).after display s) := by
    rw [Step.after, Action.runOn_publish_eq]
  exact Action.runOn_bind_ok published

/-- Work that asks for another value goes on when that is there, and stops with its fault. -/
theorem Work.runOn_nested {other : Nat} {next : Work α} :
    ((Work.nested part other work next).run display slot).runOn s =
      match (Work.ensure display part other work).runOn s with
      | (.ok _, t) => (next.run display slot).runOn t
      | (.error f, t) => (.error f, t) := by
  show (Work.ensure display part other work >>= fun _ => next.run display slot).runOn s = _
  rw [runOn_bind]
  rcases (Work.ensure display part other work).runOn s with ⟨_ | _, _⟩ <;> rfl

/-- The steps at the end of a call leave the store that settling its value leaves. -/
theorem afterAll_settleSteps (x : α) (s : Store (Cells α)) :
    Step.afterAll display (settleSteps part slot (.ok x, s)) s =
      ((settle part (Cells.slot display slot) x).runOn s).2 := by
  unfold settleSteps
  dsimp only
  cases h : s.facts.slots slot with
  | none =>
    have fills : (Cells.slot display slot).get ((Cells.slot display slot).fill x s.facts) = some x :=
      if_pos rfl
    rw [Action.runOn_settle_empty h fills, runOn_notePart_return]
    rfl
  | some winner =>
    by_cases agree : x = winner
    · subst agree
      rw [Action.runOn_settle_agreeing h, runOn_notePart_return]
      simp only [if_true]
      rfl
    · rw [Action.runOn_settle_disagreeing h agree]
      simp only [agree, if_false]
      rfl

/-- If the steps of the work leave what the work leaves, those of asking leave what asking leaves. -/
theorem afterAll_askSteps (part : Parts)
    (h : ∀ s, Step.afterAll display (inner s) s = ((work.run display slot).runOn s).2)
    (s : Store (Cells α)) : Step.afterAll display (askSteps display part slot work inner s) s =
      ((Work.ensure display part slot work).runOn s).2 := by
  cases filled : s.facts.slots slot with
  | some v =>
    rw [askSteps_filled display filled, Work.runOn_ensure_filled display filled,
      runOn_notePart_return]
    rfl
  | none =>
    have begun : Step.afterAll display [.ask part slot work, .compute part slot work] s =
        (Step.compute part slot work).after display s := rfl
    rw [askSteps_empty display filled, Work.runOn_ensure_empty display filled, runOn_bind,
      Step.afterAll_append, Step.afterAll_append, begun, h]
    rcases (work.run display slot).runOn ((Step.compute part slot work).after display s)
      with ⟨f | x, t⟩
    · rfl
    · exact afterAll_settleSteps display x t

/-- The steps of work leave what the work leaves. -/
theorem Work.afterAll_steps (w : Work α) (slot : Nat) (s : Store (Cells α)) :
    Step.afterAll display (w.steps display slot s) s = ((w.run display slot).runOn s).2 := by
  induction w generalizing slot s with
  | answer v => rfl
  | stop message => rfl
  | rival v next ih =>
    rw [runOn_rival, ← ih]
    rfl
  | nested part other work next ihWork ihNext =>
    rw [runOn_nested, Work.steps, Step.afterAll_append,
      afterAll_askSteps display part (ihWork other)]
    rcases (Work.ensure display part other work).runOn s with ⟨f | x, t⟩
    · rfl
    · exact ihNext slot t

/-- The steps of a call, one after another, leave the store that the call leaves. -/
theorem Call.afterAll_steps (c : Call α) (s : Store (Cells α)) :
    Step.afterAll display (c.steps display s) s = c.after display s := by
  cases c with
  | note part => rfl
  | ensure part slot work => exact afterAll_askSteps display part (work.afterAll_steps display slot) s

/-- The steps of calls leave what the calls leave. -/
theorem Call.afterAll_allSteps (cs : List (Call α)) (s : Store (Cells α)) :
    Step.afterAll display (allSteps display cs s) s = afterAll display cs s := by
  induction cs generalizing s with
  | nil => rfl
  | cons c cs ih =>
    rw [allSteps, Step.afterAll_append, Call.afterAll_steps, ih]
    rfl

/-- The steps of some calls come before those of the calls after them. -/
theorem Call.allSteps_append (cs ds : List (Call α)) (s : Store (Cells α)) :
    allSteps display (cs ++ ds) s =
      allSteps display cs s ++ allSteps display ds (afterAll display cs s) := by
  induction cs generalizing s with
  | nil => rfl
  | cons c cs ih =>
    rw [List.cons_append, allSteps, ih, allSteps, List.append_assoc]
    rfl

/-- Each call begins at the moment when the calls before it have ended. -/
theorem Call.getElem?_allSteps (cs : List (Call α)) (c : Call α) (ds : List (Call α))
    (s : Store (Cells α)) :
    (allSteps display (cs ++ c :: ds) s)[(allSteps display cs s).length]? = some c.first := by
  rw [allSteps_append, List.getElem?_append_right (Nat.le_refl _), Nat.sub_self]
  cases c <;> rfl

/-- The work for a slot asks for the slot itself: the inner value stays, and the outer one, which is
the same, is dropped. -/
example : Call.allSteps Nat.repr
    [.ensure .type 0 (.nested .members 0 (.answer 7) (.answer 7))] ⟨.new .ofMethod, .empty⟩ =
    [.ask .type 0 (.nested .members 0 (.answer 7) (.answer 7)),
      .compute .type 0 (.nested .members 0 (.answer 7) (.answer 7)), .ask .members 0 (.answer 7),
      .compute .members 0 (.answer 7), .publish 0 7, .note .members, .note .type] := by
  rfl

end Steps

end DeclFront
