import DeclFront.Completion.Slot
import DeclFront.Proofs.Completion.Bits

/-!
# What actions do to a store

The steps that actions are made of, each run on a store.
-/

set_option autoImplicit false

namespace DeclFront

namespace Action

variable {β α γ : Type}

/-- To answer at once leaves the store as it is. -/
theorem runOn_pure (x : α) (s : Store β) : (pure x : Action β α).runOn s = (.ok x, s) := rfl

/-- The second of two actions runs on the store that the first leaves, and does not run if that
stops with a fault. -/
theorem runOn_bind (q : Action β α) (r : α → Action β γ) (s : Store β) :
    (q >>= r).runOn s =
      match q.runOn s with
      | (.ok x, s') => (r x).runOn s'
      | (.error f, s') => (.error f, s') := by
  have run : (q >>= r).runOn s = (ExceptT.bindCont r (q s).1) (q s).2 := rfl
  have first : q.runOn s = ((q s).1, (q s).2) := rfl
  rw [run, first]
  cases (q s).1 <;> rfl

/-- Where the first action answers, the second goes on. -/
theorem runOn_bind_ok {q : Action β α} {r : α → Action β γ} {s s' : Store β} {x : α}
    (h : q.runOn s = (.ok x, s')) : (q >>= r).runOn s = (r x).runOn s' := by
  rw [runOn_bind, h]

/-- To look into a slot leaves the store as it is. -/
theorem runOn_peek (slot : Slot β α) (s : Store β) :
    (peek slot).runOn s = (.ok (slot.get s.facts), s) := rfl

/-- A part is marked in the state as the state says. -/
theorem runOn_notePart {part : Parts} {s : Store β} {changed : Bool} {next : CompletionState}
    (h : s.state.note part = .ok (changed, next)) :
    (notePart part).runOn s = (.ok changed, { s with state := next }) := by
  have read : (get : Action β (Store β)).runOn s = (.ok s, s) := rfl
  unfold notePart
  rw [runOn_bind_ok read, h]
  rfl

/-- A part that matters is marked, and the answer says whether that changed anything. -/
theorem runOn_notePart_relevant {part : Parts} {s : Store β}
    (h : s.state.relevant.contains part = true) : (notePart part).runOn s =
      (.ok (decide ((s.state.marked part).done ≠ s.state.done)),
        { s with state := s.state.marked part }) :=
  runOn_notePart (if_pos h)

/-- A part that does not matter is refused, and nothing changes. -/
theorem runOn_notePart_irrelevant {part : Parts} {s : Store β}
    (h : ¬s.state.relevant.contains part = true) :
    (notePart part).runOn s = (.error (.irrelevantPart part s.state.relevant), s) := by
  have read : (get : Action β (Store β)).runOn s = (.ok s, s) := rfl
  have refused : s.state.note part = .error (.irrelevantPart part s.state.relevant) := if_neg h
  unfold notePart
  rw [runOn_bind_ok read, refused]
  rfl

/-- Marking a part leaves the slots as they are. -/
theorem notePart_facts (part : Parts) (s : Store β) :
    ((notePart part).runOn s).2.facts = s.facts := by
  by_cases h : s.state.relevant.contains part = true
  · rw [runOn_notePart_relevant h]
  · rw [runOn_notePart_irrelevant h]

/-- To answer after marking a part leaves the store that the marking leaves. -/
theorem runOn_notePart_return (part : Parts) (v : α) (s : Store β) :
    ((do let _ ← notePart part; return v : Action β α).runOn s).2 =
      ((notePart part).runOn s).2 := by
  rw [runOn_bind]
  rcases (notePart part).runOn s with ⟨_ | _, _⟩ <;> rfl

/-- A value goes into an empty slot. -/
theorem runOn_publish {slot : Slot β α} {s : Store β} (h : slot.get s.facts = none) (x : α) :
    (publish slot x).runOn s = (.ok (), { s with facts := slot.fill x s.facts }) := by
  unfold publish
  rw [runOn_bind_ok (runOn_peek slot s), h]
  rfl

/-- A filled slot keeps the value it has. -/
theorem runOn_publish_filled {slot : Slot β α} {s : Store β} {v : α}
    (h : slot.get s.facts = some v) (x : α) : (publish slot x).runOn s = (.ok (), s) := by
  unfold publish
  rw [runOn_bind_ok (runOn_peek slot s), h]
  rfl

/-- In either case nothing but the slot can change. -/
theorem runOn_publish_eq (slot : Slot β α) (x : α) (s : Store β) :
    (publish slot x).runOn s = (.ok (), { s with
      facts := match slot.get s.facts with
        | some _ => s.facts
        | none => slot.fill x s.facts }) := by
  cases h : slot.get s.facts with
  | some v => rw [runOn_publish_filled h]
  | none => rw [runOn_publish h]

/-- Marking a part leaves the slots, so that the value read after it is the one before. -/
theorem runOn_notePart_peek {part : Parts} {slot : Slot β α} {s : Store β} {x : α}
    (h : slot.get s.facts = some x) :
    (do
      let _ ← notePart part
      match ← peek slot with
      | some v => return v
      | none => throw .unreachable : Action β α).runOn s =
      (do let _ ← notePart part; return x : Action β α).runOn s := by
  by_cases relevant : s.state.relevant.contains part = true
  · rw [runOn_bind_ok (runOn_notePart_relevant relevant), runOn_bind_ok (runOn_peek slot _), h,
      runOn_bind_ok (runOn_notePart_relevant relevant)]
  · rw [runOn_bind, runOn_bind, runOn_notePart_irrelevant relevant]

section Ensure

variable [DecidableEq α] {part : Parts} {slot : Slot β α} {compute : Action β α} {s : Store β}

/-- What is done with a value that was computed for a slot. -/
def settle (part : Parts) (slot : Slot β α) (computed : α) : Action β α := do
  match ← peek slot with
  | some winner =>
    if computed ≠ winner then
      throw (.impureComputation part (slot.display winner) (slot.display computed))
  | none => publish slot computed
  let _ ← notePart part
  match ← peek slot with
  | some v => return v
  | none => throw .unreachable

/-- Where the slot is filled, its value is the answer, and nothing is computed. -/
theorem runOn_ensureComplete_filled {v : α} (h : slot.get s.facts = some v) :
    (ensureComplete part slot compute).runOn s =
      (do let _ ← notePart part; return v : Action β α).runOn s := by
  unfold ensureComplete
  rw [runOn_bind_ok (runOn_peek slot s), h]

/-- Where the slot is empty, the value is computed and then settled. -/
theorem runOn_ensureComplete_empty (h : slot.get s.facts = none) :
    (ensureComplete part slot compute).runOn s = (compute >>= settle part slot).runOn s := by
  unfold ensureComplete
  rw [runOn_bind_ok (runOn_peek slot s), h]
  rfl

/-- A slot that is still empty is filled. -/
theorem runOn_settle_empty {x : α} (h : slot.get s.facts = none)
    (fills : slot.get (slot.fill x s.facts) = some x) : (settle part slot x).runOn s =
      (do let _ ← notePart part; return x : Action β α).runOn ((publish slot x).runOn s).2 := by
  unfold settle
  rw [runOn_bind_ok (runOn_peek slot s), h]
  dsimp only
  rw [runOn_bind_ok (runOn_publish h x), runOn_publish h x]
  exact runOn_notePart_peek fills

/-- A value that agrees with the one in the slot is dropped. -/
theorem runOn_settle_agreeing {x : α} (h : slot.get s.facts = some x) :
    (settle part slot x).runOn s = (do let _ ← notePart part; return x : Action β α).runOn s := by
  unfold settle
  rw [runOn_bind_ok (runOn_peek slot s), h]
  dsimp only
  rw [if_neg (not_not_intro rfl)]
  exact runOn_notePart_peek h

/-- A computed value that differs from one put there meanwhile is a fault. -/
theorem runOn_settle_disagreeing {x winner : α} (h : slot.get s.facts = some winner)
    (ne : x ≠ winner) : (settle part slot x).runOn s =
      (.error (.impureComputation part (slot.display winner) (slot.display x)), s) := by
  unfold settle
  rw [runOn_bind_ok (runOn_peek slot s), h]
  dsimp only
  rw [if_pos ne]
  rfl

/-- What marking a part comes to for a value that is in its slot. -/
def noted (part : Parts) (v : α) (s : Store β) : Except Fault α × Store β :=
  if s.state.relevant.contains part then (.ok v, { s with state := s.state.marked part })
  else (.error (.irrelevantPart part s.state.relevant), s)

/-- All that asking for a value can come to. The value is marked only where it is in the slot: it was
there, it is there by the time the computation has ended, or it has just been put there. -/
inductive Ensures (part : Parts) (slot : Slot β α) (compute : Action β α) (s : Store β)
    (r : Except Fault α × Store β) : Prop where
  | found {v : α} : slot.get s.facts = some v → r = noted part v s → Ensures part slot compute s r
  | stopped {f : Fault} {t : Store β} : slot.get s.facts = none → compute.runOn s = (.error f, t) →
    r = (.error f, t) → Ensures part slot compute s r
  | disagreed {x winner : α} {t : Store β} : slot.get s.facts = none →
    compute.runOn s = (.ok x, t) → slot.get t.facts = some winner → x ≠ winner →
    r = (.error (.impureComputation part (slot.display winner) (slot.display x)), t) →
    Ensures part slot compute s r
  | agreed {x : α} {t : Store β} : slot.get s.facts = none → compute.runOn s = (.ok x, t) →
    slot.get t.facts = some x → r = noted part x t → Ensures part slot compute s r
  | published {x : α} {t : Store β} : slot.get s.facts = none → compute.runOn s = (.ok x, t) →
    slot.get t.facts = none → r = noted part x { t with facts := slot.fill x t.facts } →
    Ensures part slot compute s r

omit [DecidableEq α] in
/-- To mark a part and answer is what a call does in the end. -/
theorem runOn_notePart_noted (v : α) (s : Store β) :
    (do let _ ← notePart part; return v : Action β α).runOn s = noted part v s := by
  unfold noted
  split
  · rename_i relevant
    rw [runOn_bind_ok (runOn_notePart_relevant relevant)]
    rfl
  · rename_i irrelevant
    rw [runOn_bind, runOn_notePart_irrelevant irrelevant]

/-- A call goes in one of the ways that there are for it, whatever is computed. -/
theorem ensureComplete_ensures (fills : ∀ x f, slot.get (slot.fill x f) = some x) :
    Ensures part slot compute s ((ensureComplete part slot compute).runOn s) := by
  cases filled : slot.get s.facts with
  | some v =>
    rw [runOn_ensureComplete_filled filled, runOn_notePart_noted]
    exact .found filled rfl
  | none =>
    rw [runOn_ensureComplete_empty filled]
    rcases ran : compute.runOn s with ⟨f | x, t⟩
    · rw [runOn_bind, ran]
      exact .stopped filled ran rfl
    rw [runOn_bind_ok ran]
    cases found : slot.get t.facts with
    | none =>
      rw [runOn_settle_empty found (fills x _), runOn_publish found, runOn_notePart_noted]
      exact .published filled ran found rfl
    | some winner =>
      by_cases agree : x = winner
      · subst agree
        rw [runOn_settle_agreeing found, runOn_notePart_noted]
        exact .agreed filled ran found rfl
      · rw [runOn_settle_disagreeing found agree]
        exact .disagreed filled ran found agree rfl

omit [DecidableEq α] in
/-- A call that answers in the end gives the value, has marked its part, and leaves the slots as
they are. -/
theorem noted_ok {v x : α} {t : Store β} (h : (.ok x, t) = noted part v s) :
    x = v ∧ t.facts = s.facts ∧ t.state.done.contains part = true := by
  unfold noted at h
  split at h
  · cases h
    exact ⟨rfl, rfl, (Parts.contains_union.mp (Parts.contains_refl _)).2⟩
  · cases h

omit [DecidableEq α] in
/-- A part that cannot be marked leaves everything as it is. -/
theorem noted_error {v : α} {f : Fault} {t : Store β} (h : (.error f, t) = noted part v s) :
    s.state.relevant.contains part = false ∧ f = .irrelevantPart part s.state.relevant ∧ t = s := by
  unfold noted at h
  split at h
  · cases h
  · rename_i irrelevant
    cases h
    exact ⟨Bool.eq_false_iff.mpr irrelevant, rfl, rfl⟩

/-- A value that is returned is in its slot by then, and its part is complete. -/
theorem ensureComplete_ok (fills : ∀ x f, slot.get (slot.fill x f) = some x) {v : α} {t : Store β}
    (h : (ensureComplete part slot compute).runOn s = (.ok v, t)) :
    slot.get t.facts = some v ∧ t.state.done.contains part = true := by
  have returned : ∀ {u : Store β} {x : α}, slot.get u.facts = some x → (.ok v, t) = noted part x u →
      slot.get t.facts = some v ∧ t.state.done.contains part = true := by
    intro u x filled result
    obtain ⟨rfl, kept, complete⟩ := noted_ok result
    exact ⟨kept ▸ filled, complete⟩
  cases h ▸ ensureComplete_ensures fills with
  | found filled result => exact returned filled result
  | stopped _ _ result => cases result
  | disagreed _ _ _ _ result => cases result
  | agreed _ _ filled result => exact returned filled result
  | published _ _ _ result => exact returned (fills _ _) result

end Ensure

end Action

end DeclFront
