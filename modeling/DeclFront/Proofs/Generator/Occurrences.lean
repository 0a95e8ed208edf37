import DeclFront.Proofs.Generator.Bench
import DeclFront.Proofs.Generator.Upkeep

/-!
# What happens to a bench

Besides that its driver is told to do something, the latch of a generator may be opened at any time
between two directives, and executions that were left behind then go on to their ends. Whatever
happens, the bench stays sound.
-/

set_option autoImplicit false

namespace DeclFront

variable {σ : Type}

/-- What may happen to a driver in its workshop. -/
inductive Occurrence where
  | directive (c : Directive)
  /-- The latch of a generator is opened, and what waits at it goes on. -/
  | release (index : Nat)

namespace Workshop

/-- Nothing that a generator can do to the workshop changes a name. -/
theorem upkeep_name? (names : Nat → Option String) (input : Snapshot) :
    Upkeep (σ := σ) input fun w => w.name? = names where
  bind _ h := h
  state w i _ h := Eq.trans (w.name?_update i fun _ => rfl) h
  wait w i _ _ h := Eq.trans (w.name?_update i fun _ => rfl) h
  cancel w i h := Eq.trans (w.name?_update i fun _ => rfl) h

/-- Opening a latch, with all that goes on then, changes no name. -/
theorem name?_release (w : Workshop σ) (i : Nat) : (w.release i).name? = w.name? := by
  unfold release
  split
  · rfl
  · refine finish_keeps (fun e _ => upkeep_name? w.name? e.input) ?_ i
    exact w.name?_update i fun _ => rfl

end Workshop

namespace Bench

/-- The bench after something happened. -/
def undergo (b : Bench σ) : Occurrence → Bench σ
  | .directive c => b.perform c
  | .release i => { b with workshop := b.workshop.release i }

/-- The bench after all that happened. -/
def undergoAll (b : Bench σ) (os : List Occurrence) : Bench σ :=
  os.foldl undergo b

variable {w : Workshop σ} {b : Bench σ}

/-- Whatever happens keeps the bench sound. -/
theorem Sound.undergo (h : b.Sound w) (o : Occurrence) : (b.undergo o).Sound w := by
  cases o with
  | directive c => exact (h.perform c).1
  | release i =>
    exact ⟨(b.workshop.name?_release i).trans h.name?, h.distinct, h.registered, h.sound⟩

end Bench

end DeclFront
