import DeclFront.Completion.State

/-!
# Sets of parts bit by bit

The operations on sets of parts, each said of a single bit, and what follows for how many parts of a
symbol are missing.
-/

set_option autoImplicit false

namespace DeclFront

namespace Parts

/-- Is the bit of a number in the set? -/
def has (p : Parts) (i : Nat) : Bool := p.bits.toNat.testBit i

variable {p q : Parts} {i : Nat}

/-- A set has 32 bits only. -/
theorem has_of_le (h : 32 ≤ i) : p.has i = false :=
  Nat.testBit_lt_two_pow
    (Nat.lt_of_lt_of_le p.bits.toNat_lt (Nat.pow_le_pow_right (by decide) h))

/-- The empty set has no bit. -/
@[simp] theorem has_none : none.has i = false := Nat.zero_testBit i

/-- A union has the bits of both. -/
@[simp] theorem has_union : (p.union q).has i = (p.has i || q.has i) := by
  simp [has, union]

/-- A difference has the bits of the first set that the second has not. -/
@[simp] theorem has_diff : (p.diff q).has i = (p.has i && !q.has i) := by
  by_cases inside : i < 32
  · have flipped : (~~~q.bits).toNat.testBit i = !q.bits.toNat.testBit i := by
      rw [UInt32.toNat_not, UInt32.size, Nat.sub_sub, Nat.add_comm 1,
        Nat.testBit_two_pow_sub_succ q.bits.toNat_lt, decide_eq_true inside, Bool.true_and]
    unfold has diff
    rw [UInt32.toNat_and, Nat.testBit_and, flipped]
  · rw [has_of_le (Nat.le_of_not_lt inside), has_of_le (Nat.le_of_not_lt inside), Bool.false_and]

/-- Sets with the same bits are the same. -/
theorem ext_has (h : ∀ i, p.has i = q.has i) : p = q := by
  cases p
  cases q
  exact congrArg mk (UInt32.toNat_inj.mp (Nat.eq_of_testBit_eq h))

/-- It does not matter how unions are grouped. -/
theorem union_assoc (p q r : Parts) : (p.union q).union r = p.union (q.union r) :=
  ext_has fun i => by simp [Bool.or_assoc]

/-- The order in a union does not matter. -/
theorem union_comm (p q : Parts) : p.union q = q.union p :=
  ext_has fun i => by simp [Bool.or_comm]

/-- What is missing from fewer parts is all that can be missing from more. -/
theorem diff_union_eq_none (h : p.diff q = none) (r : Parts) : p.diff (r.union q) = none := by
  refine ext_has fun i => ?_
  have bit : (p.has i && !q.has i) = false := by rw [← has_diff, h, has_none]
  rw [has_diff, has_union, Bool.not_or, Bool.and_left_comm, bit, Bool.and_false, has_none]

/-- A set holds another if it has all its bits. -/
theorem contains_iff : p.contains q = true ↔ ∀ i, q.has i = true → p.has i = true := by
  have both : (p.bits &&& q.bits).toNat = p.bits.toNat &&& q.bits.toNat := UInt32.toNat_and ..
  unfold contains
  rw [decide_eq_true_eq, ← UInt32.toNat_inj, both]
  constructor
  · intro h i hi
    have bit := congrArg (Nat.testBit · i) h
    simp only [Nat.testBit_and] at bit
    exact (Bool.and_eq_true_iff.mp (bit.trans hi)).1
  · intro h
    refine Nat.eq_of_testBit_eq fun i => ?_
    rw [Nat.testBit_and]
    exact Bool.and_eq_right_iff_imp.mpr (h i)

/-- A set holds itself. -/
theorem contains_refl (p : Parts) : p.contains p = true := contains_iff.mpr fun _ h => h

/-- Every set holds the empty one. -/
theorem contains_none (p : Parts) : p.contains none = true :=
  contains_iff.mpr fun i h => by simp at h

/-- What is held by a set that another holds is held by that. -/
theorem contains_trans {r : Parts} (hpq : p.contains q = true) (hqr : q.contains r = true) :
    p.contains r = true :=
  contains_iff.mpr fun i h => contains_iff.mp hpq i (contains_iff.mp hqr i h)

/-- A set holds a union if it holds both sets. -/
theorem contains_union {r : Parts} :
    p.contains (q.union r) = true ↔ p.contains q = true ∧ p.contains r = true := by
  simp only [contains_iff, has_union, Bool.or_eq_true]
  exact ⟨fun h => ⟨fun i hi => h i (.inl hi), fun i hi => h i (.inr hi)⟩,
    fun h i hi => hi.elim (h.1 i) (h.2 i)⟩

/-- The number of parts is the number of bits. -/
theorem count_eq_countP (p : Parts) : p.count = (List.range 32).countP p.has :=
  List.countP_eq_length_filter.symm

/-- Only the empty set has no parts. -/
theorem count_eq_zero_iff : p.count = 0 ↔ p = none := by
  rw [count_eq_countP, List.countP_eq_zero]
  constructor
  · intro h
    refine ext_has fun i => ?_
    by_cases inside : i < 32
    · simpa using h i (List.mem_range.mpr inside)
    · rw [has_of_le (Nat.le_of_not_lt inside), has_none]
  · rintro rfl i -
    simp

/-- Parts of a set and the others make up the set. -/
theorem count_diff_add_count (h : p.contains q = true) : (p.diff q).count + q.count = p.count := by
  have inside : ∀ i, (p.has i && q.has i) = q.has i :=
    fun i => Bool.and_eq_right_iff_imp.mpr (contains_iff.mp h i)
  have outside : (p.diff q).has = fun i => p.has i && !q.has i := funext fun _ => has_diff
  rw [count_eq_countP, count_eq_countP, count_eq_countP,
    List.countP_eq_countP_filter_add (List.range 32) p.has q.has, List.countP_filter,
    List.countP_filter, Nat.add_comm, outside]
  simp only [inside]

end Parts

namespace CompletionState

variable {s : CompletionState}

/-- The parts that are missing are those that matter less those that are complete. -/
theorem incompleteCount_add_count (h : s.relevant.contains s.done = true) :
    s.incompleteCount + s.done.count = s.relevant.count :=
  Parts.count_diff_add_count h

/-- Nothing is missing exactly if everything that matters is complete. -/
theorem incompleteCount_eq_zero_iff : s.incompleteCount = 0 ↔ s.isFullyComplete = true := by
  rw [incompleteCount, Parts.count_eq_zero_iff, isFullyComplete, decide_eq_true_eq]

end CompletionState

end DeclFront
