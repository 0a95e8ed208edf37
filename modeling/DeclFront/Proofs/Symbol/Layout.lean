import DeclFront.Symbol.Binding
import Mathlib.Algebra.GroupWithZero.Nat

/-!
# Where the symbols of a table stand

The indices of symbols are worked out ahead, by adding up how many symbols the declarations before
them have. Here the same indices are read off the finished table: `stands_iff` says which symbol
stands at an index, for every index of the table.
-/

set_option autoImplicit false

namespace DeclFront

section Placed

variable {α : Type} (count : α → Nat)

/-- Things that take `count` places each, one behind another, each with the place where it starts. -/
def placed : Nat → List α → List (α × Nat)
  | _, [] => []
  | ix, a :: as => (a, ix) :: placed (ix + count a) as

variable {count} {ix : Nat} {as : List α} {e : α × Nat}

/-- With their places the things are the same, in the same order. -/
theorem placed_fst (count : α → Nat) (ix : Nat) (as : List α) :
    (placed count ix as).map Prod.fst = as := by
  induction as generalizing ix with
  | nil => rfl
  | cons a as ih => rw [placed, List.map_cons, ih]

/-- Each thing lies between the first place and the last. -/
theorem placed_bounds (h : e ∈ placed count ix as) :
    ix ≤ e.2 ∧ e.2 + count e.1 ≤ ix + (as.map count).sum := by
  induction as generalizing ix with
  | nil => simp [placed] at h
  | cons a as ih =>
    rw [List.map_cons, List.sum_cons]
    rcases List.mem_cons.mp h with rfl | h
    · dsimp only
      omega
    · have := ih h
      omega

/-- Things do not overlap: each ends before the next begins. -/
theorem placed_pairwise : (placed count ix as).Pairwise fun a b => a.2 + count a.1 ≤ b.2 := by
  induction as generalizing ix with
  | nil => exact List.Pairwise.nil
  | cons a as ih => exact List.pairwise_cons.mpr ⟨fun e he => (placed_bounds he).1, ih⟩

/-- Behind each thing the next one starts, or the places end. -/
theorem placed_next (h : e ∈ placed count ix as) :
    e.2 + count e.1 = ix + (as.map count).sum ∨
      ∃ b ∈ placed count ix as, b.2 = e.2 + count e.1 := by
  induction as generalizing ix with
  | nil => simp [placed] at h
  | cons a as ih =>
    rw [List.map_cons, List.sum_cons, ← Nat.add_assoc]
    rcases List.mem_cons.mp h with rfl | h
    · cases as with
      | nil => exact .inl (by simp)
      | cons b bs => exact .inr ⟨(b, ix + count a), by simp [placed], rfl⟩
    · rcases ih h with last | ⟨b, hb, next⟩
      · exact .inl last
      · exact .inr ⟨b, List.mem_cons_of_mem _ hb, next⟩

/-- No place is left out and none is taken twice. -/
theorem range'_eq_flatMap_placed : List.range' ix (as.map count).sum =
    (placed count ix as).flatMap fun e => List.range' e.2 (count e.1) := by
  induction as generalizing ix with
  | nil => rfl
  | cons a as ih =>
    rw [placed, List.flatMap_cons, ← ih, List.range'_append_1, List.map_cons, List.sum_cons]

variable {β : Type} {f : Nat → α → List β}

/-- All places are taken. -/
theorem length_flatMap_placed (length : ∀ i a, (f i a).length = count a) :
    ((placed count ix as).flatMap fun e => f e.2 e.1).length = (as.map count).sum := by
  induction as generalizing ix with
  | nil => rfl
  | cons a as ih =>
    rw [placed, List.flatMap_cons, List.length_append, length, ih, List.map_cons, List.sum_cons]

/-- What a thing puts at its places has the indices of these places. -/
theorem zipIdx_flatMap_placed (length : ∀ i a, (f i a).length = count a) :
    ((placed count ix as).flatMap fun e => f e.2 e.1).zipIdx ix =
      (placed count ix as).flatMap fun e => (f e.2 e.1).zipIdx e.2 := by
  induction as generalizing ix with
  | nil => rfl
  | cons a as ih =>
    rw [placed, List.flatMap_cons, List.flatMap_cons, List.zipIdx_append, length, ih]

end Placed

namespace MethodDecl

variable (m : MethodDecl) (ms : List MethodDecl) (owner : Nat) (type : String) (ix : Nat)

/-- The symbol of a method at index `ix` of the type named `type` at index `owner`. -/
def symbol : MethodSymbol where
  owner
  name := m.name
  ordinal := m.ordinal
  typeParams := m.typeParams
  locations := [m.location]
  params := (List.range m.params.length).map (ix + 1 + ·)
  attributes := ⟨m.tree, .method, type ++ "." ++ m.name⟩

/-- A method stands in front of its parameters. -/
theorem symbols_eq : m.symbols owner type ix =
    .method (m.symbol owner type ix) :: m.params.map fun d => .parameter (.ofDecl ix d) := rfl

/-- A method takes one place for itself and one for each parameter. -/
theorem length_symbols : (m.symbols owner type ix).length = m.symbolCount := by
  rw [symbols_eq, List.length_cons, List.length_map, symbolCount, Nat.add_comm]

/-- The indices that a method takes are its own and those of its parameters. -/
theorem range'_symbolCount :
    List.range' ix m.symbolCount = ix :: (m.symbol owner type ix).params := by
  rw [symbolCount, Nat.add_comm, List.range'_succ, List.range'_eq_map_range]
  rfl

/-- The indices of methods are the places where they start. -/
theorem indices_eq : indices ix ms = (placed symbolCount ix ms).map Prod.snd := by
  induction ms generalizing ix with
  | nil => rfl
  | cons m ms ih => rw [indices, placed, List.map_cons, ih]

/-- The symbols of methods stand where the methods are placed. -/
theorem allSymbols_eq : allSymbols owner type ix ms =
    (placed symbolCount ix ms).flatMap fun e => e.1.symbols owner type e.2 := by
  induction ms generalizing ix with
  | nil => rfl
  | cons m ms ih => rw [allSymbols, placed, List.flatMap_cons, ih]

/-- Where a method is placed stands the method, and behind it each parameter by its number. -/
theorem mem_zipIdx_symbols {p : Nat} {s : Symbol} : (s, p) ∈ (m.symbols owner type ix).zipIdx ix ↔
    (s = .method (m.symbol owner type ix) ∧ p = ix) ∨
      ∃ i d, m.params[i]? = some d ∧ s = .parameter (.ofDecl ix d) ∧ p = ix + 1 + i := by
  rw [symbols_eq, List.zipIdx_cons, List.mem_cons, Prod.mk.injEq,
    List.mk_mem_zipIdx_iff_le_and_getElem?_sub, List.getElem?_map]
  constructor
  · rintro (first | ⟨le, h⟩)
    · exact .inl first
    · obtain ⟨d, hd, rfl⟩ := Option.map_eq_some_iff.mp h
      exact .inr ⟨_, d, hd, rfl, by omega⟩
  · rintro (first | ⟨i, d, hd, rfl, rfl⟩)
    · exact .inl first
    · refine .inr ⟨by omega, ?_⟩
      rw [Nat.add_sub_cancel_left, hd, Option.map_some]

end MethodDecl

namespace TypeDecl

variable (t : TypeDecl) (ts : List TypeDecl) (ix : Nat)

/-- The symbol of a type at index `ix`. -/
def symbol : TypeSymbol where
  name := t.name
  ordinal := t.ordinal
  typeParams := t.typeParams
  locations := [t.location]
  members := MethodDecl.indices (ix + 1) t.methods
  attributes := ⟨t.tree, .type, t.name⟩

/-- A type stands in front of its methods. -/
theorem symbols_eq : t.symbols ix =
    .type (t.symbol ix) :: MethodDecl.allSymbols ix t.name (ix + 1) t.methods := rfl

/-- A type takes one place for itself and those of its methods. -/
theorem symbolCount_eq : t.symbolCount = 1 + (t.methods.map MethodDecl.symbolCount).sum := by
  rw [symbolCount, List.sum_eq_foldr, List.foldr_map]

/-- The symbols of a type are as many as the places that it takes. -/
theorem length_symbols : (t.symbols ix).length = t.symbolCount := by
  rw [symbols_eq, List.length_cons, MethodDecl.allSymbols_eq,
    length_flatMap_placed fun i m => m.length_symbols ix t.name i, symbolCount_eq, Nat.add_comm]

/-- The symbols of types stand where the types are placed. -/
theorem allSymbols_eq : allSymbols ix ts =
    (placed symbolCount ix ts).flatMap fun e => e.1.symbols e.2 := by
  induction ts generalizing ix with
  | nil => rfl
  | cons t ts ih => rw [allSymbols, placed, List.flatMap_cons, ih]

/-- All symbols together are as many as the places of the types. -/
theorem length_allSymbols : (allSymbols ix ts).length = (ts.map symbolCount).sum := by
  rw [allSymbols_eq, length_flatMap_placed fun i t => length_symbols t i]

/-- Where a type is placed stands the type, and behind it what its methods put at their places. -/
theorem mem_zipIdx_symbols {p : Nat} {s : Symbol} : (s, p) ∈ (t.symbols ix).zipIdx ix ↔
    (s = .type (t.symbol ix) ∧ p = ix) ∨
      ∃ e ∈ placed MethodDecl.symbolCount (ix + 1) t.methods,
        (s, p) ∈ (e.1.symbols ix t.name e.2).zipIdx e.2 := by
  rw [symbols_eq, List.zipIdx_cons, List.mem_cons, Prod.mk.injEq, MethodDecl.allSymbols_eq,
    zipIdx_flatMap_placed fun i m => m.length_symbols ix t.name i, List.mem_flatMap]

/-- The symbol of a declaration, at the index at which it stands when the declarations `ts` take the
indices from zero on. -/
inductive Stands (ts : List TypeDecl) : Nat → Symbol → Prop where
  | type {t : TypeDecl} {ix : Nat} : (t, ix) ∈ placed symbolCount 0 ts →
    Stands ts ix (.type (t.symbol ix))
  | method {t : TypeDecl} {owner : Nat} {m : MethodDecl} {ix : Nat} :
    (t, owner) ∈ placed symbolCount 0 ts →
    (m, ix) ∈ placed MethodDecl.symbolCount (owner + 1) t.methods →
    Stands ts ix (.method (m.symbol owner t.name ix))
  | parameter {t : TypeDecl} {owner : Nat} {m : MethodDecl} {ix : Nat} {d : ParamDecl} {i : Nat} :
    (t, owner) ∈ placed symbolCount 0 ts →
    (m, ix) ∈ placed MethodDecl.symbolCount (owner + 1) t.methods → m.params[i]? = some d →
    Stands ts (ix + 1 + i) (.parameter (.ofDecl ix d))

/-- At every index stands the symbol of the declaration that has the index, and nothing else. -/
theorem stands_iff {p : Nat} {s : Symbol} : (allSymbols 0 ts)[p]? = some s ↔ Stands ts p s := by
  rw [← List.mk_mem_zipIdx_iff_getElem?, allSymbols_eq,
    zipIdx_flatMap_placed fun i t => length_symbols t i, List.mem_flatMap]
  constructor
  · rintro ⟨⟨t, owner⟩, ht, h⟩
    rw [mem_zipIdx_symbols] at h
    rcases h with ⟨rfl, rfl⟩ | ⟨⟨m, ix⟩, hm, h⟩
    · exact .type ht
    · rw [MethodDecl.mem_zipIdx_symbols] at h
      rcases h with ⟨rfl, rfl⟩ | ⟨i, d, hd, rfl, rfl⟩
      · exact .method ht hm
      · exact .parameter ht hm hd
  · intro h
    cases h with
    | type ht => exact ⟨_, ht, (mem_zipIdx_symbols _ _).mpr (.inl ⟨rfl, rfl⟩)⟩
    | method ht hm =>
      exact ⟨_, ht, (mem_zipIdx_symbols _ _).mpr
        (.inr ⟨_, hm, (MethodDecl.mem_zipIdx_symbols _ _ _ _).mpr (.inl ⟨rfl, rfl⟩)⟩)⟩
    | parameter ht hm hd =>
      exact ⟨_, ht, (mem_zipIdx_symbols _ _).mpr
        (.inr ⟨_, hm, (MethodDecl.mem_zipIdx_symbols _ _ _ _).mpr (.inr ⟨_, _, hd, rfl, rfl⟩)⟩)⟩

end TypeDecl

end DeclFront
