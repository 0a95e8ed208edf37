import DeclFront.Proofs.Symbol.Collect
import DeclFront.Proofs.Symbol.Layout
import Mathlib.Data.List.Induction

/-!
# The table of symbols is a forest in declaration order

Every method belongs to a type before it and every parameter to a method before it, and each is
listed by its owner, at its ordinal, and by nothing else. Between a type and the next one stand its
methods, each with its parameters behind it. The types of a file are numbered as they are declared.
-/

set_option autoImplicit false

namespace DeclFront

/-- The type that a symbol is, if it is one. -/
def Symbol.type? : Symbol → Option TypeSymbol
  | .type t => some t
  | _ => none

/-- The names of the types that a file declares, in order. A type without a name is no symbol. -/
def SourceFile.typeNames (f : SourceFile) : List PlacedToken :=
  f.parsed.root.typeDecls.filterMap Node.nameToken?

/-! ### Ordinals -/

/-- The ordinals of some declarations count from zero on. -/
def Numbered {δ : Type} (ordinal : δ → Nat) (ds : List δ) : Prop :=
  ds.map ordinal = List.range ds.length

namespace Numbered

variable {δ : Type} {ordinal : δ → Nat} {ds : List δ}

/-- One more declaration counts on. -/
theorem append (h : Numbered ordinal ds) {d : δ} (hd : ordinal d = ds.length) :
    Numbered ordinal (ds ++ [d]) := by
  unfold Numbered at h ⊢
  rw [List.map_append, h, List.map_singleton, hd, List.length_append, List.length_singleton,
    List.range_succ]

/-- A declaration has the number of its place. -/
theorem ordinal_eq (h : Numbered ordinal ds) {i : Nat} {d : δ} (hd : ds[i]? = some d) :
    ordinal d = i := by
  have place : (ds.map ordinal)[i]? = some (ordinal d) := by rw [List.getElem?_map, hd]; rfl
  rw [h] at place
  obtain ⟨_, eq⟩ := List.getElem?_eq_some_iff.mp place
  rw [← eq, List.getElem_range]

end Numbered

/-- The methods of a type count from zero on, and so do the parameters of each. -/
structure TypeDecl.InOrder (t : TypeDecl) : Prop where
  methods : Numbered MethodDecl.ordinal t.methods
  params : ∀ m ∈ t.methods, Numbered ParamDecl.ordinal m.params

namespace Collect

/-- The parameters of a method count from zero on, by induction on them. -/
theorem params_numbered (file method : String) (n : Node) :
    Numbered ParamDecl.ordinal (params file method n).decls := by
  unfold params
  split
  · rfl
  · refine List.foldlRecOn (motive := fun ps : Params => Numbered ParamDecl.ordinal ps.decls)
      _ _ rfl ?_
    intro ps h n _
    unfold Params.add
    split
    · exact h.append rfl
    · exact h

/-- The methods of a type are numbered in their order, and so are the parameters of each. -/
theorem methods_inOrder (file type : String) (ns : List Node) :
    Numbered MethodDecl.ordinal (ns.foldl (Methods.add file type) {}).decls ∧
      ∀ m ∈ (ns.foldl (Methods.add file type) {}).decls, Numbered ParamDecl.ordinal m.params := by
  refine List.foldlRecOn (motive := fun ms : Methods => Numbered MethodDecl.ordinal ms.decls ∧
    ∀ m ∈ ms.decls, Numbered ParamDecl.ordinal m.params) _ _ ⟨rfl, by simp⟩ ?_
  rintro ms ⟨numbered, params⟩ n -
  unfold Methods.add
  split
  · exact ⟨numbered, params⟩
  · refine ⟨numbered.append rfl, fun m hm => ?_⟩
    rcases List.mem_append.mp hm with old | new
    · exact params m old
    · rw [List.mem_singleton.mp new]
      exact params_numbered ..

/-- All types of a file are in order within. -/
theorem file_inOrder (f : SourceFile) : ∀ t ∈ (file f).decls, t.InOrder := by
  refine List.foldlRecOn (motive := fun ts : Types => ∀ t ∈ ts.decls, t.InOrder) _ _ (by simp) ?_
  intro ts h n _
  unfold Types.add
  split
  · exact h
  · intro t ht
    rcases List.mem_append.mp ht with old | new
    · exact h t old
    · rw [List.mem_singleton.mp new]
      exact ⟨(methods_inOrder ..).1, (methods_inOrder ..).2⟩

/-- The collected types of a file are its named types, numbered in their order. -/
theorem file_decls (f : SourceFile) :
    (file f).decls.map (fun t => (t.ordinal, t.name, t.location)) =
      f.typeNames.zipIdx.map fun e => (e.2, e.1.token.text, ⟨f.name, e.1.range⟩) := by
  unfold file SourceFile.typeNames
  generalize f.parsed.root.typeDecls = ns
  induction ns using List.reverseRecOn with
  | nil => rfl
  | append_singleton ns n ih =>
    rw [List.foldl_append, List.foldl_cons, List.foldl_nil, List.filterMap_append]
    have count := congrArg List.length ih
    rw [List.length_map, List.length_map, List.length_zipIdx] at count
    generalize ns.foldl (Types.add f.name) {} = ts at ih count ⊢
    unfold Types.add
    cases name : n.nameToken? with
    | none => simpa [name] using ih
    | some t => simp [name, ih, count, List.zipIdx_append]

end Collect

/-! ### The forest -/

namespace SymbolTable

/-- What the indices in a table promise. -/
structure Forest (t : SymbolTable) : Prop where
  /-- A method stands behind its owner, which is a type that lists it at its ordinal. -/
  method : ∀ m M, t.method? m = some M →
    M.owner < m ∧ ∃ T, t.type? M.owner = some T ∧ T.members[M.ordinal]? = some m
  /-- A parameter has the place that its ordinal gives it behind its owner, which is a method that
  lists it at its ordinal. -/
  parameter : ∀ p P, t.parameter? p = some P →
    p = P.owner + 1 + P.ordinal ∧ ∃ M, t.method? P.owner = some M ∧ M.params[P.ordinal]? = some p
  /-- A type lists methods that it owns, in order and each once. -/
  members : ∀ ix T, t.type? ix = some T →
    T.members.Pairwise (· < ·) ∧ ∀ m ∈ T.members, ∃ M, t.method? m = some M ∧ M.owner = ix
  /-- A method lists parameters that it owns, in order and each once. -/
  params : ∀ ix M, t.method? ix = some M →
    M.params.Pairwise (· < ·) ∧ ∀ p ∈ M.params, ∃ P, t.parameter? p = some P ∧ P.owner = ix
  /-- From a type to the next type, or to the end, stand its methods, each with its parameters
  behind it. -/
  between : ∀ ix T, t.type? ix = some T → ∃ next, ix < next ∧
    (next = t.symbols.size ∨ ∃ U, t.type? next = some U) ∧
    List.range' (ix + 1) (next - (ix + 1)) =
      T.members.flatMap fun m => m :: (t.method? m).elim [] (·.params)

variable {t : SymbolTable}

/-- A type is found at an index where a type stands. -/
theorem type?_eq_some {ix : Nat} {T : TypeSymbol} :
    t.type? ix = some T ↔ t.get? ix = some (.type T) := by
  unfold type?
  split <;> simp_all

/-- A method is found at an index where a method stands. -/
theorem method?_eq_some {ix : Nat} {M : MethodSymbol} :
    t.method? ix = some M ↔ t.get? ix = some (.method M) := by
  unfold method?
  split <;> simp_all

/-- A parameter is found at an index where a parameter stands. -/
theorem parameter?_eq_some {ix : Nat} {P : Parameter} :
    t.parameter? ix = some P ↔ t.get? ix = some (.parameter P) := by
  unfold parameter?
  split <;> simp_all

namespace Forest

/-- A method is listed by its owner alone. -/
theorem existsUnique_lists_method (h : t.Forest) {m : Nat} {M : MethodSymbol}
    (hm : t.method? m = some M) : ∃! ix, ∃ T, t.type? ix = some T ∧ m ∈ T.members := by
  obtain ⟨-, T, hT, listed⟩ := h.method m M hm
  refine ⟨M.owner, ⟨T, hT, List.mem_of_getElem? listed⟩, ?_⟩
  rintro ix ⟨U, hU, mem⟩
  obtain ⟨N, hN, owner⟩ := (h.members ix U hU).2 m mem
  rw [hm] at hN
  rw [← owner, Option.some.inj hN]

/-- A parameter is listed by its owner alone. -/
theorem existsUnique_lists_parameter (h : t.Forest) {p : Nat} {P : Parameter}
    (hp : t.parameter? p = some P) : ∃! ix, ∃ M, t.method? ix = some M ∧ p ∈ M.params := by
  obtain ⟨-, M, hM, listed⟩ := h.parameter p P hp
  refine ⟨P.owner, ⟨M, hM, List.mem_of_getElem? listed⟩, ?_⟩
  rintro ix ⟨N, hN, mem⟩
  obtain ⟨Q, hQ, owner⟩ := (h.params ix N hN).2 p mem
  rw [hp] at hQ
  rw [← owner, Option.some.inj hQ]

end Forest

section Stands

open TypeDecl (Stands)

variable {ts : List TypeDecl}

/-- Among the indices of some methods, that of a method has the position of the method. -/
theorem exists_position {m : MethodDecl} {ms : List MethodDecl} {start ix : Nat}
    (h : (m, ix) ∈ placed MethodDecl.symbolCount start ms) :
    ∃ i : Nat, ms[i]? = some m ∧ (MethodDecl.indices start ms)[i]? = some ix := by
  obtain ⟨i, hi⟩ := List.mem_iff_getElem?.mp h
  refine ⟨i, ?_, ?_⟩
  · rw [← placed_fst MethodDecl.symbolCount start ms, List.getElem?_map, hi, Option.map_some]
  · rw [MethodDecl.indices_eq, List.getElem?_map, hi, Option.map_some]

/-- What has a place is one of the things. -/
theorem mem_of_mem_placed {α : Type} {count : α → Nat} {as : List α} {start ix : Nat} {a : α}
    (h : (a, ix) ∈ placed count start as) : a ∈ as := by
  rw [← placed_fst count start as]
  exact List.mem_map_of_mem h

/-- A table in which declarations in order stand where they should is a forest. -/
theorem forest_of_stands (size : t.symbols.size = (ts.map TypeDecl.symbolCount).sum)
    (stands : ∀ {p s}, t.get? p = some s ↔ Stands ts p s) (inOrder : ∀ d ∈ ts, d.InOrder) :
    t.Forest where
  method m M hM := by
    cases stands.mp (method?_eq_some.mp hM) with
    | @method d owner e _ hd he =>
      obtain ⟨i, hi, listed⟩ := exists_position he
      have ordinal : e.ordinal = i := (inOrder d (mem_of_mem_placed hd)).methods.ordinal_eq hi
      have behind := (placed_bounds he).1
      refine ⟨by exact behind, d.symbol owner, type?_eq_some.mpr (stands.mpr (.type hd)), ?_⟩
      show (MethodDecl.indices (owner + 1) d.methods)[e.ordinal]? = some m
      rw [ordinal, listed]
  parameter p P hP := by
    cases stands.mp (parameter?_eq_some.mp hP) with
    | @parameter d owner e ix a i hd he ha =>
      have ordinal : a.ordinal = i :=
        ((inOrder d (mem_of_mem_placed hd)).params e (mem_of_mem_placed he)).ordinal_eq ha
      have bound : i < e.params.length := (List.getElem?_eq_some_iff.mp ha).1
      have listed : (e.symbol owner d.name ix).params[i]? = some (ix + 1 + i) := by
        simp [MethodDecl.symbol, bound]
      rw [← ordinal] at listed ⊢
      exact ⟨rfl, _, method?_eq_some.mpr (stands.mpr (.method hd he)), listed⟩
  members ix T hT := by
    cases stands.mp (type?_eq_some.mp hT) with
    | @type d _ hd =>
      show (MethodDecl.indices (ix + 1) d.methods).Pairwise (· < ·) ∧
        ∀ m ∈ MethodDecl.indices (ix + 1) d.methods, _
      rw [MethodDecl.indices_eq]
      refine ⟨List.pairwise_map.mpr (placed_pairwise.imp fun {a b} apart => ?_), fun m hm => ?_⟩
      · have some : a.1.symbolCount = 1 + a.1.params.length := rfl
        omega
      · obtain ⟨⟨e, _⟩, he, rfl⟩ := List.mem_map.mp hm
        exact ⟨_, method?_eq_some.mpr (stands.mpr (.method hd he)), rfl⟩
  params ix M hM := by
    cases stands.mp (method?_eq_some.mp hM) with
    | @method d owner e _ hd he =>
      refine ⟨List.pairwise_map.mpr (List.pairwise_lt_range.imp fun {a b} less => ?_), fun p hp => ?_⟩
      · omega
      · obtain ⟨i, hi, rfl⟩ := List.mem_map.mp hp
        have param := List.getElem?_eq_getElem (List.mem_range.mp hi)
        exact ⟨_, parameter?_eq_some.mpr (stands.mpr (.parameter hd he param)), rfl⟩
  between ix T hT := by
    cases stands.mp (type?_eq_some.mp hT) with
    | @type d _ hd =>
      have count := d.symbolCount_eq
      refine ⟨ix + d.symbolCount, by omega, ?_, ?_⟩
      · rcases placed_next hd with last | ⟨⟨n, next⟩, hn, start⟩
        · exact .inl (by rw [size]; simpa using last)
        · rw [← start]
          exact .inr ⟨_, type?_eq_some.mpr (stands.mpr (.type hn))⟩
      · have width : ix + d.symbolCount - (ix + 1) = (d.methods.map MethodDecl.symbolCount).sum := by
          omega
        show _ = (MethodDecl.indices (ix + 1) d.methods).flatMap _
        rw [width, range'_eq_flatMap_placed, MethodDecl.indices_eq, List.flatMap_map]
        refine List.flatMap_congr fun e he => ?_
        rw [method?_eq_some.mpr (stands.mpr (.method hd he)), MethodDecl.range'_symbolCount]
        rfl

end Stands

section OfFiles

variable (files : List SourceFile)

/-- All types that are collected from files. -/
def declarations : List TypeDecl :=
  (files.map Collect.file).flatMap (·.decls)

/-- At an index stands what the declarations have there when they are laid out one
behind another. -/
theorem get?_ofFiles {p : Nat} {s : Symbol} :
    (ofFiles files).get? p = some s ↔ TypeDecl.Stands (declarations files) p s := by
  rw [← TypeDecl.stands_iff, get?, ofFiles, List.getElem?_toArray]
  rfl

/-- The table of any files keeps the promises of its indices. -/
theorem forest_ofFiles : (ofFiles files).Forest := by
  refine forest_of_stands (TypeDecl.length_allSymbols _ 0) (get?_ofFiles files) fun t ht => ?_
  obtain ⟨c, hc, ht⟩ := List.mem_flatMap.mp ht
  obtain ⟨f, _, rfl⟩ := List.mem_map.mp hc
  exact Collect.file_inOrder f t ht

/-- Among the symbols of methods there is no type. -/
theorem no_type_in_methods (ms : List MethodDecl) (owner : Nat) (type : String) (ix : Nat) :
    (MethodDecl.allSymbols owner type ix ms).filterMap Symbol.type? = [] := by
  rw [List.filterMap_eq_nil_iff, MethodDecl.allSymbols_eq]
  intro s hs
  obtain ⟨e, _, hs⟩ := List.mem_flatMap.mp hs
  rcases List.mem_cons.mp hs with rfl | hs
  · rfl
  · obtain ⟨d, _, rfl⟩ := List.mem_map.mp hs
    rfl

/-- The types among the symbols are the declared ones, in order. -/
theorem types_allSymbols (ts : List TypeDecl) (ix : Nat) :
    ((TypeDecl.allSymbols ix ts).filterMap Symbol.type?).map
        (fun t => (t.ordinal, t.name, t.locations)) =
      ts.map fun t => (t.ordinal, t.name, [t.location]) := by
  induction ts generalizing ix with
  | nil => rfl
  | cons t ts ih =>
    rw [TypeDecl.allSymbols, TypeDecl.symbols_eq, List.filterMap_append,
      List.filterMap_cons_some (f := Symbol.type?) rfl, no_type_in_methods, List.map_append, ih]
    rfl

/-- The types of a table are the named types of the files, file by file, and the ordinals of those
of one file count from zero on. -/
theorem types_ofFiles :
    ((ofFiles files).symbols.toList.filterMap Symbol.type?).map
        (fun t => (t.ordinal, t.name, t.locations)) =
      files.flatMap fun f =>
        f.typeNames.zipIdx.map fun e => (e.2, e.1.token.text, [⟨f.name, e.1.range⟩]) := by
  have all := types_allSymbols (declarations files) 0
  have each (f : SourceFile) : (Collect.file f).decls.map (fun t => (t.ordinal, t.name, [t.location])) =
      f.typeNames.zipIdx.map fun e => (e.2, e.1.token.text, [⟨f.name, e.1.range⟩]) := by
    have named := congrArg (List.map fun e => (e.1, e.2.1, [e.2.2])) (Collect.file_decls f)
    rwa [List.map_map, List.map_map] at named
  show ((TypeDecl.allSymbols 0 (declarations files)).filterMap Symbol.type?).map _ = _
  rw [all, declarations, List.flatMap_map, List.map_flatMap]
  simp only [each]

/-- The table of the symbols of files is a forest, each method and each parameter is listed by one
owner, and the types stand in it as the files declare them, those of one file numbered from zero
on. -/
theorem ofFiles_is_preorder_forest :
    (ofFiles files).Forest ∧
    (∀ m M, (ofFiles files).method? m = some M →
      ∃! ix, ∃ T, (ofFiles files).type? ix = some T ∧ m ∈ T.members) ∧
    (∀ p P, (ofFiles files).parameter? p = some P →
      ∃! ix, ∃ M, (ofFiles files).method? ix = some M ∧ p ∈ M.params) ∧
    ((ofFiles files).symbols.toList.filterMap Symbol.type?).map
        (fun t => (t.ordinal, t.name, t.locations)) =
      files.flatMap fun f =>
        f.typeNames.zipIdx.map fun e => (e.2, e.1.token.text, [⟨f.name, e.1.range⟩]) :=
  have forest := forest_ofFiles files
  ⟨forest, fun _ _ hm => forest.existsUnique_lists_method hm,
    fun _ _ hp => forest.existsUnique_lists_parameter hp, types_ofFiles files⟩

end OfFiles

end SymbolTable

end DeclFront
