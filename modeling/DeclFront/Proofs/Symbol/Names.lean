import DeclFront.Proofs.Symbol.Faultless

/-!
# What is found by name

Of several declarations of one name the first in the table is found: the first type of the name, in it
the first method of a name, and in that the first parameter of a name. The types that can be found are
listed in the order of the table.
-/

set_option autoImplicit false

namespace DeclFront

/-! ### Members of a list whose key is new, and those whose key was there before -/

section Keys

variable {α β : Type} (key : α → String)

/-- The members of which it is true, or those of which it is false, that their key is in `seen` or
that of an earlier member. -/
def sift (old : Bool) (seen : List String) : List α → List α
  | [] => []
  | a :: as =>
    if decide (key a ∈ seen) = old then a :: sift old (key a :: seen) as
    else sift old (key a :: seen) as

/-- The members whose key is new. -/
def firsts (seen : List String) (as : List α) : List α := sift key false seen as

/-- The members whose key was there before. -/
def repeats (seen : List String) (as : List α) : List α := sift key true seen as

variable {key} {old : Bool} {seen seen' : List String}

/-- It does not matter how often and in which order the keys were seen. -/
theorem sift_congr (same : ∀ k, k ∈ seen ↔ k ∈ seen') (as : List α) :
    sift key old seen as = sift key old seen' as := by
  induction as generalizing seen seen' with
  | nil => rfl
  | cons a as ih =>
    have next : ∀ k, k ∈ key a :: seen ↔ k ∈ key a :: seen' := by simp [same]
    rw [sift, sift, ih next]
    simp only [same]

/-- The members behind others are sifted with the keys of those in front as well. -/
theorem sift_append (seen : List String) (as bs : List α) :
    sift key old seen (as ++ bs) = sift key old seen as ++ sift key old (seen ++ as.map key) bs := by
  induction as generalizing seen with
  | nil => simp [sift]
  | cons a as ih =>
    have moved : sift key old (key a :: seen ++ as.map key) bs =
        sift key old (seen ++ (a :: as).map key) bs := by
      refine sift_congr (fun k => ?_) bs
      simp only [List.map_cons, List.mem_append, List.mem_cons]
      tauto
    rw [List.cons_append, sift, sift, ih, moved]
    split <;> rfl

/-- To sift what things are made into is to sift the things. -/
theorem sift_map {f : β → α} (seen : List String) (bs : List β) :
    sift key old seen (bs.map f) = (sift (fun b => key (f b)) old seen bs).map f := by
  induction bs generalizing seen with
  | nil => rfl
  | cons b bs ih =>
    rw [List.map_cons, sift, sift, ih]
    split <;> rfl

/-- What is sifted out keeps its order. -/
theorem sift_sublist (seen : List String) (as : List α) : (sift key old seen as).Sublist as := by
  induction as generalizing seen with
  | nil => exact .slnil
  | cons a as ih =>
    rw [sift]
    split
    · exact (ih _).cons_cons a
    · exact (ih _).cons a

/-- With the first members all keys have been seen. -/
theorem mem_keys_firsts (k : String) (seen : List String) (as : List α) :
    k ∈ seen ++ (firsts key seen as).map key ↔ k ∈ seen ++ as.map key := by
  unfold firsts
  induction as generalizing seen with
  | nil => rfl
  | cons a as ih =>
    have ih := ih (key a :: seen)
    simp only [List.mem_append, List.mem_cons, List.map_cons] at ih ⊢
    rw [sift]
    by_cases known : key a ∈ seen
    · have seen : k = key a → k ∈ seen := fun eq => eq ▸ known
      rw [if_neg (by simp [known])]
      tauto
    · rw [if_pos (by simp [known]), List.map_cons, List.mem_cons]
      tauto

/-- The first member of a key stays when later ones are left out. -/
theorem find?_firsts {k : String} (fresh : k ∉ seen) (as : List α) :
    (firsts key seen as).find? (key · = k) = as.find? (key · = k) := by
  unfold firsts
  induction as generalizing seen with
  | nil => rfl
  | cons a as ih =>
    rw [sift]
    by_cases same : key a = k
    · rw [if_pos (by simpa [same] using fresh), List.find?_cons_of_pos (by simpa using same),
        List.find?_cons_of_pos (by simpa using same)]
    · have unseen : k ∉ key a :: seen := by simp [fresh, Ne.symm same]
      have rest := ih unseen
      rw [List.find?_cons_of_neg (by simpa using same), ← rest]
      split
      · exact List.find?_cons_of_neg (by simpa using same)
      · rfl

end Keys

/-! ### The first one of a table -/

section First

variable {α β : Type} {get : Nat → Option α} {fits : α → Bool}

/-- At the index stands `a`, which fits, and before it stands nothing that fits. -/
structure FirstAt (get : Nat → Option α) (fits : α → Bool) (ix : Nat) (a : α) : Prop where
  here : get ix = some a
  fitting : fits a = true
  before : ∀ k < ix, ∀ b, get k = some b → fits b = false

/-- Among things at ascending indices, the first that fits is the one at the least index. -/
theorem find?_filterMap_eq_some_iff {ixs : List Nat} (ascending : ixs.Pairwise (· < ·)) (a : α) :
    (ixs.filterMap get).find? fits = some a ↔ ∃ ix ∈ ixs, get ix = some a ∧ fits a = true ∧
      ∀ k ∈ ixs, k < ix → ∀ b, get k = some b → fits b = false := by
  induction ixs with
  | nil => simp
  | cons i ixs ih =>
    obtain ⟨least, rest⟩ := List.pairwise_cons.mp ascending
    have ih := ih rest
    -- The first index decides if something that fits stands there.
    by_cases here : ∃ b, get i = some b ∧ fits b = true
    · obtain ⟨b, hb, fitting⟩ := here
      rw [List.filterMap_cons_some hb, List.find?_cons_of_pos fitting]
      constructor
      · rintro ⟨⟩
        refine ⟨i, List.mem_cons_self, hb, fitting, fun k hk less => ?_⟩
        rcases List.mem_cons.mp hk with rfl | hk
        · exact absurd less (Nat.lt_irrefl k)
        · exact absurd (least k hk) (Nat.lt_asymm less)
      · rintro ⟨ix, hix, ha, -, before⟩
        rcases List.mem_cons.mp hix with rfl | hix
        · exact hb.symm.trans ha
        · have not := before i List.mem_cons_self (least ix hix) b hb
          rw [fitting] at not
          cases not
    · have skipped : ((i :: ixs).filterMap get).find? fits = (ixs.filterMap get).find? fits := by
        cases hb : get i with
        | none => rw [List.filterMap_cons_none hb]
        | some b =>
          rw [List.filterMap_cons_some hb, List.find?_cons_of_neg fun fitting => here ⟨b, hb, fitting⟩]
      rw [skipped, ih]
      constructor
      · rintro ⟨ix, hix, ha, fitting, before⟩
        refine ⟨ix, List.mem_cons_of_mem _ hix, ha, fitting, fun k hk less b hb => ?_⟩
        rcases List.mem_cons.mp hk with rfl | hk
        · exact Bool.eq_false_iff.mpr fun fitting => here ⟨b, hb, fitting⟩
        · exact before k hk less b hb
      · rintro ⟨ix, hix, ha, fitting, before⟩
        rcases List.mem_cons.mp hix with rfl | hix
        · exact absurd ⟨a, ha, fitting⟩ here
        · exact ⟨ix, hix, ha, fitting, fun k hk => before k (List.mem_cons_of_mem _ hk)⟩

/-- What there is in a list is what there is at its indices. -/
theorem filterMap_eq_range (f : α → Option β) (l : List α) :
    l.filterMap f = (List.range l.length).filterMap fun i => l[i]?.bind f := by
  have indexed : (List.range l.length).map (fun i => l[i]?) = l.map some := by
    refine List.ext_getElem (by simp) fun i _ _ => ?_
    simp
  have both := congrArg (List.filterMap fun a : Option α => a.bind f) indexed
  rw [List.filterMap_map, List.filterMap_map] at both
  exact both.symm

end First

namespace SymbolTable

/-! ### How names are given out -/

/-- The reports about files that come behind files in which types are called as in `seen`. -/
def reportsBehind (seen : List String) : List Collect.Types → List Diagnostic
  | [] => []
  | f :: fs =>
    f.diagnostics ++ (repeats TypeDecl.name seen f.decls).map TypeDecl.repeatedReport ++
      reportsBehind (seen ++ f.decls.map TypeDecl.name) fs

/-- The reports depend on which names were seen, and not on their order. -/
theorem reportsBehind_congr {seen seen' : List String} (same : ∀ k, k ∈ seen ↔ k ∈ seen')
    (fs : List Collect.Types) : reportsBehind seen fs = reportsBehind seen' fs := by
  induction fs generalizing seen seen' with
  | nil => rfl
  | cons f fs ih =>
    have next : ∀ k, k ∈ seen ++ f.decls.map TypeDecl.name ↔
        k ∈ seen' ++ f.decls.map TypeDecl.name := by simp [same]
    rw [reportsBehind, reportsBehind, ih next, repeats, repeats, sift_congr same]

/-- Of types that stand one behind another, those of a new name get the name with their index, and
the others are reported. -/
theorem addNames_eq (names : List (String × Nat)) (ix : Nat) (ts : List TypeDecl) :
    addNames names ix ts =
      (names ++ (firsts (fun e => e.1.name) (names.map Prod.fst)
          (placed TypeDecl.symbolCount ix ts)).map (fun e => (e.1.name, e.2)),
        (repeats TypeDecl.name (names.map Prod.fst) ts).map TypeDecl.repeatedReport) := by
  unfold firsts repeats
  induction ts generalizing names ix with
  | nil => simp [addNames, placed, sift]
  | cons t ts ih =>
    have known : (names.any fun e => decide (e.1 = t.name)) = true ↔ t.name ∈ names.map Prod.fst := by
      simp
    rw [addNames, placed, sift, sift]
    by_cases old : t.name ∈ names.map Prod.fst
    · have same : ∀ k, k ∈ t.name :: names.map Prod.fst ↔ k ∈ names.map Prod.fst := by
        intro k
        rw [List.mem_cons, or_iff_right_of_imp]
        exact fun eq => eq ▸ old
      rw [if_pos (known.mpr old), if_neg (by simpa using old), if_pos (by simpa using old), ih,
        sift_congr same, sift_congr same, List.map_cons]
    · have same : ∀ k, k ∈ (names ++ [(t.name, ix)]).map Prod.fst ↔
          k ∈ t.name :: names.map Prod.fst := by
        intro k
        simp only [List.map_append, List.map_cons, List.map_nil, List.mem_append, List.mem_cons,
          List.not_mem_nil, or_false]
        exact or_comm
      rw [if_neg (mt known.mp old), if_pos (by simpa using old), if_neg (by simpa using old), ih,
        sift_congr same, sift_congr same, List.map_cons, List.append_assoc]
      rfl

/-- The first type of every name is entered with its index, and every other one is reported. -/
theorem bindNames_eq (names : List (String × Nat)) (ix : Nat) (fs : List Collect.Types) :
    bindNames names ix fs =
      (names ++ (firsts (fun e => e.1.name) (names.map Prod.fst)
          (placed TypeDecl.symbolCount ix (fs.flatMap (·.decls)))).map (fun e => (e.1.name, e.2)),
        reportsBehind (names.map Prod.fst) fs) := by
  induction fs generalizing names ix with
  | nil => simp [bindNames, placed, firsts, sift, reportsBehind]
  | cons f fs ih =>
    have count : f.decls.foldr (fun t n => t.symbolCount + n) 0 =
        (f.decls.map TypeDecl.symbolCount).sum := by
      rw [List.sum_eq_foldr, List.foldr_map]
    have texts : (placed TypeDecl.symbolCount ix f.decls).map (fun e => e.1.name) =
        f.decls.map TypeDecl.name := by
      have both := congrArg (List.map TypeDecl.name) (placed_fst TypeDecl.symbolCount ix f.decls)
      rwa [List.map_map] at both
    have same : ∀ k, k ∈ (addNames names ix f.decls).1.map Prod.fst ↔
        k ∈ names.map Prod.fst ++ f.decls.map TypeDecl.name := by
      intro k
      rw [addNames_eq, ← texts, ← mem_keys_firsts, List.map_append, List.map_map]
      rfl
    rw [bindNames, ih, count, reportsBehind_congr same, firsts, sift_congr same, addNames_eq,
      List.flatMap_cons, placed_append, firsts, firsts, sift_append, texts, List.map_append,
      List.append_assoc, reportsBehind]

section OfFiles

variable (files : List SourceFile)

/-- The types that are declared in files, each with the index at which it stands. -/
def placedTypes : List (TypeDecl × Nat) :=
  placed TypeDecl.symbolCount 0 (declarations files)

/-- A table has the first type of every name, with its index. -/
theorem types_eq : (ofFiles files).types =
    (firsts (fun e => e.1.name) [] (placedTypes files)).map fun e => (e.1.name, e.2) := by
  show (bindNames [] 0 (files.map Collect.file)).1 = _
  rw [bindNames_eq]
  rfl

/-- Where a type was placed it stands. -/
theorem type?_of_placed {e : TypeDecl × Nat} (h : e ∈ placedTypes files) :
    (ofFiles files).type? e.2 = some (e.1.symbol e.2) :=
  type?_eq_some.mpr ((get?_ofFiles files).mpr (.type h))

/-- The types among the symbols are the placed ones, in order. -/
theorem filterMap_type?_allSymbols (ts : List TypeDecl) (ix : Nat) :
    (TypeDecl.allSymbols ix ts).filterMap Symbol.type? =
      (placed TypeDecl.symbolCount ix ts).map fun e => e.1.symbol e.2 := by
  induction ts generalizing ix with
  | nil => rfl
  | cons t ts ih =>
    rw [TypeDecl.allSymbols, TypeDecl.symbols_eq, List.filterMap_append,
      List.filterMap_cons_some (f := Symbol.type?) rfl, no_type_in_methods, ih]
    rfl

/-- All types of a table, in its order. -/
def allTypes (t : SymbolTable) : List TypeSymbol :=
  t.symbols.toList.filterMap Symbol.type?

/-- All types of a table are the declared ones, in order. -/
theorem allTypes_eq :
    (ofFiles files).allTypes = (placedTypes files).map fun e => e.1.symbol e.2 :=
  filterMap_type?_allSymbols (declarations files) 0

/-! ### What is found -/

/-- The types that can be found are the first ones of their names. -/
theorem namedTypes_eq :
    (ofFiles files).namedTypes = firsts TypeSymbol.name [] (ofFiles files).allTypes := by
  have moved : firsts TypeSymbol.name [] (ofFiles files).allTypes =
      (firsts (fun e => e.1.name) [] (placedTypes files)).map fun e => e.1.symbol e.2 := by
    rw [allTypes_eq, firsts, sift_map]
    rfl
  rw [namedTypes, types_eq, moved, List.filterMap_map, ← List.filterMap_eq_map]
  refine List.filterMap_congr fun e he => ?_
  exact type?_of_placed files ((sift_sublist _ _).mem he)

/-- The type that a name stands for is the first of all types of the name. -/
theorem lookupType_eq (name : String) :
    (ofFiles files).lookupType name = (ofFiles files).allTypes.find? (·.name = name) := by
  have first : (firsts (fun e => e.1.name) [] (placedTypes files)).find? (·.1.name = name) =
      (placedTypes files).find? (·.1.name = name) :=
    find?_firsts List.not_mem_nil (placedTypes files)
  have left : (ofFiles files).typeIndex? name =
      ((placedTypes files).find? (·.1.name = name)).map Prod.snd := by
    rw [typeIndex?, types_eq, List.find?_map, Option.map_map, ← first]
    rfl
  have right : (ofFiles files).allTypes.find? (·.name = name) =
      ((placedTypes files).find? (·.1.name = name)).map fun e => e.1.symbol e.2 := by
    rw [allTypes_eq, List.find?_map]
    rfl
  rw [lookupType, left, right]
  cases found : (placedTypes files).find? (·.1.name = name) with
  | none => rfl
  | some e => exact type?_of_placed files (List.mem_of_find?_eq_some found)

end OfFiles

/-- The types of a table, from index to index. -/
theorem allTypes_eq_range (t : SymbolTable) :
    t.allTypes = (List.range t.symbols.size).filterMap t.type? := by
  rw [allTypes, filterMap_eq_range, Array.length_toList]
  refine List.filterMap_congr fun ix _ => ?_
  rw [Array.getElem?_toList, type?, get?]
  cases t.symbols[ix]? with
  | none => rfl
  | some s => cases s <;> rfl

variable {t : SymbolTable}

/-- A type is found at indices of the table only. -/
theorem lt_size_of_type? {ix : Nat} {T : TypeSymbol} (h : t.type? ix = some T) :
    ix < t.symbols.size :=
  (Array.getElem?_eq_some_iff.mp (type?_eq_some.mp h)).1

/-- The first type that fits is the one at the first index where one does. -/
theorem find?_allTypes_eq_some_iff {fits : TypeSymbol → Bool} {T : TypeSymbol} :
    t.allTypes.find? fits = some T ↔ ∃ ix, FirstAt t.type? fits ix T := by
  rw [allTypes_eq_range, find?_filterMap_eq_some_iff List.pairwise_lt_range]
  constructor
  · rintro ⟨ix, hix, here, fitting, before⟩
    have bound := List.mem_range.mp hix
    exact ⟨ix, here, fitting, fun k less => before k (List.mem_range.mpr (less.trans bound)) less⟩
  · rintro ⟨ix, here, fitting, before⟩
    exact ⟨ix, List.mem_range.mpr (lt_size_of_type? here), here, fitting, fun k _ => before k⟩

namespace Forest

/-- The members of a type are the methods that it owns. -/
theorem mem_members (h : t.Forest) {ix m : Nat} {T : TypeSymbol} (hT : t.type? ix = some T) :
    m ∈ T.members ↔ ∃ M, t.method? m = some M ∧ M.owner = ix := by
  refine ⟨fun hm => (h.members ix T hT).2 m hm, ?_⟩
  rintro ⟨M, hM, rfl⟩
  obtain ⟨-, U, hU, listed⟩ := h.method m M hM
  rw [hT] at hU
  rw [Option.some.inj hU]
  exact List.mem_of_getElem? listed

/-- The parameters of a method are those that it owns. -/
theorem mem_params (h : t.Forest) {ix p : Nat} {M : MethodSymbol} (hM : t.method? ix = some M) :
    p ∈ M.params ↔ ∃ P, t.parameter? p = some P ∧ P.owner = ix := by
  refine ⟨fun hp => (h.params ix M hM).2 p hp, ?_⟩
  rintro ⟨P, hP, rfl⟩
  obtain ⟨-, N, hN, listed⟩ := h.parameter p P hP
  rw [hM] at hN
  rw [Option.some.inj hN]
  exact List.mem_of_getElem? listed

end Forest

/-- Among the things that one owner lists, the first that fits is the first in the table that the
owner owns and that fits. -/
theorem find?_listed_eq_some_iff {α : Type} {get : Nat → Option α} {owner : α → Nat}
    {fits : α → Bool} {ix : Nat} {listed : List Nat} (ascending : listed.Pairwise (· < ·))
    (mem : ∀ k, k ∈ listed ↔ ∃ a, get k = some a ∧ owner a = ix) (a : α) :
    (listed.filterMap get).find? fits = some a ↔
      ∃ k, FirstAt get (fun a => owner a = ix && fits a) k a := by
  rw [find?_filterMap_eq_some_iff ascending]
  constructor
  · rintro ⟨k, hk, here, fitting, before⟩
    obtain ⟨b, hb, owned⟩ := (mem k).mp hk
    rw [here] at hb
    cases hb
    refine ⟨k, here, by simp [owned, fitting], fun j less b hb => ?_⟩
    by_cases own : owner b = ix
    · simp [before j ((mem j).mpr ⟨b, hb, own⟩) less b hb]
    · simp [own]
  · rintro ⟨k, here, fitting, before⟩
    simp only [Bool.and_eq_true, decide_eq_true_eq] at fitting
    refine ⟨k, (mem k).mpr ⟨a, here, fitting.1⟩, here, fitting.2, fun j hj less b hb => ?_⟩
    obtain ⟨c, hc, owned⟩ := (mem j).mp hj
    rw [hb] at hc
    cases hc
    simpa [owned] using before j less b hb

section OfFiles

variable (files : List SourceFile)

/-- The type that is found under a name is the first of that name. -/
theorem lookupType_eq_some_iff {name : String} {T : TypeSymbol} :
    (ofFiles files).lookupType name = some T ↔
      ∃ ix, FirstAt (ofFiles files).type? (·.name = name) ix T := by
  rw [lookupType_eq, find?_allTypes_eq_some_iff]

/-- The method that is found is the first of its name in the first type of that name. -/
theorem findMethod_eq_some_iff {type name : String} {M : MethodSymbol} :
    (ofFiles files).findMethod type name = some M ↔
      ∃ ix T, FirstAt (ofFiles files).type? (·.name = type) ix T ∧
        ∃ m, FirstAt (ofFiles files).method? (fun M => M.owner = ix && M.name = name) m M := by
  have forest := forest_ofFiles files
  have listed {ix : Nat} {T : TypeSymbol} (hT : (ofFiles files).type? ix = some T) :
      ((ofFiles files).methodsOf T).find? (·.name = name) = some M ↔ _ :=
    find?_listed_eq_some_iff (forest.members ix T hT).1 (fun _ => forest.mem_members hT) M
  unfold findMethod
  rw [Option.bind_eq_bind, Option.bind_eq_some_iff]
  constructor
  · rintro ⟨T, hT, found⟩
    obtain ⟨ix, first⟩ := (lookupType_eq_some_iff files).mp hT
    exact ⟨ix, T, first, (listed first.here).mp found⟩
  · rintro ⟨ix, T, first, found⟩
    exact ⟨T, (lookupType_eq_some_iff files).mpr ⟨ix, first⟩, (listed first.here).mpr found⟩

/-- The parameter that is found is the first of its name in the first such method of the first
such type. -/
theorem findParameter_eq_some_iff {type method name : String} {P : Parameter} :
    (ofFiles files).findParameter type method name = some P ↔
      ∃ ix T, FirstAt (ofFiles files).type? (·.name = type) ix T ∧
        ∃ m M, FirstAt (ofFiles files).method? (fun M => M.owner = ix && M.name = method) m M ∧
          ∃ p, FirstAt (ofFiles files).parameter? (fun P => P.owner = m && P.name = name) p P := by
  have forest := forest_ofFiles files
  have listed {ix : Nat} {M : MethodSymbol} (hM : (ofFiles files).method? ix = some M) :
      ((ofFiles files).parametersOf M).find? (·.name = name) = some P ↔ _ :=
    find?_listed_eq_some_iff (forest.params ix M hM).1 (fun _ => forest.mem_params hM) P
  unfold findParameter
  rw [Option.bind_eq_bind, Option.bind_eq_some_iff]
  constructor
  · rintro ⟨M, hM, found⟩
    obtain ⟨ix, T, firstType, m, first⟩ := (findMethod_eq_some_iff files).mp hM
    exact ⟨ix, T, firstType, m, M, first, (listed first.here).mp found⟩
  · rintro ⟨ix, T, firstType, m, M, first, found⟩
    exact ⟨M, (findMethod_eq_some_iff files).mpr ⟨ix, T, firstType, m, first⟩,
      (listed first.here).mpr found⟩

end OfFiles

end SymbolTable

end DeclFront
