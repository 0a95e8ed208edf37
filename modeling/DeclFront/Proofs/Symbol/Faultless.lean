import DeclFront.Proofs.Symbol.Forest
import DeclFront.Proofs.Symbol.Inquiry

/-!
# Symbols are bound and visited without a fault

Binding marks the parts of each symbol that are known from its declaration, and only parts that
matter may be marked. Afterwards symbols are looked up and facts about them asked for, in any order
and any number of times. Whatever the files are, none of this ends in a fault: every part that is
marked matters to its symbol, every index that the table holds is one of its own, and each question
is answered from the account of its symbol.
-/

set_option autoImplicit false

namespace DeclFront

/-! ### Binding -/

/-- What is complete about a symbol when it is bound, with each part marked that is known then. -/
def Symbol.bound : Symbol → Except Fault CompletionState
  | .type _ => ((CompletionState.new .ofType).note .members).map Prod.snd
  | .method _ => ((CompletionState.new .ofMethod).note (Parts.type.union .members)).map Prod.snd
  | .parameter p =>
    match p.form with
    | .plain => .ok (.completed .ofParameter)
    | .detailed .. => ((CompletionState.new .ofParameter).note .type).map Prod.snd

/-- What is known about the symbols of a table when all of them are bound. -/
def SymbolTable.bound (t : SymbolTable) : Except Fault Knowledge := do
  let states ← t.symbols.toList.mapM Symbol.bound
  return ⟨t, (states.map fun s => ⟨s, {}⟩).toArray⟩

/-- Binding a symbol marks parts that matter to it only, so it does not fault. -/
theorem Symbol.bound_eq (s : Symbol) : s.bound = .ok s.initialState := by
  cases s with
  | type _ => rfl
  | method _ => rfl
  | parameter p =>
    obtain ⟨_, _, _, _, _, _, _, form⟩ := p
    cases form <;> rfl

/-- Binding all symbols of a table comes to an end, and nothing has been found out then. -/
theorem SymbolTable.bound_eq (t : SymbolTable) : t.bound = .ok (.ofTable t) := by
  have each : Symbol.bound = fun s => pure s.initialState := funext Symbol.bound_eq
  unfold bound Knowledge.ofTable
  rw [each, List.mapM_pure]
  refine congrArg (fun memos => Except.ok (Knowledge.mk t memos)) ?_
  rw [List.map_map, ← Array.toList_map, Array.toArray_toList]
  rfl

/-! ### Indices -/

namespace SymbolTable

/-- The indices that a table holds. -/
inductive Mentions (t : SymbolTable) : Nat → Prop where
  | named {name : String} {ix : Nat} : (name, ix) ∈ t.types → t.Mentions ix
  | owner {ix o : Nat} {s : Symbol} : t.get? ix = some s → s.owner? = some o → t.Mentions o
  | member {ix m : Nat} {T : TypeSymbol} : t.type? ix = some T → m ∈ T.members → t.Mentions m
  | param {ix p : Nat} {M : MethodSymbol} : t.method? ix = some M → p ∈ M.params → t.Mentions p

/-- What comes behind other things starts where those end. -/
theorem placed_append {α : Type} (count : α → Nat) (ix : Nat) (as bs : List α) :
    placed count ix (as ++ bs) = placed count ix as ++ placed count (ix + (as.map count).sum) bs := by
  induction as generalizing ix with
  | nil => rfl
  | cons a as ih =>
    rw [List.cons_append, placed, placed, ih, List.map_cons, List.sum_cons, Nat.add_assoc]
    rfl

/-- A name stands for a type that was declared with it, at the index of that type. -/
theorem mem_addNames {names : List (String × Nat)} {ix : Nat} {ts : List TypeDecl}
    {e : String × Nat} (h : e ∈ (addNames names ix ts).1) :
    e ∈ names ∨ ∃ d, (d, e.2) ∈ placed TypeDecl.symbolCount ix ts ∧ d.name = e.1 := by
  induction ts generalizing names ix with
  | nil => exact .inl h
  | cons t ts ih =>
    unfold addNames at h
    rw [placed]
    split at h
    · rcases ih h with old | ⟨d, hd, name⟩
      · exact .inl old
      · exact .inr ⟨d, List.mem_cons_of_mem _ hd, name⟩
    · rcases ih h with old | ⟨d, hd, name⟩
      · rcases List.mem_append.mp old with old | new
        · exact .inl old
        · rw [List.mem_singleton.mp new]
          exact .inr ⟨t, List.mem_cons_self, rfl⟩
      · exact .inr ⟨d, List.mem_cons_of_mem _ hd, name⟩

/-- Every name in a table is that of a type that was declared, with the index of this type. -/
theorem mem_bindNames {names : List (String × Nat)} {ix : Nat} {fs : List Collect.Types}
    {e : String × Nat} (h : e ∈ (bindNames names ix fs).1) :
    e ∈ names ∨
      ∃ d, (d, e.2) ∈ placed TypeDecl.symbolCount ix (fs.flatMap (·.decls)) ∧ d.name = e.1 := by
  induction fs generalizing names ix with
  | nil => exact .inl h
  | cons f fs ih =>
    have count : f.decls.foldr (fun t n => t.symbolCount + n) 0 =
        (f.decls.map TypeDecl.symbolCount).sum := by
      rw [List.sum_eq_foldr, List.foldr_map]
    rw [List.flatMap_cons, placed_append, ← count]
    rcases ih h with here | ⟨d, hd, name⟩
    · rcases mem_addNames here with old | ⟨d, hd, name⟩
      · exact .inl old
      · exact .inr ⟨d, List.mem_append_left _ hd, name⟩
    · exact .inr ⟨d, List.mem_append_right _ hd, name⟩

/-- The index that a table has for a name is that of a type of the name. -/
theorem exists_type_of_mem_types (files : List SourceFile) {name : String} {ix : Nat}
    (h : (name, ix) ∈ (ofFiles files).types) :
    ∃ T, (ofFiles files).type? ix = some T ∧ T.name = name := by
  rcases mem_bindNames h with none | ⟨d, hd, named⟩
  · simp at none
  · refine ⟨d.symbol ix, ?_, named⟩
    rw [type?_eq_some, get?_ofFiles]
    refine .type ?_
    rwa [declarations]

/-- At an index with a symbol the look does not fault. -/
theorem get_eq_ok {t : SymbolTable} {ix : Nat} {s : Symbol} (h : t.get? ix = some s) :
    t.get ix = .ok s := by
  rw [get, h]

variable {t : SymbolTable}

/-- The owner of a symbol is in the table. -/
theorem Forest.get_owner (h : t.Forest) {ix o : Nat} {s : Symbol} (hs : t.get? ix = some s)
    (ho : s.owner? = some o) : ∃ owner, t.get o = .ok owner := by
  cases s with
  | type T => simp [Symbol.owner?] at ho
  | method M =>
    obtain ⟨-, T, hT, -⟩ := h.method ix M (method?_eq_some.mpr hs)
    rw [← Option.some.inj ho]
    exact ⟨_, get_eq_ok (type?_eq_some.mp hT)⟩
  | parameter P =>
    obtain ⟨-, M, hM, -⟩ := h.parameter ix P (parameter?_eq_some.mpr hs)
    rw [← Option.some.inj ho]
    exact ⟨_, get_eq_ok (method?_eq_some.mp hM)⟩

/-- Every index that a table holds is one of its own. -/
theorem Mentions.get (files : List SourceFile) {ix : Nat} (h : (ofFiles files).Mentions ix) :
    ∃ s, (ofFiles files).get ix = .ok s := by
  have forest := forest_ofFiles files
  cases h with
  | named hix =>
    obtain ⟨T, hT, -⟩ := exists_type_of_mem_types files hix
    exact ⟨_, get_eq_ok (type?_eq_some.mp hT)⟩
  | owner hs ho => exact forest.get_owner hs ho
  | member hT hm =>
    obtain ⟨M, hM, -⟩ := (forest.members _ _ hT).2 _ hm
    exact ⟨_, get_eq_ok (method?_eq_some.mp hM)⟩
  | param hM hp =>
    obtain ⟨P, hP, -⟩ := (forest.params _ _ hM).2 _ hp
    exact ⟨_, get_eq_ok (parameter?_eq_some.mp hP)⟩

/-! ### Lookups -/

/-- Asking for the owner of a symbol does not fault. -/
theorem Forest.ownerOf_ok (h : t.Forest) {ix : Nat} {s : Symbol} (hs : t.get? ix = some s) :
    ∃ owner, t.ownerOf ix = .ok owner := by
  unfold ownerOf
  rw [get_eq_ok hs]
  cases ho : s.owner? with
  | none => exact ⟨none, by simp only [ho, bind, Except.bind]; rfl⟩
  | some o =>
    obtain ⟨owner, found⟩ := h.get_owner hs ho
    exact ⟨some owner, by simp only [ho, found, bind, Except.bind]; rfl⟩

/-- The full name of a method can be put together, since its type is there. -/
theorem Forest.qualifiedMethod_ok (h : t.Forest) {ix : Nat} {M : MethodSymbol}
    (hM : t.method? ix = some M) : ∃ name, t.qualifiedMethod M = .ok name := by
  obtain ⟨owner, found⟩ := h.get_owner (method?_eq_some.mp hM) rfl
  exact ⟨_, by simp only [qualifiedMethod, found, bind, Except.bind]; rfl⟩

/-- So can the full name of any symbol. -/
theorem Forest.qualifiedName_ok (h : t.Forest) {ix : Nat} {s : Symbol} (hs : t.get? ix = some s) :
    ∃ name, t.qualifiedName ix = .ok name := by
  unfold qualifiedName
  rw [get_eq_ok hs]
  cases s with
  | type T => exact ⟨T.name, rfl⟩
  | method M => exact h.qualifiedMethod_ok (method?_eq_some.mpr hs)
  | parameter P =>
    obtain ⟨-, M, hM, -⟩ := h.parameter ix P (parameter?_eq_some.mpr hs)
    obtain ⟨name, named⟩ := h.qualifiedMethod_ok hM
    have owner := get_eq_ok (method?_eq_some.mp hM)
    exact ⟨_, by simp only [owner, named, bind, Except.bind]; rfl⟩

/-- A symbol of the table can be shown. -/
theorem Forest.declared_ok (h : t.Forest) {ix : Nat} {s : Symbol} (hs : t.get? ix = some s) :
    ∃ shown, t.declared s = .ok shown := by
  cases s with
  | type T => exact ⟨_, rfl⟩
  | method M =>
    obtain ⟨owner, found⟩ := h.get_owner hs rfl
    exact ⟨_, by simp only [declared, found, bind, Except.bind]; rfl⟩
  | parameter P => exact ⟨none, rfl⟩

/-- Where every step comes to an end, all of them do. -/
theorem mapM_ok {ε α β : Type} {f : α → Except ε β} {as : List α}
    (h : ∀ a ∈ as, ∃ b, f a = .ok b) : ∃ bs, as.mapM f = .ok bs := by
  induction as with
  | nil => exact ⟨[], rfl⟩
  | cons a as ih =>
    obtain ⟨b, hb⟩ := h a List.mem_cons_self
    obtain ⟨bs, hbs⟩ := ih fun c hc => h c (List.mem_cons_of_mem a hc)
    exact ⟨b :: bs, by rw [List.mapM_cons, hb, hbs]; rfl⟩

/-- All symbols of a table can be shown. -/
theorem Forest.declaredSymbols_ok (h : t.Forest) : ∃ shown, t.declaredSymbols = .ok shown := by
  obtain ⟨shown, all⟩ : ∃ shown, t.symbols.toList.mapM t.declared = .ok shown := by
    refine mapM_ok fun s hs => ?_
    obtain ⟨ix, hix⟩ := List.mem_iff_getElem?.mp hs
    rw [Array.getElem?_toList] at hix
    exact h.declared_ok hix
  exact ⟨_, by simp only [declaredSymbols, all, bind, Except.bind]; rfl⟩

end SymbolTable

/-! ### Visits -/

/-- What may be done with a table of a given size. -/
inductive Visit (size : Nat) where
  | owner (ix : Fin size)
  | qualifiedName (ix : Fin size)
  | declaredSymbols
  | ask (ix : Fin size) (q : Question)
  | completeAll

namespace Knowledge

variable {size : Nat}

/-- Whether a visit ends in a fault, and what is known then. -/
def visit (k : Knowledge) : Visit size → Except Fault Unit × Knowledge
  | .owner ix => ((k.table.ownerOf ix).map fun _ => (), k)
  | .qualifiedName ix => ((k.table.qualifiedName ix).map fun _ => (), k)
  | .declaredSymbols => (k.table.declaredSymbols.map fun _ => (), k)
  | .ask ix q =>
    match k.ask ix q with
    | none => (.ok (), k)
    | some (answer, k) => (answer.map fun _ => (), k)
  | .completeAll => k.completeAll

/-- Visits one after another, up to a fault. -/
def tour (k : Knowledge) : List (Visit size) → Except Fault Unit × Knowledge
  | [] => (.ok (), k)
  | v :: vs =>
    match k.visit v with
    | (.ok _, k) => k.tour vs
    | (.error f, k) => (.error f, k)

variable {k : Knowledge} {t : SymbolTable} {ledger : Nat → Ledger} {found : Nat → Finset Fact}
  {reported : Nat → List Diagnostic}

/-- A visit ends without a fault, and what is known stays on the ledgers. -/
theorem Stands.visit (forest : t.Forest) (accounts : Accounts t ledger reported)
    (h : k.Stands t ledger found) (v : Visit t.symbols.size) :
    ∃ k' found', k.visit v = (.ok (), k') ∧ k'.Stands t ledger found' := by
  have here (ix : Fin t.symbols.size) : t.get? ix = some t.symbols[ix] :=
    Array.getElem?_eq_getElem ix.isLt
  cases v with
  | owner ix =>
    obtain ⟨owner, ok⟩ := forest.ownerOf_ok (here ix)
    exact ⟨k, found, by rw [Knowledge.visit, h.table, ok]; rfl, h⟩
  | qualifiedName ix =>
    obtain ⟨name, ok⟩ := forest.qualifiedName_ok (here ix)
    exact ⟨k, found, by rw [Knowledge.visit, h.table, ok]; rfl, h⟩
  | declaredSymbols =>
    obtain ⟨shown, ok⟩ := forest.declaredSymbols_ok
    exact ⟨k, found, by rw [Knowledge.visit, h.table, ok]; rfl, h⟩
  | ask ix q =>
    cases asked : k.ask ix q with
    | none => exact ⟨k, found, by rw [Knowledge.visit, asked], h⟩
    | some r =>
      obtain ⟨answer, ok⟩ := h.ask_ok accounts asked
      obtain ⟨found', stands⟩ := h.inquire accounts (.ask ix q)
      rw [Knowledge.inquire, asked] at stands
      refine ⟨r.2, found', ?_, stands⟩
      rw [Knowledge.visit, asked]
      show (r.1.map fun _ => (), r.2) = _
      rw [ok]
      rfl
  | completeAll =>
    obtain ⟨k', found', completed, stands, -⟩ := h.completeAll accounts
    exact ⟨k', found', completed, stands⟩

/-- Visits one after another never fault, by induction on them: after each, what is known is on the
ledgers again. -/
theorem Stands.tour (forest : t.Forest) (accounts : Accounts t ledger reported)
    (h : k.Stands t ledger found) (vs : List (Visit t.symbols.size)) :
    (k.tour vs).1 = .ok () := by
  induction vs generalizing k found with
  | nil => rfl
  | cons v vs ih =>
    obtain ⟨k', found', visited, stands⟩ := h.visit forest accounts v
    rw [Knowledge.tour, visited]
    exact ih stands

end Knowledge

/-- Whatever the files are, their symbols are bound without a fault, every index that their table
holds is one of its own, and no sequence of lookups and questions about its symbols ends in a
fault. -/
theorem symbols_never_fault (files : List SourceFile) :
    (SymbolTable.ofFiles files).bound = .ok (Knowledge.ofFiles files) ∧
    (∀ ix, (SymbolTable.ofFiles files).Mentions ix →
      ∃ s, (SymbolTable.ofFiles files).get ix = .ok s) ∧
    ∀ visits : List (Visit (SymbolTable.ofFiles files).symbols.size),
      ((Knowledge.ofFiles files).tour visits).1 = .ok () := by
  refine ⟨SymbolTable.bound_eq _, fun ix h => h.get files, fun visits => ?_⟩
  obtain ⟨ledger, reported, accounts⟩ := SymbolTable.exists_accounts files
  exact (Knowledge.ofTable_stands accounts).tour (SymbolTable.forest_ofFiles files) accounts visits

end DeclFront
