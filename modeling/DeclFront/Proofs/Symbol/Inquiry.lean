import DeclFront.Proofs.Symbol.Collect
import DeclFront.Symbol.Knowledge
import Mathlib.Data.List.Flatten

/-!
# The order of questions does not matter

Whatever is asked about the symbols of a table, what is known about each stays on its account, with
more and more facts found out. So every question has one answer, whatever was asked before; when
everything has been completed, everything is known and the same diagnostics have been reported; and
what has been reported before that is a part of it in the same order.
-/

set_option autoImplicit false

namespace DeclFront

/-- What can be asked of a table: a question about one symbol, or everything about all of them. -/
inductive Inquiry where
  | ask (ix : Nat) (q : Question)
  | completeAll

namespace Knowledge

/-- What is known after an inquiry. A question that cannot be asked changes nothing. -/
def inquire (k : Knowledge) : Inquiry → Knowledge
  | .ask ix q => (k.ask ix q).elim k Prod.snd
  | .completeAll => k.completeAll.2

/-- What is known after some inquiries. -/
def after (k : Knowledge) (is : List Inquiry) : Knowledge :=
  is.foldl inquire k

/-- What is known about each symbol is on its ledger, with the given facts found out. -/
structure Stands (k : Knowledge) (t : SymbolTable) (ledger : Nat → Ledger)
    (found : Nat → Finset Fact) : Prop where
  table : k.table = t
  size : k.memos.size = t.symbols.size
  closed : ∀ ix, Fact.Closed (found ix)
  memos : ∀ ix < t.symbols.size, k.memo ix = (ledger ix).memo (found ix)

/-- Each symbol of a table has an account. -/
def Accounts (t : SymbolTable) (ledger : Nat → Ledger) (reported : Nat → List Diagnostic) : Prop :=
  ∀ ix s, t.get? ix = some s → s.Account (ledger ix) (reported ix)

variable {k : Knowledge} {t : SymbolTable} {ledger : Nat → Ledger} {found : Nat → Finset Fact}
  {reported : Nat → List Diagnostic}

/-- A symbol is found at indices of the table only. -/
theorem lt_of_get? {ix : Nat} {s : Symbol} (h : t.get? ix = some s) : ix < t.symbols.size :=
  (Array.getElem?_eq_some_iff.mp h).1

/-- In the beginning nothing has been found out. -/
theorem ofTable_stands (accounts : Accounts t ledger reported) :
    (ofTable t).Stands t ledger fun _ => ∅ := by
  refine ⟨rfl, Array.size_map, fun _ => Fact.closed_empty, fun ix bound => ?_⟩
  have hs : t.get? ix = some t.symbols[ix] := Array.getElem?_eq_getElem bound
  rw [(accounts ix _ hs).initial]
  unfold memo ofTable
  rw [Array.getElem?_map, Array.getElem?_eq_getElem bound]
  rfl

/-- A query about a symbol answers what it tells, and finds out what it needs. -/
theorem Stands.query (h : k.Stands t ledger found) {α : Type} {ix : Nat} {q : Query α}
    {need : Finset Fact} {x : α} (bound : ix < t.symbols.size)
    (told : (ledger ix).Tells q need x) :
    ∃ k', k.query ix q = (.ok x, k') ∧
      k'.Stands t ledger (Function.update found ix (found ix ∪ need)) := by
  have answer := told.answers (found ix) (h.closed ix)
  rw [← h.memos ix bound] at answer
  refine ⟨⟨k.table, k.memos.setIfInBounds ix ((ledger ix).memo (found ix ∪ need))⟩,
    by rw [Knowledge.query, answer], h.table, by simp [h.size], fun j => ?_, fun j hj => ?_⟩
  · by_cases same : j = ix
    · rw [same, Function.update_self]
      exact (h.closed ix).union told.closed
    · rw [Function.update_of_ne same]
      exact h.closed j
  · by_cases same : j = ix
    · have inside : ix < k.memos.size := by
        rw [h.size]
        exact bound
      rw [same, Function.update_self, memo, Array.getElem?_setIfInBounds_self_of_lt inside]
      rfl
    · rw [Function.update_of_ne same, memo, Array.getElem?_setIfInBounds_ne (Ne.symm same)]
      exact h.memos j hj

/-- Everything is complete and reported, and stays so. -/
def Finished (s : Symbol) (l : Ledger) (reported : List Diagnostic) (b : Finset Fact) : Prop :=
  ∀ b', b ⊆ b' → (l.state b').isFullyComplete = true ∧ s.diagnostics (l.facts b') = reported

/-- Everything is found out about symbols one after another. -/
theorem Stands.completeFrom (accounts : Accounts t ledger reported) (h : k.Stands t ledger found)
    {rest : List (Nat × Symbol)} (all : ∀ p ∈ rest, t.get? p.1 = some p.2) :
    ∃ k' found', k.completeFrom rest = (.ok (), k') ∧ k'.Stands t ledger found' ∧
      (∀ ix, found ix ⊆ found' ix) ∧
      ∀ p ∈ rest, Finished p.2 (ledger p.1) (reported p.1) (found' p.1) := by
  induction rest generalizing k found with
  | nil => exact ⟨k, found, rfl, h, fun _ => Finset.Subset.refl _, by simp⟩
  | cons p rest ih =>
    obtain ⟨ix, s⟩ := p
    have hs := all (ix, s) List.mem_cons_self
    obtain ⟨need, told, complete⟩ := (accounts ix s hs).completes
    obtain ⟨k₁, asked, stands₁⟩ := h.query (lt_of_get? hs) told
    obtain ⟨k₂, found₂, completed, stands₂, more, others⟩ :=
      ih stands₁ fun p hp => all p (List.mem_cons_of_mem _ hp)
    have here : found ix ∪ need ⊆ found₂ ix := by
      have first := more ix
      rwa [Function.update_self] at first
    refine ⟨k₂, found₂, ?_, stands₂, fun j => ?_, fun p hp => ?_⟩
    · rw [Knowledge.completeFrom, asked]
      exact completed
    · by_cases same : j = ix
      · rw [same]
        exact Finset.subset_union_left.trans here
      · have step := more j
        rwa [Function.update_of_ne same] at step
    · rcases List.mem_cons.mp hp with rfl | hp
      · intro b hb
        have enough : b ∪ need = b :=
          Finset.union_eq_left.mpr ((Finset.subset_union_right.trans here).trans hb)
        have done := complete b
        rwa [enough] at done
      · exact others p hp

/-! ### All symbols -/

/-- The symbols have the indices from zero on. -/
theorem map_fst_indexed (k : Knowledge) :
    k.indexed.map Prod.fst = List.range k.table.symbols.size :=
  List.map_fst_zip (by simp)

/-- A symbol with its index is found there. -/
theorem mem_indexed {p : Nat × Symbol} (h : p ∈ k.indexed) : k.table.get? p.1 = some p.2 := by
  obtain ⟨j, hj⟩ := List.mem_iff_getElem?.mp h
  obtain ⟨index, symbol⟩ := List.getElem?_zip_eq_some.mp hj
  have same : p.1 = j := by
    obtain ⟨bound, value⟩ := List.getElem?_eq_some_iff.mp index
    rw [← value, List.getElem_range]
  rw [same, SymbolTable.get?, ← Array.getElem?_toList]
  exact symbol

/-- A symbol that is found at an index has that index. -/
theorem mem_indexed_of_get? {ix : Nat} {s : Symbol} (h : k.table.get? ix = some s) :
    (ix, s) ∈ k.indexed := by
  have symbol : k.table.symbols.toList[ix]? = some s := by
    rw [Array.getElem?_toList]
    exact h
  have index : (List.range k.table.symbols.size)[ix]? = some ix :=
    List.getElem?_range (lt_of_get? h)
  exact List.mem_of_getElem? (List.getElem?_zip_eq_some.mpr ⟨index, symbol⟩)

/-- Everything is found out about all symbols. -/
theorem Stands.completeAll (accounts : Accounts t ledger reported) (h : k.Stands t ledger found) :
    ∃ k' found', k.completeAll = (.ok (), k') ∧ k'.Stands t ledger found' ∧
      ∀ ix s, t.get? ix = some s → Finished s (ledger ix) (reported ix) (found' ix) := by
  have all : ∀ p ∈ k.indexed, t.get? p.1 = some p.2 := by
    intro p hp
    rw [← h.table]
    exact mem_indexed hp
  obtain ⟨k', found', completed, stands, _, finished⟩ := h.completeFrom accounts all
  refine ⟨k', found', completed, stands, fun ix s hs => finished (ix, s) (mem_indexed_of_get? ?_)⟩
  rw [h.table]
  exact hs

/-- A question that can be asked is answered with what its query tells. -/
theorem Stands.ask (h : k.Stands t ledger found) {ix : Nat} {s : Symbol} {q : Question}
    {query : Query Answer} {need : Finset Fact} {x : Answer} (hs : t.get? ix = some s)
    (asked : s.ask? q = some query) (told : (ledger ix).Tells query need x) :
    ∃ k', k.ask ix q = some (.ok x, k') ∧
      k'.Stands t ledger (Function.update found ix (found ix ∪ need)) := by
  obtain ⟨k', answered, stands⟩ := h.query (lt_of_get? hs) told
  refine ⟨k', ?_, stands⟩
  unfold Knowledge.ask
  rw [h.table, hs]
  show (s.ask? q).bind (fun query => some (k.query ix query)) = _
  rw [asked]
  exact congrArg some answered

/-- A question that cannot be asked about a symbol, or about no symbol. -/
theorem Stands.ask_none (h : k.Stands t ledger found) {ix : Nat} {q : Question}
    (impossible : ¬ ∃ s query, t.get? ix = some s ∧ s.ask? q = some query) : k.ask ix q = none := by
  unfold Knowledge.ask
  rw [h.table]
  cases hs : t.get? ix with
  | none => rfl
  | some s =>
    have unasked : s.ask? q = none := by
      rw [Option.eq_none_iff_forall_ne_some]
      exact fun query asked => impossible ⟨s, query, hs, asked⟩
    show (s.ask? q).bind (fun query => some (k.query ix query)) = none
    rw [unasked]
    rfl

/-- No question ends in a fault. -/
theorem Stands.ask_ok (accounts : Accounts t ledger reported) (h : k.Stands t ledger found)
    {ix : Nat} {q : Question} {r : Except Fault Answer × Knowledge} (hr : k.ask ix q = some r) :
    ∃ answer, r.1 = .ok answer := by
  by_cases possible : ∃ s query, t.get? ix = some s ∧ s.ask? q = some query
  · obtain ⟨s, query, hs, asked⟩ := possible
    obtain ⟨need, x, told⟩ := (accounts ix s hs).asks q query asked
    obtain ⟨k', answered, _⟩ := h.ask hs asked told
    rw [answered] at hr
    rw [← Option.some.inj hr]
    exact ⟨x, rfl⟩
  · rw [h.ask_none possible] at hr
    simp at hr

/-- A question has the same answer, whatever was found out before. -/
theorem Stands.ask_eq (accounts : Accounts t ledger reported) (h : k.Stands t ledger found)
    {k' : Knowledge} {found' : Nat → Finset Fact} (h' : k'.Stands t ledger found') (ix : Nat)
    (q : Question) : (k.ask ix q).map Prod.fst = (k'.ask ix q).map Prod.fst := by
  by_cases possible : ∃ s query, t.get? ix = some s ∧ s.ask? q = some query
  · obtain ⟨s, query, hs, asked⟩ := possible
    obtain ⟨need, x, told⟩ := (accounts ix s hs).asks q query asked
    obtain ⟨_, answered, _⟩ := h.ask hs asked told
    obtain ⟨_, answered', _⟩ := h'.ask hs asked told
    rw [answered, answered']
    rfl
  · rw [h.ask_none possible, h'.ask_none possible]

/-- After an inquiry what is known is on the ledgers, with more found out. -/
theorem Stands.inquire (accounts : Accounts t ledger reported) (h : k.Stands t ledger found)
    (i : Inquiry) : ∃ found', (k.inquire i).Stands t ledger found' := by
  cases i with
  | completeAll =>
    obtain ⟨k', found', completed, stands, _⟩ := h.completeAll accounts
    refine ⟨found', ?_⟩
    rw [Knowledge.inquire, completed]
    exact stands
  | ask ix q =>
    by_cases possible : ∃ s query, t.get? ix = some s ∧ s.ask? q = some query
    · obtain ⟨s, query, hs, asked⟩ := possible
      obtain ⟨need, x, told⟩ := (accounts ix s hs).asks q query asked
      obtain ⟨k', answered, stands⟩ := h.ask hs asked told
      refine ⟨Function.update found ix (found ix ∪ need), ?_⟩
      rw [Knowledge.inquire, answered]
      exact stands
    · refine ⟨found, ?_⟩
      rw [Knowledge.inquire, h.ask_none possible]
      exact h

/-- So it is after any number of inquiries, by induction on them. -/
theorem Stands.after (accounts : Accounts t ledger reported) (h : k.Stands t ledger found)
    (is : List Inquiry) : ∃ found', (k.after is).Stands t ledger found' := by
  induction is generalizing k found with
  | nil => exact ⟨found, h⟩
  | cons i is ih =>
    obtain ⟨found', stands⟩ := h.inquire accounts i
    exact ih stands

/-! ### What has been reported -/

/-- The diagnostics are those of binding, and behind them those of the symbols in order. -/
theorem Stands.diagnostics_eq (h : k.Stands t ledger found) :
    k.diagnostics = t.diagnostics ++ (List.range t.symbols.size).flatMap k.symbolDiagnostics := by
  unfold diagnostics
  rw [← h.table, ← k.map_fst_indexed, List.flatMap_map]

/-- What has been reported about a symbol so far is part of what is reported in the end. -/
theorem Stands.symbolDiagnostics_sublist (accounts : Accounts t ledger reported)
    (h : k.Stands t ledger found) {ix : Nat} (bound : ix < t.symbols.size) :
    (k.symbolDiagnostics ix).Sublist (reported ix) := by
  have hs : t.get? ix = some t.symbols[ix] := Array.getElem?_eq_getElem bound
  have account := accounts ix _ hs
  unfold symbolDiagnostics
  rw [h.table, hs, h.memos ix bound]
  exact account.reports (found ix)

/-- When everything about a symbol has been found out, all of it has been reported. -/
theorem Stands.symbolDiagnostics_eq (h : k.Stands t ledger found) {ix : Nat} {s : Symbol}
    (hs : t.get? ix = some s) (finished : Finished s (ledger ix) (reported ix) (found ix)) :
    k.symbolDiagnostics ix = reported ix := by
  unfold symbolDiagnostics
  rw [h.table, hs, h.memos ix (lt_of_get? hs)]
  exact (finished (found ix) (Finset.Subset.refl _)).2

/-- All reports so far are part of those in the end, in the same order. -/
theorem Stands.diagnostics_sublist (accounts : Accounts t ledger reported)
    (h : k.Stands t ledger found) :
    k.diagnostics.Sublist
      (t.diagnostics ++ (List.range t.symbols.size).flatMap reported) := by
  rw [h.diagnostics_eq]
  refine (List.Sublist.refl _).append (List.Sublist.flatMap_right _ fun ix hix => ?_)
  exact h.symbolDiagnostics_sublist accounts (List.mem_range.mp hix)

/-- When everything has been found out about all symbols, all reports have been made. -/
theorem Stands.diagnostics_of_finished (h : k.Stands t ledger found)
    (finished : ∀ ix s, t.get? ix = some s → Finished s (ledger ix) (reported ix) (found ix)) :
    k.diagnostics = t.diagnostics ++ (List.range t.symbols.size).flatMap reported := by
  rw [h.diagnostics_eq]
  congr 1
  refine List.flatMap_congr fun ix hix => ?_
  obtain ⟨s, hs⟩ : ∃ s, t.get? ix = some s :=
    ⟨_, Array.getElem?_eq_getElem (List.mem_range.mp hix)⟩
  exact h.symbolDiagnostics_eq hs (finished ix s hs)

end Knowledge

/-- The symbols of any files have their accounts, as all of them are sound. -/
theorem SymbolTable.exists_accounts (files : List SourceFile) :
    ∃ ledger reported, Knowledge.Accounts (SymbolTable.ofFiles files) ledger reported := by
  have each : ∀ ix, ∃ l r, ∀ s, (SymbolTable.ofFiles files).get? ix = some s → s.Account l r := by
    intro ix
    cases hs : (SymbolTable.ofFiles files).get? ix with
    | none => exact ⟨⟨fun _ => .new .none, fun _ => {}⟩, [], by simp⟩
    | some s =>
      obtain ⟨l, r, account⟩ := (SymbolTable.ofFiles_sound hs).account
      refine ⟨l, r, fun s' hs' => ?_⟩
      rw [← Option.some.inj hs']
      exact account
  choose ledger reported accounts using each
  exact ⟨ledger, reported, fun ix s hs => accounts ix s hs⟩

/-- Whatever was asked before, a question has the same answer, which is never a fault. When
everything is completed, the same has been reported and every symbol is fully complete, and what is
reported at any moment is a part of that in the same order. -/
theorem answers_do_not_depend_on_history (files : List SourceFile) (is js : List Inquiry) :
    let k := (Knowledge.ofFiles files).after is
    let k' := (Knowledge.ofFiles files).after js
    (∀ ix q, (k.ask ix q).map Prod.fst = (k'.ask ix q).map Prod.fst) ∧
    (∀ ix q r, k.ask ix q = some r → ∃ answer, r.1 = .ok answer) ∧
    k.completeAll.1 = .ok () ∧
    k.completeAll.2.diagnostics = k'.completeAll.2.diagnostics ∧
    (∀ ix < (SymbolTable.ofFiles files).symbols.size,
      (k.completeAll.2.memo ix).state.isFullyComplete = true) ∧
    k.diagnostics.Sublist k'.completeAll.2.diagnostics := by
  intro k k'
  obtain ⟨ledger, reported, accounts⟩ := SymbolTable.exists_accounts files
  obtain ⟨found, stands⟩ : ∃ found, k.Stands (SymbolTable.ofFiles files) ledger found :=
    (Knowledge.ofTable_stands accounts).after accounts is
  obtain ⟨found', stands'⟩ : ∃ found, k'.Stands (SymbolTable.ofFiles files) ledger found :=
    (Knowledge.ofTable_stands accounts).after accounts js
  obtain ⟨all, foundAll, completed, standsAll, finished⟩ := stands.completeAll accounts
  obtain ⟨all', foundAll', completed', standsAll', finished'⟩ := stands'.completeAll accounts
  have final := standsAll'.diagnostics_of_finished finished'
  rw [completed, completed']
  refine ⟨stands.ask_eq accounts stands', fun ix q r => stands.ask_ok accounts, rfl, ?_,
    fun ix bound => ?_, ?_⟩
  · exact (standsAll.diagnostics_of_finished finished).trans final.symm
  · obtain ⟨s, hs⟩ : ∃ s, (SymbolTable.ofFiles files).get? ix = some s :=
      ⟨_, Array.getElem?_eq_getElem bound⟩
    rw [standsAll.memos ix bound]
    exact (finished ix s hs _ (Finset.Subset.refl _)).1
  · rw [final]
    exact stands.diagnostics_sublist accounts

end DeclFront
