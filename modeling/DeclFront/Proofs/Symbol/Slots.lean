import DeclFront.Proofs.Symbol.Inquiry
import DeclFront.Proofs.Symbol.Plain

/-!
# What is complete is what the slots hold

The completion state of a symbol and the slots for its facts are kept apart, and each query changes
them one after the other. They agree whenever no query is under way: the parts of a parameter that are
complete are its type and those of the facts whose slots are filled. Only a parameter that keeps
nothing, and a type or a method without attributes, has parts that are complete without a slot.

What is known about one symbol does not depend on what was asked about others, so that it is enough to
follow the questions about one.
-/

set_option autoImplicit false

namespace DeclFront

/-! ### One symbol among others -/

/-- The question about the symbol at an index that is part of an inquiry. -/
def Inquiry.about (ix : Nat) : Inquiry → Option Question
  | .ask j q => if j = ix then some q else none
  | .completeAll => some .completeAll

namespace Symbol

/-- To complete everything goes on from what was found out before. -/
theorem memoAfter_completeAll (s : Symbol) (asked : List Question) :
    s.memoAfter (asked ++ [.completeAll]) = (s.completeAll.runOn (s.memoAfter asked)).2 := by
  rw [memoAfter_concat]
  show ((s.completeAll >>= fun _ => pure Answer.done).runOn _).2 = _
  rw [Action.runOn_bind]
  rcases s.completeAll.runOn (s.memoAfter asked) with ⟨_ | _, _⟩ <;> rfl

end Symbol

namespace Knowledge

variable {k : Knowledge} {t : SymbolTable} {ledger : Nat → Ledger} {found : Nat → Finset Fact}
  {reported : Nat → List Diagnostic} {ix : Nat} {s : Symbol}

/-- A query about a symbol goes on from what is known about it. -/
theorem memo_query {α : Type} (bound : ix < k.memos.size) (q : Query α) :
    (k.query ix q).2.memo ix = (q.runOn (k.memo ix)).2 := by
  unfold query memo
  rw [Array.getElem?_setIfInBounds_self_of_lt bound]
  rfl

/-- A query about one symbol finds out nothing about another. -/
theorem memo_query_of_ne {α : Type} {j : Nat} (other : j ≠ ix) (q : Query α) :
    (k.query j q).2.memo ix = k.memo ix := by
  unfold query memo
  rw [Array.getElem?_setIfInBounds_ne other]

/-- A query makes no symbol. -/
theorem size_query {α : Type} (j : Nat) (q : Query α) :
    (k.query j q).2.memos.size = k.memos.size :=
  Array.size_setIfInBounds

/-- To complete some symbols finds out nothing about the others. -/
theorem memo_completeFrom_of_notMem {rest : List (Nat × Symbol)}
    (absent : ix ∉ rest.map Prod.fst) : (k.completeFrom rest).2.memo ix = k.memo ix := by
  induction rest generalizing k with
  | nil => rfl
  | cons p rest ih =>
    obtain ⟨j, s⟩ := p
    rw [List.map_cons, List.mem_cons, not_or] at absent
    have unmoved := memo_query_of_ne (k := k) (Ne.symm absent.1) s.completeAll
    rw [completeFrom]
    split
    · rename_i next answered
      rw [ih absent.2, ← unmoved, answered]
    · rename_i next answered
      rw [← unmoved, answered]

/-- Of the symbols that are completed one after another, each is completed once. -/
theorem memo_completeFrom {rest : List (Nat × Symbol)} (bound : ix < k.memos.size)
    (distinct : (rest.map Prod.fst).Nodup) (listed : (ix, s) ∈ rest)
    (completed : (k.completeFrom rest).1 = .ok ()) :
    (k.completeFrom rest).2.memo ix = (s.completeAll.runOn (k.memo ix)).2 := by
  induction rest generalizing k with
  | nil => cases listed
  | cons p rest ih =>
    obtain ⟨j, s'⟩ := p
    obtain ⟨fresh, distinct⟩ := List.nodup_cons.mp distinct
    rw [completeFrom] at completed ⊢
    split at completed
    · rename_i next answered
      have left : next = (k.query j s'.completeAll).2 := by rw [answered]
      -- Each index has one turn: this symbol has it now, or another has and leaves this one alone.
      rcases List.mem_cons.mp listed with here | later
      · cases here
        rw [memo_completeFrom_of_notMem fresh, left, memo_query bound]
      · have listed : ix ∈ rest.map Prod.fst := List.mem_map.mpr ⟨_, later, rfl⟩
        have other : j ≠ ix := fun same => fresh (same ▸ listed)
        rw [ih (by rwa [left, size_query]) distinct later completed, left, memo_query_of_ne other]
    · cases completed

/-- A question that can be asked changes the memo of its symbol, and one that cannot changes nothing. -/
theorem inquire_ask (k : Knowledge) (j : Nat) (q : Question) :
    k.inquire (.ask j q) =
      ((k.table.get? j).bind (·.ask? q)).elim k fun query => (k.query j query).2 := by
  show (((k.table.get? j).bind fun s => (s.ask? q).bind fun query =>
    some (k.query j query)).elim k Prod.snd) = _
  cases k.table.get? j with
  | none => rfl
  | some s =>
    show ((s.ask? q).bind fun query => some (k.query j query)).elim k Prod.snd = (s.ask? q).elim k _
    cases s.ask? q <;> rfl

/-- What an inquiry changes about a symbol is what its question about that symbol does. -/
theorem Stands.memo_inquire (accounts : Accounts t ledger reported) (h : k.Stands t ledger found)
    (here : t.get? ix = some s) (i : Inquiry) {asked : List Question}
    (known : k.memo ix = s.memoAfter asked) :
    (k.inquire i).memo ix = s.memoAfter (asked ++ (i.about ix).toList) := by
  have bound : ix < k.memos.size := h.size ▸ lt_of_get? here
  cases i with
  | completeAll =>
    -- No fault comes in between, so every symbol has its turn.
    obtain ⟨k', found', completed, -⟩ := h.completeAll accounts
    have distinct : (k.indexed.map Prod.fst).Nodup := k.map_fst_indexed ▸ List.nodup_range
    have listed : (ix, s) ∈ k.indexed := mem_indexed_of_get? (h.table ▸ here)
    show k.completeAll.2.memo ix = s.memoAfter (asked ++ [.completeAll])
    rw [s.memoAfter_completeAll, ← known]
    exact memo_completeFrom bound distinct listed (congrArg Prod.fst completed)
  | ask j q =>
    rw [inquire_ask, h.table]
    by_cases same : j = ix
    · subst same
      have about : (Inquiry.ask j q).about j = some q := if_pos rfl
      rw [about, here, Option.toList_some, s.memoAfter_concat, ← known]
      show Knowledge.memo ((s.ask? q).elim k _) j = _
      cases s.ask? q with
      | none => rfl
      | some query => exact memo_query bound query
    · have about : (Inquiry.ask j q).about ix = none := if_neg same
      rw [about, Option.toList_none, List.append_nil, ← known]
      cases (t.get? j).bind (·.ask? q) with
      | none => rfl
      | some query => exact memo_query_of_ne same query

/-- What is known about a symbol after some inquiries is what is known about it after the questions
about it alone. -/
theorem memo_after {files : List SourceFile} (here : (SymbolTable.ofFiles files).get? ix = some s)
    (is : List Inquiry) :
    ((ofFiles files).after is).memo ix = s.memoAfter (is.filterMap (Inquiry.about ix)) := by
  obtain ⟨ledger, reported, accounts⟩ := SymbolTable.exists_accounts files
  have start := ofTable_stands accounts
  induction is using List.reverseRecOn with
  | nil =>
    show (ofTable _).memo ix = s.initialMemo
    rw [start.memos ix (lt_of_get? here), ← (accounts ix s here).initial]
  | append_singleton is i ih =>
    obtain ⟨found, stands⟩ := start.after accounts is
    have step := stands.memo_inquire accounts here i ih
    have next : (ofFiles files).after (is ++ [i]) = ((ofFiles files).after is).inquire i :=
      List.foldl_append
    have about : (is ++ [i]).filterMap (Inquiry.about ix) =
        is.filterMap (Inquiry.about ix) ++ (i.about ix).toList := by
      rw [List.filterMap_append]
      cases asks : i.about ix <;> simp [asks]
    rw [next, about]
    exact step

end Knowledge

/-! ### What the slots say -/

namespace SymbolFacts

/-- Is the slot of a fact filled? -/
def holds (f : SymbolFacts) : Fact → Bool
  | .attributes => f.attributes.isSome
  | .defaults => f.defaults.isSome
  | .modifiers => f.modifiers.isSome
  | .flow => f.flow.isSome
  | .marshalling => f.marshalling.isSome

/-- The facts whose slots are filled. -/
def filled (f : SymbolFacts) : Finset Fact :=
  Finset.univ.filter fun fact => f.holds fact = true

/-- What the filled slots hold of reports: attributes, then the default value, then modifiers. -/
def reports (f : SymbolFacts) : List Diagnostic :=
  f.attributes.elim [] (·.diagnostics) ++ f.defaults.elim [] (·.diagnostics)
    ++ f.modifiers.elim [] (·.diagnostics)

/-- In the beginning no slot is filled. -/
theorem filled_empty : filled {} = ∅ := by decide

end SymbolFacts

/-- The filled slots are those of the facts that have been found out. -/
theorem FactValues.filled_shown (v : FactValues) (b : Finset Fact) : (v.shown b).filled = b := by
  ext f
  unfold SymbolFacts.filled
  rw [Finset.mem_filter_univ]
  cases f <;> simp only [SymbolFacts.holds, shown] <;> split <;> simp [*]

/-- Must the attributes of a type or method be found out for a question? -/
def Question.asksAttributes : Question → Bool
  | .attributes | .has _ | .completeAll => true
  | .param _ => false

/-- Must the attributes of the type or method at an index be found out for an inquiry? -/
def Inquiry.asksAttributes (ix : Nat) (i : Inquiry) : Bool :=
  (i.about ix).any Question.asksAttributes

/-- The parts of a symbol that are complete, by its slots. Without slots to go by there are the parts
that are complete from the start, and the attributes of a type or method once they were asked for. -/
def Symbol.completeParts (s : Symbol) (asked : Bool) (f : SymbolFacts) : Parts :=
  let attributes := if asked then Parts.attributes else .none
  match s with
  | type _ => Parts.members.union attributes
  | method _ => (Parts.type.union .members).union attributes
  | parameter p =>
    match p.form with
    | .plain => .ofParameter
    | .detailed .. => Parts.type.union (.ofFacts f.filled)

/-- The completion state and the reports of a symbol are those that its slots give. -/
structure Symbol.Mirrors (s : Symbol) (asked : Bool) (m : Memo) : Prop where
  done : m.state.done = s.completeParts asked m.facts
  closed : Fact.Closed m.facts.filled
  reports : s.diagnostics m.facts = m.facts.reports

/-! ### Types and methods -/

/-- Whether a fact has been found out or not, what it needs has been found out with it. -/
theorem Fact.closed_ite_needs (f : Fact) (found : Bool) : Closed (if found then f.needs else ∅) := by
  cases found
  · exact closed_empty
  · exact closed_needs f

section Attributes

variable {s : Symbol} {l : Ledger} {bag : AttributesBag}

/-- A question about a symbol that is no parameter asks for its attributes. -/
theorem Ledger.Tells.asks (told : l.Tells s.attributes Fact.attributes.needs bag)
    (completeAll : s.completeAll = do let _ ← s.attributes) (other : s.parameter? = none)
    {q : Question} {query : Query Answer} (asked : s.ask? q = some query) :
    q.asksAttributes = true ∧ ∃ x, l.Tells query Fact.attributes.needs x := by
  cases q with
  | attributes =>
    rw [← Option.some.inj asked]
    exact ⟨rfl, _, told.map Answer.bag⟩
  | has attr =>
    rw [← Option.some.inj asked]
    exact ⟨rfl, _, told.map fun bag => Answer.bool (bag.has attr)⟩
  | completeAll =>
    rw [← Option.some.inj asked, completeAll]
    exact ⟨rfl, _, (told.map fun _ => ()).map fun _ => Answer.done⟩
  | param q =>
    rw [Symbol.ask?, other] at asked
    simp at asked

/-- What has been found out about a symbol that is no parameter, by whether its attributes were asked
for. -/
theorem Ledger.Tells.memoAfter (told : l.Tells s.attributes Fact.attributes.needs bag)
    (completeAll : s.completeAll = do let _ ← s.attributes) (other : s.parameter? = none)
    (initial : l.memo ∅ = s.initialMemo) (asked : List Question) :
    s.memoAfter asked =
      l.memo (if asked.any Question.asksAttributes then Fact.attributes.needs else ∅) := by
  induction asked using List.reverseRecOn with
  | nil => exact initial.symm
  | append_singleton asked q ih =>
    rw [s.memoAfter_concat, List.any_append, ih]
    cases possible : s.ask? q with
    | none =>
      have unasked : q.asksAttributes = false := by
        cases q with
        | param q => rfl
        | _ => simp [Symbol.ask?] at possible
      simp [unasked]
    | some query =>
      obtain ⟨asks, x, told⟩ := told.asks completeAll other possible
      show (query.runOn _).2 = _
      rw [told.answers _ (Fact.closed_ite_needs _ _)]
      cases asked.any Question.asksAttributes <;> simp [asks]

end Attributes

/-- A symbol about which nothing but its attributes is found out. -/
theorem DeclAttributes.Sound.mirrors {a : DeclAttributes} (h : a.Sound) {s : Symbol}
    (attributes : s.attributes = a.query)
    (completeAll : s.completeAll = do let _ ← s.attributes)
    (diagnostics : ∀ f, s.diagnostics f = f.attributes.elim [] (·.diagnostics))
    (other : s.parameter? = none)
    (relevant : s.initialState.relevant.contains Fact.attributes.part = true)
    (parts : ∀ asked f, s.completeParts asked f =
      s.initialState.done.union (if asked then .attributes else .none)) (asked : List Question) :
    s.Mirrors (asked.any Question.asksAttributes) (s.memoAfter asked) := by
  obtain ⟨l, c, state, empty, -, told, facts, -⟩ := h.query_told relevant
  have initial : l.memo ∅ = s.initialMemo := by
    unfold Ledger.memo Symbol.initialMemo
    rw [state, empty, s.initialState.having_empty]
  rw [← attributes] at told
  rw [told.memoAfter completeAll other initial]
  generalize asked.any Question.asksAttributes = found
  refine ⟨?_, ?_, ?_⟩
  · rw [parts]
    unfold Ledger.memo
    rw [state]
    cases found <;> rfl
  · show Fact.Closed (l.facts _).filled
    rcases facts (if found then Fact.attributes.needs else ∅) with nothing | shown
    · rw [nothing, SymbolFacts.filled_empty]
      exact Fact.closed_empty
    · rw [shown, FactValues.filled_shown]
      exact Fact.closed_ite_needs _ _
  · rw [diagnostics]
    show (l.facts _).attributes.elim [] _ = (l.facts _).reports
    rcases facts (if found then Fact.attributes.needs else ∅) with nothing | shown
    · rw [nothing]
      rfl
    · rw [shown]
      cases found <;> simp [SymbolFacts.reports, FactValues.shown, Fact.needs]

/-! ### Parameters -/

namespace Parameter

variable {p : Parameter}

/-- A parameter that keeps nothing has all parts from the start, and its slots stay empty. -/
theorem plain_mirrors (form : p.form = .plain) (found : Bool) (asked : List Question) :
    (Symbol.parameter p).Mirrors found ((Symbol.parameter p).memoAfter asked) := by
  obtain ⟨b, -, memo⟩ := (plain_answers form).memoAfter Ledger.blank_empty asked
  have state : p.initialState = .completed .ofParameter := by
    unfold initialState
    rw [form]
  rw [memo]
  refine ⟨?_, ?_, ?_⟩
  · have parts : (Symbol.parameter p).completeParts found {} = .ofParameter := by
      simp only [Symbol.completeParts, form]
    show (p.initialState.having b).done = (Symbol.parameter p).completeParts found {}
    rw [parts, state]
    exact Parts.ofParameter_union_ofFacts b
  · show Fact.Closed (SymbolFacts.filled {})
    rw [SymbolFacts.filled_empty]
    exact Fact.closed_empty
  · exact diagnostics_plain form {}

/-- A parameter that keeps its declaration has its type and what its slots are filled with. -/
theorem Computes.mirrors {tree : TreeRef} {display : String} {v : FactValues}
    (h : p.Computes tree display v) (form : p.form = .detailed tree display) (found : Bool)
    (asked : List Question) :
    (Symbol.parameter p).Mirrors found ((Symbol.parameter p).memoAfter asked) := by
  obtain ⟨b, closed, memo⟩ := (h.answers form).memoAfter Ledger.kept_empty asked
  have state : p.initialState = (CompletionState.new .ofParameter).marked .type := by
    unfold initialState
    rw [form]
  rw [memo]
  refine ⟨?_, ?_, ?_⟩
  · have parts : (Symbol.parameter p).completeParts found (v.shown b) =
        Parts.type.union (.ofFacts b) := by
      simp only [Symbol.completeParts, form, FactValues.filled_shown]
    show (p.initialState.having b).done = (Symbol.parameter p).completeParts found (v.shown b)
    rw [parts, state]
    rfl
  · show Fact.Closed (v.shown b).filled
    rw [FactValues.filled_shown]
    exact closed
  · show p.diagnostics (v.shown b) = (v.shown b).reports
    unfold diagnostics
    rw [form]
    rfl

/-- The completion state of a parameter says what its slots do, whatever has been asked. -/
theorem Sound.mirrors (h : p.Sound) (found : Bool) (asked : List Question) :
    (Symbol.parameter p).Mirrors found ((Symbol.parameter p).memoAfter asked) := by
  cases form : p.form with
  | plain => exact plain_mirrors form found asked
  | detailed tree display =>
    obtain ⟨v, computes⟩ := h.computes form
    exact computes.mirrors form found asked

end Parameter

/-! ### All symbols -/

/-- The completion state of every symbol says what its slots do: a type or a method has its
attributes as its only slot. -/
theorem Symbol.Sound.mirrors {s : Symbol} (h : s.Sound) (asked : List Question) :
    s.Mirrors (asked.any Question.asksAttributes) (s.memoAfter asked) := by
  cases s with
  | type t =>
    have relevant : Parts.ofType.contains Fact.attributes.part = true := by decide
    exact DeclAttributes.Sound.mirrors (s := .type t) h rfl rfl (fun _ => rfl) rfl relevant
      (fun _ _ => rfl) asked
  | method m =>
    have relevant : Parts.ofMethod.contains Fact.attributes.part = true := by decide
    exact DeclAttributes.Sound.mirrors (s := .method m) h rfl rfl (fun _ => rfl) rfl relevant
      (fun _ _ => rfl) asked
  | parameter p => exact Parameter.Sound.mirrors h _ asked

/-- Whatever was asked of the symbols of files, the completion state of each agrees with its slots. A
parameter that keeps nothing has all parts of a parameter, and one that keeps its declaration has its
type and the parts of the facts whose slots are filled, the attributes among them if the default value,
null values or marshalling were found out. A type has its members and a method its type and members,
and either has its attributes if they were asked for. What has been reported about a symbol is what
its filled slots hold, attributes first, then the default value, then modifiers. -/
theorem completion_mirrors_slots (files : List SourceFile) (is : List Inquiry) {ix : Nat} {s : Symbol}
    (here : (SymbolTable.ofFiles files).get? ix = some s) :
    let k := (Knowledge.ofFiles files).after is
    let facts := (k.memo ix).facts
    (k.memo ix).state.done = s.completeParts (is.any (Inquiry.asksAttributes ix)) facts ∧
    (∀ f ∈ [Fact.defaults, .flow, .marshalling], f ∈ facts.filled → .attributes ∈ facts.filled) ∧
    k.symbolDiagnostics ix = facts.reports := by
  intro k facts
  have memo : k.memo ix = s.memoAfter (is.filterMap (Inquiry.about ix)) := Knowledge.memo_after here is
  have asked : (is.filterMap (Inquiry.about ix)).any Question.asksAttributes =
      is.any (Inquiry.asksAttributes ix) := by
    rw [List.any_filterMap]
    refine List.any_congr rfl fun i => ?_
    unfold Inquiry.asksAttributes
    cases i.about ix <;> rfl
  have mirrors := (SymbolTable.ofFiles_sound here).mirrors (is.filterMap (Inquiry.about ix))
  rw [← memo, asked] at mirrors
  have table : k.table = SymbolTable.ofFiles files := by
    obtain ⟨ledger, reported, accounts⟩ := SymbolTable.exists_accounts files
    obtain ⟨found, stands⟩ := (Knowledge.ofTable_stands accounts).after accounts is
    exact stands.table
  have needed : ∀ f ∈ [Fact.defaults, .flow, .marshalling], Fact.attributes ∈ f.needs := by decide
  refine ⟨mirrors.done, fun f dependent filled => ?_, ?_⟩
  · exact mirrors.closed f filled (needed f dependent)
  · unfold Knowledge.symbolDiagnostics
    rw [table, here]
    exact mirrors.reports

/-- A parameter with an attribute twice, and a default value. -/
def Sample.twiceOptional : List SourceFile :=
  [.input "a.decl" "type T \x7b fn M([Optional] [Optional] int x = 1); \x7d"]

/-- Null values were asked about, so that the attributes are known and were complained about, and the
default value is not known. -/
theorem optional_twice_mirrors_slots :
    ∃ s, (SymbolTable.ofFiles Sample.twiceOptional).get? 2 = some s ∧
      let k := (Knowledge.ofFiles Sample.twiceOptional).after [.ask 2 (.param .flowAnnotations)]
      let facts := (k.memo 2).facts
      facts.filled = {.attributes, .flow} ∧ facts.reports ≠ [] ∧
      (k.memo 2).state.done = s.completeParts false facts ∧ k.symbolDiagnostics 2 = facts.reports := by
  have listed : ((SymbolTable.ofFiles Sample.twiceOptional).get? 2).isSome = true := by
    decide +kernel
  have found : (((Knowledge.ofFiles Sample.twiceOptional).after
      [.ask 2 (.param .flowAnnotations)]).memo 2).facts.filled = {.attributes, .flow} ∧
      (((Knowledge.ofFiles Sample.twiceOptional).after
        [.ask 2 (.param .flowAnnotations)]).memo 2).facts.reports ≠ [] := by
    decide +kernel
  obtain ⟨s, here⟩ := Option.isSome_iff_exists.mp listed
  obtain ⟨done, -, reports⟩ :=
    completion_mirrors_slots Sample.twiceOptional [.ask 2 (.param .flowAnnotations)] here
  exact ⟨s, here, found.1, found.2, done, reports⟩

end DeclFront
