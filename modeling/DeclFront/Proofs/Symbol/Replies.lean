import DeclFront.Proofs.Symbol.Located

/-!
# What a parameter answers, and what is reported about it

The values of a parameter are computed from its declaration, once and for all. Whatever has been asked
about the symbols of some files before, each question about the parameter is answered with those
values, and when everything about it has been found out, what was reported on the way has been
published. To know what holds of the answers and the reports of a parameter is so to know what holds
of its values.
-/

set_option autoImplicit false

namespace DeclFront

namespace Knowledge

variable {t : SymbolTable} {ledger : Nat → Ledger} {reported : Nat → List Diagnostic} {ix : Nat}

/-- Any account of one symbol may stand among those of the others. -/
theorem Accounts.update (accounts : Accounts t ledger reported) {s : Symbol}
    (found : t.get? ix = some s) {l : Ledger} {rs : List Diagnostic} (account : s.Account l rs) :
    Accounts t (Function.update ledger ix l) (Function.update reported ix rs) := by
  intro j s' found'
  by_cases same : j = ix
  · rw [same] at found' ⊢
    rw [Function.update_self, Function.update_self]
    cases found.symm.trans found'
    exact account
  · rw [Function.update_of_ne same, Function.update_of_ne same]
    exact accounts j s' found'

end Knowledge

/-- The parameter at an index answers with the given values, whatever has been asked about the symbols
of the files, and once it is completed, alone or with all others, what is reported about it is
given. -/
structure Parameter.Told (p : Parameter) (files : List SourceFile) (ix : Nat) (v : FactValues)
    (reported : List Diagnostic) : Prop where
  answers : ∀ is q, (((Knowledge.ofFiles files).after is).ask ix q).map Prod.fst =
    some (.ok (p.reply v q))
  completed : ∀ is, (((Knowledge.ofFiles files).after is).inquire
    (.ask ix .completeAll)).symbolDiagnostics ix = reported
  allCompleted : ∀ is, (((Knowledge.ofFiles files).after is).inquire
    .completeAll).symbolDiagnostics ix = reported

namespace Parameter

variable {p : Parameter} {files : List SourceFile} {ix : Nat} {v : FactValues} {l : Ledger}
  {reported : List Diagnostic}

/-- Every question can be asked about a parameter. -/
theorem exists_query (p : Parameter) (q : Question) :
    ∃ query, (Symbol.parameter p).ask? q = some query := by
  cases q <;> exact ⟨_, rfl⟩

/-- A parameter that answers with some values answers with them whatever has been asked. -/
theorem Answers.told (h : p.Answers l v) (account : (Symbol.parameter p).Account l reported)
    (found : (SymbolTable.ofFiles files).get? ix = some (.parameter p)) :
    p.Told files ix v reported := by
  obtain ⟨ledger, others, accounts⟩ := SymbolTable.exists_accounts files
  have accounts := accounts.update found account
  have own : Function.update ledger ix l ix = l := Function.update_self ..
  have published : Function.update others ix reported ix = reported := Function.update_self ..
  have stands (is : List Inquiry) := (Knowledge.ofTable_stands accounts).after accounts is
  refine ⟨fun is q => ?_, fun is => ?_, fun is => ?_⟩
  · obtain ⟨known, stands⟩ := stands is
    obtain ⟨query, asked⟩ := p.exists_query q
    obtain ⟨need, told⟩ := h.asks asked
    rw [← own] at told
    obtain ⟨k, answered, -⟩ := stands.ask found asked told
    exact congrArg (Option.map Prod.fst) answered
  · obtain ⟨known, stands⟩ := stands is
    obtain ⟨need, told, finished⟩ := account.completes
    have asked : (Symbol.parameter p).ask? .completeAll =
        some ((Symbol.parameter p).completeAll >>= fun _ => pure .done) := rfl
    have done := told.map fun _ => Answer.done
    rw [← own] at done finished
    rw [← published] at finished
    obtain ⟨k, answered, stands'⟩ := stands.ask found asked done
    rw [Knowledge.inquire, Knowledge.ofFiles, answered]
    refine Eq.trans ?_ published
    refine stands'.symbolDiagnostics_eq found fun b hb => ?_
    rw [Function.update_self] at hb
    rw [← Finset.union_eq_left.mpr (Finset.subset_union_right.trans hb)]
    exact finished b
  · obtain ⟨known, stands⟩ := stands is
    obtain ⟨k, known', completed, stands', finished⟩ := stands.completeAll accounts
    have all := stands'.symbolDiagnostics_eq found (finished ix _ found)
    rw [Knowledge.inquire, Knowledge.ofFiles, completed]
    exact all.trans published

/-- A parameter that keeps its declaration answers with what is computed from it. -/
theorem Computes.told {tree : TreeRef} {display : String} (h : p.Computes tree display v)
    (form : p.form = .detailed tree display)
    (found : (SymbolTable.ofFiles files).get? ix = some (.parameter p)) :
    p.Told files ix v
      (v.attributes.diagnostics ++ v.defaults.diagnostics ++ v.modifiers.diagnostics) :=
  (h.answers form).told (h.account form) found

/-- A parameter that keeps nothing answers as one about which nothing is written. -/
theorem plain_told (form : p.form = .plain)
    (found : (SymbolTable.ofFiles files).get? ix = some (.parameter p)) :
    p.Told files ix {} [] :=
  (plain_answers form).told (plain_account form) found

end Parameter

/-- Each parameter of files is declared by a node of one of them, and it is told about, without values
if it keeps nothing of its declaration, and else with what is computed from that. -/
theorem SymbolTable.parameter_told {files : List SourceFile} {ix : Nat} {p : Parameter}
    (found : (ofFiles files).get? ix = some (.parameter p)) :
    ∃ f n, (declaredIn files)[ix]? = some (f, n) ∧ f ∈ files ∧ f.parsed.root.Holds n ∧
      n.kind = .param ∧ (Symbol.parameter p).DeclaredBy f.name n ∧
      (p.form = .plain ∧ p.Told files ix {} [] ∨
      ∃ display v, p.form = .detailed ⟨f.name, n⟩ display ∧ p.Computes ⟨f.name, n⟩ display v ∧
        p.Told files ix v
          (v.attributes.diagnostics ++ v.defaults.diagnostics ++ v.modifiers.diagnostics)) := by
  rcases declaredBy_at files ix with ⟨missing, -⟩ | ⟨s, f, n, symbol, declared, by_⟩
  · rw [found] at missing
    cases missing
  · cases found.symm.trans symbol
    obtain ⟨mem, held⟩ := mem_declaredIn (List.mem_of_getElem? declared)
    refine ⟨f, n, declared, mem, held, by_.kind, by_, ?_⟩
    cases form : p.form with
    | plain => exact .inl ⟨rfl, p.plain_told form found⟩
    | detailed tree display =>
      obtain ⟨v, computes⟩ := Parameter.Sound.computes (ofFiles_sound found) form
      obtain rfl := by_.tree tree (by simp only [Symbol.tree?, Parameter.tree?, form])
      exact .inr ⟨display, v, rfl, computes, computes.told form found⟩

end DeclFront
