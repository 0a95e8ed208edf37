import DeclFront.Proofs.Symbol.Collect
import DeclFront.Proofs.Syntax.Views

/-!
# Parameters that keep nothing

A parameter without attributes, default value and `params` answers every question at once, without
its declaration. Had it kept the declaration, the answers would be the same, with one exception: the
modifier that the type of an `in` parameter carries is known only to parameters that keep theirs.
-/

set_option autoImplicit false

namespace DeclFront

/-! ### Questions about a single symbol -/

namespace Symbol

/-- What has been found out about a symbol after some questions. -/
def memoAfter (s : Symbol) (asked : List Question) : Memo :=
  asked.foldl (fun m q => (s.ask? q).elim m fun query => (query.runOn m).2) s.initialMemo

/-- What a question is answered after some others. -/
def answerAfter (s : Symbol) (asked : List Question) (q : Question) :
    Option (Except Fault Answer) :=
  (s.ask? q).map fun query => (query.runOn (s.memoAfter asked)).1

/-- What has been reported about a symbol after some questions. -/
def diagnosticsAfter (s : Symbol) (asked : List Question) : List Diagnostic :=
  s.diagnostics (s.memoAfter asked).facts

/-- One more question goes on from what the questions before it have found out, and one that cannot
be asked changes nothing. -/
theorem memoAfter_concat (s : Symbol) (asked : List Question) (q : Question) :
    s.memoAfter (asked ++ [q]) =
      (s.ask? q).elim (s.memoAfter asked) fun query => (query.runOn (s.memoAfter asked)).2 := by
  unfold memoAfter
  rw [List.foldl_append]
  rfl

end Symbol

namespace Parameter

variable {p : Parameter} {l : Ledger} {v : FactValues}

/-- After any questions the memo is on the ledger, with a closed set of facts found out. -/
theorem Answers.memoAfter (h : p.Answers l v) (initial : l.memo ∅ = ⟨p.initialState, {}⟩)
    (asked : List Question) :
    ∃ b, Fact.Closed b ∧ (Symbol.parameter p).memoAfter asked = l.memo b := by
  induction asked using List.reverseRecOn with
  | nil => exact ⟨∅, Fact.closed_empty, initial.symm⟩
  | append_singleton asked q ih =>
    obtain ⟨b, hb, memo⟩ := ih
    rw [Symbol.memoAfter_concat, memo]
    cases possible : (Symbol.parameter p).ask? q with
    | none => exact ⟨b, hb, rfl⟩
    | some query =>
      obtain ⟨need, told⟩ := h.asks possible
      exact ⟨b ∪ need, hb.union told.closed, congrArg Prod.snd (told.answers b hb)⟩

/-- Whatever was asked before, a question is answered with the values. -/
theorem Answers.answerAfter (h : p.Answers l v) (initial : l.memo ∅ = ⟨p.initialState, {}⟩)
    (asked : List Question) (q : Question) :
    (Symbol.parameter p).answerAfter asked q = some (.ok (p.reply v q)) := by
  obtain ⟨b, hb, memo⟩ := h.memoAfter initial asked
  unfold Symbol.answerAfter
  cases possible : (Symbol.parameter p).ask? q with
  | none => cases q <;> simp [Symbol.ask?, Symbol.parameter?] at possible
  | some query =>
    obtain ⟨need, told⟩ := h.asks possible
    rw [Option.map_some, memo, told.answers b hb]

/-! ### With and without the declaration -/

/-- The same parameter, keeping its declaration whether it is needed or not. -/
def detailedOf (owner : Nat) (d : ParamDecl) : Parameter :=
  { ofDecl owner d with form := .detailed d.tree d.display }

/-- The modifiers that the type of a parameter carries, passed as it is. -/
def customOf (kind : RefKind) : List CustomModifier :=
  if kind = .in then [⟨"InAttribute", true⟩] else []

/-- A parameter whose declaration needs no detail keeps nothing of it. -/
theorem ofDecl_plain {d : ParamDecl} (h : d.caps.needsDetail = false) (owner : Nat) :
    (ofDecl owner d).form = .plain := by
  unfold ofDecl
  simp [h]

/-- Without a default value and attributes, there is neither a default value nor caller information. -/
theorem defaultFacts_empty (p : Parameter) (display : String) (here : Location) :
    p.defaultFacts display here {} {} = ⟨{}, []⟩ := by
  simp [defaultFacts, attributedDefault, callerFacts, callerOfType, callerWinner]

/-- The modifiers of a parameter that is not variadic follow from how it is passed. -/
theorem computeModifiers_of_not_variadic {p : Parameter} (h : p.caps.isVariadic = false)
    (display : String) :
    p.computeModifiers display = .ok ⟨⟨false, customOf p.refKind⟩, []⟩ := by
  unfold computeModifiers
  rw [h, if_neg (by simp)]
  rfl

/-- What would be computed for a parameter with nothing to find out. -/
theorem detailedOf_computes {d : ParamDecl} {file : String} {n : Node} (reads : d.Reads file n)
    (h : d.caps.needsDetail = false) (owner : Nat) :
    (detailedOf owner d).Computes d.tree d.display
      { modifiers := ⟨⟨false, customOf d.refKind⟩, []⟩ } := by
  unfold ParamCaps.needsDetail at h
  simp only [Bool.or_eq_false_iff] at h
  obtain ⟨⟨noAttributes, noDefault⟩, notVariadic⟩ := h
  rw [reads.hasAttributes, Bool.not_eq_false', List.isEmpty_iff] at noAttributes
  rw [reads.hasDefaultSyntax, Option.isSome_eq_false_iff, Option.isNone_iff_eq_none] at noDefault
  have attrs : d.tree.tree.attributes = [] := by
    rw [reads.tree]
    exact Node.attributes_reroot_eq_nil n noAttributes
  have default : d.tree.tree.defaultValue? = none := by
    rw [reads.tree]
    exact Node.defaultValue?_reroot_eq_none n noDefault
  refine ⟨?_, ⟨d.location, {}, rfl, ?_, (defaultFacts_empty _ _ _).symm⟩,
    computeModifiers_of_not_variadic notVariadic d.display, rfl, rfl⟩
  · unfold computeAttributes
    rw [attrs]
    split <;> rfl
  · unfold writtenDefault
    rw [default, ite_self]

section Comparison

variable {file method : String} {n : Node} {d : ParamDecl}

/-- A parameter with nothing to find out answers as one with no values does. -/
theorem ofDecl_answerAfter (h : d.caps.needsDetail = false) (owner : Nat) (asked : List Question)
    (q : Question) : (Symbol.parameter (ofDecl owner d)).answerAfter asked q =
      some (.ok ((ofDecl owner d).reply {} q)) :=
  (plain_answers (ofDecl_plain h owner)).answerAfter Ledger.blank_empty asked q

/-- A parameter that needs no detail, but keeps its declaration, finds out nothing that it could not
say without. -/
theorem detailedOf_answerAfter (reads : d.Reads file n) (h : d.caps.needsDetail = false)
    (owner : Nat) (asked : List Question) (q : Question) :
    (Symbol.parameter (detailedOf owner d)).answerAfter asked q =
      some (.ok ((detailedOf owner d).reply
        { modifiers := ⟨⟨false, customOf d.refKind⟩, []⟩ } q)) :=
  ((detailedOf_computes reads h owner).answers rfl).answerAfter Ledger.kept_empty asked q

/-- Nothing is ever reported about either. -/
theorem detailedOf_diagnosticsAfter (reads : d.Reads file n) (h : d.caps.needsDetail = false)
    (owner : Nat) (asked : List Question) :
    (Symbol.parameter (detailedOf owner d)).diagnosticsAfter asked = [] := by
  have computes := detailedOf_computes reads h owner
  obtain ⟨b, _, memo⟩ := (computes.answers rfl).memoAfter Ledger.kept_empty asked
  unfold Symbol.diagnosticsAfter
  rw [memo]
  show _ ++ _ ++ _ = []
  simp only [Ledger.memo, Ledger.kept, FactValues.shown]
  split <;> split <;> split <;> rfl

/-- Whatever is asked about a parameter that keeps nothing, nothing is reported. -/
theorem ofDecl_diagnosticsAfter (h : d.caps.needsDetail = false) (owner : Nat)
    (asked : List Question) : (Symbol.parameter (ofDecl owner d)).diagnosticsAfter asked = [] := by
  exact diagnostics_plain (ofDecl_plain h owner) _

/-- The answers agree, but for the modifiers of an `in` parameter. -/
theorem reply_eq (owner : Nat) (q : Question)
    (other : d.refKind = .in → q ≠ .param .customModifiers ∧ q ≠ .param .facts) :
    (ofDecl owner d).reply {} q =
      (detailedOf owner d).reply { modifiers := ⟨⟨false, customOf d.refKind⟩, []⟩ } q := by
  by_cases kind : d.refKind = .in
  · obtain ⟨notModifiers, notFacts⟩ := other kind
    cases q with
    | param q => cases q <;> first | rfl | exact absurd rfl notModifiers | exact absurd rfl notFacts
    | _ => rfl
  · have none : customOf d.refKind = [] := if_neg kind
    rw [none]
    cases q with
    | param q => cases q <;> rfl
    | _ => rfl

end Comparison

end Parameter

/-- A parameter without attributes, default value and `params` keeps nothing. Whatever was asked
before, all that can be asked about it is answered as if it kept its declaration, and nothing is
reported. Only the modifiers differ if it is passed as `in`, on their own and in the summary: there
are none, and with the declaration there would be one that must be understood. -/
theorem answers_without_declaration {file method : String} {n : Node} {d : ParamDecl}
    (h : d ∈ (Collect.params file method n).decls) (plain : d.caps.needsDetail = false)
    (owner : Nat) (asked asked' : List Question) :
    let simple := Symbol.parameter (.ofDecl owner d)
    let complex := Symbol.parameter (.detailedOf owner d)
    (Parameter.ofDecl owner d).isSimple = true ∧
    (∀ q, (d.refKind = .in → q ≠ .param .customModifiers ∧ q ≠ .param .facts) →
      simple.answerAfter asked q = complex.answerAfter asked' q) ∧
    (d.refKind = .in → ∃ facts : Parameter.Facts,
      simple.answerAfter asked (.param .customModifiers) = some (.ok (.customModifiers [])) ∧
      complex.answerAfter asked' (.param .customModifiers) =
        some (.ok (.customModifiers [⟨"InAttribute", true⟩])) ∧
      simple.answerAfter asked (.param .facts) =
        some (.ok (.facts { facts with customModifiers := [] })) ∧
      complex.answerAfter asked' (.param .facts) =
        some (.ok (.facts { facts with customModifiers := [⟨"InAttribute", true⟩] }))) ∧
    simple.diagnosticsAfter asked = [] ∧ complex.diagnosticsAfter asked' = [] := by
  intro simple complex
  obtain ⟨_, m, _, _, reads⟩ := Collect.mem_params h
  have first := Parameter.ofDecl_answerAfter plain owner asked
  have second := Parameter.detailedOf_answerAfter reads plain owner asked'
  refine ⟨?_, fun q other => ?_,
    fun kind => ⟨(Parameter.ofDecl owner d).factsOf {}, ?_, ?_, ?_, ?_⟩,
    Parameter.ofDecl_diagnosticsAfter plain owner asked,
    Parameter.detailedOf_diagnosticsAfter reads plain owner asked'⟩
  · unfold Parameter.isSimple
    rw [Parameter.ofDecl_plain plain owner]
  · exact (first q).trans (by rw [second, Parameter.reply_eq owner q other])
  · exact first (.param .customModifiers)
  · have custom : Parameter.customOf d.refKind = [⟨"InAttribute", true⟩] := if_pos kind
    rw [custom] at second
    exact second (.param .customModifiers)
  · exact first (.param .facts)
  · have custom : Parameter.customOf d.refKind = [⟨"InAttribute", true⟩] := if_pos kind
    rw [custom] at second
    exact second (.param .facts)

/-- A parameter that is passed as `in`, asked about null values in two histories. -/
theorem answers_without_declaration_of_in :
    ∃ n ∈ (parse "type T { fn M(in int x); }".toList).root.typeDecls.flatMap Node.methods,
      ∃ d ∈ (Collect.params "a.decl" "T.M" n).decls, d.caps.needsDetail = false ∧
        d.refKind = .in ∧
        (Symbol.parameter (.ofDecl 1 d)).answerAfter [.completeAll] (.param .flowAnnotations) =
          (Symbol.parameter (.detailedOf 1 d)).answerAfter [.attributes]
            (.param .flowAnnotations) := by
  have found :
      ∃ n ∈ (parse "type T { fn M(in int x); }".toList).root.typeDecls.flatMap Node.methods,
        ∃ d ∈ (Collect.params "a.decl" "T.M" n).decls,
          d.caps.needsDetail = false ∧ d.refKind = .in := by
    decide +kernel
  obtain ⟨n, hn, d, hd, plain, kind⟩ := found
  have agree := (answers_without_declaration hd plain 1 [.completeAll] [.attributes]).2.1
  exact ⟨n, hn, d, hd, plain, kind, agree (.param .flowAnnotations) fun _ => ⟨by decide, by decide⟩⟩

/-- The parameter of `fn M(in int x);` answers without modifiers; with its declaration there is one. -/
theorem in_parameter_answers_differ :
    ∃ n ∈ (parse "type T { fn M(in int x); }".toList).root.typeDecls.flatMap Node.methods,
      ∃ d ∈ (Collect.params "a.decl" "T.M" n).decls, d.caps.needsDetail = false ∧
        (Symbol.parameter (.ofDecl 1 d)).answerAfter [] (.param .customModifiers) ≠
          (Symbol.parameter (.detailedOf 1 d)).answerAfter [] (.param .customModifiers) := by
  decide +kernel

end DeclFront
