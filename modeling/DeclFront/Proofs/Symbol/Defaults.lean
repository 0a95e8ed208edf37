import DeclFront.Proofs.Symbol.Malformed
import DeclFront.Proofs.Symbol.Replies

/-!
# Default values mean what was written

The default value that a parameter answers with is the one that its declaration means, and one that it
cannot have does not go away in silence: it is reported when the parameter is completed, unless it was
complained about when its file was read.
-/

set_option autoImplicit false

namespace DeclFront

/-- The default value that a parameter has in the end, next to its declaration and what is reported
about it. -/
structure Parameter.Defaulted (p : Parameter) (file : String) (n : Node) (value : Option Constant)
    (reported : List Diagnostic) : Prop where
  meant : p.defaultForbidden = [] → value = n.meantDefault? p.type
  stable : ∀ c, value = some c → c.convertTo p.type = some c
  written : ∀ d, n.defaultValue? = some d → value = none →
    d.literal?.bind Node.literalToken? = none ∨ ErrorAt reported ⟨file, d.range⟩
  attributed : ∀ a ∈ n.attributes, a.givesDefault → n.defaultValue?.isSome ∨ value = none →
    a.hasMalformedArguments = true ∨ ErrorAt reported ⟨file, a.range⟩

namespace Parameter

variable {p : Parameter} {file display : String} {n : Node} {v : FactValues}

/-- What is found to be wrong with a default value is reported, at the place of a written one or where
an attribute is. -/
theorem report_mem_defaultFacts {here : Location} {w : WrittenDefault} {data : ParamData} {f : Finding}
    {l : Location} (found : (f ∈ w.findings ∧ w.place = some l) ∨
      (f, l) ∈ (p.attributedDefault w.place.isSome data.defaultValue).2) :
    f.report (.symbol display) (some l) ∈ (p.defaultFacts display here w data).diagnostics := by
  refine List.mem_map.mpr ⟨(f, l), ?_, rfl⟩
  refine List.mem_append_left _ (List.mem_append.mpr (found.imp_left fun ⟨mem, place⟩ => ?_))
  rw [place]
  exact List.mem_map_of_mem mem

/-- What is found about a default value is reported where that value comes from. -/
theorem errorAt_defaultFacts {here : Location} {w : WrittenDefault} {data : ParamData} {f : Finding}
    {l : Location} (error : f.severity = .error)
    (found : (f ∈ w.findings ∧ w.place = some l) ∨
      (f, l) ∈ (p.attributedDefault w.place.isSome data.defaultValue).2) :
    ErrorAt (p.defaultFacts display here w data).diagnostics l :=
  ⟨_, report_mem_defaultFacts found, error, rfl⟩

section Computed

variable {text : List Char}

/-- A written default value is the constant of its literal, as the type takes it, for a parameter that
can have one. Else it is reported, but for a literal that is missing. -/
theorem Computes.written_value (h : p.Computes ⟨file, n⟩ display v) (kind : n.kind = .param) {d : Node}
    (found : n.defaultValue? = some d) :
    v.defaults.value.written = (if p.defaultForbidden = [] then
      (d.literal?.bind Node.constant?).bind (·.convertTo p.type) else none) ∧
    (v.defaults.value.written = none → d.literal?.bind Node.literalToken? = none ∨
      ErrorAt v.defaults.diagnostics ⟨file, d.range⟩) := by
  obtain ⟨here, w, -, written, facts⟩ := h.defaults
  rw [facts]
  rcases writtenDefault_cases kind written with ⟨unwritten, -⟩ | ⟨d', found', writes⟩
  · cases unwritten.symm.trans found
  · cases found.symm.trans found'
    refine ⟨writes.value, fun lost => (writes.told lost).imp_right ?_⟩
    rintro ⟨f, hf, error⟩
    exact errorAt_defaultFacts error (.inl ⟨hf, writes.place⟩)

/-- A parameter without a written default value gets none from what is written. -/
theorem Computes.unwritten_value (h : p.Computes ⟨file, n⟩ display v) (kind : n.kind = .param)
    (unwritten : n.defaultValue? = none) : v.defaults.value.written = none := by
  obtain ⟨here, w, -, written, facts⟩ := h.defaults
  rw [facts]
  rcases writtenDefault_cases kind written with ⟨-, rfl⟩ | ⟨d, found, -⟩
  · rfl
  · cases unwritten.symm.trans found

/-- The default value from an attribute is the argument of the first that gives one, as the type takes
it, unless one is written. Each attribute that gives one in vain is reported, but for a broken list of
arguments. -/
theorem Computes.attributed_value (h : p.Computes ⟨file, n⟩ display v) (kind : n.kind = .param)
    (held : (parse text).root.Holds n) :
    v.defaults.value.attributed = (if n.defaultValue?.isSome then none else
      (n.attributes.findSome? Node.givenDefault?).bind (·.convertTo p.type)) ∧
    ∀ a ∈ n.attributes, a.givesDefault →
      n.defaultValue?.isSome ∨ v.defaults.value.attributed = none →
        a.hasMalformedArguments = true ∨
          ErrorAt (v.attributes.diagnostics ++ v.defaults.diagnostics) ⟨file, a.range⟩ := by
  obtain ⟨here, w, -, written, facts⟩ := h.defaults
  have isWritten : w.place.isSome = n.defaultValue?.isSome := by
    rw [(writtenDefault_located kind written).1, Option.isSome_map]
  have value : v.defaults.value.attributed =
      (p.attributedDefault n.defaultValue?.isSome v.attributes.value.data.defaultValue).1 := by
    rw [facts, ← isWritten]
    rfl
  have bound := h.attributes
  rw [computeAttributes, if_pos (show (⟨file, n⟩ : TreeRef).tree.kind = .param from kind),
    TreeRef.bind_eq] at bound
  have tokens (a : Node) (ha : a ∈ n.attributes) : ∀ l ∈ a.arguments, l.literalToken?.isSome := by
    obtain ⟨child, item⟩ := List.mem_filter.mp ha
    exact fun l => Node.literalToken?_of_argument (held.child child) (of_decide_eq_true item)
  obtain ⟨given, accounted⟩ := Attributes.gives_of_bind tokens bound
  refine ⟨by rw [value, attributedDefault_value, given], fun a ha gives lost => ?_⟩
  refine (accounted a ha gives).imp_right fun reason => ?_
  rcases reason with error | ⟨c, own⟩
  · exact error.mono (List.subset_append_left _ _)
  · rw [value, own] at lost
    obtain ⟨f, told, error⟩ := attributedDefault_told lost
    refine ErrorAt.mono ?_ (List.subset_append_right _ _)
    rw [facts]
    exact errorAt_defaultFacts error (.inr (by rw [isWritten, own]; exact told))

/-- The default value that is computed from a declaration is the one that the declaration means. -/
theorem Computes.defaulted (h : p.Computes ⟨file, n⟩ display v) (kind : n.kind = .param)
    (held : (parse text).root.Holds n) :
    p.Defaulted file n (v.defaults.value.written.or v.defaults.value.attributed)
      (v.attributes.diagnostics ++ v.defaults.diagnostics) := by
  obtain ⟨attributed, told⟩ := h.attributed_value kind held
  cases found : n.defaultValue? with
  | none =>
    rw [h.unwritten_value kind found, Option.none_or]
    rw [found] at attributed told
    refine ⟨fun _ => ?_, fun c hc => ?_, fun d hd => ?_, fun a ha gives lost => ?_⟩
    · rw [attributed, Node.meantDefault?, found]
      rfl
    · rw [attributed] at hc
      obtain ⟨c', -, converted⟩ := Option.bind_eq_some_iff.mp hc
      exact Constant.convertTo_stable converted
    · cases found.symm.trans hd
    · exact told a ha gives (by rwa [found] at lost)
  | some d =>
    obtain ⟨written, reported⟩ := h.written_value kind found
    rw [found] at attributed told
    rw [attributed, if_pos (Option.isSome_some (a := d)), Option.or_none]
    refine ⟨fun free => ?_, fun c hc => ?_, fun d' hd lost => ?_, fun a ha gives _ => ?_⟩
    · rw [written, if_pos free, Node.meantDefault?, found]
    · rw [written] at hc
      split at hc
      · obtain ⟨c', -, converted⟩ := Option.bind_eq_some_iff.mp hc
        exact Constant.convertTo_stable converted
      · cases hc
    · cases found.symm.trans hd
      exact (reported lost).imp_right (.mono · (List.subset_append_right _ _))
    · exact told a ha gives (.inl rfl)

end Computed

end Parameter

/-- The parser has complained about a default value without a literal. -/
theorem exists_error_of_missing_literal {text : List Char} {n d : Node}
    (held : (parse text).root.Holds n) (written : n.defaultValue? = some d)
    (missing : d.literal?.bind Node.literalToken? = none) :
    ∃ e ∈ (parse text).errors,
      d.start ≤ e.range.start ∧ e.range.start ≤ firstLexemeFrom text d.range.stop := by
  obtain ⟨child, kind⟩ := List.mem_filter.mp (n.mem_childrenOf_of_childOf? .defaultValue written)
  refine exists_error_of_isIncomplete (held.child child) ?_
  simp only [Node.isIncomplete, of_decide_eq_true kind, missing, Option.isNone_none]

/-- The parser has complained about something in the argument list of an attribute that is marked. -/
theorem exists_error_of_marked {text : List Char} {n a : Node} (held : (parse text).root.Holds n)
    (ha : a ∈ n.attributes) (marked : a.hasMalformedArguments = true) :
    ∃ list ∈ a.argumentLists, ∃ t ∈ list.lexemes, ⟨t.range, .expectedLiteral⟩ ∈ (parse text).errors := by
  obtain ⟨child, kind⟩ := List.mem_filter.mp ha
  obtain ⟨list, hl, t, ht, -, complained⟩ :=
    exists_error_of_malformed (held.child child) (of_decide_eq_true kind) marked
  exact ⟨list, hl, t, ht, complained⟩

/-- Whatever has been asked before, a parameter with something to find out answers with the default
value that its declaration means, if it can have one: the constant behind `=`, and if there is none
the argument of an attribute, as its type takes it. Such a value is not changed by converting it once
more. A default value that is not there although it was written, and one that an attribute gives next
to a written one, is reported where it stands once the parameter is completed, unless its literal is
missing or its list of arguments is broken; then the parser has complained about that. -/
theorem default_value_is_the_one_meant (files : List SourceFile) (is : List Inquiry) (ix : Nat)
    (p : Parameter) (found : (SymbolTable.ofFiles files).get? ix = some (.parameter p))
    (complex : p.isSimple = false) :
    ∃ f n value, (declaredIn files)[ix]? = some (f, n) ∧
      (((Knowledge.ofFiles files).after is).ask ix (.param .explicitDefaultValue)).map Prod.fst =
        some (.ok (.constant value)) ∧
      (p.refKind ≠ .ref → p.refKind ≠ .out → p.caps.isVariadic = false →
        value = n.meantDefault? p.type) ∧
      (∀ c, value = some c → c.convertTo p.type = some c) ∧
      (∀ d, n.defaultValue? = some d → value = none →
        (d.literal?.bind Node.literalToken? = none ∧ ∃ e ∈ f.parsed.errors,
          d.start ≤ e.range.start ∧ e.range.start ≤ firstLexemeFrom f.text.toList d.range.stop) ∨
        ErrorAt ((((Knowledge.ofFiles files).after is).inquire
          (.ask ix .completeAll)).symbolDiagnostics ix) ⟨f.name, d.range⟩) ∧
      (∀ a ∈ n.attributes, a.givesDefault → n.defaultValue?.isSome ∨ value = none →
        (a.hasMalformedArguments = true ∧ ∃ list ∈ a.argumentLists, ∃ t ∈ list.lexemes,
          ⟨t.range, .expectedLiteral⟩ ∈ f.parsed.errors) ∨
        ErrorAt ((((Knowledge.ofFiles files).after is).inquire
          (.ask ix .completeAll)).symbolDiagnostics ix) ⟨f.name, a.range⟩) := by
  obtain ⟨f, n, declared, -, held, kind, -, ⟨plain, -⟩ | ⟨display, v, -, computes, told⟩⟩ :=
    SymbolTable.parameter_told found
  · rw [Parameter.isSimple, plain] at complex
    cases complex
  rw [f.parsed_eq] at held
  have result := computes.defaulted kind held
  refine ⟨f, n, _, declared, told.answers is (.param .explicitDefaultValue), fun ref out variadic => ?_,
    result.stable, fun d hd lost => ?_, fun a ha gives lost => ?_⟩
  · exact result.meant (Parameter.defaultForbidden_eq_nil.mpr ⟨ref, out, variadic⟩)
  · rw [told.completed, f.parsed_eq]
    exact (result.written d hd lost).imp
      (fun missing => ⟨missing, exists_error_of_missing_literal held hd missing⟩)
      (.mono · (List.subset_append_left _ _))
  · rw [told.completed, f.parsed_eq]
    exact (result.attributed a ha gives lost).imp
      (fun marked => ⟨marked, exists_error_of_marked held ha marked⟩)
      (.mono · (List.subset_append_left _ _))

/-- A number that is given a text as its default value, and a number by an attribute. -/
def Sample.textForNumber : List SourceFile :=
  [.input "a.decl" "type T \x7b fn M([DefaultParameterValue(1)] int x = \"no\"); \x7d"]

/-- A text is no default value for a number, and neither is what an attribute gives next to it. Both
are reported. -/
theorem text_for_number_is_reported :
    ∃ p f n, (SymbolTable.ofFiles Sample.textForNumber).get? 2 = some (.parameter p) ∧
      p.isSimple = false ∧ (declaredIn Sample.textForNumber)[2]? = some (f, n) ∧
      ((Knowledge.ofFiles Sample.textForNumber).ask 2 (.param .explicitDefaultValue)).map Prod.fst =
        some (.ok (.constant none)) ∧
      n.meantDefault? p.type = none ∧
      (∃ d, n.defaultValue? = some d ∧
        ErrorAt (((Knowledge.ofFiles Sample.textForNumber).inquire
          (.ask 2 .completeAll)).symbolDiagnostics 2) ⟨f.name, d.range⟩) ∧
      ∃ a ∈ n.attributes, a.givesDefault = true ∧
        ErrorAt (((Knowledge.ofFiles Sample.textForNumber).inquire
          (.ask 2 .completeAll)).symbolDiagnostics 2) ⟨f.name, a.range⟩ := by
  have shape : ((SymbolTable.ofFiles Sample.textForNumber).parameter? 2).any (fun p =>
      !p.isSimple && p.refKind = .none && !p.caps.isVariadic) = true := by
    decide +kernel
  have nodes : (declaredIn Sample.textForNumber)[2]?.all (fun x =>
      (x.2.defaultValue?.any fun d => (d.literal?.bind Node.literalToken?).isSome) &&
      x.2.attributes.any fun a => a.givesDefault && !a.hasMalformedArguments) = true := by
    decide +kernel
  have answer : ((Knowledge.ofFiles Sample.textForNumber).ask 2
      (.param .explicitDefaultValue)).map Prod.fst = some (.ok (.constant none)) := by
    decide +kernel
  obtain ⟨p, some, shape⟩ := (Option.any_eq_true _ _).mp shape
  simp only [Bool.and_eq_true, Bool.not_eq_true', decide_eq_true_eq] at shape
  obtain ⟨⟨complex, refKind⟩, variadic⟩ := shape
  have found := SymbolTable.parameter?_eq_some.mp some
  obtain ⟨f, n, value, declared, answered, meant, -, written, attributed⟩ :=
    default_value_is_the_one_meant Sample.textForNumber [] 2 p found complex
  cases answer.symm.trans answered
  rw [declared] at nodes
  simp only [Option.all_some, Bool.and_eq_true, Option.any_eq_true, List.any_eq_true,
    Bool.not_eq_true'] at nodes
  obtain ⟨⟨d, default, token⟩, a, ha, gives, wellFormed⟩ := nodes
  refine ⟨p, f, n, found, complex, declared, answer, ?_, ⟨d, default, ?_⟩, a, ha, gives, ?_⟩
  · exact (meant (by simp [refKind]) (by simp [refKind]) variadic).symm
  · refine (written d default rfl).resolve_left fun missing => ?_
    simp [missing.1] at token
  · refine (attributed a ha gives (.inr rfl)).resolve_left fun broken => ?_
    simp [broken.1] at wellFormed

end DeclFront
