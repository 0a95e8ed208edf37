import DeclFront.Proofs.Symbol.Defaults

/-!
# Parameters that cannot have a default value

A parameter that is passed by reference, or that takes any number of arguments, cannot have a default
value. This is looked at where a value is written behind an equals sign, and only there: such a value
is reported and dropped, and with it whatever an attribute gives. Without an equals sign the value of
an attribute stands as for any other parameter.
-/

set_option autoImplicit false

namespace DeclFront

/-- Why a parameter with the given modifier cannot have a default value, if it cannot. -/
def TokenKind.forbidsDefault? : TokenKind → Option Finding
  | .kwRef | .kwOut => some .defaultOnReference
  | .kwParams => some .defaultOnVariadic
  | _ => none

/-- Why the parameter that a node declares cannot have a default value, if it cannot. -/
def Node.forbidsDefault? (n : Node) : Option Finding :=
  n.modifier?.bind (·.token.kind.forbidsDefault?)

namespace Parameter

variable {p : Parameter} {file display : String} {n d : Node} {v : FactValues} {reason : Finding}

/-- What the declaration forbids is what the parameter forbids. -/
theorem ShapedBy.defaultForbidden_eq (h : p.ShapedBy n) :
    p.defaultForbidden = n.forbidsDefault?.toList := by
  unfold defaultForbidden Node.forbidsDefault?
  rw [h.refKind, h.isVariadic]
  cases n.modifier? with
  | none => rfl
  | some t =>
    obtain ⟨⟨kind, chars⟩, start⟩ := t
    cases kind <;> rfl

/-- What forbids a default value is reported where one is written. -/
theorem Computes.forbidden_reported (h : p.Computes ⟨file, n⟩ display v) (kind : n.kind = .param)
    (written : n.defaultValue? = some d) (forbids : reason ∈ p.defaultForbidden) :
    reason.report (.symbol display) (some ⟨file, d.range⟩) ∈ v.defaults.diagnostics := by
  obtain ⟨here, w, -, read, facts⟩ := h.defaults
  rw [facts]
  rcases writtenDefault_cases kind read with ⟨unwritten, -⟩ | ⟨d', found, writes⟩
  · cases unwritten.symm.trans written
  · cases written.symm.trans found
    exact report_mem_defaultFacts (.inl ⟨writes.forbidden forbids, writes.place⟩)

/-- A parameter that cannot have a default value has the one of an attribute, if none is written. -/
theorem Computes.value_of_forbidden {text : List Char} (h : p.Computes ⟨file, n⟩ display v)
    (kind : n.kind = .param) (held : (parse text).root.Holds n) (forbids : p.defaultForbidden ≠ []) :
    v.defaults.value.written.or v.defaults.value.attributed = (if n.defaultValue?.isSome then none
      else (n.attributes.findSome? Node.givenDefault?).bind (·.convertTo p.type)) := by
  rw [(h.attributed_value kind held).1]
  cases written : n.defaultValue? with
  | none => rw [h.unwritten_value kind written, Option.none_or]
  | some d => rw [(h.written_value kind written).1, if_neg forbids, Option.none_or]

end Parameter

namespace SymbolTable

variable {files : List SourceFile} {ix : Nat} {f : SourceFile} {n : Node}

/-- What a parameter declares has a symbol that is shaped like it. -/
theorem exists_parameter (declared : (declaredIn files)[ix]? = some (f, n)) (kind : n.kind = .param) :
    ∃ p, (ofFiles files).get? ix = some (.parameter p) ∧ p.ShapedBy n := by
  rcases readFrom_at files ix with ⟨-, none⟩ | ⟨s, g, m, found, declared', read⟩
  · cases none.symm.trans declared
  · cases declared.symm.trans declared'
    have declares := kind.symm.trans read.declared.kind
    cases s with
    | type t => cases declares
    | method m => cases declares
    | parameter p => exact ⟨p, found, read.shape p rfl⟩

end SymbolTable

/-- Whatever has been asked before, a parameter that is declared to be passed by reference, or to take
any number of arguments, has no default value if one is written behind an equals sign, and this is
reported where it stands once the parameter is completed. If none is written, it has the default value
that an attribute gives. An attribute that gives one in vain is reported where it stands, unless its
list of arguments is broken; then the parser has complained about that. -/
theorem forbidden_default_only_by_attribute (files : List SourceFile) (is : List Inquiry) (ix : Nat)
    (f : SourceFile) (n : Node) (reason : Finding) (declared : (declaredIn files)[ix]? = some (f, n))
    (kind : n.kind = .param) (forbids : n.forbidsDefault? = some reason) :
    ∃ p value, (SymbolTable.ofFiles files).get? ix = some (.parameter p) ∧
      (((Knowledge.ofFiles files).after is).ask ix (.param .explicitDefaultValue)).map Prod.fst =
        some (.ok (.constant value)) ∧
      value = (if n.defaultValue?.isSome then none
        else (n.attributes.findSome? Node.givenDefault?).bind (·.convertTo p.type)) ∧
      (∀ d, n.defaultValue? = some d → ∃ owner, reason.report owner (some ⟨f.name, d.range⟩) ∈
        (((Knowledge.ofFiles files).after is).inquire (.ask ix .completeAll)).symbolDiagnostics ix) ∧
      (∀ a ∈ n.attributes, a.givesDefault → n.defaultValue?.isSome ∨ value = none →
        (a.hasMalformedArguments = true ∧ ∃ list ∈ a.argumentLists, ∃ t ∈ list.lexemes,
          ⟨t.range, .expectedLiteral⟩ ∈ f.parsed.errors) ∨
        ErrorAt ((((Knowledge.ofFiles files).after is).inquire
          (.ask ix .completeAll)).symbolDiagnostics ix) ⟨f.name, a.range⟩) := by
  obtain ⟨p, found, shape⟩ := SymbolTable.exists_parameter declared kind
  have reasons : p.defaultForbidden = [reason] := by rw [shape.defaultForbidden_eq, forbids]; rfl
  obtain ⟨g, m, declared', -, held, -, by_, ⟨plain, told⟩ | ⟨display, v, -, computes, told⟩⟩ :=
    SymbolTable.parameter_told found
  · cases declared.symm.trans declared'
    have unwritten := shape.plain plain
    have unattributed : n.attributes = [] :=
      by_.plain (by simp only [Symbol.tree?, Parameter.tree?, plain])
    refine ⟨p, none, found, told.answers is (.param .explicitDefaultValue), ?_, ?_, ?_⟩
    · simp [unwritten, unattributed]
    · intro d written
      cases unwritten.symm.trans written
    · intro a ha
      rw [unattributed] at ha
      cases ha
  · cases declared.symm.trans declared'
    rw [f.parsed_eq] at held
    have value := computes.value_of_forbidden kind held (by simp [reasons])
    refine ⟨p, _, found, told.answers is (.param .explicitDefaultValue), value, fun d written => ?_,
      fun a ha gives lost => ?_⟩
    · rw [told.completed]
      have forbidden : reason ∈ p.defaultForbidden := by rw [reasons]; exact List.mem_singleton_self _
      exact ⟨_, List.mem_append_left _ (List.mem_append_right _
        (computes.forbidden_reported kind written forbidden))⟩
    · rw [told.completed, f.parsed_eq]
      exact ((computes.defaulted kind held).attributed a ha gives lost).imp
        (fun marked => ⟨marked, exists_error_of_marked held ha marked⟩)
        (.mono · (List.subset_append_left _ _))

/-- A parameter passed by reference that is given a default value in both ways. -/
def Sample.valuesForReference : List SourceFile :=
  [.input "a.decl" "type T \x7b fn M([DefaultParameterValue(1)] ref int x = 2); \x7d"]

/-- Neither value counts, and both are reported. -/
theorem values_for_reference_are_reported :
    ∃ f n d owner, ∃ a ∈ n.attributes, (declaredIn Sample.valuesForReference)[2]? = some (f, n) ∧
      n.forbidsDefault? = some .defaultOnReference ∧ n.defaultValue? = some d ∧
      ((Knowledge.ofFiles Sample.valuesForReference).ask 2
        (.param .explicitDefaultValue)).map Prod.fst = some (.ok (.constant none)) ∧
      Finding.defaultOnReference.report owner (some ⟨f.name, d.range⟩) ∈
        ((Knowledge.ofFiles Sample.valuesForReference).inquire
          (.ask 2 .completeAll)).symbolDiagnostics 2 ∧
      ErrorAt (((Knowledge.ofFiles Sample.valuesForReference).inquire
        (.ask 2 .completeAll)).symbolDiagnostics 2) ⟨f.name, a.range⟩ := by
  have shape : (declaredIn Sample.valuesForReference)[2]?.any (fun x => x.2.kind = .param &&
      x.2.forbidsDefault? = some .defaultOnReference && x.2.defaultValue?.isSome &&
      x.2.attributes.any fun a => a.givesDefault && !a.hasMalformedArguments) = true := by
    decide +kernel
  obtain ⟨⟨f, n⟩, declared, shape⟩ := (Option.any_eq_true _ _).mp shape
  simp only [Bool.and_eq_true, Bool.not_eq_true', decide_eq_true_eq, List.any_eq_true] at shape
  obtain ⟨⟨⟨kind, forbids⟩, written⟩, a, ha, gives, wellFormed⟩ := shape
  obtain ⟨d, found⟩ := Option.isSome_iff_exists.mp written
  obtain ⟨p, value, -, answer, is_value, reported, attributed⟩ :=
    forbidden_default_only_by_attribute Sample.valuesForReference [] 2 f n _ declared kind forbids
  rw [if_pos written] at is_value
  rw [is_value] at answer
  obtain ⟨owner, reported⟩ := reported d found
  refine ⟨f, n, d, owner, a, ha, declared, forbids, found, answer, reported, ?_⟩
  refine (attributed a ha gives (.inl written)).resolve_left fun broken => ?_
  simp [broken.1] at wellFormed

/-- A parameter passed by reference, and one that takes any number of arguments, with attributes that
give default values. -/
def Sample.givenAnyway : List SourceFile :=
  [.input "a.decl" ("type T \x7b fn M([DefaultParameterValue(1)] ref int x, " ++
    "[DefaultParameterValue(null)] params int[] y); \x7d")]

/-- Both have a default value, and nothing is reported. -/
theorem reference_with_default_value :
    (((SymbolTable.ofFiles Sample.givenAnyway).parameter? 2).map (·.refKind) = some .ref ∧
      ((Knowledge.ofFiles Sample.givenAnyway).ask 2 (.param .explicitDefaultValue)).map Prod.fst =
        some (.ok (.constant (some (.int 1)))) ∧
      ((Knowledge.ofFiles Sample.givenAnyway).inquire
        (.ask 2 .completeAll)).symbolDiagnostics 2 = []) ∧
    ((SymbolTable.ofFiles Sample.givenAnyway).parameter? 3).map (·.caps.isVariadic) = some true ∧
      ((Knowledge.ofFiles Sample.givenAnyway).ask 3 (.param .explicitDefaultValue)).map Prod.fst =
        some (.ok (.constant (some .null))) ∧
      ((Knowledge.ofFiles Sample.givenAnyway).inquire
        (.ask 3 .completeAll)).symbolDiagnostics 3 = [] := by
  decide +kernel

end DeclFront
