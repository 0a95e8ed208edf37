import DeclFront.Proofs.Symbol.Defaults

/-!
# What a parameter asks for about its caller

A parameter that is given its caller's place is meant to have a default value, since the caller leaves
the argument out. It does have an equals sign. What stands behind that may still give no value, and
then the parameter is reported for it and keeps what it asks for.
-/

set_option autoImplicit false

namespace DeclFront

namespace Parameter

variable {p : Parameter} {file display : String} {n : Node} {v : FactValues}

/-- Without a default value written with an equals sign, nothing is asked for. -/
theorem callerFacts_unwritten (c : CallerInfo) : (p.callerFacts false c).1 = {} := by
  unfold callerFacts
  by_cases nothing : c = {}
  · rw [if_neg fun some => some.1 nothing, nothing]
    rfl
  · rw [if_pos ⟨nothing, rfl⟩]
    rfl

/-- Where a fact about the caller is left in the end, a default value is written. -/
theorem Computes.written_of_caller (h : p.Computes ⟨file, n⟩ display v) (kind : n.kind = .param)
    (asks : v.defaults.value.caller ≠ {}) : ∃ d, n.defaultValue? = some d := by
  obtain ⟨here, w, -, written, facts⟩ := h.defaults
  rcases writtenDefault_cases kind written with ⟨-, rfl⟩ | ⟨d, found, -⟩
  · refine absurd ?_ asks
    rw [facts]
    exact callerFacts_unwritten _
  · exact ⟨d, found⟩

end Parameter

/-- Whatever has been asked before, a parameter that asks for something about its caller has a default
value written with an equals sign. If it has no default value for all that, this is reported where
the written one stands once the parameter is completed, unless the literal is missing; then the
parser has complained about that. -/
theorem caller_info_needs_written_default (files : List SourceFile) (is : List Inquiry) (ix : Nat)
    (p : Parameter) (found : (SymbolTable.ofFiles files).get? ix = some (.parameter p)) :
    ∃ f n, ∃ (caller : CallerInfo) (value : Option Constant), (declaredIn files)[ix]? = some (f, n) ∧
      (((Knowledge.ofFiles files).after is).ask ix (.param .isCallerFilePath)).map Prod.fst =
        some (.ok (.bool caller.filePath)) ∧
      (((Knowledge.ofFiles files).after is).ask ix (.param .isCallerLineNumber)).map Prod.fst =
        some (.ok (.bool caller.lineNumber)) ∧
      (((Knowledge.ofFiles files).after is).ask ix (.param .isCallerMemberName)).map Prod.fst =
        some (.ok (.bool caller.memberName)) ∧
      (((Knowledge.ofFiles files).after is).ask ix (.param .hasDefaultValue)).map Prod.fst =
        some (.ok (.bool value.isSome)) ∧
      (caller ≠ {} → ∃ d, n.defaultValue? = some d ∧
        (value = none →
          (d.literal?.bind Node.literalToken? = none ∧ ∃ e ∈ f.parsed.errors,
            d.start ≤ e.range.start ∧ e.range.start ≤ firstLexemeFrom f.text.toList d.range.stop) ∨
          ErrorAt ((((Knowledge.ofFiles files).after is).inquire
            (.ask ix .completeAll)).symbolDiagnostics ix) ⟨f.name, d.range⟩)) := by
  obtain ⟨f, n, declared, -, held, kind, -, ⟨-, told⟩ | ⟨display, v, -, computes, told⟩⟩ :=
    SymbolTable.parameter_told found
  · exact ⟨f, n, {}, none, declared, told.answers is _, told.answers is _, told.answers is _,
      told.answers is _, fun asks => absurd rfl asks⟩
  · rw [f.parsed_eq] at held
    refine ⟨f, n, v.defaults.value.caller, v.defaults.value.written.or v.defaults.value.attributed,
      declared, told.answers is _, told.answers is _, told.answers is _, told.answers is _,
      fun asks => ?_⟩
    obtain ⟨d, found⟩ := computes.written_of_caller kind asks
    refine ⟨d, found, fun lost => ?_⟩
    rw [told.completed, f.parsed_eq]
    exact ((computes.defaulted kind held).written d found lost).imp
      (fun missing => ⟨missing, exists_error_of_missing_literal held found missing⟩)
      (.mono · (List.subset_append_left _ _))

/-- A text as the default value of a number, which is asked for as a line number. -/
def Sample.textForLine : List SourceFile :=
  [.input "a.decl" "type T \x7b fn M([CallerLineNumber] int x = \"no\"); \x7d"]

/-- A line number is asked for, and the text behind the equals sign is reported. -/
theorem text_for_line_is_reported :
    ∃ p f n d, (SymbolTable.ofFiles Sample.textForLine).get? 2 = some (.parameter p) ∧
      ((Knowledge.ofFiles Sample.textForLine).ask 2 (.param .isCallerLineNumber)).map Prod.fst =
        some (.ok (.bool true)) ∧
      (declaredIn Sample.textForLine)[2]? = some (f, n) ∧ n.defaultValue? = some d ∧
      ErrorAt (((Knowledge.ofFiles Sample.textForLine).inquire
        (.ask 2 .completeAll)).symbolDiagnostics 2) ⟨f.name, d.range⟩ := by
  have listed : ((SymbolTable.ofFiles Sample.textForLine).parameter? 2).isSome = true := by
    decide +kernel
  have literal : (declaredIn Sample.textForLine)[2]?.all (fun x =>
      x.2.defaultValue?.all fun d => (d.literal?.bind Node.literalToken?).isSome) = true := by
    decide +kernel
  have line : ((Knowledge.ofFiles Sample.textForLine).ask 2 (.param .isCallerLineNumber)).map
      Prod.fst = some (.ok (.bool true)) := by
    decide +kernel
  have lost : ((Knowledge.ofFiles Sample.textForLine).ask 2 (.param .hasDefaultValue)).map
      Prod.fst = some (.ok (.bool false)) := by
    decide +kernel
  obtain ⟨p, some⟩ := Option.isSome_iff_exists.mp listed
  have found := SymbolTable.parameter?_eq_some.mp some
  obtain ⟨f, n, caller, value, declared, -, lineNumber, -, hasDefault, needs⟩ :=
    caller_info_needs_written_default Sample.textForLine [] 2 p found
  have asks : caller ≠ {} := by
    rintro rfl
    cases line.symm.trans lineNumber
  have missing : value = none := by
    cases value with
    | none => rfl
    | some c => cases lost.symm.trans hasDefault
  obtain ⟨d, written, reported⟩ := needs asks
  rw [declared, Option.all_some, written, Option.all_some] at literal
  refine ⟨p, f, n, d, found, line, declared, written, (reported missing).resolve_left fun none => ?_⟩
  simp [none.1] at literal

/-- A parameter asks for a line number, and has no default value. -/
theorem caller_line_without_default_value :
    ((Knowledge.ofFiles Sample.textForLine).ask 2 (.param .isCallerLineNumber)).map Prod.fst =
        some (.ok (.bool true)) ∧
      ((Knowledge.ofFiles Sample.textForLine).ask 2 (.param .hasDefaultValue)).map Prod.fst =
        some (.ok (.bool false)) := by
  decide +kernel

end DeclFront
