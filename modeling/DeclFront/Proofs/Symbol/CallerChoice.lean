import DeclFront.Proofs.Symbol.CallerFacts
import DeclFront.Proofs.Symbol.Forbidden
import DeclFront.Proofs.Symbol.Recorded

/-!
# One fact about the caller is chosen

A parameter with a written default value can ask for three facts about its caller, by attributes of any
number and order of which some may be broken, and its type need not take what it is given for them.
Whatever the attributes are, the fact that counts is the first in a fixed order among those that are
asked for and that the type takes, and for each one that is asked for in vain a single report says why.
-/

set_option autoImplicit false

namespace DeclFront

namespace Parameter

open CallerFact

variable {p : Parameter} {fact : CallerFact}

/-! ### Where nothing is found about facts in vain -/

section Unrelated

variable {t : ParamType} {token : Token} {r : Option Constant × List Finding} {w : WrittenDefault}

/-- What is wrong with a literal is no fact in vain. -/
theorem literalDefault_unrelated (read : literalDefault t token = .ok r) :
    ∀ f ∈ r.2, f.isVainFact = false := by
  unfold literalDefault at read
  cases decoded : Constant.ofToken token with
  | error fault => simp [decoded, Except.map] at read
  | ok result =>
    rw [decoded] at read
    cases result with
    | error problem =>
      cases read
      exact List.forall_mem_singleton.mpr rfl
    | ok value =>
      simp only [Except.map, Except.ok.injEq] at read
      subst read
      split
      · exact List.forall_mem_nil _
      · exact List.forall_mem_singleton.mpr rfl

/-- That a parameter cannot have a default value is no fact in vain. -/
theorem defaultForbidden_unrelated (p : Parameter) : ∀ f ∈ p.defaultForbidden, f.isVainFact = false := by
  intro f hf
  simp only [defaultForbidden, List.mem_append, List.mem_ite_nil_right, List.mem_singleton] at hf
  rcases hf with ⟨-, rfl⟩ | ⟨-, rfl⟩ <;> rfl

/-- Nothing that is found about a written default value is a fact in vain. -/
theorem writtenDefault_unrelated {tree : TreeRef} (h : p.writtenDefault tree = .ok w) :
    ∀ f ∈ w.findings, f.isVainFact = false := by
  have withForbidden {fs : List Finding} (own : ∀ f ∈ fs, f.isVainFact = false) :
      ∀ f ∈ fs ++ p.defaultForbidden, f.isVainFact = false :=
    List.forall_mem_append.mpr ⟨own, p.defaultForbidden_unrelated⟩
  unfold writtenDefault at h
  dsimp only at h
  split at h
  · cases h
    exact List.forall_mem_nil _
  · split at h
    · cases h
      exact withForbidden (List.forall_mem_nil _)
    · rename_i literal _
      simp only [Bind.bind, Except.bind, pure, Except.pure] at h
      cases read : literalDefault p.type literal.token with
      | error fault => simp [read] at h
      | ok r =>
        rw [read] at h
        cases h
        exact withForbidden (literalDefault_unrelated read)

/-- Nothing that is found about a default value from an attribute is a fact in vain. -/
theorem attributedDefault_unrelated (p : Parameter) (written : Bool)
    (given : Option (Constant × Location)) :
    ∀ f ∈ (p.attributedDefault written given).2, f.1.isVainFact = false := by
  unfold attributedDefault
  cases given with
  | none => exact List.forall_mem_nil _
  | some g =>
    cases written with
    | true => simp [Finding.isVainFact]
    | false => cases converted : g.1.convertTo p.type <;> simp [converted, Finding.isVainFact]

/-- Reports about modifiers explain no fact in vain. -/
theorem computeModifiers_unrelated {display : String} {m : Completed ModifierFacts}
    (h : p.computeModifiers display = .ok m) :
    m.diagnostics.filter (fact.isExplainedBy t) = [] := by
  unfold computeModifiers at h
  dsimp only at h
  split at h
  · cases place : p.here with
    | error fault => simp [place, Except.map] at h
    | ok here =>
      rw [place] at h
      cases h
      exact List.filter_cons_of_neg (by rw [isExplainedBy_other rfl]; exact Bool.false_ne_true)
  · cases h
    rfl

end Unrelated

end Parameter

/-! ### The attributes that ask for facts -/

/-- Of what is found about other things, no report explains that a fact is missing. -/
theorem filter_unrelated {fact : CallerFact} {t : ParamType} {fs : List (Finding × Location)}
    (unrelated : ∀ f ∈ fs, f.1.isVainFact = false) (s : DiagnosticSource) :
    (fs.map fun f => f.1.report s (some f.2)).filter (fact.isExplainedBy t) = [] := by
  refine List.filter_eq_nil_iff.mpr fun d hd explained => ?_
  obtain ⟨f, hf, rfl⟩ := List.mem_map.mp hd
  rw [CallerFact.isExplainedBy_other (unrelated f hf)] at explained
  cases explained

namespace Attributes

variable {place : Range → Location} {b c : Binding} {attr : Node} {seen : List WellKnown}
  {data : ParamData} {name : String} {args : Arguments} {location : Location} {e : Effect}

/-- An attribute that cannot be used because of its argument takes one. -/
theorem arity_ne_zero_of_invalid {wk : WellKnown} {values : List Constant}
    (invalid : data.add wk values location = .ok none) : wk.arity ≠ 0 := by
  cases wk <;> first | exact Nat.one_ne_zero | cases invalid

/-- A mark without arguments is in the data if it counts as used, and that stays so. -/
theorem holds_of_effect {target : AttributeTarget}
    (effects : effect target seen data name args location = .ok e) {wk : WellKnown}
    (plain : wk.arity = 0) (before : data.holds wk = true ↔ wk ∈ seen) :
    e.data.holds wk = true ↔ wk ∈ e.seen := by
  cases effect_outcome effects with
  | unknown _ => exact before
  | silent _ _ => exact before
  | refused _ _ => exact before
  | @invalid wk' _ _ added =>
    have other : wk ≠ wk' := by
      rintro rfl
      exact arity_ne_zero_of_invalid added plain
    rw [before, List.mem_cons, or_iff_right other]
  | used _ _ added =>
    rw [(added_of_add added).holds, Bool.or_eq_true_iff, decide_eq_true_iff, before, List.mem_cons,
      eq_comm]

/-- Nothing that is found about an attribute is a fact in vain. -/
theorem effect_unrelated {target : AttributeTarget}
    (effects : effect target seen data name args location = .ok e) :
    ∀ f ∈ e.findings, f.isVainFact = false := by
  cases effect_outcome effects with
  | unknown _ => exact List.forall_mem_nil _
  | silent _ _ => exact List.forall_mem_nil _
  | refused _ verdict =>
    cases judge_judged verdict with
    | refused _ refusal =>
      refine List.forall_mem_singleton.mpr ?_
      cases refusal <;> rfl
  | invalid _ _ _ => exact List.forall_mem_singleton.mpr rfl
  | used _ _ _ => exact List.forall_mem_nil _

/-- The marks in the data are those that count as used, and nothing was found about facts in vain. -/
structure Binding.Marks (b : Binding) : Prop where
  holds : ∀ wk : WellKnown, wk.arity = 0 → (b.bag.data.holds wk = true ↔ wk ∈ b.seen)
  unrelated : ∀ f ∈ b.findings, f.1.isVainFact = false

/-- One more attribute leaves the marks those of the attributes that count as used. -/
theorem Binding.Marks.add {target : AttributeTarget} (h : b.Marks)
    (added : b.add target place attr = .ok c) : c.Marks := by
  rcases Binding.add_cases added with ⟨-, rfl⟩ | ⟨t, args, e, -, -, effects, rfl⟩
  · exact h
  · refine ⟨fun wk plain => holds_of_effect effects plain (h.holds wk plain), fun f hf => ?_⟩
    rcases List.mem_append.mp hf with earlier | own
    · exact h.unrelated f earlier
    · obtain ⟨g, hg, rfl⟩ := List.mem_map.mp own
      rcases List.mem_append.mp hg with literal | other
      · obtain ⟨problem, -, rfl⟩ := List.mem_map.mp literal
        rfl
      · exact effect_unrelated effects g other

/-- The marks in the data of a parameter are those of the attributes that fit them. No report about
attributes explains that a fact is missing. -/
theorem marks_of_bind {attrs : List Node} (read : ∀ a ∈ attrs, a.ReadAsAttribute) {owner : String}
    {bound : Completed AttributesBag} (h : bind attrs .parameter place owner = .ok bound) :
    (∀ wk : WellKnown, wk.arity = 0 →
      (bound.value.data.holds wk = true ↔ ∃ a ∈ attrs, a.Fits wk)) ∧
    ∀ (fact : CallerFact) (t : ParamType), bound.diagnostics.filter (fact.isExplainedBy t) = [] := by
  obtain ⟨b, ⟨⟨records, left⟩, marks⟩, rfl⟩ := bind_invariant
    (motive := fun b as =>
      (∃ records, b.Records .parameter place (as.filter Node.isNamed) records) ∧ b.Marks)
    (fun a ha _ _ _ ⟨⟨_, left⟩, marks⟩ added => ⟨left.add (read a ha) added, marks.add added⟩)
    ⟨⟨[], rfl, rfl, fun _ _ => by simp, rfl, fun _ _ _ split => by simp at split⟩,
      fun wk _ => by cases wk <;> simp [ParamData.holds], List.forall_mem_nil _⟩ h
  refine ⟨fun wk plain => (marks.holds wk plain).trans ((left.used rfl wk).trans ?_),
    fun fact t => filter_unrelated marks.unrelated _⟩
  refine exists_congr fun a => and_congr_left fun fits => ?_
  have named : a.isNamed = true := by
    obtain ⟨name, known, -⟩ := Option.bind_eq_some_iff.mp fits.name
    rw [Node.isNamed, known]
    rfl
  rw [List.mem_filter, and_iff_left named]

end Attributes

/-! ### What a parameter tells -/

namespace Parameter

variable {p : Parameter} {file display : String} {n : Node} {v : FactValues} {fact : CallerFact}
  {c : Constant}

/-- The attributes of a parameter ask for the facts that they fit. -/
theorem Computes.asks {text : List Char} (h : p.Computes ⟨file, n⟩ display v) (kind : n.kind = .param)
    (held : (parse text).root.Holds n) :
    (∀ fact : CallerFact, fact.among v.attributes.value.data.caller = true ↔
      ∃ a ∈ n.attributes, a.Fits fact.attr) ∧
    ∀ (fact : CallerFact) (t : ParamType),
      v.attributes.diagnostics.filter (fact.isExplainedBy t) = [] := by
  have bound := h.attributes
  rw [computeAttributes, if_pos (show (⟨file, n⟩ : TreeRef).tree.kind = .param from kind),
    TreeRef.bind_eq] at bound
  have read (a : Node) (ha : a ∈ n.attributes) : a.ReadAsAttribute := by
    obtain ⟨child, item⟩ := List.mem_filter.mp ha
    exact ⟨of_decide_eq_true item, text, 0, held.child child⟩
  obtain ⟨marks, silent⟩ := Attributes.marks_of_bind read bound
  refine ⟨fun fact => ?_, silent⟩
  cases fact with
  | lineNumber => exact marks .callerLineNumber rfl
  | filePath => exact marks .callerFilePath rfl
  | memberName => exact marks .callerMemberName rfl

/-- With a written default value, what is asked for about the caller is what remains of the facts that
the attributes ask for, and what is reported about the default value explains each that got lost. -/
theorem Computes.chooses (h : p.Computes ⟨file, n⟩ display v) (kind : n.kind = .param)
    (written : n.defaultValue?.isSome = true) :
    ∃ here, p.here = .ok here ∧
      v.defaults.value.caller = (p.callerFacts true v.attributes.value.data.caller).1 ∧
      ∀ (fact : CallerFact) (c : Constant), fact.Supplies c →
        v.defaults.diagnostics.filter (fact.isExplainedBy p.type) =
          if fact.among v.attributes.value.data.caller && !fact.among v.defaults.value.caller then
            [(fact.excuse p.type c).report (.symbol display) (some here)] else [] := by
  obtain ⟨here, w, place, read, facts⟩ := h.defaults
  have isWritten : w.place.isSome = true := by
    rw [(writtenDefault_located kind read).1, Option.isSome_map, written]
  have chosen : v.defaults.value.caller = (p.callerFacts true v.attributes.value.data.caller).1 := by
    rw [facts, ← isWritten]
    rfl
  refine ⟨here, place, chosen, fun fact c supplies => ?_⟩
  have own : ∀ f ∈ w.findings.map (fun f => (f, w.place.getD here)), f.1.isVainFact = false := by
    intro f hf
    obtain ⟨g, hg, rfl⟩ := List.mem_map.mp hf
    exact writtenDefault_unrelated read g hg
  rw [chosen, facts, ← filter_callerFacts supplies, ← isWritten]
  unfold defaultFacts
  simp only [List.map_append, List.filter_append]
  rw [filter_unrelated own, filter_unrelated (p.attributedDefault_unrelated _ _), List.map_map]
  rfl

end Parameter

/-- Whatever has been asked before, a parameter with a default value behind an equals sign asks for at
most one fact about its caller: the first in the order of line number, file path and member name that a
well-formed attribute asks for and that the type takes. Once the parameter is completed, each fact that
such an attribute asks for is one that the parameter asks for, or there is a single report of why it is
not, which is located at the name of the parameter: the type does not take it, or another fact comes
before it. -/
theorem first_fitting_caller_fact_is_chosen (files : List SourceFile) (is : List Inquiry) (ix : Nat)
    (p : Parameter) (found : (SymbolTable.ofFiles files).get? ix = some (.parameter p)) :
    ∃ f n t, (declaredIn files)[ix]? = some (f, n) ∧ n.nameToken? = some t ∧
      (n.defaultValue?.isSome = true → ∃ caller : CallerInfo,
        (∀ fact : CallerFact, (((Knowledge.ofFiles files).after is).ask ix
          (.param fact.question)).map Prod.fst = some (.ok (.bool (fact.among caller)))) ∧
        (∀ a b : CallerFact, a.among caller = true → b.among caller = true → a = b) ∧
        ∀ (fact : CallerFact) (c : Constant), fact.Supplies c →
          (fact.among caller = true ↔
            (∃ a ∈ n.attributes, a.Fits fact.attr) ∧ (c.convertTo p.type).isSome = true ∧
              ∀ other : CallerFact, other.rank < fact.rank → other.among caller = false) ∧
          ((∃ a ∈ n.attributes, a.Fits fact.attr) → ∃ owner,
            ((((Knowledge.ofFiles files).after is).inquire (.ask ix .completeAll)).symbolDiagnostics
              ix).filter (fact.isExplainedBy p.type) =
            if fact.among caller then [] else
              [(fact.excuse p.type c).report owner (some ⟨f.name, t.range⟩)])) := by
  obtain ⟨f, n, declared, -, held, kind, by_, form⟩ := SymbolTable.parameter_told found
  obtain ⟨t, name, -, location⟩ := by_.name
  refine ⟨f, n, t, declared, name, fun written => ?_⟩
  obtain ⟨p', found', shape⟩ := SymbolTable.exists_parameter declared kind
  cases found.symm.trans found'
  rcases form with ⟨plain, -⟩ | ⟨display, v, -, computes, told⟩
  · rw [shape.plain plain] at written
    cases written
  rw [f.parsed_eq] at held
  obtain ⟨asks, silent⟩ := computes.asks kind held
  obtain ⟨here, place, chosen, explained⟩ := computes.chooses kind written
  have here_eq : here = ⟨f.name, t.range⟩ := by
    rw [Parameter.here, show p.locations = [⟨f.name, t.range⟩] from location] at place
    exact (Except.ok.inj place).symm
  have remains {fact : CallerFact} {c : Constant} (supplies : fact.Supplies c) :
      fact.among v.defaults.value.caller = true ↔
        fact.among v.attributes.value.data.caller = true ∧ (c.convertTo p.type).isSome = true ∧
          ∀ other : CallerFact, other.rank < fact.rank → other.among v.defaults.value.caller = false := by
    rw [chosen]
    exact Parameter.among_callerFacts supplies
  refine ⟨v.defaults.value.caller, fun fact => ?_, fun a b ha hb => ?_, fun fact c supplies =>
    ⟨by rw [remains supplies, asks], fun fits => ⟨.symbol display, ?_⟩⟩⟩
  · cases fact <;> exact told.answers is _
  · have first {a b : CallerFact} (ha : a.among v.defaults.value.caller = true)
        (hb : b.among v.defaults.value.caller = true) : b.rank ≤ a.rank := by
      obtain ⟨c, supplies⟩ := b.exists_supplies
      refine Nat.le_of_not_lt fun before => ?_
      rw [((remains supplies).mp hb).2.2 a before] at ha
      cases ha
    exact CallerFact.rank_injective (Nat.le_antisymm (first hb ha) (first ha hb))
  · rw [told.completed, List.filter_append, List.filter_append, silent, explained fact c supplies,
      Parameter.computeModifiers_unrelated computes.modifiers, (asks fact).mpr fits, here_eq]
    cases fact.among v.defaults.value.caller <;> rfl

/-- An object that asks for all three facts, with one attribute twice and one that has an argument too
many. -/
def Sample.allCallerFacts : List SourceFile :=
  [.input "a.decl" ("type T \x7b fn M([CallerMemberName] [CallerFilePath] [CallerFilePath] " ++
    "[CallerLineNumber(1)] [CallerLineNumber] object x = null); \x7d")]

/-- The line number is chosen, and of each of the other two facts it is reported that it is overridden. -/
theorem line_number_of_all_caller_facts_is_chosen :
    ∃ p, (SymbolTable.ofFiles Sample.allCallerFacts).get? 2 = some (.parameter p) ∧
      ((Knowledge.ofFiles Sample.allCallerFacts).ask 2 (.param .isCallerLineNumber)).map Prod.fst =
        some (.ok (.bool true)) ∧
      ∀ fact : CallerFact, fact.rank ≠ 0 → ∃ owner place,
        (((Knowledge.ofFiles Sample.allCallerFacts).inquire (.ask 2 .completeAll)).symbolDiagnostics
          2).filter (fact.isExplainedBy p.type) =
        [(Finding.callerInfoOverridden fact.name).report owner place] := by
  have listed : ((SymbolTable.ofFiles Sample.allCallerFacts).parameter? 2).any (fun p =>
      p.type = ⟨"object", false, false⟩) = true := by
    decide +kernel
  have nodes : (declaredIn Sample.allCallerFacts)[2]?.all (fun x => x.2.defaultValue?.isSome &&
      CallerFact.all.all fun fact => x.2.attributes.any fun a =>
        a.name?.bind WellKnown.ofName? = some fact.attr && !a.isBroken && a.constants.isEmpty) = true := by
    decide +kernel
  obtain ⟨p, some, type⟩ := (Option.any_eq_true _ _).mp listed
  have takes {fact : CallerFact} {c : Constant} (supplies : fact.Supplies c) :
      (c.convertTo p.type).isSome = true := by
    rw [of_decide_eq_true type]
    cases supplies <;> rfl
  have found := SymbolTable.parameter?_eq_some.mp some
  obtain ⟨f, n, t, declared, -, chooses⟩ :=
    first_fitting_caller_fact_is_chosen Sample.allCallerFacts [] 2 p found
  rw [declared, Option.all_some, Bool.and_eq_true, List.all_eq_true] at nodes
  obtain ⟨written, attributes⟩ := nodes
  have fits (fact : CallerFact) : ∃ a ∈ n.attributes, a.Fits fact.attr := by
    obtain ⟨a, ha, shape⟩ := List.any_eq_true.mp (attributes fact (by cases fact <;> decide))
    simp only [Bool.and_eq_true, Bool.not_eq_true', decide_eq_true_eq, List.isEmpty_iff] at shape
    refine ⟨a, ha, shape.1.1, shape.1.2, ?_⟩
    rw [shape.2]
    cases fact <;> rfl
  obtain ⟨caller, answers, single, each⟩ := chooses written
  have chosen : caller.lineNumber = true := (each .lineNumber (.int 0) (.lineNumber 0)).1.mpr
    ⟨fits _, takes (.lineNumber 0), fun _ before => absurd before (Nat.not_lt_zero _)⟩
  have line := answers .lineNumber
  rw [show CallerFact.among caller .lineNumber = true from chosen] at line
  refine ⟨p, found, line, fun fact later => ?_⟩
  obtain ⟨c, supplies⟩ := fact.exists_supplies
  obtain ⟨owner, reported⟩ := (each fact c supplies).2 (fits fact)
  have dropped : ¬fact.among caller = true := fun too => by
    rw [single fact .lineNumber too chosen] at later
    exact later rfl
  rw [if_neg dropped, CallerFact.excuse, if_pos (takes supplies)] at reported
  exact ⟨owner, _, reported⟩

end DeclFront
