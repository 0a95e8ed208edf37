import DeclFront.Symbol.Question
import Mathlib.Data.List.Basic

/-!
# The facts about the caller that remain

A parameter can ask for three facts about its caller. Those whose constants its type does not take are
dropped first, and of what is left all but one. Here is what is asked for in the end, and that what is
found on the way explains each fact that got lost, by one report which is about that fact and no other.
-/

set_option autoImplicit false

namespace DeclFront

/-- Does a finding say that a fact about the caller is asked for in vain? -/
def Finding.isVainFact : Finding → Bool
  | callerInfoType .. | callerInfoOverridden _ => true
  | _ => false

/-- The two codes of facts in vain are used for nothing else. -/
theorem Finding.code_of_unrelated {f : Finding} (unrelated : f.isVainFact = false) :
    f.code ≠ "SG0307" ∧ f.code ≠ "SG0308" := by
  cases f <;> simp_all [isVainFact, code]

/-- The facts about its caller that a parameter can ask for. -/
inductive CallerFact where
  | lineNumber
  | filePath
  | memberName
  deriving DecidableEq

namespace CallerFact

/-- The attribute that asks for a fact. -/
def attr : CallerFact → WellKnown
  | lineNumber => .callerLineNumber
  | filePath => .callerFilePath
  | memberName => .callerMemberName

/-- The name of the attribute, as reports have it. -/
def name : CallerFact → String
  | lineNumber => "CallerLineNumber"
  | filePath => "CallerFilePath"
  | memberName => "CallerMemberName"

/-- The question whether a parameter asks for a fact. -/
def question : CallerFact → ParamQuestion
  | lineNumber => .isCallerLineNumber
  | filePath => .isCallerFilePath
  | memberName => .isCallerMemberName

/-- Is a fact among those asked for? -/
def among (c : CallerInfo) : CallerFact → Bool
  | lineNumber => c.lineNumber
  | filePath => c.filePath
  | memberName => c.memberName

/-- Facts of a lower rank come before those of a higher one. -/
def rank : CallerFact → Nat
  | lineNumber => 0
  | filePath => 1
  | memberName => 2

/-- All facts in their order. -/
def all : List CallerFact := [lineNumber, filePath, memberName]

/-- The constants that a fact can be: a number for a line, and a text for the other two. -/
inductive Supplies : CallerFact → Constant → Prop where
  | lineNumber (n : Int) : Supplies .lineNumber (.int n)
  | filePath (s : String) : Supplies .filePath (.string s)
  | memberName (s : String) : Supplies .memberName (.string s)

/-- What is found if a fact is asked for in vain, by a parameter whose type takes the constant or not. -/
def excuse (fact : CallerFact) (t : ParamType) (c : Constant) : Finding :=
  if (c.convertTo t).isSome then .callerInfoOverridden fact.name else .callerInfoType fact.name t

/-- Does a diagnostic say why a fact is asked for in vain, because of the type or of another fact? -/
def isExplainedBy (fact : CallerFact) (t : ParamType) (d : Diagnostic) : Bool :=
  d = (Finding.callerInfoType fact.name t).report d.source d.location ||
    d = (Finding.callerInfoOverridden fact.name).report d.source d.location

variable {fact other : CallerFact} {t : ParamType} {c c' : Constant}

/-- What holds of the three facts holds of every fact. -/
theorem forall_iff {P : CallerFact → Prop} :
    (∀ fact, P fact) ↔ P .lineNumber ∧ P .filePath ∧ P .memberName := by
  refine ⟨fun h => ⟨h _, h _, h _⟩, fun ⟨line, file, member⟩ fact => ?_⟩
  cases fact <;> assumption

/-- No two facts have the same rank. -/
theorem rank_injective (same : fact.rank = other.rank) : fact = other := by
  cases fact <;> cases other <;> first | rfl | cases same

/-- For every fact there is a constant that it can be. -/
theorem exists_supplies (fact : CallerFact) : ∃ c, fact.Supplies c := by
  cases fact with
  | lineNumber => exact ⟨_, .lineNumber 0⟩
  | filePath => exact ⟨_, .filePath ""⟩
  | memberName => exact ⟨_, .memberName ""⟩

/-- A type takes all constants that a fact can be, or none. -/
theorem Supplies.isSome_convertTo (h : fact.Supplies c) (h' : fact.Supplies c') :
    (c.convertTo t).isSome = (c'.convertTo t).isSome := by
  have number (n n' : Int) :
      ((Constant.int n).convertTo t).isSome = ((Constant.int n').convertTo t).isSome := by
    unfold Constant.convertTo
    generalize t.special = special
    cases t.isArray <;> cases special <;> simp
  have string (s s' : String) :
      ((Constant.string s).convertTo t).isSome = ((Constant.string s').convertTo t).isSome := by
    unfold Constant.convertTo
    generalize t.special = special
    cases t.isArray <;> cases special <;> simp
  cases h with
  | lineNumber n => cases h' with | lineNumber n' => exact number n n'
  | filePath s => cases h' with | filePath s' => exact string s s'
  | memberName s => cases h' with | memberName s' => exact string s s'

/-! ### What explains that a fact is missing -/

section Explained

variable {f : Finding} {s : DiagnosticSource} {l : Option Location}

/-- A report explains a fact if it says that the type does not take it, or that another fact
is chosen. -/
theorem isExplainedBy_iff : fact.isExplainedBy t (f.report s l) = true ↔
    f.report s l = (Finding.callerInfoType fact.name t).report s l ∨
      f.report s l = (Finding.callerInfoOverridden fact.name).report s l := by
  unfold isExplainedBy
  rw [Bool.or_eq_true_iff, decide_eq_true_iff, decide_eq_true_iff]
  rfl

/-- The names of the facts tell them apart. -/
theorem eq_of_name_eq (same : fact.name = other.name) : fact = other := by
  cases fact <;> cases other <;> first | rfl | exact absurd same (by decide)

/-- The report that the type does not take a fact explains that fact alone. -/
theorem isExplainedBy_type (fact other : CallerFact) :
    fact.isExplainedBy t ((Finding.callerInfoType other.name t).report s l) =
      decide (other = fact) := by
  rw [Bool.eq_iff_iff, isExplainedBy_iff, decide_eq_true_iff]
  refine ⟨fun explained => ?_, fun same => .inl (by rw [same])⟩
  rcases explained with same | same
  · have same : "`" ++ other.name ++ "` cannot be applied to a parameter of type `" ++ t.text ++ "`" =
        "`" ++ fact.name ++ "` cannot be applied to a parameter of type `" ++ t.text ++ "`" :=
      congrArg Diagnostic.message same
    rw [String.append_left_inj, String.append_left_inj, String.append_left_inj,
      String.append_right_inj] at same
    exact eq_of_name_eq same
  · exact absurd (congrArg Diagnostic.code same) (show "SG0307" ≠ "SG0308" by decide)

/-- The report that another fact is chosen explains that fact alone. -/
theorem isExplainedBy_overridden (fact other : CallerFact) :
    fact.isExplainedBy t ((Finding.callerInfoOverridden other.name).report s l) =
      decide (other = fact) := by
  rw [Bool.eq_iff_iff, isExplainedBy_iff, decide_eq_true_iff]
  refine ⟨fun explained => ?_, fun same => .inr (by rw [same])⟩
  rcases explained with same | same
  · exact absurd (congrArg Diagnostic.code same) (show "SG0308" ≠ "SG0307" by decide)
  · have same : "`" ++ other.name ++ "` has no effect; it is overridden by another caller info attribute" =
        "`" ++ fact.name ++ "` has no effect; it is overridden by another caller info attribute" :=
      congrArg Diagnostic.message same
    rw [String.append_left_inj, String.append_right_inj] at same
    exact eq_of_name_eq same

/-- What is found about something else explains nothing. -/
theorem isExplainedBy_other (unrelated : f.isVainFact = false) :
    fact.isExplainedBy t (f.report s l) = false := by
  obtain ⟨type, overridden⟩ := Finding.code_of_unrelated unrelated
  rw [Bool.eq_false_iff, ne_eq, isExplainedBy_iff, not_or]
  exact ⟨fun same => type (congrArg Diagnostic.code same),
    fun same => overridden (congrArg Diagnostic.code same)⟩

/-- The facts that are among the first but not among the second. -/
def lost (before after : CallerInfo) : List CallerFact :=
  all.filter fun fact => fact.among before && !fact.among after

/-- Of one report about each lost fact, the one that explains a fact is the one about it, if any. -/
theorem filter_reports {found : CallerFact → Finding} {before after : CallerInfo}
    (own : ∀ other, fact.isExplainedBy t ((found other).report s l) = decide (other = fact)) :
    (((lost before after).map found).map fun f => f.report s l).filter (fact.isExplainedBy t) =
      if fact.among before && !fact.among after then [(found fact).report s l] else [] := by
  have explained : fact.isExplainedBy t ∘ (fun f : Finding => f.report s l) ∘ found =
      fun other => decide (other = fact) := funext own
  have sole : all.filter (fun other => decide (other = fact)) = [fact] := by cases fact <;> rfl
  rw [List.map_map, List.filter_map, explained, lost, List.filter_comm, sole, List.filter_singleton]
  cases fact.among before && !fact.among after <;> rfl

end Explained

end CallerFact

/-! ### What remains of the facts asked for -/

namespace Parameter

open CallerFact

variable {p : Parameter} {fact : CallerFact} {info : CallerInfo} {c : Constant}

/-- With a written default value, what the type does not take is dropped, and then all but one. -/
theorem callerFacts_written (p : Parameter) (info : CallerInfo) :
    p.callerFacts true info = ((callerWinner (p.callerOfType info).1).1,
      (p.callerOfType info).2 ++ (callerWinner (p.callerOfType info).1).2) := by
  simp [callerFacts]

/-- Of the facts that are asked for, those are left that the type takes. -/
theorem among_callerOfType (supplies : fact.Supplies c) :
    fact.among (p.callerOfType info).1 = (fact.among info && (c.convertTo p.type).isSome) := by
  cases supplies with
  | lineNumber n => rw [Supplies.isSome_convertTo (.lineNumber n) (.lineNumber 0)]; rfl
  | filePath s => rw [Supplies.isSome_convertTo (.filePath s) (.filePath "")]; rfl
  | memberName s => rw [Supplies.isSome_convertTo (.memberName s) (.memberName "")]; rfl

/-- Of those, the first in rank is left. -/
theorem among_callerWinner : fact.among (callerWinner info).1 = true ↔
    fact.among info = true ∧
      ∀ other : CallerFact, other.rank < fact.rank → other.among (callerWinner info).1 = false := by
  rw [CallerFact.forall_iff]
  cases fact with
  | lineNumber => simp [rank, among, callerWinner]
  | filePath => simp [rank, among, callerWinner]
  | memberName =>
    obtain ⟨file, line, member⟩ := info
    cases line <;> simp [rank, among, callerWinner]

/-- Each fact that the type does not take is found once, and nothing else is. -/
theorem callerOfType_findings (p : Parameter) (info : CallerInfo) :
    (p.callerOfType info).2 = (lost info (p.callerOfType info).1).map fun fact =>
      .callerInfoType fact.name p.type := by
  unfold callerOfType
  generalize ((Constant.int 0).convertTo p.type).isSome = takesInt
  generalize ((Constant.string "").convertTo p.type).isSome = takesString
  obtain ⟨file, line, member⟩ := info
  cases line <;> cases file <;> cases member <;> cases takesInt <;> cases takesString <;> rfl

/-- Each fact that another one overrides is found once, and nothing else is. -/
theorem callerWinner_findings (info : CallerInfo) :
    (callerWinner info).2 = (lost info (callerWinner info).1).map fun fact =>
      .callerInfoOverridden fact.name := by
  obtain ⟨file, line, member⟩ := info
  cases line <;> cases file <;> cases member <;> rfl

/-- What is found about the facts asked for explains each one that got lost, and by one report only. -/
theorem filter_callerFacts (supplies : fact.Supplies c) {s : DiagnosticSource} {l : Option Location} :
    ((p.callerFacts true info).2.map fun f => f.report s l).filter (fact.isExplainedBy p.type) =
      if fact.among info && !fact.among (p.callerFacts true info).1 then
        [(fact.excuse p.type c).report s l] else [] := by
  have fitting : fact.among (p.callerOfType info).1 =
      (fact.among info && (c.convertTo p.type).isSome) := among_callerOfType supplies
  rw [callerFacts_written, callerOfType_findings, callerWinner_findings, List.map_append,
    List.filter_append, filter_reports (isExplainedBy_type fact),
    filter_reports (isExplainedBy_overridden fact), excuse]
  cases takes : (c.convertTo p.type).isSome with
  | true =>
    rw [takes, Bool.and_true] at fitting
    simp [fitting]
  | false =>
    rw [takes, Bool.and_false] at fitting
    have gone : fact.among (callerWinner (p.callerOfType info).1).1 = false :=
      Bool.eq_false_iff.mpr fun kept => by simp [(among_callerWinner.mp kept).1] at fitting
    simp [fitting, gone]

/-- What remains of the facts asked for is the first that the type takes. -/
theorem among_callerFacts (supplies : fact.Supplies c) :
    fact.among (p.callerFacts true info).1 = true ↔
      fact.among info = true ∧ (c.convertTo p.type).isSome = true ∧
        ∀ other : CallerFact, other.rank < fact.rank →
          other.among (p.callerFacts true info).1 = false := by
  rw [callerFacts_written, among_callerWinner, among_callerOfType supplies, Bool.and_eq_true_iff,
    and_assoc]

end Parameter

end DeclFront
