import DeclFront.Finding
import DeclFront.Syntax.View

/-!
# Attributes

What the attributes of a declaration say. Each attribute with a name has an entry; thirteen names
are well known and, on parameters, have a meaning that is decoded into `ParamData`. A well-known
attribute that cannot be used keeps its entry but loses its meaning, and is reported.
-/

set_option autoImplicit false

namespace DeclFront

/-- The attributes with a meaning. -/
inductive WellKnown where
  | optional
  | defaultParameterValue
  | marshalAs
  | callerFilePath
  | callerLineNumber
  | callerMemberName
  | allowNull
  | disallowNull
  | maybeNull
  | notNull
  | notNullIfNotNull
  | iDispatchConstant
  | iUnknownConstant
  deriving DecidableEq

namespace WellKnown

/-- The well-known attributes with their names. -/
def named : List (String × WellKnown) :=
  [("Optional", optional), ("DefaultParameterValue", defaultParameterValue), ("MarshalAs", marshalAs),
    ("CallerFilePath", callerFilePath), ("CallerLineNumber", callerLineNumber),
    ("CallerMemberName", callerMemberName), ("AllowNull", allowNull), ("DisallowNull", disallowNull),
    ("MaybeNull", maybeNull), ("NotNull", notNull), ("NotNullIfNotNull", notNullIfNotNull),
    ("IDispatchConstant", iDispatchConstant), ("IUnknownConstant", iUnknownConstant)]

/-- The ending that a name may have. -/
def ending : List Char := "Attribute".toList

/-- A name without the ending, if it has it. -/
def baseName (name : String) : String :=
  let cs := name.toList
  if ending.isSuffixOf cs then String.ofList (cs.take (cs.length - ending.length)) else name

/-- The well-known attribute of a name, with or without the ending. -/
def ofName? (name : String) : Option WellKnown :=
  (named.find? (·.1 = baseName name)).map Prod.snd

/-- The number of arguments that an attribute takes. -/
def arity : WellKnown → Nat
  | defaultParameterValue | marshalAs | notNullIfNotNull => 1
  | _ => 0

/-- May one declaration have an attribute more than once? -/
def allowsMultiple : WellKnown → Bool
  | notNullIfNotNull => true
  | _ => false

end WellKnown

/-- What attributes may stand in front of. -/
inductive AttributeTarget where
  | type
  | method
  | parameter
  deriving DecidableEq

/-- Which facts about its caller a parameter asks for. -/
structure CallerInfo where
  filePath : Bool := false
  lineNumber : Bool := false
  memberName : Bool := false
  deriving DecidableEq

/-- What is known about null values of a parameter. -/
structure FlowAnnotations where
  allowNull : Bool := false
  disallowNull : Bool := false
  maybeNull : Bool := false
  notNull : Bool := false
  deriving DecidableEq

/-- How a parameter is passed to unmanaged code. -/
inductive MarshalKind where
  | bool
  | i4
  | i8
  | r8
  | lpStr
  | lpwStr
  | interface
  /-- Given by its number. -/
  | raw (n : Int)
  deriving DecidableEq

namespace MarshalKind

/-- The kinds with names. -/
def named : List (String × MarshalKind) :=
  [("Bool", bool), ("I4", i4), ("I8", i8), ("R8", r8), ("LPStr", lpStr), ("LPWStr", lpwStr),
    ("Interface", interface)]

/-- The kind that a constant stands for: a number from zero up, or one of the names. -/
def ofConstant? : Constant → Option MarshalKind
  | .int n => if 0 ≤ n then some (raw n) else none
  | .name s => (named.find? (·.1 = s)).map Prod.snd
  | _ => none

end MarshalKind

/-- What the well-known attributes of a parameter say. -/
structure ParamData where
  optional : Bool := false
  defaultValue : Option (Constant × Location) := none
  marshalling : Option MarshalKind := none
  caller : CallerInfo := {}
  flow : FlowAnnotations := {}
  notNullIf : List String := []
  iDispatchConstant : Bool := false
  iUnknownConstant : Bool := false
  deriving DecidableEq

/-- The first argument of an attribute that promises to have one. -/
def firstArgument : List Constant → Except Fault Constant
  | [] => .error .missingArgument
  | c :: _ => .ok c

/-- What a parameter says with one more attribute; `none` if its arguments make no sense. -/
def ParamData.add (d : ParamData) (attr : WellKnown) (args : List Constant) (location : Location) : Except Fault (Option ParamData) :=
  match attr with
  | .optional => .ok (some { d with optional := true })
  | .defaultParameterValue =>
    (firstArgument args).map fun v => some { d with defaultValue := some (v, location) }
  | .marshalAs =>
    (firstArgument args).map fun v => (MarshalKind.ofConstant? v).map fun kind => { d with marshalling := some kind }
  | .callerFilePath => .ok (some { d with caller.filePath := true })
  | .callerLineNumber => .ok (some { d with caller.lineNumber := true })
  | .callerMemberName => .ok (some { d with caller.memberName := true })
  | .allowNull => .ok (some { d with flow.allowNull := true })
  | .disallowNull => .ok (some { d with flow.disallowNull := true })
  | .maybeNull => .ok (some { d with flow.maybeNull := true })
  | .notNull => .ok (some { d with flow.notNull := true })
  | .notNullIfNotNull =>
    (firstArgument args).map fun v =>
      match v with
      | .string s => some { d with notNullIf := d.notNullIf ++ [s] }
      | _ => none
  | .iDispatchConstant => .ok (some { d with iDispatchConstant := true })
  | .iUnknownConstant => .ok (some { d with iUnknownConstant := true })

/-- One attribute of a declaration. Its meaning is missing if its name is not well known, or if it
cannot be used as it stands. -/
structure AttributeEntry where
  name : String
  args : List Constant
  location : Location
  wellKnown : Option WellKnown
  deriving DecidableEq

/-- The attributes of a declaration, and what the well-known ones of a parameter say. -/
structure AttributesBag where
  entries : List AttributeEntry := []
  data : ParamData := {}
  deriving DecidableEq

/-- No attributes. -/
def AttributesBag.empty : AttributesBag := {}

/-- Does an attribute with the given meaning stand among them? -/
def AttributesBag.has (b : AttributesBag) (attr : WellKnown) : Bool :=
  b.entries.any (·.wellKnown = some attr)

/-- A fact together with what was reported while it was found out. -/
structure Completed (α : Type) where
  value : α
  diagnostics : List Diagnostic
  deriving DecidableEq

namespace Attributes

/-- The arguments of an attribute: the constants, what is wrong with the literals that stand for
none, and whether anything is wrong at all. -/
structure Arguments where
  values : List Constant := []
  problems : List LiteralProblem := []
  malformed : Bool := false

/-- The arguments with one more literal behind them. -/
def Arguments.add (a : Arguments) (literal : Node) : Except Fault Arguments :=
  match literal.literalToken? with
  | none => .ok { a with malformed := true }
  | some t =>
    (Constant.ofToken t.token).map fun
      | .ok v => { a with values := a.values ++ [v] }
      | .error p => { a with problems := a.problems ++ [p], malformed := true }

/-- The arguments of an attribute. -/
def Arguments.ofNode (attr : Node) : Except Fault Arguments :=
  attr.arguments.foldlM Arguments.add { malformed := attr.hasMalformedArguments }

/-- What is decided about a well-known attribute before its arguments are looked at. -/
inductive Verdict where
  | usable
  /-- It cannot be used, for a reason that has been reported already. -/
  | silent
  | refused (finding : Finding)

/-- Can an attribute be used, given the ones that were used before it? The reasons against it are
looked at in this order: malformed arguments, their number, the target, a duplicate. -/
def judge (target : AttributeTarget) (seen : List WellKnown) (name : String) (attr : WellKnown) (args : Arguments) : Verdict :=
  if args.malformed then .silent
  else if args.values.length ≠ attr.arity then
    .refused (.argumentCount name attr.arity args.values.length)
  else if target ≠ .parameter then .refused (.misplacedAttribute name)
  else if seen.contains attr && !attr.allowsMultiple then .refused (.duplicateAttribute name)
  else .usable

/-- The attributes bound so far: the bag, the well-known attributes that were used, and what was
reported. -/
structure Binding where
  bag : AttributesBag := {}
  seen : List WellKnown := []
  findings : List (Finding × Location) := []

/-- The binding with an entry and findings at its place. -/
def Binding.record (b : Binding) (entry : AttributeEntry) (findings : List Finding) : Binding :=
  { b with
    bag.entries := b.bag.entries ++ [entry]
    findings := b.findings ++ findings.map fun f => (f, entry.location) }

/-- The binding with one more attribute. An attribute without a name has been complained about by
the parser and has no entry. -/
def Binding.add (target : AttributeTarget) (place : Range → Location) (b : Binding) (attr : Node) : Except Fault Binding :=
  match attr.nameToken? with
  | none => .ok b
  | some t => do
    let args ← Arguments.ofNode attr
    let name := t.token.text
    let entry (meaning : Option WellKnown) : AttributeEntry := ⟨name, args.values, place attr.range, meaning⟩
    let problems := args.problems.map Finding.badLiteral
    match WellKnown.ofName? name with
    | none => return b.record (entry none) problems
    | some wk =>
      match judge target b.seen name wk args with
      | .silent => return b.record (entry none) problems
      | .refused finding => return b.record (entry none) (problems ++ [finding])
      | .usable =>
        let used := { b with seen := wk :: b.seen }
        match ← b.bag.data.add wk args.values (place attr.range) with
        | none => return used.record (entry none) (problems ++ [.invalidArgument name])
        | some data => return { used with bag.data := data }.record (entry (some wk)) problems

/-- Binds the attributes of one declaration. `place` tells where a range of their tree is, and
`owner` is the qualified name of the declaration. -/
def bind (attrs : List Node) (target : AttributeTarget) (place : Range → Location) (owner : String) : Except Fault (Completed AttributesBag) :=
  (attrs.foldlM (Binding.add target place) {}).map fun b =>
    ⟨b.bag, b.findings.map fun f => f.1.report (.symbol owner) (some f.2)⟩

end Attributes

end DeclFront
