import DeclFront.Completion.Slot
import DeclFront.Symbol.Attribute

/-!
# Parameters

What is known about a parameter. Its name, type and shape are known when it is bound. The rest is
found out on demand and kept in slots: attributes, the default value and caller information,
modifiers, and two facts read off the attributes.

A parameter without attributes, default value and `params` has nothing to find out. It does not
keep its tree, and everything about it is complete from the start.
-/

set_option autoImplicit false

namespace DeclFront

/-- A declaration in its file. Its tree can be looked at rooted at zero, and what is found there
placed in the file again. -/
structure TreeRef where
  file : String
  node : Node

namespace TreeRef

/-- The tree rooted at zero. -/
def tree (r : TreeRef) : Node := r.node.reroot

/-- The offset of the declaration in its file. -/
def offset (r : TreeRef) : Nat := r.node.start

/-- The bytes that the declaration takes in its file. -/
def range (r : TreeRef) : Range := r.node.range

/-- Where a range of the tree rooted at zero is in the file. -/
def place (r : TreeRef) (range : Range) : Location := ⟨r.file, range.shift r.offset⟩

end TreeRef

/-- How an argument is passed. -/
inductive RefKind where
  | none
  | ref
  | out
  | in
  deriving DecidableEq

/-- What the declaration alone tells about the shape of a parameter. -/
structure ParamCaps where
  hasAttributes : Bool := false
  hasDefaultSyntax : Bool := false
  /-- The keyword `params` was written. -/
  isVariadic : Bool := false
  /-- The name is `_`. -/
  isDiscard : Bool := false
  deriving DecidableEq

/-- Is there anything about the parameter that has to be found out? -/
def ParamCaps.needsDetail (c : ParamCaps) : Bool :=
  c.hasAttributes || c.hasDefaultSyntax || c.isVariadic

/-- What the declaration of a parameter says. -/
structure ParamDecl where
  ordinal : Nat
  name : String
  type : ParamType
  refKind : RefKind
  caps : ParamCaps
  location : Location
  tree : TreeRef
  /-- The qualified name. -/
  display : String

/-- What a parameter keeps of its declaration. -/
inductive ParamForm where
  /-- Nothing: all is known. -/
  | plain
  /-- The tree and the qualified name, to find out the rest from. -/
  | detailed (tree : TreeRef) (display : String)

/-- A parameter of a method. -/
structure Parameter where
  /-- The index of the method. -/
  owner : Nat
  ordinal : Nat
  name : String
  type : ParamType
  refKind : RefKind
  caps : ParamCaps
  locations : List Location
  form : ParamForm

/-- A default value, from either way of giving one, and what is asked for about the caller. -/
structure DefaultFacts where
  /-- From `= value`. -/
  written : Option Constant := none
  /-- From an attribute. -/
  attributed : Option Constant := none
  caller : CallerInfo := {}
  deriving DecidableEq

/-- A modifier that the reference type of a parameter carries. -/
structure CustomModifier where
  name : String
  required : Bool
  deriving DecidableEq

/-- Whether a parameter takes any number of arguments, and the modifiers of its type. -/
structure ModifierFacts where
  isParams : Bool := false
  customModifiers : List CustomModifier := []
  deriving DecidableEq

/-- What is known about null values. -/
structure FlowFacts where
  annotations : FlowAnnotations := {}
  notNullIf : List String := []
  deriving DecidableEq

/-- The slots for what is found out about a symbol on demand. -/
structure SymbolFacts where
  attributes : Option (Completed AttributesBag) := none
  defaults : Option (Completed DefaultFacts) := none
  modifiers : Option (Completed ModifierFacts) := none
  flow : Option FlowFacts := none
  marshalling : Option (Option MarshalKind) := none

/-- What has been found out about one symbol. -/
abbrev Memo := Store SymbolFacts

/-- A query about one symbol, which may find something out. -/
abbrev Query := Action SymbolFacts

namespace SymbolFacts

/-- How a fact of a symbol is shown when two computations of it disagree. -/
def unshown {α : Type} (_ : α) : String := "a fact"

def attributesSlot : Slot SymbolFacts (Completed AttributesBag) where
  get f := f.attributes
  fill v f := { f with attributes := some v }
  display := unshown

def defaultsSlot : Slot SymbolFacts (Completed DefaultFacts) where
  get f := f.defaults
  fill v f := { f with defaults := some v }
  display := unshown

def modifiersSlot : Slot SymbolFacts (Completed ModifierFacts) where
  get f := f.modifiers
  fill v f := { f with modifiers := some v }
  display := unshown

def flowSlot : Slot SymbolFacts FlowFacts where
  get f := f.flow
  fill v f := { f with flow := some v }
  display := unshown

def marshallingSlot : Slot SymbolFacts (Option MarshalKind) where
  get f := f.marshalling
  fill v f := { f with marshalling := some v }
  display := unshown

end SymbolFacts

namespace Parameter

/-- The parameter of a declaration. -/
def ofDecl (owner : Nat) (d : ParamDecl) : Parameter where
  owner := owner
  ordinal := d.ordinal
  name := d.name
  type := d.type
  refKind := d.refKind
  caps := d.caps
  locations := [d.location]
  form := if d.caps.needsDetail then .detailed d.tree d.display else .plain

/-- What is complete about a parameter when it is bound: its type, or everything. -/
def initialState (p : Parameter) : CompletionState :=
  match p.form with
  | .plain => .completed .ofParameter
  | .detailed .. => (CompletionState.new .ofParameter).marked .type

/-- Does the parameter keep nothing of its declaration? -/
def isSimple (p : Parameter) : Bool :=
  match p.form with
  | .plain => true
  | .detailed .. => false

/-- The declaration, if the parameter keeps it. -/
def tree? (p : Parameter) : Option TreeRef :=
  match p.form with
  | .plain => none
  | .detailed tree _ => some tree

/-- The declaration language has no receivers among parameters. -/
def isExtensionReceiver (_ : Parameter) : Bool := false

/-- The place of the declaration. -/
def here (p : Parameter) : Except Fault Location :=
  match p.locations with
  | [] => .error .missingLocation
  | l :: _ => .ok l

/-! ### What is computed from a declaration -/

/-- The attributes of a declaration. -/
def computeAttributes (tree : TreeRef) (display : String) : Except Fault (Completed AttributesBag) :=
  if tree.tree.kind = .param then
    Attributes.bind tree.tree.attributes .parameter tree.place display
  else .ok ⟨.empty, []⟩

/-- The default value written with `=`, where it is, and what is wrong with it. -/
structure WrittenDefault where
  value : Option Constant := none
  place : Option Location := none
  findings : List Finding := []

/-- The value of a literal as a default value of type `t`, and what is wrong with it. -/
def literalDefault (t : ParamType) (literal : Token) : Except Fault (Option Constant × List Finding) :=
  (Constant.ofToken literal).map fun
    | .error problem => (none, [.badLiteral problem])
    | .ok value =>
      match value.convertTo t with
      | some v => (some v, [])
      | none => (none, [.unconvertible value t])

/-- The reasons why a parameter cannot have a default value at all. -/
def defaultForbidden (p : Parameter) : List Finding :=
  (if p.refKind = .ref ∨ p.refKind = .out then [.defaultOnReference] else [])
    ++ (if p.caps.isVariadic then [.defaultOnVariadic] else [])

/-- What the declaration gives as a default value with `=`. A missing literal has been complained
about by the parser. -/
def writtenDefault (p : Parameter) (tree : TreeRef) : Except Fault WrittenDefault :=
  let node? := if tree.tree.kind = .param then tree.tree.defaultValue? else none
  match node? with
  | none => .ok {}
  | some node => do
    let (value, problems) ← match node.literal?.bind Node.literalToken? with
      | none => pure (none, [])
      | some t => literalDefault p.type t.token
    let forbidden := p.defaultForbidden
    return ⟨if forbidden.isEmpty then value else none, some (tree.place node.range), problems ++ forbidden⟩

/-- What an attribute gives as a default value. It is ignored next to one written with `=`. -/
def attributedDefault (p : Parameter) (written : Bool) (given : Option (Constant × Location)) : Option Constant × List (Finding × Location) :=
  match given with
  | none => (none, [])
  | some (value, place) =>
    if written then (none, [(.defaultGivenTwice, place)])
    else match value.convertTo p.type with
      | some v => (some v, [])
      | none => (none, [(.unconvertible value p.type, place)])

/-- Caller information without what the type of the parameter does not take. -/
def callerOfType (p : Parameter) (c : CallerInfo) : CallerInfo × List Finding :=
  let takesInt := ((Constant.int 0).convertTo p.type).isSome
  let takesString := ((Constant.string "").convertTo p.type).isSome
  (⟨c.filePath && takesString, c.lineNumber && takesInt, c.memberName && takesString⟩,
    (if c.lineNumber && !takesInt then [.callerInfoType "CallerLineNumber" p.type] else [])
      ++ (if c.filePath && !takesString then [.callerInfoType "CallerFilePath" p.type] else [])
      ++ (if c.memberName && !takesString then [.callerInfoType "CallerMemberName" p.type] else []))

/-- The one piece of caller information that has an effect: a line number before a file path, a
file path before a member name. -/
def callerWinner (c : CallerInfo) : CallerInfo × List Finding :=
  let filePath := c.filePath && !c.lineNumber
  let memberName := c.memberName && !c.lineNumber && !c.filePath
  (⟨filePath, c.lineNumber, memberName⟩,
    (if c.filePath && !filePath then [.callerInfoOverridden "CallerFilePath"] else [])
      ++ (if c.memberName && !memberName then [.callerInfoOverridden "CallerMemberName"] else []))

/-- The caller information that a parameter has in the end. Without a default value written with
`=` there is none. -/
def callerFacts (p : Parameter) (written : Bool) (c : CallerInfo) : CallerInfo × List Finding :=
  let (allowed, orphan) :=
    if c ≠ {} ∧ written = false then ({}, [Finding.callerInfoWithoutDefault]) else (c, [])
  let (fitting, mismatches) := p.callerOfType allowed
  let (winner, overridden) := callerWinner fitting
  (winner, orphan ++ mismatches ++ overridden)

/-- The default value and caller information, from the attributes and the default written with
`=`. -/
def defaultFacts (p : Parameter) (display : String) (here : Location) (written : WrittenDefault) (data : ParamData) : Completed DefaultFacts :=
  let isWritten := written.place.isSome
  let (attributed, clashes) := p.attributedDefault isWritten data.defaultValue
  let (caller, remarks) := p.callerFacts isWritten data.caller
  let place := written.place.getD here
  let findings := written.findings.map (fun f => (f, place)) ++ clashes ++ remarks.map (fun f => (f, here))
  ⟨⟨written.value, attributed, caller⟩, findings.map fun f => f.1.report (.symbol display) (some f.2)⟩

/-- The modifiers. Only an array takes any number of arguments. -/
def computeModifiers (p : Parameter) (display : String) : Except Fault (Completed ModifierFacts) :=
  let custom := if p.refKind = .in then [⟨"InAttribute", true⟩] else []
  if p.caps.isVariadic ∧ p.type.isArray = false then
    p.here.map fun here =>
      ⟨⟨false, custom⟩, [(Finding.variadicNotArray p.type).report (.symbol display) (some here)]⟩
  else .ok ⟨⟨p.caps.isVariadic, custom⟩, []⟩

/-! ### Queries -/

/-- A computation that asks nothing. -/
def lift {α : Type} (a : Except Fault α) : Query α :=
  match a with
  | .ok v => pure v
  | .error f => throw f

/-- The attributes. -/
def attributes (p : Parameter) : Query AttributesBag :=
  match p.form with
  | .plain => do
    let _ ← Action.notePart .attributes
    return .empty
  | .detailed tree display => do
    let c ← Action.ensureComplete .attributes SymbolFacts.attributesSlot (lift (computeAttributes tree display))
    return c.value

/-- The computation of the default value, which asks for the attributes. -/
def computeDefaults (p : Parameter) (tree : TreeRef) (display : String) : Query (Completed DefaultFacts) := do
  let here ← lift p.here
  let written ← lift (p.writtenDefault tree)
  let bag ← p.attributes
  return p.defaultFacts display here written bag.data

/-- The default value and caller information. -/
def defaults (p : Parameter) : Query DefaultFacts :=
  match p.form with
  | .plain => pure {}
  | .detailed tree display => do
    let c ← Action.ensureComplete .defaultValue SymbolFacts.defaultsSlot (p.computeDefaults tree display)
    return c.value

/-- The modifiers. -/
def modifiers (p : Parameter) : Query ModifierFacts :=
  match p.form with
  | .plain => pure {}
  | .detailed _ display => do
    let c ← Action.ensureComplete .modifiers SymbolFacts.modifiersSlot (lift (p.computeModifiers display))
    return c.value

/-- What is known about null values. -/
def flow (p : Parameter) : Query FlowFacts :=
  match p.form with
  | .plain => pure {}
  | .detailed .. =>
    Action.ensureComplete .flowAnalysis SymbolFacts.flowSlot do
      let bag ← p.attributes
      return ⟨bag.data.flow, bag.data.notNullIf⟩

/-- How the parameter is passed to unmanaged code. -/
def marshalling (p : Parameter) : Query (Option MarshalKind) :=
  match p.form with
  | .plain => pure none
  | .detailed .. =>
    Action.ensureComplete .marshalling SymbolFacts.marshallingSlot do
      let bag ← p.attributes
      return bag.data.marshalling

/-- A fact that an attribute alone decides. -/
def attributeFlag (p : Parameter) (f : ParamData → Bool) : Query Bool :=
  match p.form with
  | .plain => pure false
  | .detailed .. => do
    let bag ← p.attributes
    return f bag.data

/-- Is the attribute `Optional` there? -/
def hasOptionalAttribute (p : Parameter) : Query Bool := p.attributeFlag (·.optional)

/-- May callers leave the argument out? The attributes are asked for only if nothing is written
with `=`. -/
def isMetadataOptional (p : Parameter) : Query Bool :=
  if p.caps.hasDefaultSyntax then pure true else p.hasOptionalAttribute

/-- The default value, from whichever way of giving one is in effect. -/
def explicitDefaultValue (p : Parameter) : Query (Option Constant) := do
  let d ← p.defaults
  return d.written.or d.attributed

/-- A summary of everything about a parameter. -/
structure Facts where
  name : String
  ordinal : Nat
  type : String
  refKind : RefKind
  isDiscard : Bool
  isParams : Bool
  isOptional : Bool
  defaultValue : Option String
  caller : CallerInfo
  marshalling : Option MarshalKind
  flow : FlowAnnotations
  customModifiers : List CustomModifier
  attributes : List String
  deriving DecidableEq

/-- Finds everything out and sums it up. -/
def facts (p : Parameter) : Query Facts := do
  let modifiers ← p.modifiers
  let isOptional ← p.isMetadataOptional
  let defaultValue ← p.explicitDefaultValue
  let defaults ← p.defaults
  let marshalling ← p.marshalling
  let flow ← p.flow
  let bag ← p.attributes
  return {
    name := p.name
    ordinal := p.ordinal
    type := p.type.text
    refKind := p.refKind
    isDiscard := p.caps.isDiscard
    isParams := modifiers.isParams
    isOptional
    defaultValue := defaultValue.map Constant.text
    caller := defaults.caller
    marshalling
    flow := flow.annotations
    customModifiers := modifiers.customModifiers
    attributes := bag.entries.map (·.name) }

/-- Finds everything out. -/
def completeAll (p : Parameter) : Query Unit := do
  let _ ← p.attributes
  let _ ← p.defaults
  let _ ← p.modifiers
  let _ ← p.flow
  let _ ← p.marshalling

/-- What was reported while facts were found out: attributes, then the default value, then
modifiers. -/
def diagnostics (p : Parameter) (f : SymbolFacts) : List Diagnostic :=
  match p.form with
  | .plain => []
  | .detailed .. =>
    (f.attributes.elim [] (·.diagnostics)) ++ (f.defaults.elim [] (·.diagnostics))
      ++ (f.modifiers.elim [] (·.diagnostics))

end Parameter

end DeclFront
