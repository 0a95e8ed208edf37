import DeclFront.Symbol.Table

/-!
# Questions about symbols

Everything that can be asked about a symbol and may have to be found out first, as one type of
questions with one type of answers.
-/

set_option autoImplicit false

namespace DeclFront

/-- What can be asked about a parameter only. -/
inductive ParamQuestion where
  | hasOptionalAttribute
  | isMetadataOptional
  | isIDispatchConstant
  | isIUnknownConstant
  | explicitDefaultValue
  | defaultValueFromAttributes
  | hasDefaultValue
  | isCallerFilePath
  | isCallerLineNumber
  | isCallerMemberName
  | isParams
  | customModifiers
  | flowAnnotations
  | notNullIf
  | marshalling
  | hasDefaultSyntax
  | isDiscard
  | isExtensionReceiver
  | facts
  deriving DecidableEq

/-- What can be asked about a symbol. -/
inductive Question where
  /-- The attributes. -/
  | attributes
  /-- Does an attribute with a meaning stand among them? -/
  | has (attr : WellKnown)
  /-- Nothing, but everything is found out. -/
  | completeAll
  | param (q : ParamQuestion)
  deriving DecidableEq

/-- What is answered. -/
inductive Answer where
  | done
  | bag (b : AttributesBag)
  | bool (b : Bool)
  | constant (c : Option Constant)
  | customModifiers (ms : List CustomModifier)
  | flow (a : FlowAnnotations)
  | names (ns : List String)
  | marshalling (m : Option MarshalKind)
  | facts (f : Parameter.Facts)
  deriving DecidableEq

/-- A question answered about a parameter. -/
def Parameter.ask (p : Parameter) : ParamQuestion → Query Answer
  | .hasOptionalAttribute => return .bool (← p.hasOptionalAttribute)
  | .isMetadataOptional => return .bool (← p.isMetadataOptional)
  | .isIDispatchConstant => return .bool (← p.attributeFlag (·.iDispatchConstant))
  | .isIUnknownConstant => return .bool (← p.attributeFlag (·.iUnknownConstant))
  | .explicitDefaultValue => return .constant (← p.explicitDefaultValue)
  | .defaultValueFromAttributes => return .constant (← p.defaults).attributed
  | .hasDefaultValue => return .bool (← p.explicitDefaultValue).isSome
  | .isCallerFilePath => return .bool (← p.defaults).caller.filePath
  | .isCallerLineNumber => return .bool (← p.defaults).caller.lineNumber
  | .isCallerMemberName => return .bool (← p.defaults).caller.memberName
  | .isParams => return .bool (← p.modifiers).isParams
  | .customModifiers => return .customModifiers (← p.modifiers).customModifiers
  | .flowAnnotations => return .flow (← p.flow).annotations
  | .notNullIf => return .names (← p.flow).notNullIf
  | .marshalling => return .marshalling (← p.marshalling)
  | .hasDefaultSyntax => return .bool p.caps.hasDefaultSyntax
  | .isDiscard => return .bool p.caps.isDiscard
  | .isExtensionReceiver => return .bool p.isExtensionReceiver
  | .facts => return .facts (← p.facts)

/-- A question answered about a symbol; `none` if it can be asked about parameters only and the
symbol is none. -/
def Symbol.ask? (s : Symbol) : Question → Option (Query Answer)
  | .attributes => some (return .bag (← s.attributes))
  | .has attr => some (return .bool ((← s.attributes).has attr))
  | .completeAll => some do
    s.completeAll
    return .done
  | .param q => s.parameter?.map (·.ask q)

end DeclFront
