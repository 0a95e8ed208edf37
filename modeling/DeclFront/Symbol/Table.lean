import DeclFront.Symbol.Parameter

/-!
# Symbols and their table

The types, methods and parameters that files declare, in one table. A symbol is named by its index:
every type is followed by its methods, and every method by its parameters. Of several types of one
name, only the first is found by name, but all are in the table.
-/

set_option autoImplicit false

namespace DeclFront

/-- The kinds of symbol. -/
inductive SymbolKind where
  | type
  | method
  | parameter
  deriving DecidableEq

/-- The attributes of a type or method: its declaration, kept only if there are any. -/
structure DeclAttributes where
  tree : Option TreeRef
  target : AttributeTarget
  /-- The qualified name. -/
  display : String

/-- A type. -/
structure TypeSymbol where
  name : String
  /-- The position among the types of its file. -/
  ordinal : Nat
  typeParams : List String
  locations : List Location
  /-- The indices of the methods. -/
  members : List Nat
  attributes : DeclAttributes

/-- A method of a type. -/
structure MethodSymbol where
  /-- The index of the type. -/
  owner : Nat
  name : String
  /-- The position among the methods of the type. -/
  ordinal : Nat
  typeParams : List String
  locations : List Location
  /-- The indices of the parameters. -/
  params : List Nat
  attributes : DeclAttributes

/-- Anything that a file declares. -/
inductive Symbol where
  | type (t : TypeSymbol)
  | method (m : MethodSymbol)
  | parameter (p : Parameter)

namespace DeclAttributes

/-- The attributes, from a declaration that has some. -/
def compute (a : DeclAttributes) (tree : TreeRef) : Except Fault (Completed AttributesBag) :=
  let attrs (kind : NodeKind) := if tree.tree.kind = kind then tree.tree.attributes else []
  match a.target with
  | .type => Attributes.bind (attrs .typeDecl) .type tree.place a.display
  | .method => Attributes.bind (attrs .methodDecl) .method tree.place a.display
  | .parameter => .error .unreachable

/-- The attributes. -/
def query (a : DeclAttributes) : Query AttributesBag :=
  match a.tree with
  | none => do
    let _ ← Action.notePart .attributes
    return .empty
  | some tree => do
    let c ← Action.ensureComplete .attributes SymbolFacts.attributesSlot (Parameter.lift (a.compute tree))
    return c.value

end DeclAttributes

namespace Symbol

def name : Symbol → String
  | type t => t.name
  | method m => m.name
  | parameter p => p.name

def kind : Symbol → SymbolKind
  | type _ => .type
  | method _ => .method
  | parameter _ => .parameter

/-- The index of the symbol that a symbol belongs to; types belong to none. -/
def owner? : Symbol → Option Nat
  | type _ => none
  | method m => some m.owner
  | parameter p => some p.owner

def ordinal : Symbol → Nat
  | type t => t.ordinal
  | method m => m.ordinal
  | parameter p => p.ordinal

def locations : Symbol → List Location
  | type t => t.locations
  | method m => m.locations
  | parameter p => p.locations

def parameter? : Symbol → Option Parameter
  | parameter p => some p
  | _ => none

/-- What is complete about a symbol when it is bound. -/
def initialState : Symbol → CompletionState
  | type _ => (CompletionState.new .ofType).marked .members
  | method _ => (CompletionState.new .ofMethod).marked (Parts.type.union .members)
  | parameter p => p.initialState

/-- What has been found out about a symbol when it is bound. -/
def initialMemo (s : Symbol) : Memo := ⟨s.initialState, {}⟩

/-- The attributes. -/
def attributes : Symbol → Query AttributesBag
  | type t => t.attributes.query
  | method m => m.attributes.query
  | parameter p => p.attributes

/-- Finds everything out. -/
def completeAll : Symbol → Query Unit
  | type t => do let _ ← t.attributes.query
  | method m => do let _ ← m.attributes.query
  | parameter p => p.completeAll

/-- What was reported while facts were found out. -/
def diagnostics (s : Symbol) (f : SymbolFacts) : List Diagnostic :=
  match s with
  | type _ | method _ => f.attributes.elim [] (·.diagnostics)
  | parameter p => p.diagnostics f

end Symbol

/-- What a search through declarations shows of one. -/
structure DeclaredSymbol where
  name : String
  kind : SymbolKind
  container : Option String
  parameterCount : Nat
  typeParameterCount : Nat
  file : String
  isNestedType : Bool := false

/-- All symbols of some files. -/
structure SymbolTable where
  symbols : Array Symbol
  /-- The first type of each name, in order of appearance. -/
  types : List (String × Nat)
  /-- What was reported while the symbols were bound. -/
  diagnostics : List Diagnostic

namespace SymbolTable

/-- The symbol at an index. -/
def get? (t : SymbolTable) (ix : Nat) : Option Symbol := t.symbols[ix]?

/-- The symbol at an index of the table. -/
def get (t : SymbolTable) (ix : Nat) : Except Fault Symbol :=
  match t.get? ix with
  | some s => .ok s
  | none => .error .noSuchSymbol

/-- The type at an index. -/
def type? (t : SymbolTable) (ix : Nat) : Option TypeSymbol :=
  match t.get? ix with
  | some (.type s) => some s
  | _ => none

/-- The method at an index. -/
def method? (t : SymbolTable) (ix : Nat) : Option MethodSymbol :=
  match t.get? ix with
  | some (.method s) => some s
  | _ => none

/-- The parameter at an index. -/
def parameter? (t : SymbolTable) (ix : Nat) : Option Parameter :=
  match t.get? ix with
  | some (.parameter s) => some s
  | _ => none

/-- The types that are found by name, in order of appearance. -/
def namedTypes (t : SymbolTable) : List TypeSymbol :=
  t.types.filterMap fun entry => t.type? entry.2

/-- The index of the first type of a name. -/
def typeIndex? (t : SymbolTable) (name : String) : Option Nat :=
  (t.types.find? (·.1 = name)).map Prod.snd

/-- The first type of a name. -/
def lookupType (t : SymbolTable) (name : String) : Option TypeSymbol :=
  (t.typeIndex? name).bind t.type?

/-- The methods of a type, in order. -/
def methodsOf (t : SymbolTable) (s : TypeSymbol) : List MethodSymbol :=
  s.members.filterMap t.method?

/-- The parameters of a method, in order. -/
def parametersOf (t : SymbolTable) (m : MethodSymbol) : List Parameter :=
  m.params.filterMap t.parameter?

/-- The first method of a name in the first type of a name. -/
def findMethod (t : SymbolTable) (type method : String) : Option MethodSymbol := do
  let s ← t.lookupType type
  (t.methodsOf s).find? (·.name = method)

/-- The first parameter of a name in the first method of a name in the first type of a name. -/
def findParameter (t : SymbolTable) (type method param : String) : Option Parameter := do
  let m ← t.findMethod type method
  (t.parametersOf m).find? (·.name = param)

/-- The symbol that the symbol at an index belongs to. -/
def ownerOf (t : SymbolTable) (ix : Nat) : Except Fault (Option Symbol) := do
  let s ← t.get ix
  match s.owner? with
  | none => return none
  | some owner => return some (← t.get owner)

/-- The qualified name of a method. -/
def qualifiedMethod (t : SymbolTable) (m : MethodSymbol) : Except Fault String := do
  let owner ← t.get m.owner
  return owner.name ++ "." ++ m.name

/-- The name of a symbol with the names of what it belongs to: `T`, `T.M`, `T.M(x)`. -/
def qualifiedName (t : SymbolTable) (ix : Nat) : Except Fault String := do
  match ← t.get ix with
  | .type s => return s.name
  | .method m => t.qualifiedMethod m
  | .parameter p =>
    match ← t.get p.owner with
    | .method m => return (← t.qualifiedMethod m) ++ "(" ++ p.name ++ ")"
    | s => return s.name ++ "(" ++ p.name ++ ")"

/-- The file of the first location of a symbol. -/
def fileOf : List Location → String
  | [] => ""
  | l :: _ => l.file

/-- What a search shows of a symbol; parameters are not searched for. -/
def declared (t : SymbolTable) : Symbol → Except Fault (Option DeclaredSymbol)
  | .type s => .ok (some
    { name := s.name, kind := .type, container := none, parameterCount := 0,
      typeParameterCount := s.typeParams.length, file := fileOf s.locations })
  | .method m => do
    let owner ← t.get m.owner
    return some
      { name := m.name, kind := .method, container := some owner.name, parameterCount := m.params.length,
        typeParameterCount := m.typeParams.length, file := fileOf m.locations }
  | .parameter _ => .ok none

/-- What a search shows of all types and methods, in order. -/
def declaredSymbols (t : SymbolTable) : Except Fault (List DeclaredSymbol) := do
  let shown ← t.symbols.toList.mapM t.declared
  return shown.filterMap id

end SymbolTable

end DeclFront
