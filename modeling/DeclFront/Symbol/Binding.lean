import DeclFront.SourceFile
import DeclFront.Symbol.Table

/-!
# Binding

From files to a table of symbols. Each file is collected on its own: its types, their methods and
the parameters of those, as far as they have the names that they need, and a report for each
parameter whose name was used before in its method. Then indices are given out in order, and each
type whose name was declared before is reported.
-/

set_option autoImplicit false

namespace DeclFront

/-- What the declaration of a method says. -/
structure MethodDecl where
  name : String
  ordinal : Nat
  location : Location
  typeParams : List String
  tree : Option TreeRef
  params : List ParamDecl

/-- What the declaration of a type says. -/
structure TypeDecl where
  name : String
  ordinal : Nat
  location : Location
  typeParams : List String
  tree : Option TreeRef
  methods : List MethodDecl

namespace Collect

/-- The declaration of a node, kept only if it has attributes. -/
def attributed (file : String) (n : Node) : Option TreeRef :=
  if n.attributes.isEmpty then none else some ⟨file, n⟩

/-- The names of a generic list. -/
def typeParams (n : Node) : List String :=
  match n.generics? with
  | none => []
  | some g => g.genericNames.map (·.token.text)

/-- How a parameter with the given modifier is passed. -/
def refKind : Option TokenKind → RefKind
  | some .kwRef => .ref
  | some .kwOut => .out
  | some .kwIn => .in
  | _ => .none

/-- The parameters of a method collected so far, the names used so far, and the reports. -/
structure Params where
  decls : List ParamDecl := []
  seen : List String := []
  diagnostics : List Diagnostic := []

/-- The parameters with one more. A parameter without a name or type has been complained about by
the parser and is left out. The name `_` may be used any number of times. -/
def Params.add (file method : String) (ps : Params) (n : Node) : Params :=
  match n.nameToken?, n.typeRef?.bind fun t => t.nameToken?.map fun name => (t, name) with
  | some nameToken, some (typeRef, typeName) =>
    let name := nameToken.token.text
    let display := method ++ "(" ++ name ++ ")"
    let location : Location := ⟨file, nameToken.range⟩
    let isDiscard : Bool := name = "_"
    let repeated := !isDiscard && ps.seen.contains name
    let modifier := n.modifier?.map (·.token.kind)
    let decl : ParamDecl := {
      ordinal := ps.decls.length
      name
      type := ⟨typeName.token.text, typeRef.isArray, typeRef.isNullable⟩
      refKind := refKind modifier
      caps := {
        hasAttributes := !n.attributes.isEmpty
        hasDefaultSyntax := n.defaultValue?.isSome
        isVariadic := modifier = some .kwParams
        isDiscard }
      location
      tree := ⟨file, n⟩
      display }
    { decls := ps.decls ++ [decl]
      seen := if isDiscard then ps.seen else name :: ps.seen
      diagnostics := if repeated then
          ps.diagnostics ++ [(Finding.duplicateParameter name).report (.symbol display) (some location)]
        else ps.diagnostics }
  | _, _ => ps

/-- The parameters of a method. -/
def params (file method : String) (n : Node) : Params :=
  match n.paramList? with
  | none => {}
  | some list => list.params.foldl (Params.add file method) {}

/-- The methods of a type collected so far, and the reports. -/
structure Methods where
  decls : List MethodDecl := []
  diagnostics : List Diagnostic := []

/-- The methods with one more. A method without a name is left out. -/
def Methods.add (file type : String) (ms : Methods) (n : Node) : Methods :=
  match n.nameToken? with
  | none => ms
  | some t =>
    let name := t.token.text
    let ps := params file (type ++ "." ++ name) n
    { decls := ms.decls ++
        [⟨name, ms.decls.length, ⟨file, t.range⟩, typeParams n, attributed file n, ps.decls⟩]
      diagnostics := ms.diagnostics ++ ps.diagnostics }

/-- The types of a file collected so far, and the reports. -/
structure Types where
  decls : List TypeDecl := []
  diagnostics : List Diagnostic := []

/-- The types with one more. A type without a name is left out. -/
def Types.add (file : String) (ts : Types) (n : Node) : Types :=
  match n.nameToken? with
  | none => ts
  | some t =>
    let name := t.token.text
    let ms := n.methods.foldl (Methods.add file name) {}
    { decls := ts.decls ++
        [⟨name, ts.decls.length, ⟨file, t.range⟩, typeParams n, attributed file n, ms.decls⟩]
      diagnostics := ts.diagnostics ++ ms.diagnostics }

/-- The types of a file. -/
def file (f : SourceFile) : Types :=
  f.parsed.root.typeDecls.foldl (Types.add f.name) {}

end Collect

namespace MethodDecl

/-- The number of symbols of a method: itself and its parameters. -/
def symbolCount (m : MethodDecl) : Nat := 1 + m.params.length

/-- The symbols of a method at index `ix` of the type named `type` at index `owner`. -/
def symbols (owner : Nat) (type : String) (ix : Nat) (m : MethodDecl) : List Symbol :=
  .method {
    owner
    name := m.name
    ordinal := m.ordinal
    typeParams := m.typeParams
    locations := [m.location]
    params := (List.range m.params.length).map (ix + 1 + ·)
    attributes := ⟨m.tree, .method, type ++ "." ++ m.name⟩ }
  :: m.params.map fun p => .parameter (.ofDecl ix p)

/-- The symbols of methods that stand one behind another from index `ix` on. -/
def allSymbols (owner : Nat) (type : String) : Nat → List MethodDecl → List Symbol
  | _, [] => []
  | ix, m :: ms => m.symbols owner type ix ++ allSymbols owner type (ix + m.symbolCount) ms

/-- The indices of methods that stand one behind another from index `ix` on. -/
def indices : Nat → List MethodDecl → List Nat
  | _, [] => []
  | ix, m :: ms => ix :: indices (ix + m.symbolCount) ms

end MethodDecl

namespace TypeDecl

/-- The number of symbols of a type: itself, its methods and their parameters. -/
def symbolCount (t : TypeDecl) : Nat :=
  1 + t.methods.foldr (fun m n => m.symbolCount + n) 0

/-- The symbols of a type at index `ix`. -/
def symbols (ix : Nat) (t : TypeDecl) : List Symbol :=
  .type {
    name := t.name
    ordinal := t.ordinal
    typeParams := t.typeParams
    locations := [t.location]
    members := MethodDecl.indices (ix + 1) t.methods
    attributes := ⟨t.tree, .type, t.name⟩ }
  :: MethodDecl.allSymbols ix t.name (ix + 1) t.methods

/-- The symbols of types that stand one behind another from index `ix` on. -/
def allSymbols : Nat → List TypeDecl → List Symbol
  | _, [] => []
  | ix, t :: ts => t.symbols ix ++ allSymbols (ix + t.symbolCount) ts

/-- The report of a type whose name was declared before. -/
def repeatedReport (t : TypeDecl) : Diagnostic :=
  (Finding.duplicateType t.name).report (.symbol t.name) (some t.location)

end TypeDecl

namespace SymbolTable

/-- The names with an index, extended by the types from index `ix` on whose name is new, and the
reports of the others. -/
def addNames (names : List (String × Nat)) (ix : Nat) : List TypeDecl → List (String × Nat) × List Diagnostic
  | [] => (names, [])
  | t :: ts =>
    if names.any (·.1 = t.name) then
      let r := addNames names (ix + t.symbolCount) ts
      (r.1, t.repeatedReport :: r.2)
    else addNames (names ++ [(t.name, ix)]) (ix + t.symbolCount) ts

/-- The names of the types of files, and the reports, file by file. -/
def bindNames (names : List (String × Nat)) (ix : Nat) : List Collect.Types → List (String × Nat) × List Diagnostic
  | [] => (names, [])
  | f :: fs =>
    let r := addNames names ix f.decls
    let others := bindNames r.1 (ix + f.decls.foldr (fun t n => t.symbolCount + n) 0) fs
    (others.1, f.diagnostics ++ r.2 ++ others.2)

/-- The table of the symbols of files. -/
def ofFiles (files : List SourceFile) : SymbolTable :=
  let collected := files.map Collect.file
  let names := bindNames [] 0 collected
  { symbols := (TypeDecl.allSymbols 0 (collected.flatMap (·.decls))).toArray
    types := names.1
    diagnostics := names.2 }

end SymbolTable

end DeclFront
