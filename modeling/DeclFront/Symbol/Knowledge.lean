import DeclFront.Symbol.Binding
import DeclFront.Symbol.Question

/-!
# What is known about the symbols of a table

A table of symbols never changes; what has been found out about them is kept beside it, one memo
for each symbol. Asking a question may fill slots of the memo of the symbol that is asked about,
and of no other.
-/

set_option autoImplicit false

namespace DeclFront

/-- A table with what has been found out about its symbols. -/
structure Knowledge where
  table : SymbolTable
  memos : Array Memo

namespace Knowledge

/-- What is known about a table when it is bound. -/
def ofTable (table : SymbolTable) : Knowledge :=
  ⟨table, table.symbols.map Symbol.initialMemo⟩

/-- What is known about the symbols of files when they are bound. -/
def ofFiles (files : List SourceFile) : Knowledge :=
  ofTable (SymbolTable.ofFiles files)

/-- The memo of the symbol at an index; of no symbol, nothing is known. -/
def memo (k : Knowledge) (ix : Nat) : Memo :=
  k.memos[ix]?.getD ⟨.new .none, {}⟩

/-- A query about the symbol at an index. -/
def query {α : Type} (k : Knowledge) (ix : Nat) (q : Query α) : Except Fault α × Knowledge :=
  let (answer, memo) := q.runOn (k.memo ix)
  (answer, { k with memos := k.memos.setIfInBounds ix memo })

/-- A question about the symbol at an index; `none` if it cannot be asked about it. -/
def ask (k : Knowledge) (ix : Nat) (q : Question) : Option (Except Fault Answer × Knowledge) := do
  let s ← k.table.get? ix
  let query ← s.ask? q
  return k.query ix query

/-- Everything found out about the symbols at some indices, up to a fault. -/
def completeFrom (k : Knowledge) : List (Nat × Symbol) → Except Fault Unit × Knowledge
  | [] => (.ok (), k)
  | (ix, s) :: rest =>
    match k.query ix s.completeAll with
    | (.ok _, k) => k.completeFrom rest
    | (.error f, k) => (.error f, k)

/-- The symbols of the table with their indices. -/
def indexed (k : Knowledge) : List (Nat × Symbol) :=
  (List.range k.table.symbols.size).zip k.table.symbols.toList

/-- Everything found out about all symbols. -/
def completeAll (k : Knowledge) : Except Fault Unit × Knowledge :=
  k.completeFrom k.indexed

/-- What has been reported so far about the symbol at an index. -/
def symbolDiagnostics (k : Knowledge) (ix : Nat) : List Diagnostic :=
  match k.table.get? ix with
  | none => []
  | some s => s.diagnostics (k.memo ix).facts

/-- What was reported while the symbols were bound, and then so far about each, in order. -/
def diagnostics (k : Knowledge) : List Diagnostic :=
  k.table.diagnostics ++ k.indexed.flatMap fun (ix, _) => k.symbolDiagnostics ix

end Knowledge

end DeclFront
