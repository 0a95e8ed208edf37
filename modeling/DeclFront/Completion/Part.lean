/-!
# Parts of what is known about a symbol

The categories of facts about a symbol that are found out on demand, as a set of bits. Seven bits
have names; a set may hold others, which are kept.
-/

set_option autoImplicit false

namespace DeclFront

/-- A set of parts, one bit each. -/
structure Parts where
  bits : UInt32
  deriving DecidableEq

namespace Parts

def none : Parts := ⟨0⟩

def attributes : Parts := ⟨1⟩

def type : Parts := ⟨2⟩

def defaultValue : Parts := ⟨4⟩

def modifiers : Parts := ⟨8⟩

def flowAnalysis : Parts := ⟨16⟩

def marshalling : Parts := ⟨32⟩

def members : Parts := ⟨64⟩

/-- The parts in either of two sets. -/
def union (a b : Parts) : Parts := ⟨a.bits ||| b.bits⟩

/-- The parts of the first set that are not in the second. -/
def diff (a b : Parts) : Parts := ⟨a.bits &&& ~~~b.bits⟩

/-- Does the first set hold every part of the second? -/
def contains (a b : Parts) : Bool := a.bits &&& b.bits = b.bits

/-- The set of all parts in a list of sets. -/
def unionAll (ps : List Parts) : Parts := ps.foldl union none

/-- The parts of a type. -/
def ofType : Parts := attributes.union members

/-- The parts of a method. -/
def ofMethod : Parts := (attributes.union type).union members

/-- The parts of a parameter. -/
def ofParameter : Parts :=
  unionAll [attributes, type, defaultValue, modifiers, flowAnalysis, marshalling]

/-- The single parts with their names, in order. -/
def named : List (String × Parts) :=
  [("ATTRIBUTES", attributes), ("TYPE", type), ("DEFAULT_VALUE", defaultValue),
    ("MODIFIERS", modifiers), ("FLOW_ANALYSIS", flowAnalysis), ("MARSHALLING", marshalling),
    ("MEMBERS", members)]

/-- The sets of parts with their names, single parts first. -/
def allNamed : List (String × Parts) :=
  named ++ [("TYPE_SYMBOL", ofType), ("METHOD_SYMBOL", ofMethod), ("PARAMETER_SYMBOL", ofParameter)]

/-- The names of the named parts in a set, in order. -/
def names (p : Parts) : List String :=
  (named.filter fun n => p.contains n.2).map Prod.fst

/-- The bits of a set that have no name. -/
def unnamed (p : Parts) : Parts :=
  p.diff (unionAll (named.map Prod.snd))

/-- The number of parts in a set. -/
def count (p : Parts) : Nat :=
  ((List.range 32).filter fun i => p.bits.toNat.testBit i).length

/-- The elements of a set in words: the names, then the bits without names as one number. -/
def words (p : Parts) : List String :=
  if p = none then ["0x0"]
  else if p.unnamed = none then p.names
  else p.names ++ ["0x" ++ String.ofList (Nat.toDigits 16 p.unnamed.bits.toNat)]

/-- A set in words. -/
def text (p : Parts) : String :=
  "CompletionPart(" ++ " | ".intercalate p.words ++ ")"

end Parts

end DeclFront
