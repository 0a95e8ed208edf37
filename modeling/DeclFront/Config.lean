import DeclFront.Error
import DeclFront.Json.Reader

/-!
# Configuration

How long the driver waits for a generator, whether generators run at once, and on how many workers.
The settings are a section of a JSON document; what is not set has a default.
-/

set_option autoImplicit false

namespace DeclFront

/-- The settings of the generator driver. -/
structure Config where
  /-- How long the driver waits for one call of a generator, in milliseconds. -/
  timeoutMs : Nat := 10000
  /-- Without it, generators run one after another. -/
  parallel : Bool := true
  /-- The size of the pool that generators run on; zero leaves the choice to the pool. -/
  workers : Nat := 0
  deriving DecidableEq

namespace Config

/-- The name of the section. -/
def sectionName : String := "symgen"

/-- The names of the settings, in the order in which a list gives them. -/
def settingNames : List String :=
  ["generatorTimeoutMs", "parallelGenerators", "workerThreads"]

/-- A natural number of 64 bits; nothing else is read as one. -/
def readNatural : JsonValue → Option Nat
  | .number (.natural n) => some n
  | _ => none

/-- A truth value; nothing else is read as one. -/
def readBool : JsonValue → Option Bool
  | .bool b => some b
  | _ => none

/-- The value of a setting that may be missing; one that is there must be readable. -/
def setting {α : Type} (read : JsonValue → Option α) (default : α) : Option JsonValue → Option α
  | none => some default
  | some v => read v

/-- The settings from the values given for them. -/
def ofValues (timeout parallel workers : Option JsonValue) : Option Config := do
  let timeout ← setting readNatural ({} : Config).timeoutMs timeout
  let parallel ← setting readBool ({} : Config).parallel parallel
  let workers ← setting readNatural ({} : Config).workers workers
  pure ⟨timeout, parallel, workers⟩

/-- The settings from a section: an object with the settings by name, or a list with as many of
them as it has items. -/
def ofSection : JsonValue → Option Config
  | .object fields =>
    let value := JsonValue.lookup fields
    ofValues (value "generatorTimeoutMs") (value "parallelGenerators") (value "workerThreads")
  | .array items =>
    if items.length ≤ settingNames.length then ofValues items[0]? items[1]? items[2]? else none
  | _ => none

/-- The error of a document that cannot be decoded. -/
def undecodable (cause : Error) : Error :=
  .process "failed to decode configuration" (some cause)

/-- The settings from a JSON document. -/
def ofText (text : String) : Except Error Config :=
  match JsonValue.ofText text.toList with
  | .error problem => .error (undecodable (.invalidJson problem))
  | .ok (.object fields) =>
    match JsonValue.lookup fields sectionName with
    | none => .ok {}
    | some part =>
      match ofSection part with
      | none => .error (undecodable .unexpectedShape)
      | some config => .ok config
  | .ok _ => .error (.process "configuration must be a JSON object" none)

end Config

end DeclFront
