import DeclFront.Json.Lexer

/-!
# Reading a JSON document

A document is one value. It is read token by token with a stack of the arrays and objects that are
still open, so that reading ends with the tokens; the stack has a greatest depth.
-/

set_option autoImplicit false

namespace DeclFront

/-- An array or object that is still open, with what it holds so far, the last part first. -/
inductive JsonFrame where
  | array (items : List JsonValue)
  /-- An object, with the name of the field whose value comes next. -/
  | object (fields : List (String × JsonValue)) (name : String)

/-- What may come next. -/
inductive JsonState where
  /-- A value. -/
  | value
  /-- The first value of an array, or its end. -/
  | itemOrEnd
  /-- The first name of an object, or its end. -/
  | nameOrEnd (fields : List (String × JsonValue))
  /-- A name of an object. -/
  | fieldName (fields : List (String × JsonValue))
  /-- The colon behind a name. -/
  | colon (fields : List (String × JsonValue)) (name : String)
  /-- What may follow a value: a comma, or the end of what is open. -/
  | behind (v : JsonValue)

namespace JsonState

/-- The greatest number of arrays and objects that may be open at once. -/
def greatestDepth : Nat := 127

/-- An array or object opened: refused when too many are open. -/
def opened (stack : List JsonFrame) (state : JsonState) (frame : List JsonFrame) : Except JsonProblem (List JsonFrame × JsonState) :=
  if stack.length < greatestDepth then .ok (frame, state) else .error .tooDeep

/-- A token where a value is expected. An object has no frame until a name has been read. -/
def onValue (stack : List JsonFrame) : JsonToken → Except JsonProblem (List JsonFrame × JsonState)
  | .openArray => opened stack .itemOrEnd (.array [] :: stack)
  | .openObject => opened stack (.nameOrEnd []) stack
  | .string s => .ok (stack, .behind (.string s))
  | .scalar v => .ok (stack, .behind v)
  | _ => .error .unexpectedCharacter

/-- One token read. -/
def step (stack : List JsonFrame) (state : JsonState) (t : JsonToken) : Except JsonProblem (List JsonFrame × JsonState) :=
  match state with
  | .value => onValue stack t
  | .itemOrEnd =>
    match t, stack with
    | .closeArray, _ :: outer => .ok (outer, .behind (.array []))
    | t, _ => onValue stack t
  | .nameOrEnd fields =>
    match t with
    | .closeObject => .ok (stack, .behind (.object fields.reverse))
    | .string s => .ok (stack, .colon fields s)
    | _ => .error .unexpectedCharacter
  | .fieldName fields =>
    match t with
    | .string s => .ok (stack, .colon fields s)
    | _ => .error .unexpectedCharacter
  | .colon fields name =>
    match t with
    | .colon => .ok (.object fields name :: stack, .value)
    | _ => .error .unexpectedCharacter
  | .behind v =>
    match t, stack with
    | _, [] => .error .trailingText
    | .comma, .array items :: outer => .ok (.array (v :: items) :: outer, .value)
    | .closeArray, .array items :: outer => .ok (outer, .behind (.array (v :: items).reverse))
    | .comma, .object fields name :: outer => .ok (outer, .fieldName ((name, v) :: fields))
    | .closeObject, .object fields name :: outer => .ok (outer, .behind (.object ((name, v) :: fields).reverse))
    | _, _ => .error .unexpectedCharacter

/-- All tokens read. -/
def run (stack : List JsonFrame) (state : JsonState) : List JsonToken → Except JsonProblem JsonValue
  | [] =>
    match stack, state with
    | [], .behind v => .ok v
    | _, _ => .error .unexpectedEnd
  | t :: ts =>
    match step stack state t with
    | .error e => .error e
    | .ok (stack, state) => run stack state ts

end JsonState

/-- The value of a JSON document. -/
def JsonValue.ofText (cs : List Char) : Except JsonProblem JsonValue := do
  let tokens ← JsonToken.ofText cs
  JsonState.run [] .value tokens

end DeclFront
