import DeclFront.Syntax.Lexer
import DeclFront.Syntax.Rule

/-!
# The grammar of declarations

```text
file       = type*
type       = attr* "type" name generics? "{" method* "}"
method     = attr* "fn" name generics? "(" (param ("," param)*)? ")" ";"
generics   = "<" name ("," name)* ">"
param      = attr* modifier? typeref name ("=" literal)?
typeref    = name ("[" "]")? "?"?
attr       = "[" name ("(" (literal ("," literal)*)? ")")? "]"
```

`parse` answers with a tree for every text. What does not fit is complained about and either left
out or kept in a node of the kind `error`.
-/

set_option autoImplicit false

namespace DeclFront

namespace Grammar

open Rule

/-- A literal, or a bare name in its place. An `unknown` token is taken; anything else is left. -/
def literal : Rule := fun i =>
  match i.next? with
  | some .unknown => reject .expectedLiteral i
  | some kind =>
    if kind.isLiteral then
      let a := settle i
      a ++ node .literal bump a.rest
    else complain .expectedLiteral i
  | none => complain .expectedLiteral i

/-- `name`, `name[]`, `name?` or `name[]?`, starting at the name. -/
def typeRef : Rule :=
  node .typeRef (inOrder
    [bump, optional .leftBracket (inOrder [bump, expect .rightBracket]), optional .question bump])

/-- One argument of an attribute. Arguments go on after a comma and stop before a closing token. -/
def argumentTurn (i : Input) : Turn :=
  match i.next? with
  | none | some .rightParen | some .rightBracket => .last (settle i)
  | some _ =>
    let a := literal i
    if a.rest.next? = some .comma then .again (a ++ bump a.rest) else .last (a ++ settle a.rest)

/-- Reading a literal gives nothing back. -/
theorem literal_shrinks : Shrinks literal := by
  intro i
  unfold literal
  split
  · exact reject_shrinks _ i
  · split
    · exact bump_shrinks (settle i).rest
    · exact complain_shrinks _ i
  · exact complain_shrinks _ i

/-- The arguments of an attribute go on only after a comma that was taken. -/
theorem argumentTurn_advances : Advances argumentTurn := by
  intro i a h
  unfold argumentTurn at h
  split at h
  · simp at h
  · simp at h
  · simp at h
  · dsimp only at h
    split at h
    · rename_i comma
      cases h
      exact Nat.lt_of_lt_of_le (bump_lt comma) (literal_shrinks i)
    · simp at h

/-- Reading an argument gives nothing back. -/
theorem argumentTurn_shrinks (i : Input) : (argumentTurn i).reading.rest.lexemes.length ≤ i.lexemes.length := by
  unfold argumentTurn
  split
  · exact settle_shrinks i
  · exact settle_shrinks i
  · exact settle_shrinks i
  · dsimp only
    split
    · exact Nat.le_trans (bump_shrinks _) (literal_shrinks i)
    · exact literal_shrinks i

/-- The arguments of an attribute, starting at the opening parenthesis. -/
def attributeArgs : Rule :=
  node .attributeArgs (inOrder [bump, loop argumentTurn argumentTurn_advances, expect .rightParen])

/-- One attribute, starting at the opening bracket. -/
def attributeItem : Rule :=
  node .attributeItem (inOrder
    [bump, expect .identifier, optional .leftParen attributeArgs, expect .rightBracket])

/-- Reading an argument list gives nothing back. -/
theorem attributeArgs_shrinks : Shrinks attributeArgs := by
  apply node_shrinks
  apply inOrder_shrinks
  intro p hp
  simp only [List.mem_cons, List.not_mem_nil, or_false] at hp
  rcases hp with rfl | rfl | rfl
  · exact bump_shrinks
  · exact loop_shrinks _ _ argumentTurn_shrinks
  · exact expect_shrinks _

/-- Reading an attribute takes its opening bracket at least. -/
theorem attributeItem_lt {i : Input} {k : TokenKind} (h : i.next? = some k) : (attributeItem i).rest.lexemes.length < i.lexemes.length := by
  apply inOrder_lt (p := bump) (bump_lt h)
  intro q hq
  simp only [List.mem_cons, List.not_mem_nil, or_false] at hq
  rcases hq with rfl | rfl | rfl
  · exact expect_shrinks _
  · exact optional_shrinks _ attributeArgs_shrinks
  · exact expect_shrinks _

/-- One more attribute, if the next lexeme opens one. -/
def attributeTurn (i : Input) : Turn :=
  let a := settle i
  if i.next? = some .leftBracket then .again (a ++ attributeItem a.rest) else .last a

/-- Attributes go on only after one that was read. -/
theorem attributeTurn_advances : Advances attributeTurn := by
  intro i a h
  unfold attributeTurn at h
  dsimp only at h
  split at h
  · rename_i bracket
    cases h
    exact attributeItem_lt (i := (settle i).rest) bracket
  · simp at h

/-- Reading one more attribute, if there is one, gives nothing back. -/
theorem attributeTurn_shrinks (i : Input) : (attributeTurn i).reading.rest.lexemes.length ≤ i.lexemes.length := by
  unfold attributeTurn
  dsimp only
  split
  · rename_i bracket
    exact Nat.le_of_lt (attributeItem_lt (i := (settle i).rest) bracket)
  · exact settle_shrinks i

/-- The attributes in front of a declaration. -/
def attributes : Rule :=
  loop attributeTurn attributeTurn_advances

/-- Reading attributes gives nothing back. -/
theorem attributes_shrinks : Shrinks attributes :=
  loop_shrinks _ _ attributeTurn_shrinks

/-- Reading attributes takes a bracket at least, if one comes next. -/
theorem attributes_lt {i : Input} (h : i.next? = some .leftBracket) : (attributes i).rest.lexemes.length < i.lexemes.length := by
  unfold attributes loop
  split
  · rename_i a ha
    simp [attributeTurn, h] at ha
  · rename_i a ha
    have first := attributeTurn_advances i a ha
    have others := attributes_shrinks a.rest
    exact Nat.lt_of_le_of_lt others first

/-- The modifier of a parameter, if there is one. A second one is complained about and taken. -/
def modifier : Rule := fun i =>
  let a := settle i
  if i.next?.any TokenKind.isParameterModifier then
    let b := bump a.rest
    let c := settle b.rest
    if b.rest.next?.any TokenKind.isParameterModifier then a ++ b ++ c ++ reject .secondModifier c.rest
    else a ++ b ++ c
  else a

/-- The type, name and default value of a parameter. -/
def typedName : Rule := fun i =>
  let a := settle i
  if i.next? = some .identifier then
    a ++ inOrder
      [typeRef, expect .identifier, optional .equals (node .defaultValue (inOrder [bump, literal]))]
      a.rest
  else a ++ complain .expectedParameterType a.rest

/-- One parameter. It may turn out empty. -/
def param : Rule :=
  node .param (inOrder [attributes, modifier, typedName])

/-- Reading a written type gives nothing back. -/
theorem typeRef_shrinks : Shrinks typeRef := by
  apply node_shrinks
  apply inOrder_shrinks
  intro p hp
  simp only [List.mem_cons, List.not_mem_nil, or_false] at hp
  rcases hp with rfl | rfl | rfl
  · exact bump_shrinks
  · apply optional_shrinks
    apply inOrder_shrinks
    intro q hq
    simp only [List.mem_cons, List.not_mem_nil, or_false] at hq
    rcases hq with rfl | rfl
    · exact bump_shrinks
    · exact expect_shrinks _
  · exact optional_shrinks _ bump_shrinks

/-- Reading a modifier gives nothing back. -/
theorem modifier_shrinks : Shrinks modifier := by
  intro i
  unfold modifier
  dsimp only
  split
  · split
    · exact Nat.le_trans (reject_shrinks _ _) (bump_shrinks (settle i).rest)
    · exact bump_shrinks (settle i).rest
  · exact settle_shrinks i

/-- Reading type, name and default value of a parameter gives nothing back. -/
theorem typedName_shrinks : Shrinks typedName := by
  intro i
  unfold typedName
  dsimp only
  split
  · apply inOrder_shrinks (i := (settle i).rest)
    intro p hp
    simp only [List.mem_cons, List.not_mem_nil, or_false] at hp
    rcases hp with rfl | rfl | rfl
    · exact typeRef_shrinks
    · exact expect_shrinks _
    · apply optional_shrinks
      apply node_shrinks
      apply inOrder_shrinks
      intro q hq
      simp only [List.mem_cons, List.not_mem_nil, or_false] at hq
      rcases hq with rfl | rfl
      · exact bump_shrinks
      · exact literal_shrinks
  · exact settle_shrinks i

/-- Reading a parameter gives nothing back, though it may take nothing. -/
theorem param_shrinks : Shrinks param := by
  apply node_shrinks
  apply inOrder_shrinks
  intro p hp
  simp only [List.mem_cons, List.not_mem_nil, or_false] at hp
  rcases hp with rfl | rfl | rfl
  · exact attributes_shrinks
  · exact modifier_shrinks
  · exact typedName_shrinks

/-- One parameter with the comma behind it. A lexeme that starts no parameter is complained about
and taken; a parameter that ends at neither a comma nor the closing parenthesis ends the list. -/
def paramTurn (i : Input) : Turn :=
  match i.next? with
  | none | some .rightParen => .last (settle i)
  | some _ =>
    let a := settle i
    let b := param a.rest
    let c := settle b.rest
    let read := a ++ b ++ c
    if b.rest.next? = some .comma then .again (read ++ bump c.rest)
    else if b.rest.lexemes.length = i.lexemes.length then .again (read ++ reject .expectedParameter c.rest)
    else if b.rest.next? = some .rightParen then .again read
    else .last read

/-- Parameters go on only after a comma, or after a lexeme that was taken with a complaint. -/
theorem paramTurn_advances : Advances paramTurn := by
  intro i a h
  unfold paramTurn at h
  split at h
  · simp at h
  · simp at h
  · rename_i kind _ some
    dsimp only at h
    have shrinks := param_shrinks (settle i).rest
    split at h
    · rename_i comma
      cases h
      exact Nat.lt_of_lt_of_le (bump_lt (i := (settle (param (settle i).rest).rest).rest) comma) shrinks
    · split at h
      · rename_i same
        cases h
        have more : ∃ k, (param (settle i).rest).rest.next? = Option.some k := by
          cases rest : (param (settle i).rest).rest.lexemes with
          | nil =>
              rw [rest] at same
              have none := List.length_eq_zero_iff.mp same.symm
              simp [Input.next?, none] at some
          | cons l ls => exact ⟨l.token.kind, by simp [Input.next?, rest]⟩
        obtain ⟨k, hk⟩ := more
        exact Nat.lt_of_lt_of_le (reject_lt .expectedParameter (i := (settle (param (settle i).rest).rest).rest) hk) shrinks
      · rename_i differs
        split at h
        · cases h
          exact Nat.lt_of_le_of_ne shrinks differs
        · simp at h

/-- Reading a parameter and its comma gives nothing back. -/
theorem paramTurn_shrinks (i : Input) : (paramTurn i).reading.rest.lexemes.length ≤ i.lexemes.length := by
  unfold paramTurn
  split
  · exact settle_shrinks i
  · exact settle_shrinks i
  · dsimp only
    have shrinks := param_shrinks (settle i).rest
    split
    · exact Nat.le_trans (bump_shrinks _) shrinks
    split
    · exact Nat.le_trans (reject_shrinks _ _) shrinks
    split <;> exact shrinks

/-- The parameters of a method with their parentheses. -/
def paramList : Rule :=
  node .paramList fun i =>
    let a := expect .leftParen i
    if i.next? = some .leftParen then
      a ++ inOrder [loop paramTurn paramTurn_advances, expect .rightParen] a.rest
    else a

/-- One more name of a generic list, behind its comma. -/
def genericTurn (i : Input) : Turn :=
  let a := expect .identifier i
  let b := settle a.rest
  if a.rest.next? = some .comma then .again (a ++ b ++ bump b.rest) else .last (a ++ b)

/-- The names of a generic list go on only after a comma. -/
theorem genericTurn_advances : Advances genericTurn := by
  intro i a h
  unfold genericTurn at h
  dsimp only at h
  split at h
  · rename_i comma
    cases h
    exact Nat.lt_of_lt_of_le (bump_lt (i := (settle (expect .identifier i).rest).rest) comma) (expect_shrinks _ i)
  · simp at h

/-- Reading one more of these names gives nothing back. -/
theorem genericTurn_shrinks (i : Input) : (genericTurn i).reading.rest.lexemes.length ≤ i.lexemes.length := by
  unfold genericTurn
  dsimp only
  split
  · exact Nat.le_trans (bump_shrinks _) (expect_shrinks _ i)
  · exact expect_shrinks _ i

/-- The names of a generic list with their angle brackets, starting at the opening one. -/
def genericList : Rule :=
  node .genericList (inOrder [bump, loop genericTurn genericTurn_advances, expect .rightAngle])

/-- One method. -/
def methodDecl : Rule :=
  node .methodDecl (inOrder
    [attributes, expect .kwFn, expect .identifier, optional .leftAngle genericList, paramList,
      expect .semicolon])

/-- Reading a parameter list gives nothing back. -/
theorem paramList_shrinks : Shrinks paramList := by
  apply node_shrinks
  intro i
  dsimp only
  split
  · refine Nat.le_trans (inOrder_shrinks ?_ (expect .leftParen i).rest) (expect_shrinks _ i)
    intro p hp
    simp only [List.mem_cons, List.not_mem_nil, or_false] at hp
    rcases hp with rfl | rfl
    · exact loop_shrinks _ _ paramTurn_shrinks
    · exact expect_shrinks _
  · exact expect_shrinks _ i

/-- Reading a generic list gives nothing back. -/
theorem genericList_shrinks : Shrinks genericList := by
  apply node_shrinks
  apply inOrder_shrinks
  intro p hp
  simp only [List.mem_cons, List.not_mem_nil, or_false] at hp
  rcases hp with rfl | rfl | rfl
  · exact bump_shrinks
  · exact loop_shrinks _ _ genericTurn_shrinks
  · exact expect_shrinks _

/-- What follows the attributes of a method never gives lexemes back. -/
theorem methodTail_shrinks : ∀ q ∈ [expect .identifier, optional .leftAngle genericList, paramList, expect .semicolon], Shrinks q := by
  intro q hq
  simp only [List.mem_cons, List.not_mem_nil, or_false] at hq
  rcases hq with rfl | rfl | rfl | rfl
  · exact expect_shrinks _
  · exact optional_shrinks _ genericList_shrinks
  · exact paramList_shrinks
  · exact expect_shrinks _

/-- A declaration that starts with its attributes or its keyword takes at least one lexeme. -/
theorem attributed_lt {keyword : TokenKind} {tail : List Rule} {i : Input} (h : i.next? = some keyword ∨ i.next? = some .leftBracket) (shrinks : ∀ q ∈ tail, Shrinks q) : (inOrder (attributes :: expect keyword :: tail) i).rest.lexemes.length < i.lexemes.length := by
  have all : ∀ q ∈ expect keyword :: tail, Shrinks q := by
    intro q hq
    rcases List.mem_cons.mp hq with rfl | hq
    · exact expect_shrinks _
    · exact shrinks q hq
  by_cases bracket : i.next? = some .leftBracket
  · exact inOrder_lt (attributes_lt bracket) all
  · have start : i.next? = some keyword := by
      rcases h with h | h
      · exact h
      · exact absurd h bracket
    have rest : (attributes i).rest = i.settled := by
      unfold attributes loop
      split
      · rename_i a ha
        simp only [attributeTurn, bracket, if_false, Turn.last.injEq] at ha
        rw [← ha]
        rfl
      · rename_i a ha
        simp [attributeTurn, bracket] at ha
    show (inOrder (expect keyword :: tail) (attributes i).rest).rest.lexemes.length < i.lexemes.length
    rw [rest]
    exact inOrder_lt (i := i.settled) (expect_lt (i := i.settled) start) shrinks

/-- Reading a method takes a lexeme at least, at what a method can start with. -/
theorem methodDecl_lt {i : Input} (h : i.next? = some .kwFn ∨ i.next? = some .leftBracket) : (methodDecl i).rest.lexemes.length < i.lexemes.length :=
  attributed_lt h methodTail_shrinks

/-- One member of a type, or the end of its body. A type keyword ends the body too: most likely
the closing brace was forgotten. -/
def memberTurn (i : Input) : Turn :=
  let a := settle i
  match i.next? with
  | some .rightBrace => .last (a ++ bump a.rest)
  | some .kwFn | some .leftBracket => .again (a ++ methodDecl a.rest)
  | some .kwType | none => .last (a ++ complain (.expected .rightBrace) a.rest)
  | some _ => .again (a ++ reject .expectedMethod a.rest)

/-- The members of a type go on only after a method, or after a lexeme that was taken with
a complaint. -/
theorem memberTurn_advances : Advances memberTurn := by
  intro i a h
  unfold memberTurn at h
  dsimp only at h
  split at h
  · simp at h
  · rename_i some
    cases h
    exact methodDecl_lt (i := (settle i).rest) (.inl some)
  · rename_i some
    cases h
    exact methodDecl_lt (i := (settle i).rest) (.inr some)
  · simp at h
  · simp at h
  · rename_i some
    cases h
    exact reject_lt _ (i := (settle i).rest) some

/-- Reading a member gives nothing back. -/
theorem memberTurn_shrinks (i : Input) : (memberTurn i).reading.rest.lexemes.length ≤ i.lexemes.length := by
  unfold memberTurn
  dsimp only
  split
  · exact bump_shrinks (settle i).rest
  · rename_i some
    exact Nat.le_of_lt (methodDecl_lt (i := (settle i).rest) (.inl some))
  · rename_i some
    exact Nat.le_of_lt (methodDecl_lt (i := (settle i).rest) (.inr some))
  · exact settle_shrinks i
  · exact settle_shrinks i
  · rename_i some
    exact Nat.le_of_lt (reject_lt _ (i := (settle i).rest) some)

/-- The body of a type with its braces. -/
def typeBody : Rule := fun i =>
  let a := expect .leftBrace i
  if i.next? = some .leftBrace then a ++ loop memberTurn memberTurn_advances a.rest else a

/-- One type. -/
def typeDecl : Rule :=
  node .typeDecl (inOrder
    [attributes, expect .kwType, expect .identifier, optional .leftAngle genericList, typeBody])

/-- Reading the body of a type gives nothing back. -/
theorem typeBody_shrinks : Shrinks typeBody := by
  intro i
  unfold typeBody
  dsimp only
  split
  · exact Nat.le_trans (loop_shrinks _ _ memberTurn_shrinks _) (expect_shrinks _ i)
  · exact expect_shrinks _ i

/-- Reading a type takes a lexeme at least, at what a type can start with. -/
theorem typeDecl_lt {i : Input} (h : i.next? = some .kwType ∨ i.next? = some .leftBracket) : (typeDecl i).rest.lexemes.length < i.lexemes.length := by
  apply attributed_lt h
  intro q hq
  simp only [List.mem_cons, List.not_mem_nil, or_false] at hq
  rcases hq with rfl | rfl | rfl
  · exact expect_shrinks _
  · exact optional_shrinks _ genericList_shrinks
  · exact typeBody_shrinks

/-- One type of a file, or the end of the file. -/
def fileTurn (i : Input) : Turn :=
  let a := settle i
  match i.next? with
  | none => .last a
  | some .kwType | some .leftBracket => .again (a ++ typeDecl a.rest)
  | some _ => .again (a ++ reject .expectedTypeDecl a.rest)

/-- A file goes on only after a type, or after a lexeme that was taken with a complaint. -/
theorem fileTurn_advances : Advances fileTurn := by
  intro i a h
  unfold fileTurn at h
  dsimp only at h
  split at h
  · simp at h
  · rename_i some
    cases h
    exact typeDecl_lt (i := (settle i).rest) (.inl some)
  · rename_i some
    cases h
    exact typeDecl_lt (i := (settle i).rest) (.inr some)
  · rename_i some
    cases h
    exact reject_lt _ (i := (settle i).rest) some

/-- A whole file. -/
def file : Rule :=
  node .root (loop fileTurn fileTurn_advances)

end Grammar

/-- The tokens that carry meaning, each at its place, in a text that starts at `start`. -/
def placeTokens (start : Nat) : List Token → List PlacedToken
  | [] => []
  | t :: ts =>
    let others := placeTokens (start + Text.byteLength t.chars) ts
    if t.isTrivia then others else ⟨t, start⟩ :: others

/-- The result of reading a text: the parts of its root, and the errors in the order in which they
were found. -/
structure Parse where
  children : List Element
  errors : List SyntaxError

/-- The root of a parse, at the start of its file. -/
def Parse.root (p : Parse) : Node :=
  ⟨.root, p.children, 0⟩

/-- The bytes that a remark is about: those of the lexeme it stands at, or none at the end. -/
def Remark.locate (lexemes : Array PlacedToken) (length : Nat) (r : Remark) : SyntaxError :=
  match lexemes[r.index]? with
  | some t => ⟨t.range, r.complaint⟩
  | none => ⟨⟨length, length⟩, r.complaint⟩

/-- Reads a text. There is a tree for every text. -/
def parse (text : List Char) : Parse :=
  let tokens := lex text
  let reading := Rule.loop Grammar.fileTurn Grammar.fileTurn_advances (Input.ofTokens tokens)
  let lexemes := (placeTokens 0 tokens).toArray
  ⟨reading.elements, reading.remarks.map (Remark.locate lexemes (Text.byteLength text))⟩

end DeclFront
