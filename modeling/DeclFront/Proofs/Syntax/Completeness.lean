import DeclFront.Proofs.Syntax.Program
import DeclFront.Proofs.Syntax.Builds

/-!
# Programs are read as they are written

On the tokens of a program every rule of the grammar builds the tree of what it reads and has
nothing to complain about.
-/

set_option autoImplicit false

namespace DeclFront

namespace Program

/-! ### The trees of a program -/

/-- Trees with a comma between each two groups of them. -/
def commaBetween (groups : List (List Element)) : List Element :=
  [Element.token (Token.sign ',')].intercalate groups

def Value.element (v : Value) : Element :=
  .node .literal [.token v.token]

def argumentElements : Option (List Value) → List Element
  | none => []
  | some values =>
    [.node .attributeArgs (.token (Token.sign '(') ::
      (commaBetween (values.map fun v => [v.element]) ++ [.token (Token.sign ')')]))]

def Attribute.element (a : Attribute) : Element :=
  .node .attributeItem (.token (Token.sign '[') :: .token a.name.token ::
    (argumentElements a.arguments ++ [.token (Token.sign ']')]))

def genericElements : List Name → List Element
  | [] => []
  | n :: ns =>
    [.node .genericList (.token (Token.sign '<') ::
      (commaBetween ((n :: ns).map fun m => [.token m.token]) ++ [.token (Token.sign '>')]))]

def TypeRef.element (t : TypeRef) : Element :=
  .node .typeRef (.token t.name.token ::
    ((if t.isArray then [.token (Token.sign '['), .token (Token.sign ']')] else []) ++
      if t.isNullable then [.token (Token.sign '?')] else []))

def defaultElements : Option Value → List Element
  | none => []
  | some value => [.node .defaultValue [.token (Token.sign '='), value.element]]

def Param.element (p : Param) : Element :=
  .node .param (p.attributes.map Attribute.element ++
    ((p.modifier.map fun m => .token m.token).toList ++
      (p.type.element :: .token p.name.token :: defaultElements p.default)))

def paramListElement (params : List Param) : Element :=
  .node .paramList (.token (Token.sign '(') ::
    (commaBetween (params.map fun p => [p.element]) ++ [.token (Token.sign ')')]))

def Method.element (m : Method) : Element :=
  .node .methodDecl (m.attributes.map Attribute.element ++ .token Token.kwFn ::
    .token m.name.token :: (genericElements m.generics ++
      [paramListElement m.params, .token (Token.sign ';')]))

def TypeDecl.element (t : TypeDecl) : Element :=
  .node .typeDecl (t.attributes.map Attribute.element ++ .token Token.kwType ::
    .token t.name.token :: (genericElements t.generics ++ .token (Token.sign '\x7b') ::
      (t.methods.map Method.element ++ [.token (Token.sign '\x7d')])))

end Program

namespace Grammar

open Rule Program
open Input (ofBare)

/-- A value is read as it is written. -/
theorem literal_builds (v : Value) : Builds literal [v.token] [v.element] anything := by
  intro rest n _
  cases v with
  | truth b => cases b <;> rfl
  | _ => rfl

/-- A type is read as it is written, with its brackets and its question mark, before a name. -/
theorem typeRef_builds (t : TypeRef) :
    Builds typeRef t.tokens [t.element] (· = some .identifier) := by
  have brackets : Builds (inOrder [bump, expect .rightBracket])
      [Token.sign '[', Token.sign ']'] [.token (Token.sign '['), .token (Token.sign ']')]
      anything :=
    inOrder_cons_builds bump_builds (inOrder_last_builds (expect_builds rfl)) fun _ hl => hl
  have array : Builds (optional .leftBracket (inOrder [bump, expect .rightBracket]))
      (if t.isArray then [Token.sign '[', Token.sign ']'] else [])
      (if t.isArray then [.token (Token.sign '['), .token (Token.sign ']')] else [])
      (· ≠ some .leftBracket) := by
    cases t.isArray with
    | true => exact (optional_some_builds rfl brackets).always
    | false => exact optional_none_builds
  have nullable : Builds (optional .question bump)
      (if t.isNullable then [Token.sign '?'] else [])
      (if t.isNullable then [.token (Token.sign '?')] else []) (· = some .identifier) := by
    cases t.isNullable with
    | true => exact (optional_some_builds (t := Token.sign '?') rfl bump_builds).always
    | false => exact optional_none_builds.narrow fun l hl => by simp [hl]
  have apart : ∀ l, l = some .identifier →
      ahead (if t.isNullable then [Token.sign '?'] else []) l ≠ some .leftBracket := by
    intro l hl
    cases t.isNullable <;> simp [hl, Token.sign, Lexer.punctuation]
  exact node_builds .typeRef (inOrder_cons_builds bump_builds
    (inOrder_cons_builds array (inOrder_last_builds nullable) apart) fun _ _ => trivial)

/-! ### Attributes -/

/-- An argument with a comma behind it is read, and another one follows. -/
theorem argumentTurn_again_builds (v : Value) :
    TurnBuilds argumentTurn .again ([v.token] ++ [Token.sign ','])
      ([v.element] ++ [.token (Token.sign ',')]) anything := by
  intro rest n _
  cases v with
  | truth b => cases b <;> rfl
  | _ => rfl

/-- An argument before the closing parenthesis is the last. -/
theorem argumentTurn_last_builds (v : Value) :
    TurnBuilds argumentTurn .last [v.token] [v.element] (· = some .rightParen) := by
  intro rest n hr
  have next : (ofBare rest (n + 1)).next? ≠ some .comma := by
    rw [Input.next?_ofBare, hr]
    decide
  cases v with
  | truth b => cases b <;> exact if_neg next
  | _ => exact if_neg next

/-- Before the closing parenthesis there may be no argument. -/
theorem argumentTurn_stops : TurnBuilds argumentTurn .last [] [] (· = some .rightParen) := by
  intro rest n hr
  have next : (ofBare rest n).next? = some .rightParen := by rw [Input.next?_ofBare, hr]
  show argumentTurn (ofBare rest n) = _
  unfold argumentTurn
  rw [next]
  rfl

/-- Arguments are read as they are written, by induction on them; without parentheses there is
no list. -/
theorem arguments_builds (arguments : Option (List Value)) :
    Builds (optional .leftParen attributeArgs) (argumentTokens arguments)
      (argumentElements arguments) (· ≠ some .leftParen) := by
  cases arguments with
  | none => exact optional_none_builds
  | some values =>
    have list : Builds (loop argumentTurn argumentTurn_advances)
        (commaSeparated (values.map fun v => [v.token]))
        (commaBetween (values.map fun v => [v.element])) (· = some .rightParen) := by
      cases values with
      | nil => exact loop_last_builds argumentTurn_stops
      | cons v vs =>
        exact loop_commaSeparated_builds argumentTurn_again_builds
          (fun w => loop_last_builds (argumentTurn_last_builds w)) v vs
    have args := node_builds .attributeArgs (inOrder_cons_builds (bump_builds (t := Token.sign '('))
      (inOrder_cons_builds list
        (inOrder_last_builds (expect_builds (t := Token.sign ')') (k := .rightParen) rfl))
        fun _ _ => rfl) fun _ _ => trivial)
    exact (optional_some_builds rfl args).always

/-- An attribute is read as it is written. -/
theorem attributeItem_builds (a : Attribute) :
    Builds attributeItem a.tokens [a.element] anything :=
  node_builds .attributeItem (inOrder_cons_builds bump_builds
    (inOrder_cons_builds (expect_builds rfl)
      (inOrder_cons_builds (arguments_builds a.arguments) (inOrder_last_builds (expect_builds rfl))
        fun _ _ => by simp [Token.sign, Lexer.punctuation])
      fun _ _ => trivial) fun _ _ => trivial)

/-- Attributes are read as they are written, by induction on them. -/
theorem attributes_builds (as : List Attribute) :
    Builds attributes (as.flatMap Attribute.tokens) (as.map Attribute.element)
      (· ≠ some .leftBracket) := by
  have again : ∀ a : Attribute,
      TurnBuilds attributeTurn .again a.tokens [a.element] anything := by
    intro a rest n hr
    have reads := attributeItem_builds a rest n hr
    have next : (ofBare (a.tokens ++ rest) n).next? = some .leftBracket := rfl
    unfold attributeTurn
    dsimp only
    rw [if_pos next, Input.settle_ofBare, reads]
    rfl
  have stops : TurnBuilds attributeTurn .last [] [] (· ≠ some .leftBracket) :=
    fun rest n hr => if_neg (by rw [Input.next?_ofBare]; exact hr)
  have all : Builds attributes (as.flatMap Attribute.tokens ++ [])
      (as.map Attribute.element ++ []) (· ≠ some .leftBracket) :=
    loop_each_builds again (loop_last_builds stops) as
  rw [List.append_nil, List.append_nil] at all
  exact all

/-! ### Parameters -/

/-- A modifier is read as it is written, before a type. -/
theorem modifier_builds (m : Option Modifier) :
    Builds modifier (m.map Modifier.token).toList (m.map fun x => .token x.token).toList
      (· = some .identifier) := by
  intro rest n hr
  have name : ∀ k, (ofBare rest k).next?.any TokenKind.isParameterModifier ≠ true := by
    intro k
    rw [Input.next?_ofBare, hr]
    decide
  cases m with
  | none => exact if_neg (name n)
  | some m =>
    have here : (ofBare (m.token :: rest) n).next?.any TokenKind.isParameterModifier = true := by
      cases m <;> rfl
    show modifier (ofBare (m.token :: rest) n) = _
    unfold modifier
    dsimp only
    rw [if_pos here]
    exact if_neg (name (n + 1))

/-- A default value is read as it is written, or there is none. -/
theorem default_builds (default : Option Value) :
    Builds (optional .equals (node .defaultValue (inOrder [bump, literal])))
      (defaultTokens default) (defaultElements default) (· ≠ some .equals) := by
  cases default with
  | none => exact optional_none_builds
  | some value =>
    have builds := node_builds .defaultValue (inOrder_cons_builds
      (bump_builds (t := Token.sign '=')) (inOrder_last_builds (literal_builds value))
      fun _ _ => trivial)
    exact (optional_some_builds rfl builds).always

/-- Type, name and default value of a parameter are read as they are written. -/
theorem typedName_builds (p : Param) :
    Builds typedName (p.type.tokens ++ p.name.token :: defaultTokens p.default)
      (p.type.element :: .token p.name.token :: defaultElements p.default)
      (· ≠ some .equals) := by
  have parts := inOrder_cons_builds (typeRef_builds p.type)
    (inOrder_cons_builds (expect_builds (t := p.name.token) (k := .identifier) rfl)
      (inOrder_last_builds (default_builds p.default)) fun _ _ => trivial) fun _ _ => rfl
  intro rest n hr
  have next : (ofBare (p.type.tokens ++ p.name.token :: defaultTokens p.default ++ rest) n).next? =
      some .identifier := rfl
  unfold typedName
  dsimp only
  rw [if_pos next]
  exact parts rest n hr

/-- A parameter is read as it is written. -/
theorem param_builds (p : Param) : Builds param p.tokens [p.element] (· ≠ some .equals) := by
  have fits : ∀ l, l ≠ some TokenKind.equals →
      ahead ((p.modifier.map Modifier.token).toList ++
        (p.type.tokens ++ p.name.token :: defaultTokens p.default)) l ≠ some .leftBracket := by
    intro l _
    cases p.modifier with
    | none => simp [TypeRef.tokens, Name.token]
    | some m => cases m <;> simp [Modifier.token]
  exact node_builds .param (inOrder_cons_builds (attributes_builds p.attributes)
    (inOrder_cons_builds (modifier_builds p.modifier) (inOrder_last_builds (typedName_builds p))
      fun _ _ => rfl) fits)

/-- A parameter starts with something, and not with what closes its list. -/
theorem ahead_param (p : Param) (l : Option TokenKind) :
    ∃ k, ahead p.tokens l = some k ∧ k ≠ .rightParen := by
  unfold Param.tokens
  cases p.attributes with
  | cons a as => exact ⟨.leftBracket, rfl, by decide⟩
  | nil =>
    cases p.modifier with
    | none => exact ⟨.identifier, rfl, by decide⟩
    | some m => exact ⟨m.token.kind, rfl, by cases m <;> decide⟩

/-- A parameter is read with the comma behind it, or up to the closing parenthesis. -/
theorem paramTurn_builds {rest : List Token} (p : Param) (n : Nat)
    (hr : rest.head?.map Token.kind = some .comma ∨ rest.head?.map Token.kind = some .rightParen) :
    paramTurn (ofBare (p.tokens ++ rest) n) =
      if rest.head?.map Token.kind = some .comma then
        .again (⟨[p.element], [], ofBare rest (n + p.tokens.length)⟩ ++
          bump (ofBare rest (n + p.tokens.length)))
      else .again ⟨[p.element], [], ofBare rest (n + p.tokens.length)⟩ := by
  have reads := param_builds p rest n (by rcases hr with hr | hr <;> simp [hr])
  obtain ⟨k, starts, opening⟩ := ahead_param p (rest.head?.map Token.kind)
  have next : (ofBare (p.tokens ++ rest) n).next? = some k := by
    rw [Input.next?_ofBare, ahead_head?, starts]
  have shorter : (ofBare rest (n + p.tokens.length)).lexemes.length ≠
      (ofBare (p.tokens ++ rest) n).lexemes.length := by
    have some : p.tokens ≠ [] := by simp [Param.tokens, TypeRef.tokens]
    have pos := List.length_pos_iff.mpr some
    simp only [ofBare, List.length_map, List.length_append]
    omega
  unfold paramTurn
  rw [next]
  split
  · simp at *
  · rename_i closing
    exact absurd (Option.some.inj closing) opening
  · dsimp only
    rw [Input.settle_ofBare]
    dsimp only
    rw [reads]
    dsimp only
    rw [Input.next?_ofBare, if_neg shorter]
    rcases hr with comma | closing
    · rw [if_pos comma, if_pos comma]
      rfl
    · rw [if_pos closing]
      rfl

/-- Parameters are read as they are written, by induction on them. -/
theorem params_builds (params : List Param) :
    Builds (loop paramTurn paramTurn_advances) (commaSeparated (params.map Param.tokens))
      (commaBetween (params.map fun p => [p.element])) (· = some .rightParen) := by
  have stops : TurnBuilds paramTurn .last [] [] (· = some .rightParen) := by
    intro rest n hr
    have next : (ofBare rest n).next? = some .rightParen := by rw [Input.next?_ofBare, hr]
    show paramTurn (ofBare rest n) = _
    unfold paramTurn
    rw [next]
    rfl
  have again : ∀ p : Param, TurnBuilds paramTurn .again (p.tokens ++ [Token.sign ','])
      ([p.element] ++ [.token (Token.sign ',')]) anything := by
    intro p rest n _
    have comma : ([Token.sign ','] ++ rest).head?.map Token.kind = some .comma := rfl
    rw [List.append_assoc, paramTurn_builds p n (.inl comma), if_pos comma, List.length_append,
      ← Nat.add_assoc]
    rfl
  have last : ∀ p : Param, Builds (loop paramTurn paramTurn_advances) p.tokens [p.element]
      (· = some .rightParen) := by
    intro p
    have turn : TurnBuilds paramTurn .again p.tokens [p.element] (· = some .rightParen) := by
      intro rest n hr
      rw [paramTurn_builds p n (.inr hr), if_neg (by rw [hr]; decide)]
    have ends : Builds (loop paramTurn paramTurn_advances) [] [] (· = some .rightParen) :=
      loop_last_builds stops
    have both := loop_again_builds turn ends fun _ hl => hl
    rw [List.append_nil, List.append_nil] at both
    exact both
  cases params with
  | nil => exact loop_last_builds stops
  | cons p ps => exact loop_commaSeparated_builds again last p ps

/-- A parameter list is read as it is written. -/
theorem paramList_builds (params : List Param) :
    Builds paramList (paramTokens params) [paramListElement params] anything := by
  have parts := inOrder_cons_builds (params_builds params)
    (inOrder_last_builds (expect_builds (t := Token.sign ')') (k := .rightParen) rfl))
    fun _ _ => rfl
  refine node_builds .paramList fun rest n hr => ?_
  have next : (ofBare (paramTokens params ++ rest) n).next? = some .leftParen := rfl
  dsimp only
  rw [if_pos next]
  have opening := expect_builds (t := Token.sign '(') (k := .leftParen) rfl
  exact opening.andThen parts (fun _ _ => trivial) rest n hr

/-! ### Declarations -/

/-- A generic list is read as it is written, by induction on its names. -/
theorem genericList_builds (n : Name) (ns : List Name) :
    Builds genericList (genericTokens (n :: ns)) (genericElements (n :: ns)) anything := by
  have again : ∀ m : Name, TurnBuilds genericTurn .again ([m.token] ++ [Token.sign ','])
      ([.token m.token] ++ [.token (Token.sign ',')]) anything := fun _ _ _ _ => rfl
  have last : ∀ m : Name, TurnBuilds genericTurn .last [m.token] [.token m.token]
      (· = some .rightAngle) := by
    intro m rest k hr
    have next : (ofBare rest (k + 1)).next? ≠ some .comma := by
      rw [Input.next?_ofBare, hr]
      decide
    exact if_neg next
  have names : Builds (loop genericTurn genericTurn_advances)
      (commaSeparated ((n :: ns).map fun m => [m.token]))
      (commaBetween ((n :: ns).map fun m => [.token m.token])) (· = some .rightAngle) :=
    loop_commaSeparated_builds again (fun m => loop_last_builds (last m)) n ns
  exact node_builds .genericList (inOrder_cons_builds bump_builds
    (inOrder_cons_builds names (inOrder_last_builds (expect_builds rfl)) fun _ _ => rfl)
    fun _ _ => trivial)

/-- Without names there is no generic list. -/
theorem generics_builds (names : List Name) :
    Builds (optional .leftAngle genericList) (genericTokens names) (genericElements names)
      (· ≠ some .leftAngle) := by
  cases names with
  | nil => exact optional_none_builds
  | cons n ns => exact (optional_some_builds rfl (genericList_builds n ns)).always

/-- A method is read as it is written. -/
theorem methodDecl_builds (m : Method) : Builds methodDecl m.tokens [m.element] anything :=
  node_builds .methodDecl (inOrder_cons_builds (attributes_builds m.attributes)
    (inOrder_cons_builds (expect_builds rfl)
      (inOrder_cons_builds (expect_builds rfl)
        (inOrder_cons_builds (generics_builds m.generics)
          (inOrder_cons_builds (paramList_builds m.params)
            (inOrder_last_builds (expect_builds rfl))
            fun _ _ => trivial)
          fun _ _ => by simp [paramTokens, Token.sign, Lexer.punctuation])
        fun _ _ => trivial)
      fun _ _ => trivial)
    fun _ _ => by simp [Token.kwFn])

/-- What a declaration starts with: the bracket of its first attribute, or its keyword. -/
theorem ahead_declaration (as : List Attribute) (keyword : Token) (ts : List Token)
    (l : Option TokenKind) :
    ahead (as.flatMap Attribute.tokens ++ keyword :: ts) l = some keyword.kind ∨
      ahead (as.flatMap Attribute.tokens ++ keyword :: ts) l = some .leftBracket := by
  cases as with
  | nil => exact .inl rfl
  | cons a as => exact .inr rfl

/-- The methods of a type are read as they are written, up to the closing brace. -/
theorem methods_builds (ms : List Method) :
    Builds (loop memberTurn memberTurn_advances)
      (ms.flatMap Method.tokens ++ [Token.sign '\x7d'])
      (ms.map Method.element ++ [.token (Token.sign '\x7d')]) anything := by
  have again : ∀ m : Method, TurnBuilds memberTurn .again m.tokens [m.element] anything := by
    intro m rest n hr
    have reads := methodDecl_builds m rest n hr
    have starts : (ofBare (m.tokens ++ rest) n).next? = some .kwFn ∨
        (ofBare (m.tokens ++ rest) n).next? = some .leftBracket := by
      rw [Input.next?_ofBare, ahead_head?]
      exact ahead_declaration m.attributes Token.kwFn _ _
    unfold memberTurn
    rcases starts with next | next <;>
      · rw [next]
        dsimp only
        rw [Input.settle_ofBare, reads]
        rfl
  exact loop_each_builds again (loop_last_builds fun _ _ _ => rfl) ms

/-- The body of a type is read as it is written. -/
theorem typeBody_builds (ms : List Method) :
    Builds typeBody (Token.sign '\x7b' :: (ms.flatMap Method.tokens ++ [Token.sign '\x7d']))
      (.token (Token.sign '\x7b') :: (ms.map Method.element ++ [.token (Token.sign '\x7d')]))
      anything := by
  intro rest n hr
  have opening := expect_builds (t := Token.sign '\x7b') (k := .leftBrace) rfl
  have next : (ofBare (Token.sign '\x7b' :: (ms.flatMap Method.tokens ++ [Token.sign '\x7d']) ++
      rest) n).next? = some .leftBrace := rfl
  unfold typeBody
  dsimp only
  rw [if_pos next]
  exact opening.andThen (methods_builds ms) (fun _ _ => trivial) rest n hr

/-- A type is read as it is written. -/
theorem typeDecl_builds (t : Program.TypeDecl) : Builds typeDecl t.tokens [t.element] anything :=
  node_builds .typeDecl (inOrder_cons_builds (attributes_builds t.attributes)
    (inOrder_cons_builds (expect_builds rfl)
      (inOrder_cons_builds (expect_builds rfl)
        (inOrder_cons_builds (generics_builds t.generics)
          (inOrder_last_builds (typeBody_builds t.methods))
          fun _ _ => by simp [Token.sign, Lexer.punctuation])
        fun _ _ => trivial)
      fun _ _ => trivial)
    fun _ _ => by simp [Token.kwType])

/-- The tokens of a program are read as the trees of its types, without a complaint. -/
theorem file_builds (program : List Program.TypeDecl) :
    loop fileTurn fileTurn_advances (ofBare (program.flatMap Program.TypeDecl.tokens) 0) =
      ⟨program.map Program.TypeDecl.element, [],
        ofBare [] (program.flatMap Program.TypeDecl.tokens).length⟩ := by
  have again : ∀ t : Program.TypeDecl,
      TurnBuilds fileTurn .again t.tokens [t.element] anything := by
    intro t rest n hr
    have reads := typeDecl_builds t rest n hr
    have starts : (ofBare (t.tokens ++ rest) n).next? = some .kwType ∨
        (ofBare (t.tokens ++ rest) n).next? = some .leftBracket := by
      rw [Input.next?_ofBare, ahead_head?]
      exact ahead_declaration t.attributes Token.kwType _ _
    unfold fileTurn
    rcases starts with next | next <;>
      · rw [next]
        dsimp only
        rw [Input.settle_ofBare, reads]
        rfl
  have stops : TurnBuilds fileTurn .last [] [] (· = none) := by
    intro rest n hr
    have next : (ofBare rest n).next? = none := by rw [Input.next?_ofBare, hr]
    show fileTurn (ofBare rest n) = _
    unfold fileTurn
    rw [next]
    rfl
  have all : Builds (loop fileTurn fileTurn_advances)
      (program.flatMap Program.TypeDecl.tokens ++ []) (program.map Program.TypeDecl.element ++ [])
      (· = none) :=
    loop_each_builds again (loop_last_builds stops) program
  have read := all [] 0 rfl
  rw [List.append_nil, List.append_nil, List.append_nil, Nat.zero_add] at read
  exact read

end Grammar

end DeclFront
