import DeclFront.Proofs.Syntax.Places

/-!
# The documented grammar, and what it derives

```text
file      := type_decl*
type_decl := attrs "type" IDENT generics? "{" method* "}"
method    := attrs "fn" IDENT generics? "(" (param ("," param)*)? ")" ";"
param     := attrs ("ref" | "out" | "in" | "params")? type IDENT ("=" literal)?
attrs     := ("[" IDENT ("(" (literal ("," literal)*)? ")")? "]")*
type      := IDENT ("[" "]")? "?"?
generics  := "<" IDENT ("," IDENT)* ">"
literal   := INT | FLOAT | STRING | "true" | "false" | "null" | IDENT
```

A form says which trees may stand next to each other: the grammar as it is written above, with the
parts marked that become nodes. No rule of it goes through itself, so a form is a finite expression.
What can stand first, last and next to each other in it is computed from the form.
-/

set_option autoImplicit false

namespace DeclFront

/-- What trees may stand next to each other. -/
inductive Form where
  | nothing
  | token (kinds : List TokenKind)
  | node (kind : NodeKind) (inner : Form)
  | both (first second : Form)
  | optional (inner : Form)
  | many (inner : Form)

namespace Form

/-- The form derives the trees. -/
inductive Derives : Form → List Element → Prop where
  | nothing : Derives nothing []
  | token {t : Token} {kinds : List TokenKind} : t.kind ∈ kinds → Derives (token kinds) [.token t]
  | node {kind : NodeKind} {f : Form} {es : List Element} :
    Derives f es → Derives (node kind f) [.node kind es]
  | both {f g : Form} {es fs : List Element} :
    Derives f es → Derives g fs → Derives (both f g) (es ++ fs)
  | absent {f : Form} : Derives (optional f) []
  | present {f : Form} {es : List Element} : Derives f es → Derives (optional f) es
  | done {f : Form} : Derives (many f) []
  | more {f : Form} {es fs : List Element} :
    Derives f es → Derives (many f) fs → Derives (many f) (es ++ fs)

/-- The tokens are those of trees that the form derives. -/
def Sentence (f : Form) (ts : List Token) : Prop :=
  ∃ es, f.Derives es ∧ Element.tokensOf es = ts

/-! ### The grammar -/

section Grammar

/-- Forms one after another. -/
def inOrder : List Form → Form
  | [] => nothing
  | f :: fs => both f (inOrder fs)

/-- One or more, with a comma between each two, and one behind the last if `trailing`. -/
def commaSeparated (trailing : Bool) (f : Form) : Form :=
  both f (both (many (both (token [.comma]) f))
    (if trailing then optional (token [.comma]) else nothing))

def name : Form :=
  token [.identifier]

def literal : Form :=
  node .literal (token [.integer, .float, .string, .kwTrue, .kwFalse, .kwNull, .identifier])

def generics : Form :=
  node .genericList
    (inOrder [token [.leftAngle], commaSeparated false name, token [.rightAngle]])

def typeRef : Form :=
  node .typeRef (inOrder
    [name, optional (inOrder [token [.leftBracket], token [.rightBracket]]),
      optional (token [.question])])

variable (trailing : Bool)

/-- A list between parentheses that may be empty. -/
def parenthesized (f : Form) : Form :=
  inOrder [token [.leftParen], optional (commaSeparated trailing f), token [.rightParen]]

def attributes : Form :=
  many (node .attributeItem (inOrder
    [token [.leftBracket], name, optional (node .attributeArgs (parenthesized trailing literal)),
      token [.rightBracket]]))

def typedName : Form :=
  inOrder [typeRef, name, optional (node .defaultValue (inOrder [token [.equals], literal]))]

def param : Form :=
  node .param (both (attributes trailing)
    (both (optional (token [.kwRef, .kwOut, .kwIn, .kwParams])) typedName))

def method : Form :=
  node .methodDecl (inOrder
    [attributes trailing, token [.kwFn], name, optional generics,
      node .paramList (parenthesized trailing (param trailing)), token [.semicolon]])

def typeDecl : Form :=
  node .typeDecl (inOrder
    [attributes trailing, token [.kwType], name, optional generics, token [.leftBrace],
      many (method trailing), token [.rightBrace]])

def file : Form :=
  node .root (many (typeDecl trailing))

/-- The grammar above. -/
def documented : Form :=
  file false

/-- The grammar above, with a comma allowed behind the last of the parameters of a method and of the
arguments of an attribute. -/
def accepted : Form :=
  file true

end Grammar

/-! ### Derivations by the parts of a form -/

section Derivations

variable {f g : Form} {es : List Element} {ts : List Token} {j k : TokenKind} {kind : NodeKind}

/-- Two forms one behind the other derive trees that can be split between them. -/
theorem derives_both : (both f g).Derives es ↔
    ∃ fs gs, f.Derives fs ∧ g.Derives gs ∧ es = fs ++ gs := by
  constructor
  · intro h
    cases h with
    | both hf hg => exact ⟨_, _, hf, hg, rfl⟩
  · rintro ⟨fs, gs, hf, hg, rfl⟩
    exact hf.both hg

/-- A form that may be left out derives nothing as well. -/
theorem derives_optional : (optional f).Derives es ↔ es = [] ∨ f.Derives es := by
  constructor
  · intro h
    cases h with
    | absent => exact .inl rfl
    | present h => exact .inr h
  · rintro (rfl | h)
    · exact .absent
    · exact .present h

/-- The form of a token derives single tokens of its kinds. -/
theorem derives_token {kinds : List TokenKind} : (token kinds).Derives es ↔
    ∃ t : Token, t.kind ∈ kinds ∧ es = [.token t] := by
  constructor
  · intro h
    cases h with
    | token ht => exact ⟨_, ht, rfl⟩
  · rintro ⟨t, ht, rfl⟩
    exact .token ht

/-- The empty form derives no trees. -/
theorem derives_nothing : nothing.Derives es ↔ es = [] := by
  constructor
  · intro h
    cases h
    rfl
  · rintro rfl
    exact .nothing

/-- A list may have one member. -/
theorem commaSeparated_single (h : f.Derives es) (trailing : Bool) :
    (commaSeparated trailing f).Derives es := by
  have behind : (if trailing then optional (token [.comma]) else nothing).Derives [] := by
    cases trailing with
    | true => exact .absent
    | false => exact .nothing
  have all : (commaSeparated trailing f).Derives (es ++ ([] ++ [])) :=
    h.both (Derives.done.both behind)
  rw [List.append_nil, List.append_nil] at all
  exact all

/-- One more in front of others. -/
theorem commaSeparated_cons {trailing : Bool} {c : Token} {fs : List Element} (h : f.Derives es)
    (comma : c.kind = .comma) (others : (commaSeparated trailing f).Derives fs) :
    (commaSeparated trailing f).Derives (es ++ [.token c] ++ fs) := by
  obtain ⟨first, rest, hfirst, hrest, rfl⟩ := derives_both.mp others
  obtain ⟨middle, behind, hmiddle, hbehind, rfl⟩ := derives_both.mp hrest
  have separator : (token [.comma]).Derives [.token c] := .token (by simp [comma])
  have all : (commaSeparated trailing f).Derives
      (es ++ ([.token c] ++ first ++ middle ++ behind)) :=
    h.both (((separator.both hfirst).more hmiddle).both hbehind)
  simpa only [List.append_assoc] using all

/-- Some with a comma behind each of them and then at most one without are some with a comma between
each two of them, unless they end with a comma. -/
theorem commaSeparated_of_each
    (h : (both (many (both f (token [.comma]))) (optional f)).Derives es) :
    es = [] ∨ (commaSeparated false f).Derives es ∨
      ((commaSeparated true f).Derives es ∧
        ∃ fs, ∃ c : Token, c.kind = .comma ∧ es = fs ++ [.token c]) := by
  obtain ⟨front, back, hfront, hback, rfl⟩ := derives_both.mp h
  clear h
  generalize shape : many (both f (token [.comma])) = repeated at hfront
  -- Over the repetition, from its end.
  induction hfront with
  | done =>
    rcases derives_optional.mp hback with rfl | hback
    · exact .inl rfl
    · exact .inr (.inl (commaSeparated_single hback false))
  | more hone _ _ ih =>
    cases shape
    obtain ⟨fs, cs, hfs, hcs, rfl⟩ := derives_both.mp hone
    obtain ⟨c, hc, rfl⟩ := derives_token.mp hcs
    have comma : c.kind = .comma := List.mem_singleton.mp hc
    rw [List.append_assoc]
    rcases ih rfl with none | strict | ⟨loose, gs, d, hd, ends⟩
    · rw [none, List.append_nil]
      have behind : (optional (token [.comma])).Derives [.token c] := .present (.token hc)
      exact .inr (.inr ⟨hfs.both (Derives.done.both behind), fs, c, comma, rfl⟩)
    · exact .inr (.inl (commaSeparated_cons hfs comma strict))
    · refine .inr (.inr ⟨commaSeparated_cons hfs comma loose, fs ++ [.token c] ++ gs, d, hd, ?_⟩)
      rw [ends, List.append_assoc _ gs]
  | _ => cases shape

/-- Parts that each have a comma behind them, and one without a comma at the end, are separated
by commas. -/
theorem commaSeparated_of_each_last (h : (both (many (both f (token [.comma]))) f).Derives es) :
    (commaSeparated false f).Derives es := by
  obtain ⟨front, back, hfront, hback, rfl⟩ := derives_both.mp h
  clear h
  generalize shape : many (both f (token [.comma])) = repeated at hfront
  induction hfront with
  | done => exact commaSeparated_single hback false
  | more hone _ _ ih =>
    cases shape
    obtain ⟨fs, cs, hfs, hcs, rfl⟩ := derives_both.mp hone
    obtain ⟨c, hc, rfl⟩ := derives_token.mp hcs
    rw [List.append_assoc]
    exact commaSeparated_cons hfs (List.mem_singleton.mp hc) (ih rfl)
  | _ => cases shape

/-! ### Nodes in a form -/

/-- The kinds of node that the form marks. -/
def marks : Form → List NodeKind
  | nothing | token _ => []
  | node kind f => kind :: f.marks
  | both f g => f.marks ++ g.marks
  | optional f | many f => f.marks

/-- A form derives nodes of the kinds only that it marks. -/
theorem Derives.nodeKinds_subset (h : f.Derives es) : Element.nodeKindsOf es ⊆ f.marks := by
  induction h with
  | nothing | token | absent | done => exact List.nil_subset _
  | node _ ih =>
    rw [Element.nodeKindsOf_node]
    exact List.cons_subset_cons _ ih
  | both _ _ ihf ihg =>
    rw [Element.nodeKindsOf_append, marks]
    exact List.append_subset.mpr ⟨List.subset_append_of_subset_left _ ihf,
      List.subset_append_of_subset_right _ ihg⟩
  | present _ ih => exact ih
  | more _ _ ihone ihmore =>
    rw [Element.nodeKindsOf_append]
    exact List.append_subset.mpr ⟨ihone, ihmore⟩

/-! ### Neighbours in a form -/

/-- May the form derive nothing? -/
def nullable : Form → Bool
  | nothing | optional _ | many _ => true
  | token _ => false
  | node _ f => f.nullable
  | both f g => f.nullable && g.nullable

/-- May a token of the kind come first? -/
def starts (k : TokenKind) : Form → Bool
  | nothing => false
  | token kinds => kinds.contains k
  | node _ f | optional f | many f => f.starts k
  | both f g => f.starts k || f.nullable && g.starts k

/-- May a token of the kind come last? -/
def ends (k : TokenKind) : Form → Bool
  | nothing => false
  | token kinds => kinds.contains k
  | node _ f | optional f | many f => f.ends k
  | both f g => g.ends k || g.nullable && f.ends k

/-- May a token of the kind `j` stand directly before one of the kind `k`? -/
def joins (j k : TokenKind) : Form → Bool
  | nothing | token _ => false
  | node _ f | optional f => f.joins j k
  | both f g => f.joins j k || g.joins j k || f.ends j && g.starts k
  | many f => f.joins j k || f.ends j && f.starts k

/-- The kinds of the tokens of trees. -/
def kindsOf (es : List Element) : List TokenKind :=
  (Element.tokensOf es).map Token.kind

/-- The kinds of trees are those of the first, and then those of the others. -/
theorem kindsOf_append (es fs : List Element) : kindsOf (es ++ fs) = kindsOf es ++ kindsOf fs := by
  rw [kindsOf, Element.tokensOf_append, List.map_append]
  rfl

/-- The kinds of a node are those of its parts. -/
theorem kindsOf_node (kind : NodeKind) (es : List Element) :
    kindsOf [.node kind es] = kindsOf es := by
  rw [kindsOf, Element.tokensOf_singleton]
  rfl

/-- The kind of a token is its own. -/
theorem kindsOf_token (t : Token) : kindsOf [.token t] = [t.kind] := rfl

/-- A form that derives nothing may do so. -/
theorem Derives.nullable_of_nil (h : f.Derives es) (none : kindsOf es = []) :
    f.nullable = true := by
  induction h with
  | nothing | absent | present | done | more => rfl
  | token => simp [kindsOf_token] at none
  | node _ ih => exact ih (kindsOf_node _ _ ▸ none)
  | both _ _ ihf ihg =>
    rw [kindsOf_append, List.append_eq_nil_iff] at none
    rw [nullable, ihf none.1, ihg none.2]
    rfl

/-- Trees start with a token with which their form may start. -/
theorem Derives.starts_of_head? (h : f.Derives es) (first : (kindsOf es).head? = some k) :
    f.starts k = true := by
  induction h with
  | nothing | absent | done => simp [kindsOf, Element.tokensOf] at first
  | token ht =>
    rw [kindsOf_token, List.head?_singleton, Option.some.injEq] at first
    rw [starts, List.contains_iff_mem, ← first]
    exact ht
  | node _ ih => exact ih (kindsOf_node _ _ ▸ first)
  | present _ ih => exact ih first
  | @both f g es fs hf _ ihf ihg =>
    rw [kindsOf_append, List.head?_append] at first
    rw [starts, Bool.or_eq_true, Bool.and_eq_true]
    cases front : kindsOf es with
    | nil =>
      rw [front] at first
      exact .inr ⟨hf.nullable_of_nil front, ihg first⟩
    | cons i is =>
      rw [front] at first
      exact .inl (ihf (front ▸ first))
  | @more f es fs _ _ ihone ihmore =>
    rw [kindsOf_append, List.head?_append] at first
    cases front : kindsOf es with
    | nil =>
      rw [front] at first
      exact ihmore first
    | cons i is =>
      rw [front] at first
      exact ihone (front ▸ first)

/-- Trees end with a token with which their form may end. -/
theorem Derives.ends_of_getLast? (h : f.Derives es) (last : (kindsOf es).getLast? = some k) :
    f.ends k = true := by
  induction h with
  | nothing | absent | done => simp [kindsOf, Element.tokensOf] at last
  | token ht =>
    rw [kindsOf_token, List.getLast?_singleton, Option.some.injEq] at last
    rw [ends, List.contains_iff_mem, ← last]
    exact ht
  | node _ ih => exact ih (kindsOf_node _ _ ▸ last)
  | present _ ih => exact ih last
  | @both f g es fs _ hg ihf ihg =>
    rw [kindsOf_append, List.getLast?_append] at last
    rw [ends, Bool.or_eq_true, Bool.and_eq_true]
    cases back : (kindsOf fs).getLast? with
    | none =>
      rw [back] at last
      exact .inr ⟨hg.nullable_of_nil (List.getLast?_eq_none_iff.mp back), ihf last⟩
    | some i =>
      rw [back] at last
      exact .inl (ihg (back.trans last))
  | @more f es fs _ _ ihone ihmore =>
    rw [kindsOf_append, List.getLast?_append] at last
    cases back : (kindsOf fs).getLast? with
    | none =>
      rw [back] at last
      exact ihone last
    | some i =>
      rw [back] at last
      exact ihmore (back.trans last)

/-- Two neighbours in a list that was put together are neighbours in one of its halves, or they are
the last and the first of the halves. -/
theorem infix_pair_append {α : Type} {a b : α} {xs ys : List α} (h : [a, b] <:+: xs ++ ys) :
    [a, b] <:+: xs ∨ [a, b] <:+: ys ∨ xs.getLast? = some a ∧ ys.head? = some b := by
  induction xs with
  | nil => exact .inr (.inl h)
  | cons x xs ih =>
    rw [List.cons_append, List.infix_cons_iff] at h
    rcases h with front | inner
    · obtain ⟨rest, split⟩ := front
      cases xs with
      | nil =>
        simp only [List.cons_append, List.nil_append, List.cons.injEq] at split
        refine .inr (.inr ⟨by rw [split.1]; rfl, ?_⟩)
        rw [← split.2]
        rfl
      | cons y xs =>
        simp only [List.cons_append, List.nil_append, List.cons.injEq] at split
        refine .inl ⟨[], xs, ?_⟩
        rw [split.1, split.2.1]
        rfl
    · rcases ih inner with left | right | ⟨last, first⟩
      · exact .inl (left.trans (List.suffix_cons x xs).isInfix)
      · exact .inr (.inl right)
      · refine .inr (.inr ⟨?_, first⟩)
        rw [List.getLast?_cons, last]
        rfl

/-- Tokens that stand side by side in trees may do so by their form. -/
theorem Derives.joins_of_infix (h : f.Derives es) (pair : [j, k] <:+: kindsOf es) :
    f.joins j k = true := by
  induction h with
  | nothing | absent | done | token =>
    have long : 2 ≤ 1 := Nat.le_trans pair.length_le (by simp [kindsOf, Element.tokensOf, Element.tokens])
    omega
  | node _ ih => exact ih (kindsOf_node _ _ ▸ pair)
  | present _ ih => exact ih pair
  | both hf hg ihf ihg =>
    rw [kindsOf_append] at pair
    rw [joins]
    rcases infix_pair_append pair with left | right | ⟨last, first⟩
    · rw [ihf left]
      rfl
    · rw [ihg right, Bool.or_true]
      rfl
    · rw [hf.ends_of_getLast? last, hg.starts_of_head? first, Bool.and_true, Bool.or_true]
  | more hone hmore ihone ihmore =>
    rw [kindsOf_append] at pair
    rcases infix_pair_append pair with left | right | ⟨last, first⟩
    · rw [joins, ihone left]
      rfl
    · exact ihmore right
    · have start : (many _).starts k = true := hmore.starts_of_head? first
      rw [starts] at start
      rw [joins, hone.ends_of_getLast? last, start, Bool.and_true, Bool.or_true]

end Derivations

/-- As documented, no comma stands before a closing parenthesis. -/
theorem not_comma_rightParen_of_documented {es : List Element} (h : documented.Derives es) :
    ¬ [.comma, .rightParen] <:+: kindsOf es := by
  intro pair
  have joined := h.joins_of_infix pair
  exact absurd joined (by decide)

end Form

end DeclFront
