import DeclFront.Proofs.Syntax.Lexing
import DeclFront.Proofs.Syntax.Lossless
import DeclFront.Symbol.Binding

/-!
# Decoding what was read

Decoding a token breaks off only at a string literal without room for its quotes. No text is read as
such a token, so whatever is looked at in the tree of a text can be decoded, attributes of any shape
can be bound, and each fact of a declaration can be computed.
-/

set_option autoImplicit false

namespace DeclFront

/-- The token stands for a constant, or there is a reason why it stands for none. -/
def Token.Decodes (t : Token) : Prop :=
  ∃ r, Constant.ofToken t = .ok r

/-- Between its quotes a text is found again. -/
theorem Constant.stripQuotes_quoted (inner : List Char) :
    stripQuotes ('"' :: (inner ++ ['"'])) = .ok inner := by
  cases inner with
  | nil => rfl
  | cons c cs =>
    have last : (c :: (cs ++ ['"'])).getLast? = some '"' := by
      rw [← List.cons_append, List.getLast?_append]
      rfl
    have sizes : ('"' : Char).utf8Size = 1 ∧
        ((c :: (cs ++ ['"'])).getLast?.all fun last => last.utf8Size = 1) = true := by
      rw [last]
      decide
    rw [List.cons_append, stripQuotes, if_pos sizes, ← List.cons_append, List.dropLast_concat]

/-- A token can be decoded if, in case it is a string, it has both its quotes. -/
theorem Token.decodes_of_string {t : Token}
    (h : t.kind = .string → ∃ inner, t.chars = '"' :: (inner ++ ['"'])) : t.Decodes := by
  obtain ⟨kind, chars⟩ := t
  unfold Decodes Constant.ofToken
  cases kind with
  | string =>
    obtain ⟨inner, hc⟩ := h rfl
    dsimp only at hc ⊢
    rw [hc, Constant.stripQuotes_quoted]
    exact ⟨_, rfl⟩
  | integer =>
    dsimp only
    split <;> exact ⟨_, rfl⟩
  | float =>
    dsimp only
    split <;> exact ⟨_, rfl⟩
  | _ => exact ⟨_, rfl⟩

/-- Every token of a text can be decoded: one that lacks a quote is no string. -/
theorem lex_decodes (text : List Char) : ∀ t ∈ lex text, t.Decodes := by
  apply lex_forall
  intro c cs
  apply Token.decodes_of_string
  intro h
  obtain ⟨inner, _, chars⟩ := Lexer.next_string h
  exact ⟨inner, chars⟩

/-- All tokens of a node can be decoded. -/
def Node.Decodes (n : Node) : Prop :=
  ∀ t ∈ Element.tokensOf n.children, t.Decodes

namespace Node

variable {n m : Node} {kind : NodeKind}

/-- The tokens of a child can be decoded, as they are tokens of the node. -/
theorem Decodes.childrenOf (h : n.Decodes) (hm : m ∈ n.childrenOf kind) : m.Decodes := fun t ht =>
  h t (mem_tokensOf_of_mem_nodesFrom (List.mem_filter.mp hm).1 ht)

/-- So can those of the first child of a kind. -/
theorem Decodes.childOf? (h : n.Decodes) (hm : n.childOf? kind = some m) : m.Decodes := fun t ht =>
  h t (mem_tokensOf_of_mem_nodesFrom (List.mem_of_find?_eq_some hm) ht)

/-- So can the token of a literal. -/
theorem Decodes.literalToken? {t : PlacedToken} (h : n.Decodes) (ht : n.literalToken? = some t) :
    t.token.Decodes :=
  h t.token (mem_tokensOf_of_mem_tokensFrom (List.mem_of_find?_eq_some ht))

/-- So can those of the arguments of an attribute. -/
theorem Decodes.arguments (h : n.Decodes) (hm : m ∈ n.arguments) : m.Decodes := by
  unfold Node.arguments at hm
  obtain ⟨list, hl, hm⟩ := List.mem_flatMap.mp hm
  exact (h.childrenOf hl).childrenOf hm

end Node

/-- All tokens of the tree of a text can be decoded, since they are those of the text. -/
theorem root_decodes (text : List Char) : (parse text).root.Decodes := by
  intro t ht
  rw [show Element.tokensOf (parse text).root.children = lex text from parse_tokens text] at ht
  exact lex_decodes text t ht

/-- So can those of the tree of a file. -/
theorem SourceFile.root_decodes (f : SourceFile) : f.parsed.root.Decodes := by
  rw [f.parsed_eq]
  exact DeclFront.root_decodes f.text.toList

/-! ### Attributes -/

/-- A fold whose every step succeeds succeeds. -/
theorem foldlM_ok {α β ε : Type} {f : β → α → Except ε β} {as : List α}
    (h : ∀ a ∈ as, ∀ b, ∃ c, f b a = .ok c) (b : β) : ∃ c, as.foldlM f b = .ok c := by
  induction as generalizing b with
  | nil => exact ⟨b, rfl⟩
  | cons a as ih =>
    obtain ⟨c, hc⟩ := h a List.mem_cons_self b
    obtain ⟨d, hd⟩ := ih (fun a ha => h a (List.mem_cons_of_mem _ ha)) c
    refine ⟨d, ?_⟩
    rw [List.foldlM_cons, hc]
    exact hd

/-- What each step of a fold keeps, of the elements done so far, holds of all of them in the end. -/
theorem foldlM_invariant {α β ε : Type} {f : β → α → Except ε β} {motive : β → List α → Prop}
    {as : List α} {b c : β}
    (step : ∀ a ∈ as, ∀ b c done, motive b done → f b a = .ok c → motive c (done ++ [a]))
    (start : motive b []) (h : as.foldlM f b = .ok c) : motive c as := by
  have run : ∀ rest ⊆ as, ∀ b done, motive b done → rest.foldlM f b = .ok c →
      motive c (done ++ rest) := by
    intro rest
    induction rest with
    | nil =>
      rintro - b done kept h
      cases h
      rwa [List.append_nil]
    | cons a rest ih =>
      intro inside b done kept h
      rw [List.foldlM_cons] at h
      cases next : f b a with
      | error e => simp [next, Bind.bind, Except.bind] at h
      | ok b' =>
        rw [next] at h
        have known : a ∈ as := inside List.mem_cons_self
        have kept := ih (List.subset_of_cons_subset inside) b' _ (step a known b b' done kept next) h
        rwa [List.append_assoc] at kept
  exact run as (List.Subset.refl as) b [] start h

/-- An attribute with as many arguments as it takes can be added. -/
theorem ParamData.add_ok {wk : WellKnown} {args : List Constant} (h : args.length = wk.arity)
    (d : ParamData) (place : Location) : ∃ r, d.add wk args place = .ok r := by
  have first : wk.arity = 1 → ∃ v, firstArgument args = .ok v := by
    intro one
    rw [one] at h
    obtain ⟨v, rfl⟩ := List.length_eq_one_iff.mp h
    exact ⟨v, rfl⟩
  cases wk with
  | defaultParameterValue =>
    obtain ⟨v, hv⟩ := first rfl
    exact ⟨_, by rw [add, hv]; rfl⟩
  | marshalAs =>
    obtain ⟨v, hv⟩ := first rfl
    exact ⟨_, by rw [add, hv]; rfl⟩
  | notNullIfNotNull =>
    obtain ⟨v, hv⟩ := first rfl
    exact ⟨_, by rw [add, hv]; rfl⟩
  | _ => exact ⟨_, rfl⟩

namespace Attributes

variable {target : AttributeTarget}

/-- Reading one more argument comes to an end. -/
theorem arguments_add_ok {literal : Node} (h : literal.Decodes) (a : Arguments) :
    ∃ b, a.add literal = .ok b := by
  unfold Arguments.add
  cases ht : literal.literalToken? with
  | none => exact ⟨_, rfl⟩
  | some t =>
    obtain ⟨r, hr⟩ := h.literalToken? ht
    simp only [hr, Except.map]
    cases r <;> exact ⟨_, rfl⟩

/-- Reading all arguments of an attribute comes to an end, by induction on them. -/
theorem arguments_ofNode_ok {attr : Node} (h : attr.Decodes) :
    ∃ args, Arguments.ofNode attr = .ok args :=
  foldlM_ok (fun _ hl a => arguments_add_ok (h.arguments hl) a) _

section Judged

variable {seen : List WellKnown} {name : String} {wk : WellKnown} {args : Arguments}

/-- The reasons why a well-known attribute is refused before its arguments are looked at. -/
inductive Refusal (target : AttributeTarget) (seen : List WellKnown) (name : String)
    (wk : WellKnown) (args : Arguments) : Finding → Prop where
  | count : args.values.length ≠ wk.arity →
    Refusal target seen name wk args (.argumentCount name wk.arity args.values.length)
  | misplaced : args.values.length = wk.arity → target ≠ .parameter →
    Refusal target seen name wk args (.misplacedAttribute name)
  | repeated : args.values.length = wk.arity → target = .parameter →
    wk.allowsMultiple = false → wk ∈ seen →
    Refusal target seen name wk args (.duplicateAttribute name)

/-- What each verdict on a well-known attribute says about it. -/
inductive Judged (target : AttributeTarget) (seen : List WellKnown) (name : String)
    (wk : WellKnown) (args : Arguments) : Verdict → Prop where
  | silent : args.malformed = true → Judged target seen name wk args .silent
  | refused {f : Finding} : args.malformed = false → Refusal target seen name wk args f →
    Judged target seen name wk args (.refused f)
  | usable : args.malformed = false → args.values.length = wk.arity → target = .parameter →
    (wk.allowsMultiple = false → wk ∉ seen) → Judged target seen name wk args .usable

/-- The verdict on an attribute says what it should. -/
theorem judge_judged {v : Verdict} (h : judge target seen name wk args = v) :
    Judged target seen name wk args v := by
  subst h
  unfold judge
  split
  · rename_i malformed
    exact .silent malformed
  rename_i wellFormed
  rw [Bool.not_eq_true] at wellFormed
  split
  · rename_i count
    exact .refused wellFormed (.count count)
  rename_i count
  rw [ne_eq, Decidable.not_not] at count
  split
  · rename_i misplaced
    exact .refused wellFormed (.misplaced count misplaced)
  rename_i placed
  rw [ne_eq, Decidable.not_not] at placed
  split
  · rename_i repeated
    obtain ⟨known, single⟩ := Bool.and_eq_true_iff.mp repeated
    rw [Bool.not_eq_true'] at single
    exact .refused wellFormed (.repeated count placed single (List.contains_iff_mem.mp known))
  · rename_i fresh
    refine .usable wellFormed count placed fun single known => fresh ?_
    rw [single, List.contains_iff_mem.mpr known]
    rfl

end Judged

/-- Binding one more attribute comes to an end. -/
theorem binding_add_ok {attr : Node} (h : attr.Decodes) (place : Range → Location) (b : Binding) :
    ∃ c, b.add target place attr = .ok c := by
  unfold Binding.add
  cases ht : attr.nameToken? with
  | none => exact ⟨_, rfl⟩
  | some t =>
    obtain ⟨args, ha⟩ := arguments_ofNode_ok h
    simp only [ha, Bind.bind, Except.bind]
    split
    · exact ⟨_, rfl⟩
    · split
      · exact ⟨_, rfl⟩
      · exact ⟨_, rfl⟩
      · rename_i wk _ usable
        cases judge_judged usable with
        | usable _ count _ _ =>
          obtain ⟨r, hr⟩ := ParamData.add_ok count b.bag.data (place attr.range)
          rw [hr]
          cases r <;> exact ⟨_, rfl⟩

/-- Attributes of any shape can be bound. -/
theorem bind_ok {attrs : List Node} (h : ∀ attr ∈ attrs, attr.Decodes) (place : Range → Location)
    (owner : String) : ∃ c, Attributes.bind attrs target place owner = .ok c := by
  obtain ⟨b, hb⟩ := foldlM_ok (fun attr ha => binding_add_ok (h attr ha) place) {}
  exact ⟨_, by rw [Attributes.bind, hb]; rfl⟩

end Attributes

/-! ### Declarations -/

namespace TreeRef

/-- The tokens of a declaration can be decoded. -/
def Decodes (r : TreeRef) : Prop := r.node.Decodes

/-- A declaration that is kept can be decoded where it is kept. -/
theorem Decodes.tree {r : TreeRef} (h : r.Decodes) : r.tree.Decodes := h

/-- So can each of its attributes. -/
theorem Decodes.attributes {r : TreeRef} (h : r.Decodes) :
    ∀ attr ∈ r.tree.attributes, attr.Decodes :=
  fun _ ha => h.tree.childrenOf ha

end TreeRef

namespace Parameter

variable {p : Parameter} {tree : TreeRef}

/-- Finding out the attributes of a declaration comes to an end, by induction on them. -/
theorem computeAttributes_ok (h : tree.Decodes) (display : String) :
    ∃ c, computeAttributes tree display = .ok c := by
  unfold computeAttributes
  split
  · exact Attributes.bind_ok h.attributes _ _
  · exact ⟨_, rfl⟩

/-- Reading the literal of a default value comes to an end. -/
theorem literalDefault_ok {t : Token} (h : t.Decodes) (type : ParamType) :
    ∃ r, literalDefault type t = .ok r := by
  obtain ⟨r, hr⟩ := h
  exact ⟨_, by rw [literalDefault, hr]; rfl⟩

/-- Reading a written default value comes to an end, whether there is one or not. -/
theorem writtenDefault_ok (h : tree.Decodes) : ∃ w, p.writtenDefault tree = .ok w := by
  unfold writtenDefault
  dsimp only
  split
  · exact ⟨_, rfl⟩
  · rename_i node found
    have decodes : node.Decodes := by
      split at found
      · exact h.tree.childOf? found
      · simp at found
    cases ht : node.literal?.bind Node.literalToken? with
    | none => exact ⟨_, rfl⟩
    | some t =>
      obtain ⟨literal, hl, ht⟩ := Option.bind_eq_some_iff.mp ht
      obtain ⟨r, hr⟩ := literalDefault_ok ((decodes.childOf? hl).literalToken? ht) p.type
      exact ⟨_, by simp only [hr]; rfl⟩

/-- A parameter with a location has a place for its reports. -/
theorem here_ok (h : p.locations ≠ []) : ∃ l, p.here = .ok l := by
  unfold here
  cases hl : p.locations with
  | nil => exact absurd hl h
  | cons l ls => exact ⟨l, rfl⟩

/-- Finding out the modifiers of such a parameter comes to an end. -/
theorem computeModifiers_ok (h : p.locations ≠ []) (display : String) :
    ∃ c, p.computeModifiers display = .ok c := by
  obtain ⟨l, hl⟩ := here_ok h
  unfold computeModifiers
  dsimp only
  split
  · exact ⟨_, by rw [hl]; rfl⟩
  · exact ⟨_, rfl⟩

end Parameter

end DeclFront
