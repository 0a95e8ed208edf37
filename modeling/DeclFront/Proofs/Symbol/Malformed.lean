import DeclFront.Proofs.Symbol.Effect
import DeclFront.Proofs.Syntax.Arguments
import DeclFront.Proofs.Syntax.Inside
import DeclFront.Symbol.Knowledge

/-!
# When an argument list counts as broken

An argument list that is marked as broken takes the meaning from its attribute. The mark is set by an
unknown token in the list, and by nothing else that is complained about in it: with a comma too many,
or without its closing parenthesis, an attribute is used as if nothing was wrong.
-/

set_option autoImplicit false

namespace DeclFront

/-- The tokens of a node are among those of every node that holds it. -/
theorem Node.Holds.tokensOf_subset {n m : Node} (h : n.Holds m) :
    Element.tokensOf m.children ⊆ Element.tokensOf n.children := by
  induction h with
  | self => exact List.Subset.refl _
  | child _ hm ih => exact fun t ht => ih (mem_tokensOf_of_mem_nodesFrom hm ht)

/-- So they can be decoded if those can. -/
theorem Node.Holds.decodes {n m : Node} (h : n.Holds m) (decodes : n.Decodes) : m.Decodes :=
  fun t ht => decodes t (h.tokensOf_subset ht)

/-- A list that is marked as broken holds an unknown token that was complained about. -/
theorem exists_error_of_malformed {text : List Char} {attr : Node}
    (held : (parse text).root.Holds attr) (item : attr.kind = .attributeItem)
    (marked : attr.hasMalformedArguments = true) :
    ∃ list ∈ attr.argumentLists, ∃ t ∈ list.lexemes, t.token.kind = .unknown ∧
      ⟨t.range, .expectedLiteral⟩ ∈ (parse text).errors := by
  obtain ⟨list, hl, broken⟩ := List.any_eq_true.mp marked
  obtain ⟨i, read⟩ := Grammar.readAsList held item hl
  obtain ⟨t, ht, unknown⟩ := read.marked_iff.mp broken
  exact ⟨list, hl, t, ht, unknown, read.complained ht unknown⟩

/-- An argument list is marked as broken exactly if something unknown was complained about in it.
What else can be complained about in it, behind its opening parenthesis, is a comma. An attribute
whose list is marked keeps no meaning and says nothing: the others of its declaration are bound as if
it was not there. -/
theorem argument_list_marked_iff_unknown (text : List Char) (attr : Node)
    (held : (parse text).root.Holds attr) (item : attr.kind = .attributeItem) :
    (attr.hasMalformedArguments = true ↔
      ∃ list ∈ attr.argumentLists, ∃ t ∈ list.lexemes, t.token.kind = .unknown ∧
        ⟨t.range, .expectedLiteral⟩ ∈ (parse text).errors) ∧
    (∀ list ∈ attr.argumentLists, ∀ t ∈ list.lexemes, ∀ e ∈ (parse text).errors,
      e.range = t.range →
        t.token.kind = .unknown ∨ t.token.kind = .comma ∨ list.lexemes.head? = some t) ∧
    (attr.hasMalformedArguments = true → ∀ (r : TreeRef) (before after : List Node),
      (parse text).root.Holds r.node → r.node.attributes = before ++ attr :: after →
      ∀ target owner, ∃ whole others,
        Attributes.bind r.tree.attributes target r.place owner = .ok whole ∧
        Attributes.bind (before ++ after) target (Location.mk r.file) owner = .ok others ∧
        whole.value.data = others.value.data ∧
        whole.value.meanings = others.value.meanings) := by
  refine ⟨⟨exists_error_of_malformed held item, ?_⟩, ?_, ?_⟩
  · rintro ⟨list, hl, t, ht, unknown, -⟩
    obtain ⟨i, read⟩ := Grammar.readAsList held item hl
    exact List.any_eq_true.mpr ⟨list, hl, read.marked_iff.mpr ⟨t, ht, unknown⟩⟩
  · intro list hl t ht e he about
    obtain ⟨i, read⟩ := Grammar.readAsList held item hl
    exact read.error_cases ht he about
  · intro marked r before after holds split target owner
    have decodes : r.node.Decodes := holds.decodes (root_decodes text)
    have all : ∀ a ∈ r.node.attributes, a.Decodes := fun a ha => decodes.childrenOf ha
    rw [r.bind_eq]
    rw [split] at all ⊢
    exact Attributes.bind_without_marked marked all owner

/-- An unknown token for an argument. -/
theorem unknown_argument_marked :
    ∃ attr, (parse "type T \x7b fn M([Optional(@)] int x); \x7d".toList).root.Holds attr ∧
      attr.kind = .attributeItem ∧ attr.hasMalformedArguments = true ∧
      ∃ list ∈ attr.argumentLists, ∃ t ∈ list.lexemes, t.token.kind = .unknown ∧
        ⟨t.range, .expectedLiteral⟩ ∈
          (parse "type T \x7b fn M([Optional(@)] int x); \x7d".toList).errors := by
  obtain ⟨attr, mem, marked⟩ :
      ∃ attr ∈ (parse "type T \x7b fn M([Optional(@)] int x); \x7d".toList).root.within .attributeItem,
        attr.hasMalformedArguments = true := by
    decide +kernel
  obtain ⟨inside, kind⟩ := List.mem_filter.mp mem
  have held := Node.holds_of_mem_inside inside
  have item := of_decide_eq_true kind
  exact ⟨attr, held, item, marked, (argument_list_marked_iff_unknown _ attr held item).1.mp marked⟩

/-- A comma for an argument is complained about, and so is a closing parenthesis that is missing. In
either list nothing is marked, and the attribute keeps its meaning. -/
theorem comma_argument_unmarked :
    ((∃ attr ∈ (parse "type T \x7b fn M([Optional(,)] int x); \x7d".toList).root.within .attributeItem,
      attr.hasMalformedArguments = false ∧ ∃ list ∈ attr.argumentLists, ∃ t ∈ list.lexemes,
        ⟨t.range, .expectedLiteral⟩ ∈
          (parse "type T \x7b fn M([Optional(,)] int x); \x7d".toList).errors) ∧
      ((Knowledge.ofFiles [.input "a.decl" "type T \x7b fn M([Optional(,)] int x); \x7d"]).ask 2
        (.param .hasOptionalAttribute)).map Prod.fst = some (.ok (.bool true))) ∧
    (∃ attr ∈ (parse "type T \x7b fn M([Optional(] int x); \x7d".toList).root.within .attributeItem,
      attr.hasMalformedArguments = false ∧ ∃ list ∈ attr.argumentLists,
        ⟨⟨list.range.stop, list.range.stop + 1⟩, .expected .rightParen⟩ ∈
          (parse "type T \x7b fn M([Optional(] int x); \x7d".toList).errors) ∧
      ((Knowledge.ofFiles [.input "a.decl" "type T \x7b fn M([Optional(] int x); \x7d"]).ask 2
        (.param .hasOptionalAttribute)).map Prod.fst = some (.ok (.bool true)) := by
  decide +kernel

end DeclFront
