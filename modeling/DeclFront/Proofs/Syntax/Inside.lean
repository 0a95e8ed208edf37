import DeclFront.Proofs.Syntax.Parts
import DeclFront.Syntax.View

/-!
# Everything inside a node

The nodes inside a node, at any depth, in the order in which they begin in the text. In a tree that
was read from a text no kind of declaration stands inside a declaration of its own kind, so the
declarations at any depth are those that the views find by looking at direct parts alone.
-/

set_option autoImplicit false

namespace DeclFront

namespace Element

mutual

/-- The nodes of a tree that stands at `start`, each before those inside it. -/
def nodes (start : Nat) : Element → List Node
  | .token _ => []
  | .node kind children => ⟨kind, children, start⟩ :: nodesOf start children

/-- The nodes of trees that stand next to each other from `start` on. -/
def nodesOf (start : Nat) : List Element → List Node
  | [] => []
  | e :: es => e.nodes start ++ nodesOf (start + e.byteLength) es

end

end Element

namespace Node

/-- The nodes inside a node, at any depth, each before those inside it. -/
def inside (n : Node) : List Node :=
  Element.nodesOf n.start n.children

/-- The nodes of one kind inside a node, at any depth. -/
def within (n : Node) (kind : NodeKind) : List Node :=
  n.inside.filter (·.kind = kind)

/-- The nodes of trees are those that stand next to each other, each with the ones inside it. -/
theorem nodesOf_eq_flatMap (start : Nat) (es : List Element) :
    Element.nodesOf start es = (nodesFrom start es).flatMap fun c => c :: c.inside := by
  induction es generalizing start with
  | nil => rfl
  | cons e es ih =>
    rw [Element.nodesOf, ih]
    cases e with
    | token t => rfl
    | node kind children => rfl

/-- The nodes inside a node are its parts, each with the ones inside it. -/
theorem inside_eq_flatMap (n : Node) : n.inside = n.childNodes.flatMap fun c => c :: c.inside :=
  nodesOf_eq_flatMap n.start n.children

end Node

mutual

/-- What holds of all parts of whatever it holds of, holds of everything inside. -/
theorem Element.forall_mem_nodes {P : Node → Prop} (step : ∀ n, P n → ∀ c ∈ n.childNodes, P c)
    (start : Nat) (e : Element) (h : ∀ c ∈ Node.nodesFrom start [e], P c) :
    ∀ m ∈ e.nodes start, P m := by
  cases e with
  | token t => exact nofun
  | node kind children =>
    have top : P ⟨kind, children, start⟩ := h _ List.mem_cons_self
    intro m hm
    rcases List.mem_cons.mp hm with rfl | hm
    · exact top
    · exact Element.forall_mem_nodesOf step start children (step _ top) m hm

/-- What passes from every node to its parts holds of all nodes of some trees, if it holds of those
that stand next to each other. -/
theorem Element.forall_mem_nodesOf {P : Node → Prop} (step : ∀ n, P n → ∀ c ∈ n.childNodes, P c)
    (start : Nat) (es : List Element) (h : ∀ c ∈ Node.nodesFrom start es, P c) :
    ∀ m ∈ nodesOf start es, P m := by
  cases es with
  | nil => exact nofun
  | cons e es =>
    have split : Node.nodesFrom start (e :: es) =
        Node.nodesFrom start [e] ++ Node.nodesFrom (start + e.byteLength) es := by
      cases e <;> rfl
    rw [split] at h
    intro m hm
    rcases List.mem_append.mp hm with first | others
    · exact Element.forall_mem_nodes step start e
        (fun c hc => h c (List.mem_append_left _ hc)) m first
    · exact Element.forall_mem_nodesOf step _ es
        (fun c hc => h c (List.mem_append_right _ hc)) m others

end

namespace Node

/-- The nodes inside a node are held by it. -/
theorem holds_of_mem_inside {n m : Node} (h : m ∈ n.inside) : n.Holds m :=
  Element.forall_mem_nodesOf (P := n.Holds) (fun _ hk _ hc => hk.child hc) _ _
    (fun _ hc => Holds.self.child hc) m h

/-! ### Declarations inside declarations -/

end Node

/-- How deep a kind of node can stand in a tree: parts stand deeper than what they are parts of. -/
def NodeKind.depth : NodeKind → Nat
  | .root => 0
  | .typeDecl => 1
  | .methodDecl => 2
  | .paramList => 3
  | .param => 4
  | .attributeItem | .genericList | .typeRef | .defaultValue => 5
  | .attributeArgs => 6
  | .literal | .error => 7

/-- A part stands deeper than what it is a part of. -/
theorem NodeKind.depth_lt_of_mem_parts {kind part : NodeKind} (h : part ∈ kind.parts) :
    kind.depth < part.depth := by
  have all : ∀ p ∈ kind.parts, kind.depth < p.depth := by cases kind <;> decide
  exact all part h

namespace Node

/-- So everything inside an orderly node stands deeper than it. -/
theorem Orderly.depth_lt {n : Node} (h : n.Orderly) : ∀ m ∈ n.inside, n.kind.depth < m.kind.depth := by
  have deeper : ∀ k, n.Holds k ∧ n.kind.depth ≤ k.kind.depth →
      ∀ c ∈ k.childNodes, n.Holds c ∧ n.kind.depth < c.kind.depth := fun k hk c hc =>
    ⟨hk.1.child hc, Nat.lt_of_le_of_lt hk.2 (NodeKind.depth_lt_of_mem_parts (h.parts k hk.1 c hc))⟩
  intro m hm
  exact (Element.forall_mem_nodesOf (P := fun c => n.Holds c ∧ n.kind.depth < c.kind.depth)
    (fun k hk => deeper k ⟨hk.1, Nat.le_of_lt hk.2⟩) _ _
    (deeper n ⟨.self, Nat.le_refl _⟩) m hm).2

/-- Nothing at or inside a node is of a kind that stands less deep than the node. -/
theorem Orderly.filter_eq_nil {c : Node} (h : c.Orderly) {kinds : List NodeKind}
    (deeper : ∀ k ∈ kinds, k.depth < c.kind.depth) :
    (c :: c.inside).filter (·.kind ∈ kinds) = [] := by
  refine List.filter_eq_nil_iff.mpr fun m hm => ?_
  have bound : c.kind.depth ≤ m.kind.depth := by
    rcases List.mem_cons.mp hm with rfl | hm
    · exact Nat.le_refl _
    · exact Nat.le_of_lt (h.depth_lt m hm)
  intro listed
  have := deeper _ (of_decide_eq_true listed)
  omega

/-- Nodes of some kinds stand inside a node only as parts of one of these kinds, and inside those, if
its other parts are of kinds that stand deeper. -/
theorem Orderly.filter_inside {n : Node} (h : n.Orderly) {kind : NodeKind} {others : List NodeKind}
    (deeper : ∀ k ∈ n.kind.parts, k = kind ∨ ∀ l ∈ kind :: others, l.depth < k.depth) :
    n.inside.filter (·.kind ∈ kind :: others) =
      (n.childrenOf kind).flatMap fun m => m :: m.inside.filter (·.kind ∈ others) := by
  rw [inside_eq_flatMap, childrenOf]
  have parts := fun c hc => (⟨h.parts n .self c hc, h.of_holds (Holds.self.child hc)⟩ :
    c.kind ∈ n.kind.parts ∧ c.Orderly)
  generalize n.childNodes = cs at parts
  induction cs with
  | nil => rfl
  | cons c cs ih =>
    have rest := ih fun c hc => parts c (List.mem_cons_of_mem _ hc)
    obtain ⟨part, orderly⟩ := parts c List.mem_cons_self
    rw [List.flatMap_cons, List.filter_append, rest]
    by_cases same : c.kind = kind
    · have inner : c.inside.filter (·.kind ∈ kind :: others) =
          c.inside.filter (·.kind ∈ others) := by
        refine List.filter_congr fun m hm => ?_
        have below := orderly.depth_lt m hm
        have other : m.kind ≠ kind := by
          intro equal
          rw [equal, same] at below
          exact Nat.lt_irrefl _ below
        simp [other]
      rw [List.filter_cons_of_pos (by simp [same]), inner,
        List.filter_cons_of_pos (a := c) (by simp [same]), List.flatMap_cons]
    · rw [orderly.filter_eq_nil ((deeper _ part).resolve_left same), List.nil_append,
        List.filter_cons_of_neg (by simp [same])]

/-- Where a kind is found nowhere deeper, the nodes of the kind inside a node are its
direct parts. -/
theorem Orderly.within_eq {n : Node} (h : n.Orderly) {kind : NodeKind}
    (deeper : ∀ k ∈ n.kind.parts, k = kind ∨ kind.depth < k.depth) :
    n.within kind = n.childrenOf kind := by
  have deep : ∀ k ∈ n.kind.parts, k = kind ∨ ∀ l ∈ [kind], l.depth < k.depth := fun k hk =>
    (deeper k hk).imp_right fun below l hl => List.mem_singleton.mp hl ▸ below
  have filtered := h.filter_inside deep
  have none : ∀ m : Node, m.inside.filter (·.kind ∈ ([] : List NodeKind)) = [] := fun m =>
    List.filter_eq_nil_iff.mpr fun _ _ => by simp
  simp only [none, List.flatMap_singleton', List.mem_singleton] at filtered
  exact filtered

/-- All types inside a file are direct parts of it. -/
theorem Orderly.within_types {n : Node} (h : n.Orderly) (root : n.kind = .root) :
    n.within .typeDecl = n.typeDecls :=
  h.within_eq (by rw [root]; decide)

/-- All methods inside a type are direct parts of it. -/
theorem Orderly.within_methods {n : Node} (h : n.Orderly) (type : n.kind = .typeDecl) :
    n.within .methodDecl = n.methods :=
  h.within_eq (by rw [type]; decide)

/-- The parameters inside a method are those of its parameter list. -/
theorem Orderly.within_params {n : Node} (h : n.Orderly) (method : n.kind = .methodDecl) :
    ∃ list, n.paramList? = some list ∧ n.within .param = list.params := by
  obtain ⟨front, list, parts, kind, before⟩ := h.list n .self method
  have held : ∀ c ∈ front ++ [list], c.Orderly := fun c hc =>
    h.of_holds (Holds.self.child (parts ▸ hc))
  have deep : ∀ c ∈ front, c.kind ≠ .paramList ∧ NodeKind.param.depth < c.kind.depth := by
    have all : ∀ k ∈ [NodeKind.attributeItem, .genericList],
        k ≠ .paramList ∧ NodeKind.param.depth < k.depth := by decide
    exact fun c hc => all _ (before c hc)
  refine ⟨list, ?_, ?_⟩
  · have skipped : front.find? (·.kind = .paramList) = none :=
      List.find?_eq_none.mpr fun c hc => by simp [(deep c hc).1]
    rw [paramList?, childOf?, parts, List.find?_append, skipped, Option.none_or]
    simp [kind]
  · have none : (front.flatMap fun c => c :: c.inside).filter (·.kind = .param) = [] := by
      rw [List.filter_flatMap, List.flatMap_eq_nil_iff]
      intro c hc
      have shallow : ∀ k ∈ [NodeKind.param], k.depth < c.kind.depth := fun k hk =>
        List.mem_singleton.mp hk ▸ (deep c hc).2
      have nothing := (held c (List.mem_append_left _ hc)).filter_eq_nil shallow
      simpa using nothing
    have params : list.within .param = list.params :=
      (held list (List.mem_append_right _ (List.mem_singleton_self list))).within_eq
        (by rw [kind]; decide)
    rw [within, inside_eq_flatMap, parts, List.flatMap_append, List.filter_append, none,
      List.nil_append, List.flatMap_singleton, List.filter_cons_of_neg (by simp [kind])]
    exact params

end Node

end DeclFront
