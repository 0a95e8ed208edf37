import DeclFront.Proofs.Symbol.Forest
import DeclFront.Proofs.Syntax.Incomplete
import Mathlib.Data.List.Forall2

/-!
# Every declaration has its symbol

The symbols of a table are those of the declarations in the files, one for one and in the order of
the text: all complete types, in each its complete methods, and in each of those its complete
parameters, at whatever depth the nodes stand. What is left out is incomplete, and has been complained
about by the parser; in a file without errors nothing is left out.
-/

set_option autoImplicit false

namespace DeclFront

/-- The complete nodes of the first kind inside a node, each with those of the next kind inside it
behind it, and so on. -/
def Node.declared : List NodeKind → Node → List Node
  | [], _ => []
  | kind :: deeper, n =>
    ((n.within kind).filter (!·.isIncomplete)).flatMap fun m => m :: m.declared deeper

/-- The kinds of node that declare symbols, from the outside in. -/
def NodeKind.declarations : List NodeKind :=
  [.typeDecl, .methodDecl, .param]

/-- The declarations of a file in the order of its text. -/
def SourceFile.declared (f : SourceFile) : List Node :=
  f.parsed.root.declared NodeKind.declarations

/-- The declarations of files, each with its file. -/
def declaredIn (files : List SourceFile) : List (SourceFile × Node) :=
  files.flatMap fun f => f.declared.map fun n => (f, n)

/-- The kind of node that declares a kind of symbol. -/
def SymbolKind.node : SymbolKind → NodeKind
  | .type => .typeDecl
  | .method => .methodDecl
  | .parameter => .param

/-- The declaration that a symbol keeps, if it keeps it. -/
def Symbol.tree? : Symbol → Option TreeRef
  | .type t => t.attributes.tree
  | .method m => m.attributes.tree
  | .parameter p => p.tree?

/-- What the attributes of a symbol stand in front of. -/
def Symbol.target : Symbol → AttributeTarget
  | .type t => t.attributes.target
  | .method m => m.attributes.target
  | .parameter _ => .parameter

/-- What attributes of a kind of symbol stand in front of. -/
def SymbolKind.target : SymbolKind → AttributeTarget
  | .type => .type
  | .method => .method
  | .parameter => .parameter

/-- The symbol is what a node of a file declares. -/
structure Symbol.DeclaredBy (s : Symbol) (file : String) (n : Node) : Prop where
  kind : n.kind = s.kind.node
  target : s.target = s.kind.target
  name : ∃ t, n.nameToken? = some t ∧ s.name = t.token.text ∧ s.locations = [⟨file, t.range⟩]
  tree : ∀ r, s.tree? = some r → r = ⟨file, n⟩
  plain : s.tree? = none → n.attributes = []

/-- A parameter is passed as its declaration says, and it keeps that if there is a default value. -/
structure Parameter.ShapedBy (p : Parameter) (n : Node) : Prop where
  refKind : p.refKind = Collect.refKind (n.modifier?.map (·.token.kind))
  isVariadic : p.caps.isVariadic = decide (n.modifier?.map (·.token.kind) = some .kwParams)
  plain : p.form = .plain → n.defaultValue? = none

/-- The declaration of a parameter is that of a complete node. -/
structure ParamDecl.DeclaredBy (d : ParamDecl) (file : String) (n : Node) : Prop where
  reads : d.Reads file n
  refKind : d.refKind = Collect.refKind (n.modifier?.map (·.token.kind))
  isVariadic : d.caps.isVariadic = decide (n.modifier?.map (·.token.kind) = some .kwParams)
  name : ∃ t, n.nameToken? = some t ∧ d.name = t.token.text ∧ d.location = ⟨file, t.range⟩

/-- The declaration of a method is that of a complete node. -/
structure MethodDecl.DeclaredBy (d : MethodDecl) (file : String) (n : Node) : Prop where
  kind : n.kind = .methodDecl
  name : ∃ t, n.nameToken? = some t ∧ d.name = t.token.text ∧ d.location = ⟨file, t.range⟩
  tree : d.tree = Collect.attributed file n
  params : List.Forall₂ (ParamDecl.DeclaredBy · file) d.params (n.declared [.param])

/-- The declaration of a type is that of a complete node. -/
structure TypeDecl.DeclaredBy (d : TypeDecl) (file : String) (n : Node) : Prop where
  kind : n.kind = .typeDecl
  name : ∃ t, n.nameToken? = some t ∧ d.name = t.token.text ∧ d.location = ⟨file, t.range⟩
  tree : d.tree = Collect.attributed file n
  methods : List.Forall₂ (MethodDecl.DeclaredBy · file) d.methods
    ((n.within .methodDecl).filter (!·.isIncomplete))

/-- At each place of two related lists stand related things, or nothing in either. -/
theorem getElem?_of_forall₂ {α β : Type} {R : α → β → Prop} {as : List α} {bs : List β}
    (h : List.Forall₂ R as bs) (i : Nat) :
    (as[i]? = none ∧ bs[i]? = none) ∨ ∃ a b, as[i]? = some a ∧ bs[i]? = some b ∧ R a b := by
  induction h generalizing i with
  | nil => exact .inl ⟨rfl, rfl⟩
  | @cons a b _ _ first _ ih =>
    cases i with
    | zero => exact .inr ⟨a, b, rfl, rfl, first⟩
    | succ i => exact ih i

namespace Collect

/-- A fold that adds one thing for each element it keeps has added them in the end, in order. -/
theorem forall₂_foldl {α β γ : Type} {f : β → α → β} {decls : β → List γ} {R : γ → α → Prop}
    {keep : α → Bool} {as : List α} {b : β} (start : decls b = [])
    (kept : ∀ a ∈ as, keep a = true → ∀ b, ∃ d, decls (f b a) = decls b ++ [d] ∧ R d a)
    (dropped : ∀ a ∈ as, keep a = false → ∀ b, decls (f b a) = decls b) :
    List.Forall₂ R (decls (as.foldl f b)) (as.filter keep) := by
  induction as using List.reverseRecOn with
  | nil =>
    rw [List.foldl_nil, start]
    exact .nil
  | append_singleton as a ih =>
    have before := ih (fun a ha => kept a (List.mem_append_left _ ha))
      (fun a ha => dropped a (List.mem_append_left _ ha))
    have last : a ∈ as ++ [a] := List.mem_append_right _ (List.mem_singleton_self a)
    rw [List.foldl_append, List.foldl_cons, List.foldl_nil, List.filter_append]
    by_cases keeps : keep a = true
    · obtain ⟨d, added, relates⟩ := kept a last keeps (as.foldl f b)
      rw [added, List.filter_cons_of_pos keeps, List.filter_nil]
      exact List.rel_append before (.cons relates .nil)
    · rw [dropped a last (Bool.eq_false_iff.mpr keeps), List.filter_cons_of_neg keeps,
        List.filter_nil, List.append_nil]
      exact before

section Adding

variable {file owner : String} {n : Node}

/-- A complete parameter adds one declaration, which is its own. -/
theorem params_add_complete (param : n.kind = .param) (complete : n.isIncomplete = false)
    (ps : Params) :
    ∃ d, (ps.add file owner n).decls = ps.decls ++ [d] ∧ d.DeclaredBy file n := by
  simp only [Node.isIncomplete, param, Bool.or_eq_false_iff, Option.isNone_eq_false_iff] at complete
  obtain ⟨hasName, hasType⟩ := complete
  obtain ⟨t, name⟩ := Option.isSome_iff_exists.mp hasName
  obtain ⟨typeName, type⟩ := Option.isSome_iff_exists.mp hasType
  obtain ⟨typeRef, found, type⟩ := Option.bind_eq_some_iff.mp type
  unfold Params.add
  rw [name, found, Option.bind_some, type, Option.map_some]
  exact ⟨_, rfl, ⟨rfl, param, rfl, rfl⟩, rfl, rfl, t, name, rfl, rfl⟩

/-- An incomplete parameter adds none. -/
theorem params_add_incomplete (param : n.kind = .param) (incomplete : n.isIncomplete = true)
    (ps : Params) : (ps.add file owner n).decls = ps.decls := by
  unfold Params.add
  split
  · rename_i t typeRef typeName name type
    obtain ⟨r, found, type⟩ := Option.bind_eq_some_iff.mp type
    obtain ⟨u, type, same⟩ := Option.map_eq_some_iff.mp type
    simp [Node.isIncomplete, param, name, found, type] at incomplete
  · rfl

/-- The declarations of the parameters of a method are those of its complete parameters,
in order. -/
theorem params_declaredBy (orderly : n.Orderly) (method : n.kind = .methodDecl) :
    List.Forall₂ (ParamDecl.DeclaredBy · file) (params file owner n).decls
      (n.declared [.param]) := by
  obtain ⟨list, found, all⟩ := orderly.within_params method
  have kinds : ∀ m ∈ list.params, m.kind = .param := fun m hm =>
    of_decide_eq_true (List.mem_filter.mp hm).2
  rw [params, found, Node.declared, all]
  simp only [Node.declared, List.flatMap_singleton']
  exact forall₂_foldl rfl
    (fun m hm complete ps => params_add_complete (kinds m hm) (by simpa using complete) ps)
    (fun m hm incomplete ps => params_add_incomplete (kinds m hm) (by simpa using incomplete) ps)

/-- A complete method adds one declaration, which is its own. -/
theorem methods_add_complete (orderly : n.Orderly) (method : n.kind = .methodDecl)
    (complete : n.isIncomplete = false) (ms : Methods) :
    ∃ d, (ms.add file owner n).decls = ms.decls ++ [d] ∧ d.DeclaredBy file n := by
  simp only [Node.isIncomplete, method, Option.isNone_eq_false_iff] at complete
  obtain ⟨t, name⟩ := Option.isSome_iff_exists.mp complete
  rw [Methods.add, name]
  exact ⟨_, rfl, method, ⟨t, name, rfl, rfl⟩, rfl, params_declaredBy orderly method⟩

/-- An incomplete method adds none, and its parameters are lost with it. -/
theorem methods_add_incomplete (method : n.kind = .methodDecl) (incomplete : n.isIncomplete = true)
    (ms : Methods) : (ms.add file owner n).decls = ms.decls := by
  simp only [Node.isIncomplete, method, Option.isNone_iff_eq_none] at incomplete
  rw [Methods.add, incomplete]

/-- A complete type adds one declaration, which is its own. -/
theorem types_add_complete (orderly : n.Orderly) (type : n.kind = .typeDecl)
    (complete : n.isIncomplete = false) (ts : Types) :
    ∃ d, (ts.add file n).decls = ts.decls ++ [d] ∧ d.DeclaredBy file n := by
  simp only [Node.isIncomplete, type, Option.isNone_eq_false_iff] at complete
  obtain ⟨t, name⟩ := Option.isSome_iff_exists.mp complete
  rw [Types.add, name]
  refine ⟨_, rfl, type, ⟨t, name, rfl, rfl⟩, rfl, ?_⟩
  rw [orderly.within_methods type]
  have kinds : ∀ m ∈ n.methods, m.kind = .methodDecl ∧ m.Orderly := fun m hm =>
    ⟨of_decide_eq_true (List.mem_filter.mp hm).2,
      orderly.of_holds (Node.Holds.self.child (List.mem_filter.mp hm).1)⟩
  exact forall₂_foldl rfl
    (fun m hm complete ms =>
      methods_add_complete (kinds m hm).2 (kinds m hm).1 (by simpa using complete) ms)
    (fun m hm incomplete ms =>
      methods_add_incomplete (kinds m hm).1 (by simpa using incomplete) ms)

/-- An incomplete type adds none, and what is inside it is lost with it. -/
theorem types_add_incomplete (type : n.kind = .typeDecl) (incomplete : n.isIncomplete = true)
    (ts : Types) : (ts.add file n).decls = ts.decls := by
  simp only [Node.isIncomplete, type, Option.isNone_iff_eq_none] at incomplete
  rw [Types.add, incomplete]

end Adding

/-- The collected types of a file are its complete types, at whatever depth. -/
theorem file_declaredBy (f : SourceFile) :
    List.Forall₂ (TypeDecl.DeclaredBy · f.name) (file f).decls
      ((f.parsed.root.within .typeDecl).filter (!·.isIncomplete)) := by
  have orderly : f.parsed.root.Orderly := by
    rw [f.parsed_eq]
    exact root_orderly _
  rw [orderly.within_types rfl]
  have kinds : ∀ m ∈ f.parsed.root.typeDecls, m.kind = .typeDecl ∧ m.Orderly := fun m hm =>
    ⟨of_decide_eq_true (List.mem_filter.mp hm).2,
      orderly.of_holds (Node.Holds.self.child (List.mem_filter.mp hm).1)⟩
  exact forall₂_foldl rfl
    (fun m hm complete ts =>
      types_add_complete (kinds m hm).2 (kinds m hm).1 (by simpa using complete) ts)
    (fun m hm incomplete ts =>
      types_add_incomplete (kinds m hm).1 (by simpa using incomplete) ts)

end Collect

/-! ### From declarations to symbols -/

/-- The symbol that is made from a declaration is what the same node declares. -/
theorem ParamDecl.DeclaredBy.symbol {d : ParamDecl} {file : String} {n : Node}
    (h : d.DeclaredBy file n) (owner : Nat) :
    (Symbol.parameter (.ofDecl owner d)).DeclaredBy file n := by
  obtain ⟨t, name, text, location⟩ := h.name
  refine ⟨h.reads.kind, rfl, ⟨t, name, text, congrArg ([·]) location⟩, ?_, ?_⟩
  · intro r hr
    unfold Symbol.tree? Parameter.tree? Parameter.ofDecl at hr
    dsimp only at hr
    split at hr
    · cases hr
    · rename_i tree _ form
      split at form
      · cases form
        rw [← Option.some.inj hr]
        exact h.reads.tree
      · cases form
  · intro none
    have plain : d.caps.needsDetail = false := by
      unfold Symbol.tree? Parameter.tree? Parameter.ofDecl at none
      dsimp only at none
      by_contra detail
      rw [Bool.not_eq_false] at detail
      rw [if_pos detail] at none
      cases none
    have unattributed : d.caps.hasAttributes = false := by
      simp only [ParamCaps.needsDetail, Bool.or_eq_false_iff] at plain
      exact plain.1.1
    rw [h.reads.hasAttributes, Bool.not_eq_false', List.isEmpty_iff] at unattributed
    exact unattributed

/-- The shape of a parameter is as it was declared: how it is passed, and whether it keeps
its declaration. -/
theorem ParamDecl.DeclaredBy.shape {d : ParamDecl} {file : String} {n : Node}
    (h : d.DeclaredBy file n) (owner : Nat) : (Parameter.ofDecl owner d).ShapedBy n := by
  refine ⟨h.refKind, h.isVariadic, fun plain => ?_⟩
  by_contra written
  rw [← ne_eq, ← Option.isSome_iff_ne_none, ← h.reads.hasDefaultSyntax] at written
  have detail : d.caps.needsDetail = true := by
    rw [ParamCaps.needsDetail, written, Bool.or_true, Bool.true_or]
  rw [Parameter.ofDecl, if_pos detail] at plain
  cases plain

/-- The symbol is what a node of a file declares, and if it is a parameter it is shaped like that. -/
structure Symbol.ReadFrom (s : Symbol) (file : String) (n : Node) : Prop where
  declared : s.DeclaredBy file n
  shape : ∀ p, s = .parameter p → p.ShapedBy n

/-- What is kept for the sake of attributes is the node and its file. -/
theorem attributed_eq_some {file : String} {n : Node} {r : TreeRef}
    (h : Collect.attributed file n = some r) : r = ⟨file, n⟩ := by
  unfold Collect.attributed at h
  split at h
  · cases h
  · exact (Option.some.inj h).symm

/-- Nothing is kept only where there are no attributes. -/
theorem attributed_eq_none {file : String} {n : Node} (h : Collect.attributed file n = none) :
    n.attributes = [] := by
  unfold Collect.attributed at h
  split at h
  · rename_i empty
    exact List.isEmpty_iff.mp empty
  · cases h

/-- The symbols of a method are read from its node and from those of its parameters. -/
theorem MethodDecl.DeclaredBy.symbols {d : MethodDecl} {file : String} {n : Node}
    (h : d.DeclaredBy file n) (owner : Nat) (type : String) (ix : Nat) :
    List.Forall₂ (Symbol.ReadFrom · file) (d.symbols owner type ix)
      (n :: n.declared [.param]) := by
  obtain ⟨t, name, text, location⟩ := h.name
  refine .cons ⟨⟨h.kind, rfl, ⟨t, name, text, congrArg ([·]) location⟩, ?_, ?_⟩, ?_⟩ ?_
  · exact fun r hr => attributed_eq_some (h.tree ▸ hr)
  · exact fun none => attributed_eq_none (h.tree ▸ none)
  · exact fun _ same => Symbol.noConfusion same
  · rw [List.forall₂_map_left_iff]
    refine h.params.imp fun d m hd => ⟨hd.symbol ix, fun p same => ?_⟩
    cases same
    exact hd.shape ix

/-- The symbols of methods are read from their nodes, by induction on them. -/
theorem MethodDecl.allSymbols_readFrom {ds : List MethodDecl} {file : String} {ns : List Node}
    (h : List.Forall₂ (MethodDecl.DeclaredBy · file) ds ns) (owner : Nat) (type : String)
    (ix : Nat) :
    List.Forall₂ (Symbol.ReadFrom · file) (allSymbols owner type ix ds)
      (ns.flatMap fun n => n :: n.declared [.param]) := by
  induction h generalizing ix with
  | nil => exact .nil
  | cons first _ ih =>
    rw [allSymbols, List.flatMap_cons]
    exact List.rel_append (first.symbols owner type ix) (ih _)

/-- The symbols of types are read from their nodes, by induction on them. -/
theorem TypeDecl.allSymbols_readFrom {ds : List TypeDecl} {ps : List (SourceFile × Node)}
    (h : List.Forall₂ (fun d p => d.DeclaredBy p.1.name p.2) ds ps) (ix : Nat) :
    List.Forall₂ (fun s p => s.ReadFrom p.1.name p.2) (allSymbols ix ds)
      (ps.flatMap fun p => (p.2 :: p.2.declared [.methodDecl, .param]).map fun n => (p.1, n)) := by
  induction h generalizing ix with
  | nil => exact .nil
  | @cons d p _ _ first _ ih =>
    rw [allSymbols, List.flatMap_cons]
    refine List.rel_append ?_ (ih _)
    rw [List.forall₂_map_right_iff]
    obtain ⟨t, name, text, location⟩ := first.name
    refine .cons ⟨⟨first.kind, rfl, ⟨t, name, text, congrArg ([·]) location⟩, ?_, ?_⟩, ?_⟩ ?_
    · exact fun r hr => attributed_eq_some (first.tree ▸ hr)
    · exact fun none => attributed_eq_none (first.tree ▸ none)
    · exact fun _ same => Symbol.noConfusion same
    · exact MethodDecl.allSymbols_readFrom first.methods ix d.name (ix + 1)

namespace SymbolTable

/-- What is collected from files are the declarations of their complete types, in order. -/
theorem declarations_declaredBy (files : List SourceFile) :
    List.Forall₂ (fun d p => d.DeclaredBy p.1.name p.2) (declarations files)
      (files.flatMap fun f =>
        ((f.parsed.root.within .typeDecl).filter (!·.isIncomplete)).map fun n => (f, n)) := by
  induction files with
  | nil => exact .nil
  | cons f files ih =>
    rw [List.flatMap_cons]
    refine List.rel_append ?_ ih
    rw [List.forall₂_map_right_iff]
    exact Collect.file_declaredBy f

/-- The symbols of a table are those of the declarations in the files, in their order. -/
theorem symbols_readFrom (files : List SourceFile) :
    List.Forall₂ (fun s p => s.ReadFrom p.1.name p.2) (ofFiles files).symbols.toList
      (declaredIn files) := by
  have all := TypeDecl.allSymbols_readFrom (declarations_declaredBy files) 0
  have same : declaredIn files = (files.flatMap fun f =>
      ((f.parsed.root.within .typeDecl).filter (!·.isIncomplete)).map fun n => (f, n)).flatMap
        fun p => (p.2 :: p.2.declared [.methodDecl, .param]).map fun n => (p.1, n) := by
    rw [declaredIn, List.flatMap_assoc]
    refine List.flatMap_congr fun f _ => ?_
    rw [SourceFile.declared, NodeKind.declarations, Node.declared, List.map_flatMap,
      List.flatMap_map]
  rw [same]
  exact all

/-- The symbols of a table are what the nodes of its files declare, each for one, in order. -/
theorem symbols_declaredBy (files : List SourceFile) :
    List.Forall₂ (fun s p => s.DeclaredBy p.1.name p.2) (ofFiles files).symbols.toList
      (declaredIn files) :=
  (symbols_readFrom files).imp fun _ _ read => read.declared

/-- At the index of a symbol stands its declaration, and the other way round. -/
theorem readFrom_at (files : List SourceFile) (ix : Nat) :
    ((ofFiles files).get? ix = none ∧ (declaredIn files)[ix]? = none) ∨
      ∃ s f n, (ofFiles files).get? ix = some s ∧ (declaredIn files)[ix]? = some (f, n) ∧
        s.ReadFrom f.name n := by
  have at_ := getElem?_of_forall₂ (symbols_readFrom files) ix
  rw [Array.getElem?_toList] at at_
  rcases at_ with none | ⟨s, ⟨f, n⟩, symbol, declared, read⟩
  · exact .inl none
  · exact .inr ⟨s, f, n, symbol, declared, read⟩

/-- At every index there is a symbol and the node that declares it, or there is neither. -/
theorem declaredBy_at (files : List SourceFile) (ix : Nat) :
    ((ofFiles files).get? ix = none ∧ (declaredIn files)[ix]? = none) ∨
      ∃ s f n, (ofFiles files).get? ix = some s ∧ (declaredIn files)[ix]? = some (f, n) ∧
        s.DeclaredBy f.name n :=
  (readFrom_at files ix).imp_right fun ⟨s, f, n, symbol, declared, read⟩ =>
    ⟨s, f, n, symbol, declared, read.declared⟩

end SymbolTable

/-- A declaration inside a node is held by it. -/
theorem Node.holds_of_mem_declared {n m : Node} {kinds : List NodeKind} (h : m ∈ n.declared kinds) :
    n.Holds m := by
  induction kinds generalizing n with
  | nil => cases h
  | cons kind deeper ih =>
    obtain ⟨k, hk, hm⟩ := List.mem_flatMap.mp h
    have held : n.Holds k := holds_of_mem_inside (List.mem_filter.mp (List.mem_filter.mp hk).1).1
    rcases List.mem_cons.mp hm with rfl | hm
    · exact held
    · exact held.trans (ih hm)

/-- A declaration in files is held by the tree of one of them. -/
theorem mem_declaredIn {files : List SourceFile} {f : SourceFile} {n : Node}
    (h : (f, n) ∈ declaredIn files) : f ∈ files ∧ f.parsed.root.Holds n := by
  obtain ⟨g, hg, mem⟩ := List.mem_flatMap.mp h
  obtain ⟨m, hm, same⟩ := List.mem_map.mp mem
  cases same
  exact ⟨hg, Node.holds_of_mem_declared hm⟩

/-! ### Nothing is left out of a file without errors -/

/-- Where every node is complete, nothing is left out. -/
theorem Node.declared_of_complete {n : Node} (complete : ∀ m, n.Holds m → m.isIncomplete = false)
    (kind : NodeKind) (deeper : List NodeKind) :
    n.declared (kind :: deeper) = (n.within kind).flatMap fun m => m :: m.declared deeper := by
  rw [declared, List.filter_eq_self.mpr]
  intro m hm
  rw [complete m (holds_of_mem_inside (List.mem_filter.mp hm).1)]
  rfl

/-- A file in which nothing is incomplete declares what all its nodes of declarations declare. -/
theorem Node.Orderly.declared_eq {n : Node} (h : n.Orderly) (root : n.kind = .root)
    (complete : ∀ m, n.Holds m → m.isIncomplete = false) :
    n.declared NodeKind.declarations = n.inside.filter (·.kind ∈ NodeKind.declarations) := by
  rw [NodeKind.declarations, declared_of_complete complete, h.within_types root,
    h.filter_inside (by rw [root]; decide)]
  refine List.flatMap_congr fun t ht => congrArg (t :: ·) ?_
  obtain ⟨inFile, type⟩ := List.mem_filter.mp ht
  have held : n.Holds t := Holds.self.child inFile
  have orderly : t.Orderly := h.of_holds held
  have kind : t.kind = .typeDecl := of_decide_eq_true type
  have inner : ∀ m, t.Holds m → m.isIncomplete = false := fun m hm => complete m (held.trans hm)
  rw [declared_of_complete inner, orderly.within_methods kind,
    orderly.filter_inside (by rw [kind]; decide)]
  refine List.flatMap_congr fun m hm => congrArg (m :: ·) ?_
  have inType : t.Holds m := Holds.self.child (List.mem_filter.mp hm).1
  rw [declared_of_complete fun k hk => inner k (inType.trans hk)]
  simp only [declared, List.flatMap_singleton', within, List.mem_singleton]

/-- The symbols of files are their complete declarations, one for one in the order of the text. What
is left out as incomplete, at whatever depth of a file it stands, was complained about when the file
was parsed, between the first byte of the node and the significant token behind it or the end of the
text; and where a file has no errors, all its declarations have their symbols. -/
theorem no_declaration_dropped_silently (files : List SourceFile) :
    List.Forall₂ (fun s p => s.DeclaredBy p.1.name p.2) (SymbolTable.ofFiles files).symbols.toList
      (declaredIn files) ∧
    ∀ f ∈ files,
      (∀ m ∈ f.parsed.root.inside, m.isIncomplete = true → ∃ e ∈ f.parsed.errors,
        m.start ≤ e.range.start ∧
          e.range.start ≤ firstLexemeFrom f.text.toList m.range.stop) ∧
      (f.parsed.errors = [] →
        f.declared = f.parsed.root.inside.filter (·.kind ∈ NodeKind.declarations)) := by
  refine ⟨SymbolTable.symbols_declaredBy files, fun f _ => ?_⟩
  rw [SourceFile.declared, f.parsed_eq]
  constructor
  · exact fun m hm incomplete => exists_error_of_isIncomplete (Node.holds_of_mem_inside hm) incomplete
  · intro none
    refine (root_orderly _).declared_eq rfl fun m hm => ?_
    by_contra incomplete
    rw [Bool.not_eq_false] at incomplete
    obtain ⟨e, he, -⟩ := exists_error_of_isIncomplete hm incomplete
    rw [none] at he
    cases he

end DeclFront
