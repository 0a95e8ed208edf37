import DeclFront.Proofs.Symbol.Account

/-!
# Where the symbols of a table come from

Each declaration that is collected from a file belongs to a node of the tree of that file, and each
symbol of a table to a collected declaration. As the trees are read from texts, all symbols of a
table that is bound from files are sound.
-/

set_option autoImplicit false

namespace DeclFront

/-- The declaration of a parameter is read off a node. -/
structure ParamDecl.Reads (d : ParamDecl) (file : String) (n : Node) : Prop where
  tree : d.tree = ⟨file, n⟩
  kind : n.kind = .param
  hasAttributes : d.caps.hasAttributes = !n.attributes.isEmpty
  hasDefaultSyntax : d.caps.hasDefaultSyntax = n.defaultValue?.isSome

/-- The tokens of all trees that the declaration of a method keeps can be decoded. -/
structure MethodDecl.Sound (m : MethodDecl) : Prop where
  tree : ∀ tree, m.tree = some tree → tree.Decodes
  params : ∀ d ∈ m.params, d.tree.Decodes

/-- The tokens of all trees that the declaration of a type keeps can be decoded. -/
structure TypeDecl.Sound (t : TypeDecl) : Prop where
  tree : ∀ tree, t.tree = some tree → tree.Decodes
  methods : ∀ m ∈ t.methods, m.Sound

namespace Collect

/-- What a fold adds one by one holds of all that it has added in the end. -/
theorem foldl_decls {α β γ : Type} {f : β → α → β} {decls : β → List γ} {P : γ → Prop} {as : List α}
    (step : ∀ a ∈ as, ∀ b, ∀ d ∈ decls (f b a), d ∈ decls b ∨ P d) (b : β) :
    ∀ d ∈ decls (as.foldl f b), d ∈ decls b ∨ P d := by
  induction as generalizing b with
  | nil => exact fun d hd => .inl hd
  | cons a as ih =>
    intro d hd
    rcases ih (fun a ha => step a (List.mem_cons_of_mem _ ha)) (f b a) d hd with earlier | added
    · exact step a List.mem_cons_self b d earlier
    · exact .inr added

/-- Where a fold starts with nothing, this is all that is there in the end. -/
theorem foldl_decls_of_nil {α β γ : Type} {f : β → α → β} {decls : β → List γ} {P : γ → Prop}
    {as : List α} {b : β} (step : ∀ a ∈ as, ∀ b, ∀ d ∈ decls (f b a), d ∈ decls b ∨ P d)
    (start : decls b = []) : ∀ d ∈ decls (as.foldl f b), P d := by
  intro d hd
  rcases foldl_decls step b d hd with none | added
  · rw [start] at none
    cases none
  · exact added

section Params

variable {file method : String} {n : Node}

/-- One more parameter is declared by the node it is read off. -/
theorem params_add_decls (ps : Params) (hn : n.kind = .param) :
    ∀ d ∈ (ps.add file method n).decls, d ∈ ps.decls ∨ d.Reads file n := by
  intro d hd
  unfold Params.add at hd
  split at hd
  · rcases List.mem_append.mp hd with earlier | new
    · exact .inl earlier
    · rw [List.mem_singleton.mp new]
      exact .inr ⟨rfl, hn, rfl, rfl⟩
  · exact .inl hd

/-- The parameters that are collected are read off the nodes of the parameter list. -/
theorem mem_params {d : ParamDecl} (h : d ∈ (params file method n).decls) :
    ∃ list m, n.paramList? = some list ∧ m ∈ list.params ∧ d.Reads file m := by
  unfold params at h
  cases hl : n.paramList? with
  | none => simp [hl] at h
  | some list =>
    rw [hl] at h
    have step : ∀ m ∈ list.params, ∀ ps : Params, ∀ d ∈ (ps.add file method m).decls,
        d ∈ ps.decls ∨ ∃ m ∈ list.params, d.Reads file m := by
      intro m hm ps d hd
      have kind : m.kind = .param := by
        have filtered := (List.mem_filter.mp hm).2
        exact of_decide_eq_true filtered
      rcases params_add_decls ps kind d hd with earlier | reads
      · exact .inl earlier
      · exact .inr ⟨m, hm, reads⟩
    obtain ⟨m, hm, reads⟩ := foldl_decls_of_nil step rfl d h
    exact ⟨list, m, rfl, hm, reads⟩

/-- All parameters of a method keep trees whose tokens can be decoded. -/
theorem params_sound (hn : n.Decodes) : ∀ d ∈ (params file method n).decls, d.tree.Decodes := by
  intro d hd
  obtain ⟨list, m, hl, hm, reads⟩ := mem_params hd
  unfold TreeRef.Decodes
  rw [reads.tree]
  exact (hn.childOf? hl).childrenOf hm

end Params

/-- The tree that is kept for the sake of its attributes is the node itself. -/
theorem attributed_sound {file : String} {n : Node} (hn : n.Decodes) :
    ∀ tree, attributed file n = some tree → tree.Decodes := by
  intro tree ht
  unfold attributed at ht
  split at ht
  · simp at ht
  · rw [← Option.some.inj ht]
    exact hn

/-- The methods of a type keep trees whose tokens can be decoded. -/
theorem methods_sound {file type : String} {n : Node} (hn : n.Decodes) :
    ∀ m ∈ (n.methods.foldl (Methods.add file type) {}).decls, m.Sound := by
  have step : ∀ n' ∈ n.methods, ∀ ms : Methods, ∀ m ∈ (ms.add file type n').decls,
      m ∈ ms.decls ∨ m.Sound := by
    intro n' hn' ms m hm
    have decodes : n'.Decodes := hn.childrenOf hn'
    unfold Methods.add at hm
    split at hm
    · exact .inl hm
    · rcases List.mem_append.mp hm with earlier | new
      · exact .inl earlier
      · rw [List.mem_singleton.mp new]
        exact .inr ⟨attributed_sound decodes, params_sound decodes⟩
  exact foldl_decls_of_nil step rfl

/-- The types of a file are collected from a tree that was read from a text. -/
theorem file_sound (f : SourceFile) : ∀ t ∈ (file f).decls, t.Sound := by
  have step : ∀ n ∈ f.parsed.root.typeDecls, ∀ ts : Types, ∀ t ∈ (ts.add f.name n).decls,
      t ∈ ts.decls ∨ t.Sound := by
    intro n hn ts t ht
    have decodes : n.Decodes := f.root_decodes.childrenOf hn
    unfold Types.add at ht
    split at ht
    · exact .inl ht
    · rcases List.mem_append.mp ht with earlier | new
      · exact .inl earlier
      · rw [List.mem_singleton.mp new]
        exact .inr ⟨attributed_sound decodes, methods_sound decodes⟩
  exact foldl_decls_of_nil step rfl

end Collect

/-! ### From declarations to symbols -/

/-- A parameter that is made from such a declaration is sound. -/
theorem Parameter.ofDecl_sound {d : ParamDecl} (h : d.tree.Decodes) (owner : Nat) :
    (Parameter.ofDecl owner d).Sound := by
  refine ⟨by simp [ofDecl], fun tree display form => ?_⟩
  unfold ofDecl at form
  dsimp only at form
  split at form
  · cases form
    exact h
  · simp at form

/-- The method that is made from a sound declaration is sound, and so are its parameters. -/
theorem MethodDecl.Sound.symbols {m : MethodDecl} (h : m.Sound) (owner : Nat) (type : String)
    (ix : Nat) : ∀ s ∈ m.symbols owner type ix, s.Sound := by
  intro s hs
  rcases List.mem_cons.mp hs with rfl | hs
  · exact ⟨by simp, h.tree⟩
  · obtain ⟨d, hd, rfl⟩ := List.mem_map.mp hs
    exact Parameter.ofDecl_sound (h.params d hd) ix

/-- All methods of a type are sound, by induction on them. -/
theorem MethodDecl.allSymbols_sound {ms : List MethodDecl} (h : ∀ m ∈ ms, m.Sound) (owner : Nat)
    (type : String) (ix : Nat) : ∀ s ∈ allSymbols owner type ix ms, s.Sound := by
  induction ms generalizing ix with
  | nil => simp [allSymbols]
  | cons m ms ih =>
    intro s hs
    rcases List.mem_append.mp hs with hs | hs
    · exact (h m List.mem_cons_self).symbols owner type ix s hs
    · exact ih (fun m hm => h m (List.mem_cons_of_mem _ hm)) _ s hs

/-- A type, its methods and their parameters are sound. -/
theorem TypeDecl.Sound.symbols {t : TypeDecl} (h : t.Sound) (ix : Nat) :
    ∀ s ∈ t.symbols ix, s.Sound := by
  intro s hs
  rcases List.mem_cons.mp hs with rfl | hs
  · exact ⟨by simp, h.tree⟩
  · exact MethodDecl.allSymbols_sound h.methods _ _ _ s hs

/-- All types are sound, by induction on them. -/
theorem TypeDecl.allSymbols_sound {ts : List TypeDecl} (h : ∀ t ∈ ts, t.Sound) (ix : Nat) :
    ∀ s ∈ allSymbols ix ts, s.Sound := by
  induction ts generalizing ix with
  | nil => simp [allSymbols]
  | cons t ts ih =>
    intro s hs
    rcases List.mem_append.mp hs with hs | hs
    · exact (h t List.mem_cons_self).symbols ix s hs
    · exact ih (fun t ht => h t (List.mem_cons_of_mem _ ht)) _ s hs

/-- All symbols of a table that is bound from files are sound. -/
theorem SymbolTable.ofFiles_sound {files : List SourceFile} {ix : Nat} {s : Symbol}
    (h : (ofFiles files).get? ix = some s) : s.Sound := by
  have types : ∀ t ∈ (files.map Collect.file).flatMap (·.decls), t.Sound := by
    intro t ht
    obtain ⟨c, hc, ht⟩ := List.mem_flatMap.mp ht
    obtain ⟨f, _, rfl⟩ := List.mem_map.mp hc
    exact Collect.file_sound f t ht
  unfold get? ofFiles at h
  rw [List.getElem?_toArray] at h
  exact TypeDecl.allSymbols_sound types 0 s (List.mem_of_getElem? h)

end DeclFront
