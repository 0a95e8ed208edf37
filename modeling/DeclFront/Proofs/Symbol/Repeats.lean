import DeclFront.Proofs.Symbol.Declared
import DeclFront.Proofs.Symbol.Names

/-!
# Repeated names are reported

Binding reports a parameter when an earlier one of its method has its name, unless that is `_`, and a
type when an earlier one has its name, in the same file or in one before it. These are all the reports
of binding: those about the parameters of a file in the order of its text, then those about its types,
file by file. A type whose name is repeated is no longer found by it, but stays in the table.
-/

set_option autoImplicit false

namespace DeclFront

/-! ### The reports that a text calls for -/

/-- The complete nodes of a kind inside a node, each with its name. -/
def Node.named (kind : NodeKind) (n : Node) : List (PlacedToken × Node) :=
  ((n.within kind).filter (!·.isIncomplete)).filterMap fun m => m.nameToken?.map fun t => (t, m)

namespace Collect

/-- The report of a parameter whose name was used before in its method. -/
def repeatedParam (method : String) (p : String × Location) : Diagnostic :=
  (Finding.duplicateParameter p.1).report (.symbol (method ++ "(" ++ p.1 ++ ")")) (some p.2)

/-- The reports about the parameters of a method, of which names and locations are given. -/
def repeatedParams (method : String) (ps : List (String × Location)) : List Diagnostic :=
  (repeats Prod.fst [] (ps.filter (·.1 ≠ "_"))).map (repeatedParam method)

/-- The report of a type whose name was declared before. -/
def repeatedType (t : String × Location) : Diagnostic :=
  (Finding.duplicateType t.1).report (.symbol t.1) (some t.2)

end Collect

namespace SourceFile

/-- What the complete nodes of a kind are called, and where. -/
def namesIn (f : SourceFile) (kind : NodeKind) (n : Node) : List (String × Location) :=
  (n.named kind).map fun e => (e.1.token.text, ⟨f.name, e.1.range⟩)

/-- The reports about the parameters in a file: for each parameter whose name, other than `_`, an
earlier one of its method has. -/
def paramReports (f : SourceFile) : List Diagnostic :=
  (f.parsed.root.named .typeDecl).flatMap fun t =>
    (t.2.named .methodDecl).flatMap fun m =>
      Collect.repeatedParams (t.1.token.text ++ "." ++ m.1.token.text) (f.namesIn .param m.2)

/-- The types of a file, by name and location. -/
def namedTypes (f : SourceFile) : List (String × Location) :=
  f.namesIn .typeDecl f.parsed.root

/-- The reports about the types of a file: for each whose name an earlier one of the file has, or one
before the file. -/
def typeReports (f : SourceFile) (before : List String) : List Diagnostic :=
  (repeats Prod.fst before f.namedTypes).map Collect.repeatedType

/-- The reports about files behind others, in which types of the names `before` are declared. -/
def reports (before : List String) : List SourceFile → List Diagnostic
  | [] => []
  | f :: fs =>
    f.paramReports ++ f.typeReports before ++ reports (before ++ f.namedTypes.map Prod.fst) fs

end SourceFile

/-! ### What is reported while a file is collected -/

/-- The name and the location of a declaration. -/
def ParamDecl.named (d : ParamDecl) : String × Location := (d.name, d.location)

/-- The name and the location of a declaration. -/
def TypeDecl.named (t : TypeDecl) : String × Location := (t.name, t.location)

namespace Collect

/-- The reports about the parameters of the methods of a type. -/
def methodReports (type : String) (ms : List MethodDecl) : List Diagnostic :=
  ms.flatMap fun m => repeatedParams (type ++ "." ++ m.name) (m.params.map ParamDecl.named)

/-- The reports about the parameters of the methods of types. -/
def typesReports (ts : List TypeDecl) : List Diagnostic :=
  ts.flatMap fun t => methodReports t.name t.methods

/-- All parameters so far have been looked at: what was seen are their names but `_`, and reports were
made about those of them that are repeated. -/
structure Params.Reported (method : String) (ps : Params) : Prop where
  seen : ∀ k, k ∈ ps.seen ↔ k ∈ (ps.decls.map ParamDecl.named).map Prod.fst ∧ k ≠ "_"
  diagnostics : ps.diagnostics = repeatedParams method (ps.decls.map ParamDecl.named)

/-- The last of some parameters is reported if an earlier one has its name, unless that is a
lone underscore. -/
theorem repeatedParams_append (method : String) (ps : List (String × Location))
    (p : String × Location) :
    repeatedParams method (ps ++ [p]) = repeatedParams method ps ++
      if p.1 ∈ ps.map Prod.fst ∧ p.1 ≠ "_" then [repeatedParam method p] else [] := by
  unfold repeatedParams repeats
  rw [List.filter_append, sift_append, List.map_append]
  refine congrArg (_ ++ ·) ?_
  by_cases discard : p.1 = "_"
  · rw [List.filter_cons_of_neg (by simpa using discard), if_neg fun h => h.2 discard]
    rfl
  · have known : p.1 ∈ [] ++ (ps.filter (·.1 ≠ "_")).map Prod.fst ↔ p.1 ∈ ps.map Prod.fst := by
      simp only [List.nil_append, List.mem_map, List.mem_filter]
      constructor
      · rintro ⟨q, ⟨hq, -⟩, eq⟩
        exact ⟨q, hq, eq⟩
      · rintro ⟨q, hq, eq⟩
        exact ⟨q, ⟨hq, by simpa [eq] using discard⟩, eq⟩
    rw [List.filter_cons_of_pos (by simpa using discard), List.filter_nil, sift]
    by_cases old : p.1 ∈ ps.map Prod.fst
    · rw [if_pos (by simpa only [decide_eq_true_eq] using known.mpr old), if_pos ⟨old, discard⟩]
      rfl
    · rw [if_neg (by simpa only [decide_eq_true_eq] using mt known.mp old), if_neg fun h => old h.1]
      rfl

/-- What becomes of a parameter is decided by its name and the names seen before. -/
theorem params_add_cases (file method : String) (ps : Params) (n : Node) :
    ps.add file method n = ps ∨ ∃ d : ParamDecl,
      (ps.add file method n).decls = ps.decls ++ [d] ∧
      (ps.add file method n).seen = (if d.name = "_" then ps.seen else d.name :: ps.seen) ∧
      (ps.add file method n).diagnostics = ps.diagnostics ++
        if d.name ∈ ps.seen ∧ d.name ≠ "_" then [repeatedParam method d.named] else [] := by
  unfold Params.add
  split
  · rename_i t _ _ _ _
    refine .inr ⟨_, rfl, by simp only [decide_eq_true_eq], ?_⟩
    dsimp only
    by_cases again : t.token.text ∈ ps.seen ∧ t.token.text ≠ "_"
    · rw [if_pos again, if_pos (by simpa using again.symm)]
      rfl
    · rw [if_neg again, if_neg (by simpa [and_comm] using again), List.append_nil]
  · exact .inl rfl

/-- One more parameter has been looked at, and was reported if it is repeated. -/
theorem Params.Reported.add {method : String} {ps : Params} (h : ps.Reported method)
    (file : String) (n : Node) : (ps.add file method n).Reported method := by
  rcases params_add_cases file method ps n with same | ⟨d, decls, seen, diagnostics⟩
  · rwa [same]
  · constructor
    · intro k
      rw [decls, seen]
      simp only [List.map_append, List.map_cons, List.map_nil, List.mem_append, List.mem_singleton]
      show _ ↔ (_ ∨ k = d.name) ∧ _
      by_cases discard : d.name = "_"
      · rw [if_pos discard, h.seen, discard]
        tauto
      · rw [if_neg discard, List.mem_cons, h.seen]
        have other : k = d.name → k ≠ "_" := fun eq => eq ▸ discard
        tauto
    · have known : d.name ∈ ps.seen ∧ d.name ≠ "_" ↔
          d.named.1 ∈ (ps.decls.map ParamDecl.named).map Prod.fst ∧ d.named.1 ≠ "_" := by
        rw [h.seen, and_assoc, and_self]
        rfl
      rw [decls, diagnostics, List.map_append, List.map_cons, List.map_nil, repeatedParams_append,
        ← h.diagnostics]
      simp only [known]

/-- The reports about the parameters of a method are those about its repeated names. -/
theorem params_diagnostics (file method : String) (n : Node) :
    (params file method n).diagnostics =
      repeatedParams method ((params file method n).decls.map ParamDecl.named) := by
  have start : Params.Reported method {} := ⟨by simp, rfl⟩
  have all : (params file method n).Reported method := by
    unfold params
    split
    · exact start
    · exact List.foldlRecOn _ _ start fun ps h n _ => h.add file n
  exact all.diagnostics

/-- Those about the methods of a type are the ones about their parameters. -/
theorem methods_diagnostics (file type : String) (ns : List Node) :
    (ns.foldl (Methods.add file type) {}).diagnostics =
      methodReports type (ns.foldl (Methods.add file type) {}).decls := by
  refine List.foldlRecOn (motive := fun ms : Methods => ms.diagnostics = methodReports type ms.decls)
    _ _ rfl fun ms h n _ => ?_
  unfold Methods.add
  split
  · exact h
  · dsimp only
    rw [h, params_diagnostics, methodReports, methodReports, List.flatMap_append,
      List.flatMap_singleton]

/-- Those about a file, apart from its types, are the ones about the parameters in it. -/
theorem file_diagnostics (f : SourceFile) :
    (file f).diagnostics = typesReports (file f).decls := by
  refine List.foldlRecOn (motive := fun ts : Types => ts.diagnostics = typesReports ts.decls)
    _ _ rfl fun ts h n _ => ?_
  unfold Types.add
  split
  · exact h
  · dsimp only
    rw [h, methods_diagnostics, typesReports, typesReports, List.flatMap_append,
      List.flatMap_singleton]

/-! ### From declarations to nodes -/

section Nodes

variable {δ : Type} {Q : δ → PlacedToken → Node → Prop} {ds : List δ} {ns : List Node}

/-- Where each declaration is that of a node with a name, all nodes are there with their names. -/
theorem forall₂_named (h : List.Forall₂ (fun d n => ∃ t, n.nameToken? = some t ∧ Q d t n) ds ns) :
    List.Forall₂ (fun d e => Q d e.1 e.2) ds
      (ns.filterMap fun n => n.nameToken?.map fun t => (t, n)) := by
  induction h with
  | nil => exact .nil
  | cons first _ ih =>
    obtain ⟨t, name, q⟩ := first
    rw [List.filterMap_cons_some (by rw [name]; rfl)]
    exact .cons q ih

/-- What two lists are made into is the same if it is the same member by member. -/
theorem map_eq_map_of_forall₂ {α β γ : Type} {R : α → β → Prop} {f : α → γ} {g : β → γ} {as : List α}
    {bs : List β} (h : List.Forall₂ R as bs) (same : ∀ a b, R a b → f a = g b) :
    as.map f = bs.map g := by
  induction h with
  | nil => rfl
  | cons first _ ih => rw [List.map_cons, List.map_cons, same _ _ first, ih]

/-- Lists made of what the members of two lists are made into are the same if they are so member
by member. -/
theorem flatMap_eq_flatMap_of_forall₂ {α β γ : Type} {R : α → β → Prop} {f : α → List γ}
    {g : β → List γ} {as : List α} {bs : List β} (h : List.Forall₂ R as bs)
    (same : ∀ a b, R a b → f a = g b) : as.flatMap f = bs.flatMap g := by
  rw [List.flatMap_def, List.flatMap_def, map_eq_map_of_forall₂ h same]

end Nodes

variable (f : SourceFile)

/-- The parameters of a method have the names and locations of the complete ones in its node. -/
theorem params_named {d : MethodDecl} {n : Node} (h : d.DeclaredBy f.name n) :
    d.params.map ParamDecl.named = f.namesIn .param n := by
  have params := h.params
  simp only [Node.declared, List.flatMap_singleton'] at params
  have named := forall₂_named (Q := fun d t _ => d.named = (t.token.text, ⟨f.name, t.range⟩))
    (params.imp fun d m hd => ?_)
  · exact map_eq_map_of_forall₂ named fun _ _ same => same
  · obtain ⟨t, name, text, location⟩ := hd.name
    exact ⟨t, name, by rw [ParamDecl.named, text, location]⟩

/-- The reports about the methods of a type follow from the names in its node. -/
theorem methodReports_eq {d : TypeDecl} {n : Node} (h : d.DeclaredBy f.name n) (type : String) :
    methodReports type d.methods = (n.named .methodDecl).flatMap fun m =>
      repeatedParams (type ++ "." ++ m.1.token.text) (f.namesIn .param m.2) := by
  have named := forall₂_named
    (Q := fun d t m => d.name = t.token.text ∧ d.DeclaredBy f.name m)
    (h.methods.imp fun d m hd => ?_)
  · refine flatMap_eq_flatMap_of_forall₂ named fun d e same => ?_
    rw [same.1, params_named f same.2]
  · obtain ⟨t, name, text, -⟩ := hd.name
    exact ⟨t, name, text, hd⟩

/-- The types of a file are the complete ones in its tree, with their names and locations. -/
theorem file_named : List.Forall₂
    (fun d e => d.named = (e.1.token.text, ⟨f.name, e.1.range⟩) ∧ d.DeclaredBy f.name e.2)
    (file f).decls (f.parsed.root.named .typeDecl) := by
  refine forall₂_named
    (Q := fun d t n => d.named = (t.token.text, ⟨f.name, t.range⟩) ∧ d.DeclaredBy f.name n)
    ((file_declaredBy f).imp fun d n hd => ?_)
  obtain ⟨t, name, text, location⟩ := hd.name
  exact ⟨t, name, by rw [TypeDecl.named, text, location], hd⟩

/-- What collecting a file reports is what is to be reported about its parameters. -/
theorem file_paramReports : (file f).diagnostics = f.paramReports := by
  rw [file_diagnostics, typesReports]
  refine flatMap_eq_flatMap_of_forall₂ (file_named f) fun d e same => ?_
  have name : d.name = e.1.token.text := congrArg Prod.fst same.1
  rw [name, methodReports_eq f same.2]

/-- What is collected as types of a file are the types that are named in it. -/
theorem file_namedTypes : (file f).decls.map TypeDecl.named = f.namedTypes :=
  map_eq_map_of_forall₂ (file_named f) fun _ _ same => same.1

/-- The types that are reported are those whose name was there before, in the file or in front
of it. -/
theorem file_typeReports (before : List String) :
    (repeats TypeDecl.name before (file f).decls).map TypeDecl.repeatedReport =
      f.typeReports before := by
  rw [SourceFile.typeReports, ← file_namedTypes, repeats, repeats, sift_map, List.map_map]
  rfl

end Collect

namespace SymbolTable

/-- The reports about files are made file after file, by induction on them. -/
theorem reportsBehind_file (before : List String) (files : List SourceFile) :
    reportsBehind before (files.map Collect.file) = SourceFile.reports before files := by
  induction files generalizing before with
  | nil => rfl
  | cons f files ih =>
    have texts : (Collect.file f).decls.map TypeDecl.name = f.namedTypes.map Prod.fst := by
      rw [← Collect.file_namedTypes, List.map_map]
      rfl
    rw [List.map_cons, reportsBehind, SourceFile.reports, Collect.file_paramReports,
      Collect.file_typeReports, texts, ih]

/-- What binding reports is what the texts of the files say is repeated. -/
theorem diagnostics_ofFiles (files : List SourceFile) :
    (ofFiles files).diagnostics = SourceFile.reports [] files := by
  show (bindNames [] 0 (files.map Collect.file)).2 = _
  rw [bindNames_eq]
  exact reportsBehind_file [] files

end SymbolTable

/-- A name stands for the first type in the table that has it, and the types that can be found are
these; a method is found by its name as the first in that type, and a parameter as the first in that
method. What is reported are the names that repeat an earlier one, file by file, first those of
parameters and then those of types. And the table holds all declarations in their order, whether they
can be found or not. -/
theorem first_of_each_name_is_found (files : List SourceFile) :
    (∀ name T, (SymbolTable.ofFiles files).lookupType name = some T ↔
      ∃ ix, FirstAt (SymbolTable.ofFiles files).type? (·.name = name) ix T) ∧
    (SymbolTable.ofFiles files).namedTypes =
      firsts TypeSymbol.name [] (SymbolTable.ofFiles files).allTypes ∧
    (∀ type name M, (SymbolTable.ofFiles files).findMethod type name = some M ↔
      ∃ ix T, FirstAt (SymbolTable.ofFiles files).type? (·.name = type) ix T ∧
        ∃ m, FirstAt (SymbolTable.ofFiles files).method?
          (fun M => M.owner = ix && M.name = name) m M) ∧
    (∀ type method name P, (SymbolTable.ofFiles files).findParameter type method name = some P ↔
      ∃ ix T, FirstAt (SymbolTable.ofFiles files).type? (·.name = type) ix T ∧
        ∃ m M, FirstAt (SymbolTable.ofFiles files).method?
            (fun M => M.owner = ix && M.name = method) m M ∧
          ∃ p, FirstAt (SymbolTable.ofFiles files).parameter?
            (fun P => P.owner = m && P.name = name) p P) ∧
    (SymbolTable.ofFiles files).diagnostics = SourceFile.reports [] files ∧
    List.Forall₂ (fun s p => s.DeclaredBy p.1.name p.2) (SymbolTable.ofFiles files).symbols.toList
      (declaredIn files) :=
  ⟨fun _ _ => SymbolTable.lookupType_eq_some_iff files, SymbolTable.namedTypes_eq files,
    fun _ _ _ => SymbolTable.findMethod_eq_some_iff files,
    fun _ _ _ _ => SymbolTable.findParameter_eq_some_iff files,
    SymbolTable.diagnostics_ofFiles files, SymbolTable.symbols_declaredBy files⟩

end DeclFront
