import DeclFront.Archive
import DeclFront.Proofs.Compilation.Lines
import DeclFront.Proofs.Symbol.Located

/-!
# Which file a diagnostic comes from

Every diagnostic of a snapshot is raised by one of its files: by reading it, by binding what it
declares, or by finding something out about one of its symbols. It is located in that file, within
its text, so the line index of the file has a span for it. A location names its file only, and the
first file of the name is looked at.
-/

set_option autoImplicit false

namespace DeclFront

namespace LineIndex

/-- A range within a text has its lines and columns. -/
theorem exists_span {text : List Char} {r : Range} (h : r.Within (Text.byteLength text)) :
    ∃ span, (ofText text).span? r = some span := by
  obtain ⟨a, ha⟩ := Option.isSome_iff_exists.mp (lineCol?_isSome_iff.mpr (h.1.trans h.2))
  obtain ⟨b, hb⟩ := Option.isSome_iff_exists.mp (lineCol?_isSome_iff.mpr h.2)
  exact ⟨(a, b), by rw [span?, ha, hb]⟩

end LineIndex

/-- Among files of different names, a file is found by its name. -/
theorem find?_name {fs : List SourceFile} {f : SourceFile} (distinct : (fs.map (·.name)).Nodup)
    (h : f ∈ fs) : fs.find? (·.name = f.name) = some f := by
  induction fs with
  | nil => cases h
  | cons g gs ih =>
    obtain ⟨new, distinct⟩ := List.nodup_cons.mp distinct
    rcases List.mem_cons.mp h with rfl | h
    · rw [List.find?_cons_of_pos (by simp)]
    · have other : g.name ≠ f.name := fun same => new (List.mem_map.mpr ⟨f, h, same.symm⟩)
      rw [List.find?_cons_of_neg (by simpa using other), ih distinct h]

namespace Compilation

variable {c : Compilation} {f : SourceFile}

/-- No file stands in front of an input, or of a generated file without an input of its name. -/
theorem file?_name (inputs : (c.inputs.map (·.name)).Nodup)
    (generated : (c.generated.map (·.name)).Nodup)
    (h : f ∈ c.inputs ∨ f ∈ c.generated ∧ ∀ g ∈ c.inputs, g.name ≠ f.name) :
    c.file? f.name = some f := by
  rw [file?, files, List.find?_append]
  rcases h with input | ⟨written, unshadowed⟩
  · rw [find?_name inputs input]
    rfl
  · have none : c.inputs.find? (·.name = f.name) = none :=
      List.find?_eq_none.mpr fun g hg => by simpa using unshadowed g hg
    rw [none, Option.none_or, find?_name generated written]

/-- The file raises the diagnostic, where the given is known about the symbols of the files: it does
not fit the grammar, or binding reports the name of one of its parameters or types, or it declares a
symbol about which the diagnostic was reported. -/
inductive Raises (c : Compilation) (known : Option Knowledge) (f : SourceFile) : Diagnostic → Prop where
  | parse {d : Diagnostic} : d ∈ f.diagnostics → Raises c known f d
  | binding {d : Diagnostic} : known.isSome → d ∈ (SymbolTable.ofFiles c.files).diagnostics →
      (d ∈ (Collect.file f).diagnostics ∨ ∃ t ∈ (Collect.file f).decls, d = t.repeatedReport) →
      Raises c known f d
  | symbol {k : Knowledge} {ix : Nat} {n : Node} {d : Diagnostic} : known = some k →
      (declaredIn c.files)[ix]? = some (f, n) → d ∈ k.symbolDiagnostics ix → Raises c known f d

/-- What is known about the symbols of a compilation was found out by inquiries. -/
def Knows (c : Compilation) (known : Option Knowledge) : Prop :=
  ∀ k, known = some k → ∃ is, k = (Knowledge.ofFiles c.files).after is

end Compilation

/-! ### Each diagnostic is located in the file that raises it -/

/-- The diagnostic is located in the file, within its text. -/
def SourceFile.Locates (f : SourceFile) (d : Diagnostic) : Prop :=
  ∃ r, d.location = some ⟨f.name, r⟩ ∧ r.Within (Text.byteLength f.text.toList)

namespace SourceFile

variable {f : SourceFile} {n : Node}

/-- The nodes of the tree of a file are spelled in its text. -/
theorem spelledIn_of_holds (h : f.parsed.root.Holds n) : n.SpelledIn f.text.toList := by
  rw [f.parsed_eq] at h
  exact h.spelledIn (root_spelledIn _)

/-- The token of a name lies within the text. -/
theorem within_of_holds {t : PlacedToken} (h : f.parsed.root.Holds n) (name : n.nameToken? = some t) :
    t.range.Within (Text.byteLength f.text.toList) :=
  ((spelledIn_of_holds h).childToken (List.mem_of_find?_eq_some name)).within

/-- What does not fit the grammar is located in the file. -/
theorem locates_parse : ∀ d ∈ f.diagnostics, f.Locates d := by
  intro d hd
  obtain ⟨e, he, rfl⟩ := List.mem_map.mp hd
  rw [f.parsed_eq] at he
  exact ⟨e.range, rfl, errors_within _ e he⟩

/-- The report of one more parameter, if its name is repeated, is located in the file. -/
theorem locates_parameter (h : f.parsed.root.Holds n) (method : String) (ps : Collect.Params) :
    ∀ d ∈ (ps.add f.name method n).diagnostics, d ∈ ps.diagnostics ∨ f.Locates d := by
  intro d hd
  unfold Collect.Params.add at hd
  split at hd
  · rename_i t _ _ name _
    dsimp only at hd
    split at hd
    · rcases List.mem_append.mp hd with earlier | new
      · exact .inl earlier
      · rw [List.mem_singleton.mp new]
        exact .inr ⟨t.range, rfl, within_of_holds h name⟩
    · exact .inl hd
  · exact .inl hd

/-- Every report about the parameters of a method is located in the file, by induction on them. -/
theorem locates_params (h : f.parsed.root.Holds n) (method : String) :
    ∀ d ∈ (Collect.params f.name method n).diagnostics, f.Locates d := by
  unfold Collect.params
  split
  · exact nofun
  · rename_i list found
    have held : f.parsed.root.Holds list := h.child (List.mem_of_find?_eq_some found)
    have step : ∀ m ∈ list.params, ∀ ps : Collect.Params,
        ∀ d ∈ (ps.add f.name method m).diagnostics, d ∈ ps.diagnostics ∨ f.Locates d :=
      fun m hm => locates_parameter (held.child (List.mem_filter.mp hm).1) method
    exact Collect.foldl_decls_of_nil step rfl

/-- Every report about the methods of a type is located in the file. -/
theorem locates_methods (h : f.parsed.root.Holds n) (type : String) :
    ∀ d ∈ (n.methods.foldl (Collect.Methods.add f.name type) {}).diagnostics, f.Locates d := by
  have step : ∀ m ∈ n.methods, ∀ ms : Collect.Methods,
      ∀ d ∈ (ms.add f.name type m).diagnostics, d ∈ ms.diagnostics ∨ f.Locates d := by
    intro m hm ms d hd
    unfold Collect.Methods.add at hd
    split at hd
    · exact .inl hd
    · rcases List.mem_append.mp hd with earlier | new
      · exact .inl earlier
      · exact .inr (locates_params (h.child (List.mem_filter.mp hm).1) _ d new)
  exact Collect.foldl_decls_of_nil step rfl

/-- What binding reports about the parameters of a file is located in the file. -/
theorem locates_collected : ∀ d ∈ (Collect.file f).diagnostics, f.Locates d := by
  have step : ∀ n ∈ f.parsed.root.typeDecls, ∀ ts : Collect.Types,
      ∀ d ∈ (ts.add f.name n).diagnostics, d ∈ ts.diagnostics ∨ f.Locates d := by
    intro n hn ts d hd
    unfold Collect.Types.add at hd
    split at hd
    · exact .inl hd
    · rcases List.mem_append.mp hd with earlier | new
      · exact .inl earlier
      · exact .inr (locates_methods (Node.Holds.self.child (List.mem_filter.mp hn).1) _ d new)
  exact Collect.foldl_decls_of_nil step rfl

/-- The report of a repeated type is located where the file declares it. -/
theorem locates_repeated {t : TypeDecl} (h : t ∈ (Collect.file f).decls) :
    f.Locates t.repeatedReport := by
  obtain ⟨i, hi⟩ := List.mem_iff_getElem?.mp h
  rcases getElem?_of_forall₂ (Collect.file_declaredBy f) i with ⟨none, -⟩ | ⟨_, n, ht, hn, declared⟩
  · rw [hi] at none
    cases none
  · cases hi.symm.trans ht
    obtain ⟨u, name, -, place⟩ := declared.name
    have kept := (List.mem_filter.mp (List.mem_of_getElem? hn)).1
    have held : f.parsed.root.Holds n := Node.holds_of_mem_inside (List.mem_filter.mp kept).1
    exact ⟨u.range, congrArg some place, within_of_holds held name⟩

end SourceFile

namespace Compilation

variable {c : Compilation} {known : Option Knowledge} {f : SourceFile} {d : Diagnostic}

/-- A diagnostic is located in the file that raises it. -/
theorem Raises.locates (h : c.Raises known f d) (knows : c.Knows known) : f.Locates d := by
  cases h with
  | parse hd => exact SourceFile.locates_parse d hd
  | binding _ _ about =>
    rcases about with parameter | ⟨t, ht, rfl⟩
    · exact SourceFile.locates_collected d parameter
    · exact SourceFile.locates_repeated ht
  | @symbol k ix n _ hk declared hd =>
    obtain ⟨is, rfl⟩ := knows k hk
    rcases SymbolTable.declaredBy_at c.files ix with ⟨-, none⟩ | ⟨s, g, m, found, declared', by_⟩
    · rw [declared] at none
      cases none
    · cases declared.symm.trans declared'
      have held := (mem_declaredIn (List.mem_of_getElem? declared)).2
      have located : s.LocatedIn f n ((Knowledge.ofFiles c.files).after is) ix :=
        by_.locatedIn found held
      obtain ⟨r, marks, place⟩ := located.reports d hd
      exact ⟨r, place, located.within r marks⟩

/-! ### Each diagnostic is raised by a file -/

/-- What is reported about names of types is about one of the types, by induction on them. -/
theorem mem_addNames {names : List (String × Nat)} {ix : Nat} {ts : List TypeDecl}
    (h : d ∈ (SymbolTable.addNames names ix ts).2) : ∃ t ∈ ts, d = t.repeatedReport := by
  induction ts generalizing names ix with
  | nil => cases h
  | cons t ts ih =>
    unfold SymbolTable.addNames at h
    split at h
    · rcases List.mem_cons.mp h with rfl | later
      · exact ⟨t, List.mem_cons_self, rfl⟩
      · obtain ⟨u, hu, same⟩ := ih later
        exact ⟨u, List.mem_cons_of_mem t hu, same⟩
    · obtain ⟨u, hu, same⟩ := ih h
      exact ⟨u, List.mem_cons_of_mem t hu, same⟩

/-- What binding reports is about a parameter or about a repeated type, by induction on
the files. -/
theorem mem_bindNames {names : List (String × Nat)} {ix : Nat} {cs : List Collect.Types}
    (h : d ∈ (SymbolTable.bindNames names ix cs).2) :
    ∃ c ∈ cs, d ∈ c.diagnostics ∨ ∃ t ∈ c.decls, d = t.repeatedReport := by
  induction cs generalizing names ix with
  | nil => cases h
  | cons c cs ih =>
    rcases List.mem_append.mp h with first | others
    · rcases List.mem_append.mp first with parameter | type
      · exact ⟨c, List.mem_cons_self, .inl parameter⟩
      · exact ⟨c, List.mem_cons_self, .inr (mem_addNames type)⟩
    · obtain ⟨e, he, found⟩ := ih others
      exact ⟨e, List.mem_cons_of_mem c he, found⟩

/-- What binding reported about one of the files, and what was found out about one of their symbols. -/
theorem mem_diagnostics_of_known {is : List Inquiry} :
    d ∈ ((Knowledge.ofFiles c.files).after is).diagnostics ↔
      d ∈ (SymbolTable.ofFiles c.files).diagnostics ∨
        ∃ ix < (SymbolTable.ofFiles c.files).symbols.size,
          d ∈ ((Knowledge.ofFiles c.files).after is).symbolDiagnostics ix := by
  obtain ⟨ledger, reported, accounts⟩ := SymbolTable.exists_accounts c.files
  obtain ⟨found, stands⟩ := (Knowledge.ofTable_stands accounts).after accounts is
  have all : ((Knowledge.ofFiles c.files).after is).diagnostics =
      (SymbolTable.ofFiles c.files).diagnostics ++
        (List.range (SymbolTable.ofFiles c.files).symbols.size).flatMap
          ((Knowledge.ofFiles c.files).after is).symbolDiagnostics := stands.diagnostics_eq
  simp only [all, List.mem_append, List.mem_flatMap, List.mem_range]

/-- What stands in the table of a compilation, and in its files at the same place. -/
theorem lt_size_iff_declared {ix : Nat} : ix < (SymbolTable.ofFiles c.files).symbols.size ↔
    ∃ f n, (declaredIn c.files)[ix]? = some (f, n) := by
  rcases SymbolTable.declaredBy_at c.files ix with ⟨missing, none⟩ | ⟨s, f, n, found, declared, -⟩
  · have behind := Array.getElem?_eq_none_iff.mp missing
    simp [Nat.not_lt.mpr behind, none]
  · exact iff_of_true (Knowledge.lt_of_get? found) ⟨f, n, declared⟩

/-- The errors of the parse of each file, what was reported while the symbols were bound, and what
was found out so far: each file raises its own, and nothing else is reported. -/
theorem reported_iff_raises (knows : c.Knows known) :
    d ∈ c.parseDiagnostics ++ known.elim [] Knowledge.diagnostics ↔
      ∃ f ∈ c.files, c.Raises known f d := by
  rw [List.mem_append]
  constructor
  · rintro (parse | found)
    · obtain ⟨f, hf, hd⟩ := List.mem_flatMap.mp parse
      exact ⟨f, hf, .parse hd⟩
    · cases known with
      | none => cases found
      | some k =>
        obtain ⟨is, rfl⟩ := knows k rfl
        rcases mem_diagnostics_of_known.mp found with binding | ⟨ix, bound, hd⟩
        · obtain ⟨e, he, about⟩ := mem_bindNames binding
          obtain ⟨f, hf, rfl⟩ := List.mem_map.mp he
          exact ⟨f, hf, .binding rfl binding about⟩
        · obtain ⟨f, n, declared⟩ := lt_size_iff_declared.mp bound
          exact ⟨f, (mem_declaredIn (List.mem_of_getElem? declared)).1, .symbol rfl declared hd⟩
  · rintro ⟨f, hf, raises⟩
    cases raises with
    | parse hd => exact .inl (List.mem_flatMap.mpr ⟨f, hf, hd⟩)
    | binding bound binding _ =>
      obtain ⟨k, rfl⟩ := Option.isSome_iff_exists.mp bound
      obtain ⟨is, rfl⟩ := knows k rfl
      exact .inr (mem_diagnostics_of_known.mpr (.inl binding))
    | @symbol k ix n _ hk declared hd =>
      obtain ⟨is, rfl⟩ := knows k hk
      rw [hk]
      exact .inr (mem_diagnostics_of_known.mpr
        (.inr ⟨ix, lt_size_iff_declared.mpr ⟨f, n, declared⟩, hd⟩))

/-- A diagnostic has lines and columns, those in the file that raises it, if no other file stands in
front of that. -/
theorem Raises.resolves (h : c.Raises known f d) (knows : c.Knows known)
    (found : c.file? f.name = some f) :
    ∃ l span, d.location = some l ∧ l.file = f.name ∧ f.lines.span? l.range = some span ∧
      c.lineCol? l = some span := by
  obtain ⟨r, place, within⟩ := h.locates knows
  obtain ⟨span, same⟩ := LineIndex.exists_span within
  rw [← f.lines_eq] at same
  refine ⟨⟨f.name, r⟩, span, place, rfl, same, ?_⟩
  rw [lineCol?, found]
  exact same

end Compilation

end DeclFront
