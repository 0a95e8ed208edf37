import DeclFront.Proofs.Symbol.Declared
import DeclFront.Proofs.Symbol.Given
import DeclFront.Proofs.Symbol.Inquiry

/-!
# Locations point at the text they are about

What is found out about a symbol is found in the tree of its declaration rooted at zero, and placed in
the file again. The place is right for every declaration of every file: the name of a symbol stands
where it is located, an attribute is located where its node is, and what is wrong with a default value
where the node of that is. Nothing is located outside of the file.
-/

set_option autoImplicit false

namespace DeclFront

namespace Attributes

variable {target : AttributeTarget} {place : Range → Location}

/-- Entries, findings and the default value come from some attributes, in order. -/
structure Binding.Covers (b : Binding) (place : Range → Location) (as : List Node) : Prop where
  entries : b.bag.entries.map (fun e => (e.name, e.location)) =
    as.filterMap fun a => a.nameToken?.map fun t => (t.token.text, place a.range)
  findings : ∀ p ∈ b.findings, ∃ a ∈ as, p.2 = place a.range
  default : ∀ v l, b.bag.data.defaultValue = some (v, l) → ∃ a ∈ as, l = place a.range

/-- A binding covers an attribute once it has recorded an entry for it, also if the attribute gives
a default value. -/
theorem Binding.Covers.record {b : Binding} {as : List Node} (h : b.Covers place as) {attr : Node}
    {t : PlacedToken} (name : attr.nameToken? = some t) {entry : AttributeEntry}
    (entryName : entry.name = t.token.text) (location : entry.location = place attr.range)
    (findings : List Finding) (seen : List WellKnown) {d : ParamData}
    (default : d.defaultValue = b.bag.data.defaultValue ∨
      ∃ v, d.defaultValue = some (v, place attr.range)) :
    (Binding.record { b with seen, bag.data := d } entry findings).Covers place (as ++ [attr]) := by
  have last : attr ∈ as ++ [attr] := List.mem_append_right _ (List.mem_singleton_self _)
  refine ⟨?_, ?_, ?_⟩
  · show (b.bag.entries ++ [entry]).map _ = _
    rw [List.map_append, h.entries, List.filterMap_append]
    simp [name, entryName, location]
  · intro p hp
    rcases List.mem_append.mp hp with earlier | new
    · obtain ⟨a, ha, same⟩ := h.findings p earlier
      exact ⟨a, List.mem_append_left _ ha, same⟩
    · obtain ⟨f, -, rfl⟩ := List.mem_map.mp new
      exact ⟨attr, last, location⟩
  · intro v l given
    rcases default with same | ⟨w, new⟩
    · obtain ⟨a, ha, place⟩ := h.default v l (same.symm.trans given)
      exact ⟨a, List.mem_append_left _ ha, place⟩
    · cases new.symm.trans given
      exact ⟨attr, last, rfl⟩

/-- An attribute without a name leaves nothing behind that could be located. -/
theorem Binding.Covers.unnamed {b : Binding} {as : List Node} (h : b.Covers place as) {attr : Node}
    (name : attr.nameToken? = none) : b.Covers place (as ++ [attr]) := by
  refine ⟨?_, fun p hp => ?_, fun v l given => ?_⟩
  · rw [h.entries, List.filterMap_append]
    simp [name]
  · obtain ⟨a, ha, same⟩ := h.findings p hp
    exact ⟨a, List.mem_append_left _ ha, same⟩
  · obtain ⟨a, ha, same⟩ := h.default v l given
    exact ⟨a, List.mem_append_left _ ha, same⟩

/-- One more attribute leaves behind what is located at itself. -/
theorem Binding.Covers.add {b c : Binding} {as : List Node} (h : b.Covers place as) {attr : Node}
    (added : b.add target place attr = .ok c) : c.Covers place (as ++ [attr]) := by
  rcases Binding.add_cases added with ⟨unnamed, rfl⟩ | ⟨t, args, e, name, -, effects, rfl⟩
  · exact h.unnamed unnamed
  · exact h.record name rfl rfl _ e.seen (default_of_effect effects)

end Attributes

/-- Attributes that were bound for the declaration of a node, located in its file: an entry for each
attribute with a name, at its node, and reports and the default value at nodes of attributes. -/
structure AttributesAt (c : Completed AttributesBag) (file : String) (n : Node) : Prop where
  entries : c.value.entries.map (fun e => (e.name, e.location)) =
    n.attributes.filterMap fun a => a.nameToken?.map fun t => (t.token.text, ⟨file, a.range⟩)
  reports : ∀ d ∈ c.diagnostics, ∃ a ∈ n.attributes, d.location = some ⟨file, a.range⟩
  default : ∀ v l, c.value.data.defaultValue = some (v, l) → ∃ a ∈ n.attributes, l = ⟨file, a.range⟩

/-- Where there are no attributes there is nothing to locate. -/
theorem attributesAt_empty {file : String} {n : Node} (h : n.attributes = []) :
    AttributesAt ⟨.empty, []⟩ file n := by
  refine ⟨?_, nofun, fun v l given => ?_⟩
  · rw [h]
    rfl
  · cases given

/-- Attributes bound in the tree rooted at zero are located in the file. -/
theorem TreeRef.attributesAt {r : TreeRef} {target : AttributeTarget} {owner : String}
    {c : Completed AttributesBag}
    (h : Attributes.bind r.tree.attributes target r.place owner = .ok c) :
    AttributesAt c r.file r.node := by
  rw [r.bind_eq] at h
  have start : Attributes.Binding.Covers {} (Location.mk r.file) [] :=
    ⟨rfl, fun _ none => absurd none List.not_mem_nil, fun _ _ none => absurd none (by simp)⟩
  obtain ⟨b, covers, rfl⟩ := Attributes.bind_invariant
    (motive := fun b as => b.Covers (Location.mk r.file) as)
    (fun _ _ _ _ _ given added => given.add added) start h
  refine ⟨covers.entries, fun d hd => ?_, covers.default⟩
  obtain ⟨p, hp, rfl⟩ := List.mem_map.mp hd
  obtain ⟨a, ha, same⟩ := covers.findings p hp
  exact ⟨a, ha, congrArg some same⟩

namespace Symbol.DeclaredBy

variable {s : Symbol} {file : String} {n : Node}

/-- What the attributes of a type or method come to is located at them. -/
theorem attributesAt_of_result {a : DeclAttributes} {c : Completed AttributesBag}
    (h : a.result = .ok c) (target : a.target = .type ∧ n.kind = .typeDecl ∨
      a.target = .method ∧ n.kind = .methodDecl)
    (tree : ∀ r, a.tree = some r → r = ⟨file, n⟩) (plain : a.tree = none → n.attributes = []) :
    AttributesAt c file n := by
  unfold DeclAttributes.result at h
  cases ht : a.tree with
  | none =>
    rw [ht] at h
    cases h
    exact attributesAt_empty (plain ht)
  | some r =>
    rw [ht] at h
    obtain rfl := tree r ht
    unfold DeclAttributes.compute at h
    rcases target with ⟨target, kind⟩ | ⟨target, kind⟩
    · simp only [target, TreeRef.tree, Node.reroot, kind, if_true] at h
      exact TreeRef.attributesAt (r := ⟨file, n⟩) h
    · simp only [target, TreeRef.tree, Node.reroot, kind, if_true] at h
      exact TreeRef.attributesAt (r := ⟨file, n⟩) h

/-- The attributes of a symbol are located where those of its declaration stand. -/
theorem attributesAt (h : s.DeclaredBy file n) {c : Completed AttributesBag}
    (bound : s.boundAttributes = .ok c) : AttributesAt c file n := by
  cases s with
  | type t => exact attributesAt_of_result bound (.inl ⟨h.target, h.kind⟩) h.tree h.plain
  | method m => exact attributesAt_of_result bound (.inr ⟨h.target, h.kind⟩) h.tree h.plain
  | parameter p =>
    cases form : p.form with
    | plain =>
      simp only [boundAttributes, form] at bound
      cases bound
      exact attributesAt_empty (h.plain (by simp only [tree?, Parameter.tree?, form]))
    | detailed r display =>
      simp only [boundAttributes, form] at bound
      obtain rfl := h.tree r (by simp only [tree?, Parameter.tree?, form])
      have kind : (⟨file, n⟩ : TreeRef).tree.kind = .param := h.kind
      rw [Parameter.computeAttributes, if_pos kind] at bound
      exact TreeRef.attributesAt bound

end Symbol.DeclaredBy

/-! ### Default values -/

/-- The parts of a declaration that reports about it are located at. -/
inductive Node.Marks (n : Node) : Range → Prop where
  | name {t : PlacedToken} : n.nameToken? = some t → n.Marks t.range
  | attr {a : Node} : a ∈ n.attributes → n.Marks a.range
  | default {v : Node} : n.defaultValue? = some v → n.Marks v.range

/-- The codes of what can be wrong with a default value written with `=`: a literal that stands for
no constant, one that does not fit the type, and a parameter that takes no default value, as a
reference or as a variadic one. -/
def Finding.writtenDefaultCodes : List String :=
  ["SG0204", "SG0301", "SG0302", "SG0303"]

/-- What was found out about the default value of a parameter is located where it comes from: what
is wrong with a written one at its node. Without one, an attribute can still give a value that does
not fit the type. -/
structure DefaultsAt (c : Completed DefaultFacts) (file : String) (n : Node) : Prop where
  written : ∀ v, n.defaultValue? = some v → ∀ d ∈ c.diagnostics,
    d.code ∈ Finding.writtenDefaultCodes → d.location = some ⟨file, v.range⟩
  unwritten : n.defaultValue? = none → ∀ d ∈ c.diagnostics,
    d.code ∈ Finding.writtenDefaultCodes → d.code = "SG0301" ∧
      ∃ a ∈ n.attributes, d.location = some ⟨file, a.range⟩
  marks : ∀ d ∈ c.diagnostics, ∃ r, n.Marks r ∧ d.location = some ⟨file, r⟩

namespace Parameter

variable {p : Parameter} {file display : String} {n : Node}

/-- A written default value has its place, and without one nothing is found about it. -/
theorem writtenDefault_located (kind : n.kind = .param) {w : WrittenDefault}
    (h : p.writtenDefault ⟨file, n⟩ = .ok w) :
    w.place = n.defaultValue?.map (fun v => ⟨file, v.range⟩) ∧
      (n.defaultValue? = none → w.findings = []) := by
  rcases writtenDefault_cases kind h with ⟨none, rfl⟩ | ⟨d, found, writes⟩
  · rw [none]
    exact ⟨rfl, fun _ => rfl⟩
  · rw [found, writes.place]
    exact ⟨rfl, nofun⟩

/-- What is found about facts in vain does not have the code of something wrong with a written
default value. -/
theorem code_of_mem_callerFacts {written : Bool} {c : CallerInfo} :
    ∀ f ∈ (p.callerFacts written c).2, f.code ∉ Finding.writtenDefaultCodes := by
  have orphan : Finding.callerInfoWithoutDefault.code ∉ Finding.writtenDefaultCodes := by decide
  have mismatch (name : String) (t : ParamType) :
      (Finding.callerInfoType name t).code ∉ Finding.writtenDefaultCodes := by
    show "SG0307" ∉ Finding.writtenDefaultCodes
    decide
  have overridden (name : String) :
      (Finding.callerInfoOverridden name).code ∉ Finding.writtenDefaultCodes := by
    show "SG0308" ∉ Finding.writtenDefaultCodes
    decide
  have single {q : Bool} {f g : Finding} (h : f ∈ if q then [g] else []) : f = g := by
    split at h
    · exact List.mem_singleton.mp h
    · cases h
  intro f hf
  unfold callerFacts callerOfType callerWinner at hf
  simp only [List.mem_append] at hf
  rcases hf with (hf | ((hf | hf) | hf)) | (hf | hf)
  · split at hf
    · rw [List.mem_singleton.mp hf]
      exact orphan
    · cases hf
  · rw [single hf]
    exact mismatch _ _
  · rw [single hf]
    exact mismatch _ _
  · rw [single hf]
    exact mismatch _ _
  · rw [single hf]
    exact overridden _
  · rw [single hf]
    exact overridden _

/-- What is found about the default value of an attribute is located at that attribute. -/
theorem attributedDefault_located {isWritten : Bool} {given : Option (Constant × Location)} :
    ∀ f ∈ (p.attributedDefault isWritten given).2,
      (isWritten = true → f.1.code ∉ Finding.writtenDefaultCodes) ∧
      (f.1.code ∈ Finding.writtenDefaultCodes → f.1.code = "SG0301") ∧
      ∃ v, given = some (v, f.2) := by
  unfold attributedDefault
  cases given with
  | none => exact fun _ none => absurd none List.not_mem_nil
  | some g =>
    obtain ⟨value, place⟩ := g
    have twice : Finding.defaultGivenTwice.code ∉ Finding.writtenDefaultCodes := by decide
    intro f hf
    dsimp only at hf
    split at hf
    · rw [List.mem_singleton.mp hf]
      exact ⟨fun _ => twice, fun listed => absurd listed twice, value, rfl⟩
    · rename_i unwritten
      split at hf
      · cases hf
      · rw [List.mem_singleton.mp hf]
        exact ⟨fun written => absurd written unwritten, fun _ => rfl, value, rfl⟩

/-- What is reported while the default value is found out is about the default value as written, about
one that an attribute gives, or about caller information. -/
theorem default_report_cases {v : FactValues} (kind : n.kind = .param)
    (h : p.Computes ⟨file, n⟩ display v) (attributes : AttributesAt v.attributes file n)
    {t : PlacedToken} (here : p.locations = [⟨file, t.range⟩]) {d : Diagnostic}
    (hd : d ∈ v.defaults.diagnostics) :
    (∃ w, n.defaultValue? = some w ∧ d.location = some ⟨file, w.range⟩) ∨
    (∃ a ∈ n.attributes, d.location = some ⟨file, a.range⟩ ∧
      (d.code ∈ Finding.writtenDefaultCodes → n.defaultValue? = none ∧ d.code = "SG0301")) ∨
    (d.code ∉ Finding.writtenDefaultCodes ∧ d.location = some ⟨file, t.range⟩) := by
  obtain ⟨l, w, place, written, value⟩ := h.defaults
  obtain ⟨written, silent⟩ := writtenDefault_located kind written
  have hereAt : l = ⟨file, t.range⟩ := by
    rw [Parameter.here, here] at place
    cases place
    rfl
  rw [value] at hd
  obtain ⟨f, hf, rfl⟩ := List.mem_map.mp hd
  rcases List.mem_append.mp hf with hf | remark
  · rcases List.mem_append.mp hf with own | clash
    · obtain ⟨g, hg, rfl⟩ := List.mem_map.mp own
      cases found : n.defaultValue? with
      | none =>
        rw [silent found] at hg
        cases hg
      | some x =>
        rw [found] at written
        refine .inl ⟨x, rfl, ?_⟩
        rw [written]
        rfl
    · obtain ⟨twice, unfit, y, given⟩ := attributedDefault_located f clash
      obtain ⟨a, ha, same⟩ := attributes.default y f.2 given
      refine .inr (.inl ⟨a, ha, congrArg some same, fun listed => ⟨?_, unfit listed⟩⟩)
      by_contra some
      refine twice ?_ listed
      rw [written, Option.isSome_map]
      exact Option.isSome_iff_ne_none.mpr some
  · obtain ⟨g, hg, rfl⟩ := List.mem_map.mp remark
    exact .inr (.inr ⟨code_of_mem_callerFacts g hg, congrArg some hereAt⟩)

/-- What is found out about the default value of a parameter is located where it comes from. -/
theorem defaultsAt {v : FactValues} (kind : n.kind = .param) (h : p.Computes ⟨file, n⟩ display v)
    (attributes : AttributesAt v.attributes file n) {t : PlacedToken} (name : n.nameToken? = some t)
    (here : p.locations = [⟨file, t.range⟩]) : DefaultsAt v.defaults file n := by
  have cases := fun d hd => default_report_cases (d := d) kind h attributes here hd
  refine ⟨fun w found d hd listed => ?_, fun none d hd listed => ?_, fun d hd => ?_⟩
  · rcases cases d hd with ⟨x, same, place⟩ | ⟨a, -, -, unwritten⟩ | ⟨other, -⟩
    · rw [found] at same
      cases same
      exact place
    · rw [found] at unwritten
      cases (unwritten listed).1
    · exact absurd listed other
  · rcases cases d hd with ⟨x, same, -⟩ | ⟨a, ha, place, unwritten⟩ | ⟨other, -⟩
    · rw [none] at same
      cases same
    · exact ⟨(unwritten listed).2, a, ha, place⟩
    · exact absurd listed other
  · rcases cases d hd with ⟨x, found, place⟩ | ⟨a, ha, place, -⟩ | ⟨-, place⟩
    · exact ⟨_, .default found, place⟩
    · exact ⟨_, .attr ha, place⟩
    · exact ⟨_, .name name, place⟩

/-- What is found about modifiers is located at the name of the parameter. -/
theorem modifiers_located {c : Completed ModifierFacts} (h : p.computeModifiers display = .ok c)
    {l : Location} (here : p.locations = [l]) : ∀ d ∈ c.diagnostics, d.location = some l := by
  unfold computeModifiers at h
  dsimp only at h
  split at h
  · rw [Parameter.here, here] at h
    cases h
    intro d hd
    rw [List.mem_singleton.mp hd]
    rfl
  · cases h
    exact nofun

end Parameter

/-! ### What a symbol reports -/

namespace Symbol

variable {s : Symbol} {file : String} {n : Node} {f : SymbolFacts}

/-- The values of a parameter are those of the declaration that it keeps. -/
theorem DeclaredBy.computes {p : Parameter} (h : (Symbol.parameter p).DeclaredBy file n)
    {tree : TreeRef} {display : String} {v : FactValues} (form : p.form = .detailed tree display)
    (computes : p.Computes tree display v) : p.Computes ⟨file, n⟩ display v ∧
      AttributesAt v.attributes file n := by
  obtain rfl := h.tree tree (by simp only [tree?, Parameter.tree?, form])
  exact ⟨computes, h.attributesAt (by simpa only [boundAttributes, form] using computes.attributes)⟩

/-- The reports about the default value of any symbol are located where the value is written. -/
theorem DeclaredBy.defaultsAt (h : s.DeclaredBy file n) (filled : s.Filled f)
    {c : Completed DefaultFacts} (found : f.defaults = some c) : DefaultsAt c file n := by
  cases filled with
  | nothing => cases found
  | @attributes _ a b other bound =>
    have none : DefaultsAt ⟨{}, []⟩ file n := ⟨fun _ _ => nofun, fun _ => nofun, nofun⟩
    simp only [FactValues.shown] at found
    split at found
    · cases found
      exact none
    · cases found
  | @values p tree display v b form computes =>
    obtain ⟨computes, attributes⟩ := h.computes form computes
    obtain ⟨t, name, -, here⟩ := h.name
    simp only [FactValues.shown] at found
    split at found
    · cases found
      exact Parameter.defaultsAt h.kind computes attributes name here
    · cases found

/-- Whatever has been reported about a symbol is located at a part of its declaration. -/
theorem DeclaredBy.marks (h : s.DeclaredBy file n) (filled : s.Filled f) :
    ∀ d ∈ s.diagnostics f, ∃ r, n.Marks r ∧ d.location = some ⟨file, r⟩ := by
  obtain ⟨t, name, -, here⟩ := h.name
  have ofAttributes {c : Completed AttributesBag} (located : AttributesAt c file n) :
      ∀ d ∈ c.diagnostics, ∃ r, n.Marks r ∧ d.location = some ⟨file, r⟩ := by
    intro d hd
    obtain ⟨a, ha, place⟩ := located.reports d hd
    exact ⟨_, .attr ha, place⟩
  cases filled with
  | nothing =>
    have silent : s.diagnostics {} = [] := by
      cases s with
      | type t => rfl
      | method m => rfl
      | parameter p =>
        show p.diagnostics {} = []
        unfold Parameter.diagnostics
        split <;> rfl
    rw [silent]
    exact nofun
  | @attributes _ c b other bound =>
    intro d hd
    have reported : d ∈ c.diagnostics := by
      cases s with
      | type t => exact (Parameter.elim_sublist c _).subset hd
      | method m => exact (Parameter.elim_sublist c _).subset hd
      | parameter p => cases other
    exact ofAttributes (h.attributesAt bound) d reported
  | @values p tree display v b form computes =>
    obtain ⟨computes, attributes⟩ := h.computes form computes
    intro d hd
    change d ∈ p.diagnostics (v.shown b) at hd
    unfold Parameter.diagnostics at hd
    rw [form] at hd
    simp only [List.mem_append] at hd
    rcases hd with (hd | hd) | hd
    · exact ofAttributes attributes d ((Parameter.elim_sublist _ _).subset hd)
    · exact (Parameter.defaultsAt h.kind computes attributes name here).marks d
        ((Parameter.elim_sublist _ _).subset hd)
    · have place := Parameter.modifiers_located computes.modifiers here d
        ((Parameter.elim_sublist _ _).subset hd)
      exact ⟨_, .name name, place⟩

end Symbol

/-- The places of reports about a declaration lie within the text. -/
theorem Node.Marks.within {text : List Char} {n : Node} (h : n.SpelledIn text) {r : Range}
    (marks : n.Marks r) : r.Within (Text.byteLength text) := by
  cases marks with
  | name found => exact (h.childToken (List.mem_of_find?_eq_some found)).within
  | attr ha => exact Node.SpelledIn.within (h.child (List.mem_filter.mp ha).1)
  | default found => exact Node.SpelledIn.within (h.child (List.mem_of_find?_eq_some found))

/-! ### What is known after any inquiries -/

/-- All that is known about a symbol is located in its file, where the text is that it is about. -/
structure Symbol.LocatedIn (s : Symbol) (f : SourceFile) (n : Node) (k : Knowledge) (ix : Nat) :
    Prop where
  name : ∃ r, s.locations = [⟨f.name, r⟩] ∧ r.Spells f.text.toList s.name.toList
  attributes : ∃ b, (k.query ix s.attributes).1 = .ok b ∧
    b.entries.map (fun e => (e.name, e.location)) =
      n.attributes.filterMap fun a => a.nameToken?.map fun t => (t.token.text, ⟨f.name, a.range⟩)
  defaults : ∀ c, (k.memo ix).facts.defaults = some c → DefaultsAt c f.name n
  reports : ∀ d ∈ k.symbolDiagnostics ix, ∃ r, n.Marks r ∧ d.location = some ⟨f.name, r⟩
  within : ∀ r, n.Marks r → r.Within (Text.byteLength f.text.toList)

/-- Whatever has been asked, all that is known about a symbol is located where its file
declares it. -/
theorem Symbol.DeclaredBy.locatedIn {files : List SourceFile} {is : List Inquiry} {ix : Nat}
    {s : Symbol} {f : SourceFile} {n : Node} (h : s.DeclaredBy f.name n)
    (found : (SymbolTable.ofFiles files).get? ix = some s) (held : f.parsed.root.Holds n) :
    s.LocatedIn f n ((Knowledge.ofFiles files).after is) ix := by
  obtain ⟨ledger, reported, accounts⟩ := SymbolTable.exists_accounts files
  have account := accounts ix s found
  obtain ⟨known, stands⟩ := (Knowledge.ofTable_stands accounts).after accounts is
  have bound := Knowledge.lt_of_get? found
  have filled : s.Filled ((((Knowledge.ofFiles files).after is).memo ix).facts) := by
    rw [Knowledge.ofFiles, stands.memos ix bound]
    exact account.filled _
  have spelled : n.SpelledIn f.text.toList := by
    rw [f.parsed_eq] at held
    exact held.spelledIn (root_spelledIn _)
  refine ⟨?_, ?_, fun c hc => h.defaultsAt filled hc, ?_, fun r hr => hr.within spelled⟩
  · obtain ⟨t, name, text, place⟩ := h.name
    refine ⟨t.range, place, ?_⟩
    rw [text, Token.text, String.toList_ofList]
    exact spelled.childToken (List.mem_of_find?_eq_some name)
  · obtain ⟨c, attributes, told⟩ := account.attributes
    obtain ⟨k, answered, -⟩ := stands.query bound told
    exact ⟨c.value, congrArg Prod.fst answered, (h.attributesAt attributes).entries⟩
  · have table : ((Knowledge.ofFiles files).after is).table.get? ix = some s := by
      rw [Knowledge.ofFiles, stands.table]
      exact found
    unfold Knowledge.symbolDiagnostics
    rw [table]
    exact h.marks filled

/-- Whatever has been asked about the symbols of files, each symbol is located in the file that
declares it, where the text is its name; its attributes are located at their nodes in the tree of the
file, and what is wrong with its default value as written at the node of that. All these places, and
those of all else that has been reported about the symbol, lie within the file. -/
theorem locations_point_at_text (files : List SourceFile) (is : List Inquiry) :
    List.Forall₂ (fun p d => p.2.LocatedIn d.1 d.2 ((Knowledge.ofFiles files).after is) p.1)
      ((Knowledge.ofFiles files).after is).indexed (declaredIn files) := by
  obtain ⟨ledger, reported, accounts⟩ := SymbolTable.exists_accounts files
  obtain ⟨known, stands⟩ := (Knowledge.ofTable_stands accounts).after accounts is
  obtain ⟨lengths, each⟩ := List.forall₂_iff_get.mp (SymbolTable.symbols_declaredBy files)
  have table : ((Knowledge.ofFiles files).after is).table = SymbolTable.ofFiles files := stands.table
  refine List.forall₂_iff_get.mpr ⟨?_, fun i hi hd => ?_⟩
  · rw [Knowledge.indexed, List.length_zip, List.length_range, Array.length_toList, Nat.min_self,
      table, ← Array.length_toList]
    exact lengths
  · have found := Knowledge.mem_indexed (List.getElem_mem hi)
    rw [table] at found
    have bound : i < (SymbolTable.ofFiles files).symbols.toList.length := by
      rw [lengths]
      exact hd
    have symbol : (((Knowledge.ofFiles files).after is).indexed[i]).2 =
        (SymbolTable.ofFiles files).symbols.toList[i] := by
      simp only [Knowledge.indexed, List.getElem_zip, table]
    have declared := each i bound hd
    simp only [List.get_eq_getElem, ← symbol] at declared ⊢
    exact declared.locatedIn found (mem_declaredIn (List.getElem_mem hd)).2

end DeclFront
