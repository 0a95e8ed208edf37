import DeclFront.Proofs.Symbol.Malformed

/-!
# What the data of a parameter says, its entries say too

The attributes of a declaration are kept twice: as a list of entries, of which some kept their meaning,
and as the data that is made of these. An attribute is turned down at several stages, and the data is
changed at the last one, behind a list of the attributes used so far that is kept at another. For all
that the two agree: whatever the data says has its entry, and each entry with a meaning is in the data.
-/

set_option autoImplicit false

namespace DeclFront

/-! ### Attributes that were read from a text -/

namespace Node

/-- The node is an attribute that was read from a text, looked at there or moved to another place. -/
def ReadAsAttribute (a : Node) : Prop :=
  a.kind = .attributeItem ∧ ∃ text distance, (parse text).root.Holds (a.moved distance)

variable {a : Node}

/-- The tokens of an attribute that was read from a text can be decoded. -/
theorem ReadAsAttribute.decodes (h : a.ReadAsAttribute) : a.Decodes := by
  obtain ⟨-, text, distance, held⟩ := h
  exact held.decodes (root_decodes text)

/-- A token that was read has characters. -/
theorem ReadAsAttribute.chars_ne_nil (h : a.ReadAsAttribute) :
    ∀ t ∈ Element.tokensOf a.children, t.chars ≠ [] := by
  obtain ⟨-, text, distance, held⟩ := h
  intro t ht
  have within := held.tokensOf_subset ht
  rw [show Element.tokensOf (parse text).root.children = lex text from parse_tokens text] at within
  exact lex_chars_ne_nil text t within

/-- Every argument that was read has the token of its literal. -/
theorem ReadAsAttribute.literalToken? (h : a.ReadAsAttribute) :
    ∀ l ∈ a.arguments, l.literalToken?.isSome := by
  obtain ⟨item, text, distance, held⟩ := h
  intro l hl
  have moved : l.moved distance ∈ (a.moved distance).arguments := by
    rw [arguments_moved]
    exact List.mem_map_of_mem hl
  have token := literalToken?_of_argument held item moved
  rwa [literalToken?_moved, Option.isSome_map] at token

end Node

/-- The attributes of a declaration were read from its text, also in the tree rooted at zero. -/
theorem TreeRef.readAsAttribute {r : TreeRef} {text : List Char}
    (held : (parse text).root.Holds r.node) : ∀ a ∈ r.tree.attributes, a.ReadAsAttribute := by
  intro a ha
  obtain ⟨child, item⟩ := List.mem_filter.mp ha
  refine ⟨of_decide_eq_true item, text, r.node.start, held.child ?_⟩
  rw [Node.childNodes_reroot]
  exact List.mem_map_of_mem child

/-! ### The data and the entries -/

/-- Does the data say what an attribute of the given meaning says? -/
def ParamData.holds (d : ParamData) : WellKnown → Bool
  | .optional => d.optional
  | .defaultParameterValue => d.defaultValue.isSome
  | .marshalAs => d.marshalling.isSome
  | .callerFilePath => d.caller.filePath
  | .callerLineNumber => d.caller.lineNumber
  | .callerMemberName => d.caller.memberName
  | .allowNull => d.flow.allowNull
  | .disallowNull => d.flow.disallowNull
  | .maybeNull => d.flow.maybeNull
  | .notNull => d.flow.notNull
  | .notNullIfNotNull => !d.notNullIf.isEmpty
  | .iDispatchConstant => d.iDispatchConstant
  | .iUnknownConstant => d.iUnknownConstant

namespace AttributesBag

/-- The entries that kept the given meaning. -/
def meant (b : AttributesBag) (wk : WellKnown) : List AttributeEntry :=
  b.entries.filter (·.wellKnown = some wk)

/-- The data says what the entries with a meaning say, and nothing else: each meaning but one is that
of at most one entry, the marks are those of the entries, and what stands in the data as an argument is
that of its entry, or of all in order where there may be several. -/
structure Agrees (b : AttributesBag) : Prop where
  single : ∀ wk, wk ≠ .notNullIfNotNull → (b.meant wk).length ≤ 1
  marks : ∀ wk, b.data.holds wk = b.has wk
  default : ∀ e ∈ b.meant .defaultParameterValue, ∃ v, e.args = [v] ∧
    b.data.defaultValue = some (v, e.location)
  marshalling : ∀ e ∈ b.meant .marshalAs, ∃ v kind, e.args = [v] ∧
    MarshalKind.ofConstant? v = some kind ∧ b.data.marshalling = some kind
  notNullIf : (b.meant .notNullIfNotNull).map (·.args) = b.data.notNullIf.map fun s => [.string s]

variable {b : AttributesBag} {wk : WellKnown} {e : AttributeEntry}

/-- One more entry comes last among those of its meaning. -/
theorem meant_concat (entries : List AttributeEntry) (e : AttributeEntry) (d d' : ParamData) :
    (⟨entries ++ [e], d'⟩ : AttributesBag).meant wk =
      (⟨entries, d⟩ : AttributesBag).meant wk ++ if e.wellKnown = some wk then [e] else [] := by
  unfold meant
  rw [List.filter_append]
  by_cases h : e.wellKnown = some wk <;> simp [h]

/-- A bag has the meanings that it had, and the one of the new entry. -/
theorem has_concat (entries : List AttributeEntry) (e : AttributeEntry) (d d' : ParamData) :
    (⟨entries ++ [e], d'⟩ : AttributesBag).has wk =
      ((⟨entries, d⟩ : AttributesBag).has wk || decide (e.wellKnown = some wk)) := by
  simp [has]

/-- A bag without a meaning has no entries with it. -/
theorem meant_eq_nil (h : b.has wk = false) : b.meant wk = [] := by
  refine List.filter_eq_nil_iff.mpr fun e he means => ?_
  have known : b.has wk = true := List.any_eq_true.mpr ⟨e, he, means⟩
  rw [h] at known
  cases known

/-- An entry without a meaning changes nothing. -/
theorem Agrees.unused (h : b.Agrees) (none : e.wellKnown = none) :
    Agrees ⟨b.entries ++ [e], b.data⟩ := by
  have same (wk : WellKnown) : meant ⟨b.entries ++ [e], b.data⟩ wk = b.meant wk := by
    rw [meant_concat (d := b.data), none]
    exact List.append_nil _
  refine ⟨fun wk other => ?_, fun wk => ?_, ?_, ?_, ?_⟩
  · rw [same]
    exact h.single wk other
  · rw [has_concat (d := b.data), none]
    exact (h.marks wk).trans (Bool.or_false _).symm
  · rw [same]
    exact h.default
  · rw [same]
    exact h.marshalling
  · rw [same]
    exact h.notNullIf

end AttributesBag

namespace Attributes

section Added

variable {d d' : ParamData} {place : Location} {wk : WellKnown} {args : List Constant}

/-- What is added says what its attribute says, and leaves the rest. -/
theorem Added.holds (h : Added d place wk args d') (other : WellKnown) :
    d'.holds other = (decide (wk = other) || d.holds other) := by
  cases h with
  | default => cases other <;> rfl
  | marshalling _ => cases other <;> rfl
  | @notNullIf s rest =>
    cases other with
    | notNullIfNotNull => simp [ParamData.holds]
    | _ => rfl
  | mark none => cases wk <;> first | contradiction | (cases other <;> rfl)

/-- An attribute that is not there to give a default value leaves it as it is. -/
theorem Added.defaultValue_eq (h : Added d place wk args d') (other : wk ≠ .defaultParameterValue) :
    d'.defaultValue = d.defaultValue := by
  cases h with
  | default => exact absurd rfl other
  | marshalling _ => rfl
  | notNullIf => rfl
  | mark _ => cases wk <;> rfl

/-- An attribute that is not about marshalling leaves that as it is. -/
theorem Added.marshalling_eq (h : Added d place wk args d') (other : wk ≠ .marshalAs) :
    d'.marshalling = d.marshalling := by
  cases h with
  | default => rfl
  | marshalling _ => exact absurd rfl other
  | notNullIf => rfl
  | mark _ => cases wk <;> rfl

/-- An attribute that names no other parameter leaves the names as they are. -/
theorem Added.notNullIf_eq (h : Added d place wk args d') (other : wk ≠ .notNullIfNotNull) :
    d'.notNullIf = d.notNullIf := by
  cases h with
  | default => rfl
  | marshalling _ => rfl
  | notNullIf => exact absurd rfl other
  | mark _ => cases wk <;> rfl

/-- The attribute that gives a default value gives its first argument, and the place is kept
with it. -/
theorem Added.of_default (h : Added d place .defaultParameterValue args d') :
    ∃ v rest, args = v :: rest ∧ d'.defaultValue = some (v, place) := by
  cases h with
  | @default v rest => exact ⟨v, rest, rfl, rfl⟩
  | mark none => cases none

/-- The attribute about marshalling says what its first argument stands for. -/
theorem Added.of_marshalling (h : Added d place .marshalAs args d') :
    ∃ v rest kind, args = v :: rest ∧ MarshalKind.ofConstant? v = some kind ∧
      d'.marshalling = some kind := by
  cases h with
  | @marshalling v rest kind decoded => exact ⟨v, rest, kind, rfl, decoded, rfl⟩
  | mark none => cases none

/-- The attribute that names another parameter puts the name behind the others. -/
theorem Added.of_notNullIf (h : Added d place .notNullIfNotNull args d') :
    ∃ s rest, args = .string s :: rest ∧ d'.notNullIf = d.notNullIf ++ [s] := by
  cases h with
  | @notNullIf s rest => exact ⟨s, rest, rfl, rfl⟩
  | mark none => cases none

end Added

end Attributes

/-- An entry with a meaning goes with what its attribute adds to the data, if the attribute has as many
arguments as it takes and no other of its kind came before that must not. -/
theorem AttributesBag.Agrees.used {b : AttributesBag} (h : b.Agrees) {e : AttributeEntry}
    {wk : WellKnown} {d : ParamData} (meaning : e.wellKnown = some wk)
    (count : e.args.length = wk.arity) (fresh : wk.allowsMultiple = false → b.has wk = false)
    (added : Attributes.Added b.data e.location wk e.args d) :
    Agrees ⟨b.entries ++ [e], d⟩ := by
  have other {wk' : WellKnown} (apart : wk ≠ wk') :
      meant ⟨b.entries ++ [e], d⟩ wk' = b.meant wk' := by
    rw [meant_concat (d := b.data),
      if_neg fun same => apart (Option.some.inj (meaning.symm.trans same))]
    exact List.append_nil _
  have own : meant ⟨b.entries ++ [e], d⟩ wk = b.meant wk ++ [e] := by
    rw [meant_concat (d := b.data), if_pos meaning]
  have sole (single : wk.allowsMultiple = false) : meant ⟨b.entries ++ [e], d⟩ wk = [e] := by
    rw [own, meant_eq_nil (fresh single)]
    rfl
  have alone {v : Constant} {rest : List Constant} (one : wk.arity = 1) (args : e.args = v :: rest) :
      rest = [] := by
    rw [args, one] at count
    exact List.eq_nil_of_length_eq_zero (Nat.succ.inj count)
  refine ⟨fun wk' several => ?_, fun wk' => ?_, ?_, ?_, ?_⟩
  · by_cases same : wk = wk'
    · have single : wk.allowsMultiple = false := by
        rw [same]
        cases wk' <;> first | rfl | contradiction
      rw [← same, sole single]
      exact Nat.le_refl 1
    · rw [other same]
      exact h.single wk' several
  · rw [has_concat (d := b.data), added.holds, h.marks, meaning, Bool.or_comm]
    simp
  · by_cases same : wk = .defaultParameterValue
    · subst same
      obtain ⟨v, rest, args, value⟩ := added.of_default
      obtain rfl := alone rfl args
      rw [sole rfl]
      intro e' he'
      rw [List.mem_singleton.mp he']
      exact ⟨v, args, value⟩
    · rw [other same, added.defaultValue_eq same]
      exact h.default
  · by_cases same : wk = .marshalAs
    · subst same
      obtain ⟨v, rest, kind, args, decoded, value⟩ := added.of_marshalling
      obtain rfl := alone rfl args
      rw [sole rfl]
      intro e' he'
      rw [List.mem_singleton.mp he']
      exact ⟨v, kind, args, decoded, value⟩
    · rw [other same, added.marshalling_eq same]
      exact h.marshalling
  · by_cases same : wk = .notNullIfNotNull
    · subst same
      obtain ⟨s, rest, args, value⟩ := added.of_notNullIf
      obtain rfl := alone rfl args
      rw [own, value, List.map_append, List.map_append, h.notNullIf, List.map_singleton, args]
      rfl
    · rw [other same, added.notNullIf_eq same]
      exact h.notNullIf

namespace Attributes

variable {target : AttributeTarget} {place : Range → Location}

/-- The bag of the attributes bound so far agrees, its meanings were used, and without a parameter
there are none. -/
structure Binding.Agrees (b : Binding) (target : AttributeTarget) : Prop where
  bag : b.bag.Agrees
  used : ∀ wk, b.bag.has wk = true → wk ∈ b.seen
  misplaced : target ≠ .parameter →
    (∀ e ∈ b.bag.entries, e.wellKnown = none) ∧ b.bag.data = {}

variable {b : Binding}

/-- An attribute that is not used leaves an entry without a meaning. -/
theorem Binding.Agrees.unused (h : b.Agrees target) (name : String) (args : Arguments)
    (location : Location) {seen : List WellKnown} (more : b.seen ⊆ seen) (findings : List Finding) :
    (b.apply name args location { findings, seen, data := b.bag.data }).Agrees target := by
  refine ⟨h.bag.unused rfl, fun wk has => more (h.used wk ?_), fun other => ?_⟩
  · have earlier : (b.bag.has wk || decide (none = some wk)) = true :=
      (AttributesBag.has_concat (d := b.bag.data) ..).symm.trans has
    simpa using earlier
  · obtain ⟨none, data⟩ := h.misplaced other
    refine ⟨fun e he => ?_, data⟩
    rcases List.mem_append.mp he with he | he
    · exact none e he
    · rw [List.mem_singleton.mp he]

/-- An attribute that is used leaves an entry with its meaning, and is in the data. -/
theorem Binding.Agrees.uses (h : b.Agrees target) {name : String} {args : Arguments}
    {location : Location} {wk : WellKnown} {d : ParamData}
    (usable : judge target b.seen name wk args = .usable)
    (added : b.bag.data.add wk args.values location = .ok (some d)) :
    (b.apply name args location
      { meaning := some wk, seen := wk :: b.seen, data := d }).Agrees target := by
  cases judge_judged usable with
  | usable _ count parameter fresh =>
    have unused (single : wk.allowsMultiple = false) : b.bag.has wk = false :=
      Bool.eq_false_iff.mpr fun has => fresh single (h.used wk has)
    refine ⟨h.bag.used rfl count unused (added_of_add added), fun wk' has => ?_,
      fun other => absurd parameter other⟩
    have either : (b.bag.has wk' || decide (some wk = some wk')) = true :=
      (AttributesBag.has_concat (d := b.bag.data) ..).symm.trans has
    rcases Bool.or_eq_true_iff.mp either with earlier | own
    · exact List.mem_cons_of_mem wk (h.used wk' earlier)
    · rw [Option.some.inj (of_decide_eq_true own)]
      exact List.mem_cons_self

/-- One more attribute leaves data and entries in agreement, whether it keeps its meaning or not. -/
theorem Binding.Agrees.add {c : Binding} (h : b.Agrees target) {attr : Node}
    (added : b.add target place attr = .ok c) : c.Agrees target := by
  rcases Binding.add_cases added with ⟨-, rfl⟩ | ⟨t, args, e, -, -, effects, rfl⟩
  · exact h
  · cases effect_outcome effects with
    | unknown _ => exact h.unused _ _ _ (List.Subset.refl _) []
    | silent _ _ => exact h.unused _ _ _ (List.Subset.refl _) []
    | refused _ _ => exact h.unused _ _ _ (List.Subset.refl _) _
    | invalid _ _ _ => exact h.unused _ _ _ (List.subset_cons_self _ _) _
    | used _ usable result => exact h.uses usable result

end Attributes

/-- Attributes that were read from texts can be bound, in front of whatever they stand. The data that
comes of them agrees with their entries, and in front of anything but a parameter they have no meaning
and there is no data. -/
theorem attribute_data_agrees (attrs : List Node) (read : ∀ a ∈ attrs, a.ReadAsAttribute)
    (target : AttributeTarget) (place : Range → Location) (owner : String) :
    ∃ bound, Attributes.bind attrs target place owner = .ok bound ∧ bound.value.Agrees ∧
      (target ≠ .parameter →
        (∀ e ∈ bound.value.entries, e.wellKnown = none) ∧ bound.value.data = {}) := by
  obtain ⟨bound, result⟩ : ∃ bound, Attributes.bind attrs target place owner = .ok bound :=
    Attributes.bind_ok (fun a ha => (read a ha).decodes) place owner
  have nothing : AttributesBag.Agrees {} :=
    ⟨fun _ _ => Nat.zero_le 1, fun wk => by cases wk <;> rfl, nofun, nofun, rfl⟩
  obtain ⟨b, agrees, rfl⟩ := Attributes.bind_invariant
    (motive := fun b _ => b.Agrees target) (fun _ _ _ _ _ h added => h.add added)
    ⟨nothing, fun _ has => Bool.noConfusion has, fun _ => ⟨nofun, rfl⟩⟩ result
  exact ⟨_, result, agrees.bag, agrees.misplaced⟩

/-- A parameter with an attribute that must not be there twice, and with one that may be. -/
def Sample.manyAttributes : List Char :=
  "type T \x7b fn M([MarshalAs(I4)] [NotNullIfNotNull(\"a\")] [MarshalAs(I8)] ".toList ++
    "[NotNullIfNotNull(\"b\")] int x); \x7d".toList

/-- The first of the two attributes for marshalling is the one that has a meaning, and both texts are
there in their order. -/
theorem many_attributes_agree :
    ∃ (r : TreeRef) (bound : Completed AttributesBag), (parse Sample.manyAttributes).root.Holds r.node ∧
      Attributes.bind r.tree.attributes .parameter r.place "T.M(x)" = .ok bound ∧
      bound.value.Agrees ∧ bound.value.data.marshalling = some .i4 ∧
      bound.value.data.notNullIf = ["a", "b"] := by
  obtain ⟨n, inside, shown⟩ : ∃ n ∈ (parse Sample.manyAttributes).root.within .param,
      (Attributes.bind (TreeRef.tree ⟨"a.decl", n⟩).attributes .parameter
        (TreeRef.place ⟨"a.decl", n⟩) "T.M(x)").toOption.any (fun c =>
          c.value.data.marshalling = some .i4 && c.value.data.notNullIf = ["a", "b"]) = true := by
    decide +kernel
  have held := Node.holds_of_mem_inside (List.mem_filter.mp inside).1
  obtain ⟨bound, result, agrees, -⟩ := attribute_data_agrees _
    (TreeRef.readAsAttribute (r := ⟨"a.decl", n⟩) held) .parameter (TreeRef.place ⟨"a.decl", n⟩)
    "T.M(x)"
  rw [result] at shown
  simp only [Except.toOption, Option.any_some, Bool.and_eq_true, decide_eq_true_eq] at shown
  exact ⟨⟨"a.decl", n⟩, bound, held, result, agrees, shown.1, shown.2⟩

end DeclFront
