import DeclFront.Proofs.Symbol.Agreement
import DeclFront.Proofs.Symbol.Given

/-!
# What becomes of each attribute

An attribute with a name leaves a record: an entry, and what was found about it. What was found is one
thing for each literal that stands for no constant, and if there is nothing wrong with the arguments as
such, at most one reason why a well-known attribute cannot be used. Which reason that is depends on the
attribute, on what it stands in front of, and on those before it, but not on what became of these.
-/

set_option autoImplicit false

namespace DeclFront

namespace Node

/-- The name of an attribute. -/
def name? (n : Node) : Option String :=
  n.nameToken?.map (·.token.text)

/-- Does an attribute have a name? -/
def isNamed (n : Node) : Bool :=
  n.name?.isSome

/-- What is wrong with a literal that stands for no constant. -/
def problem? (n : Node) : Option LiteralProblem :=
  n.literalToken?.bind fun t =>
    match Constant.ofToken t.token with
    | .ok (.error p) => some p
    | _ => none

/-- The constants that the arguments of an attribute stand for. -/
def constants (n : Node) : List Constant :=
  n.arguments.filterMap constant?

/-- What is wrong with those arguments of an attribute that stand for no constant. -/
def literalProblems (n : Node) : List LiteralProblem :=
  n.arguments.filterMap problem?

/-- Is anything wrong with the arguments of an attribute as such, the list or a literal in it? -/
def isBroken (n : Node) : Bool :=
  n.hasMalformedArguments || !n.literalProblems.isEmpty

/-- The attribute has the name of a well-known one, and as many arguments as that takes. -/
structure Fits (n : Node) (wk : WellKnown) : Prop where
  name : n.name?.bind WellKnown.ofName? = some wk
  whole : n.isBroken = false
  count : n.constants.length = wk.arity

variable {a : Node}

/-- A literal stands for a constant, or there is something wrong with it. -/
theorem ReadAsAttribute.isNone_constant? (h : a.ReadAsAttribute) :
    ∀ l ∈ a.arguments, l.constant?.isNone = l.problem?.isSome := by
  intro l hl
  obtain ⟨t, token⟩ := Option.isSome_iff_exists.mp (h.literalToken? l hl)
  obtain ⟨r, decoded⟩ := (h.decodes.arguments hl).literalToken? token
  unfold constant? problem?
  rw [token]
  simp only [Option.bind_some, decoded]
  cases r <;> rfl

/-- An argument stands for no constant exactly if something is wrong with a literal. -/
theorem ReadAsAttribute.any_isNone_constant? (h : a.ReadAsAttribute) :
    a.arguments.any (·.constant?.isNone) = !a.literalProblems.isEmpty := by
  rw [Bool.eq_iff_iff, List.any_eq_true, Bool.not_eq_true', ← Bool.not_eq_true, List.isEmpty_iff,
    literalProblems, List.filterMap_eq_nil_iff]
  simp only [not_forall, exists_prop]
  refine exists_congr fun l => and_congr_right fun hl => ?_
  rw [h.isNone_constant? l hl, Option.isSome_iff_ne_none]

/-- Where nothing is wrong with the arguments as such, nothing is wrong with a literal. -/
theorem literalProblems_of_whole (whole : a.isBroken = false) : a.literalProblems = [] := by
  have quiet := (Bool.or_eq_false_iff.mp whole).2
  rwa [Bool.not_eq_false', List.isEmpty_iff] at quiet

end Node

/-- Does a well-known attribute take arguments like these, apart from their number? -/
def WellKnown.takes : WellKnown → List Constant → Bool
  | .marshalAs, args => args.all fun v => (MarshalKind.ofConstant? v).isSome
  | .notNullIfNotNull, args => args.all fun | .string _ => true | _ => false
  | _, _ => true

/-- What an attribute says is added if it takes arguments like these, and not otherwise. -/
theorem ParamData.takes_of_add {d : ParamData} {wk : WellKnown} {args : List Constant}
    {place : Location} {r : Option ParamData} (count : args.length = wk.arity)
    (added : d.add wk args place = .ok r) : wk.takes args = r.isSome := by
  have single (one : wk.arity = 1) : ∃ v, args = [v] :=
    List.length_eq_one_iff.mp (count.trans one)
  cases wk with
  | marshalAs =>
    obtain ⟨v, rfl⟩ := single rfl
    cases added
    rw [Option.isSome_map]
    exact Bool.and_true _
  | notNullIfNotNull =>
    obtain ⟨v, rfl⟩ := single rfl
    cases added
    cases v <;> rfl
  | defaultParameterValue =>
    obtain ⟨v, rfl⟩ := single rfl
    cases added
    rfl
  | _ =>
    cases added
    rfl

namespace Attributes

/-! ### Records -/

/-- What one attribute leaves behind: its entry, and what was found about it. -/
structure Record where
  entry : AttributeEntry
  findings : List Finding

/-- What was found is reported at the place of the attribute. -/
def Record.reports (x : Record) (owner : String) : List Diagnostic :=
  x.findings.map fun f => f.report (.symbol owner) (some x.entry.location)

/-- No attribute before fits the meaning, or there may be several. -/
def Fresh (before : List Node) (wk : WellKnown) : Prop :=
  wk.allowsMultiple = false → ¬∃ other ∈ before, other.Fits wk

/-- The reasons why a well-known attribute, whose arguments say something, cannot be used. -/
inductive Rejected (target : AttributeTarget) (before : List Node) (a : Node) (name : String)
    (wk : WellKnown) : Finding → Prop where
  | count : a.constants.length ≠ wk.arity →
    Rejected target before a name wk (.argumentCount name wk.arity a.constants.length)
  | misplaced : a.constants.length = wk.arity → target ≠ .parameter →
    Rejected target before a name wk (.misplacedAttribute name)
  | repeated : a.constants.length = wk.arity → target = .parameter → ¬Fresh before wk →
    Rejected target before a name wk (.duplicateAttribute name)
  | argument : a.constants.length = wk.arity → target = .parameter → Fresh before wk →
    wk.takes a.constants = false → Rejected target before a name wk (.invalidArgument name)

/-- What an attribute leaves behind where it stands: its name means nothing, its arguments are broken,
there is a reason against it, or it is used. -/
inductive Recorded (target : AttributeTarget) (place : Range → Location) (before : List Node)
    (a : Node) : Record → Prop where
  | unknown {name : String} : a.name? = some name → WellKnown.ofName? name = none →
    Recorded target place before a
      ⟨⟨name, a.constants, place a.range, none⟩, a.literalProblems.map .badLiteral⟩
  | broken {name : String} {wk : WellKnown} : a.name? = some name →
    WellKnown.ofName? name = some wk → a.isBroken = true →
    Recorded target place before a
      ⟨⟨name, a.constants, place a.range, none⟩, a.literalProblems.map .badLiteral⟩
  | rejected {name : String} {wk : WellKnown} {f : Finding} : a.name? = some name →
    WellKnown.ofName? name = some wk → a.isBroken = false → Rejected target before a name wk f →
    Recorded target place before a ⟨⟨name, a.constants, place a.range, none⟩, [f]⟩
  | used {name : String} {wk : WellKnown} : a.name? = some name → a.Fits wk →
    target = .parameter → Fresh before wk → wk.takes a.constants = true →
    Recorded target place before a ⟨⟨name, a.constants, place a.range, some wk⟩, []⟩

/-- One record for each attribute, in their order. -/
structure Records (target : AttributeTarget) (place : Range → Location) (as : List Node)
    (records : List Record) : Prop where
  length : records.length = as.length
  each : ∀ before a after, as = before ++ a :: after →
    ∃ x, records[before.length]? = some x ∧ Recorded target place before a x

variable {target : AttributeTarget} {place : Range → Location} {attr : Node} {args : Arguments}
  {name : String} {e : Effect} {b c : Binding} {as : List Node} {records : List Record}

/-- One more attribute leaves one more record. -/
theorem Records.concat (h : Records target place as records) {x : Record}
    (recorded : Recorded target place as attr x) :
    Records target place (as ++ [attr]) (records ++ [x]) := by
  refine ⟨by simp [h.length], fun before a after split => ?_⟩
  -- the attribute is the new one, or it is one of those before, with fewer behind it
  rcases List.eq_nil_or_concat after with rfl | ⟨after, last, rfl⟩
  · obtain ⟨rfl, same⟩ := List.append_inj' split rfl
    cases same
    exact ⟨x, by rw [← h.length, List.getElem?_concat_length], recorded⟩
  · rw [List.concat_eq_append, ← List.cons_append, ← List.append_assoc] at split
    obtain ⟨rfl, -⟩ := List.append_inj' split rfl
    obtain ⟨y, found, earlier⟩ := h.each before a after rfl
    exact ⟨y, (List.getElem?_append_left (List.getElem?_eq_some_iff.mp found).1).trans found, earlier⟩

/-! ### The record of one attribute -/

/-- Arguments say what those of an attribute do. -/
structure Arguments.Of (args : Arguments) (attr : Node) : Prop where
  values : args.values = attr.constants
  problems : args.problems = attr.literalProblems
  malformed : args.malformed = attr.isBroken

/-- What is wrong with the literals among the arguments is collected in their order. -/
theorem Arguments.problems_of_ofNode (h : Arguments.ofNode attr = .ok args) :
    args.problems = attr.literalProblems := by
  refine foldlM_invariant (motive := fun a ls => a.problems = ls.filterMap Node.problem?)
    (fun l hl a b done collected added => ?_) rfl h
  rw [List.filterMap_append, ← collected, List.filterMap_cons]
  rcases Arguments.add_cases added with ⟨none, rfl⟩ | ⟨t, token, ⟨v, decoded, rfl⟩ | ⟨p, decoded, rfl⟩⟩
  · simp [Node.problem?, none]
  · simp [Node.problem?, token, decoded]
  · simp [Node.problem?, token, decoded]

/-- The arguments that are read from an attribute say what those in its text do. -/
theorem Arguments.of_ofNode (read : attr.ReadAsAttribute) (h : Arguments.ofNode attr = .ok args) :
    args.Of attr := by
  have reads := Arguments.ofNode_reads read.literalToken? h
  exact ⟨reads.values, problems_of_ofNode h,
    reads.malformed.trans (congrArg _ read.any_isNone_constant?)⟩

section Effect

variable {seen : List WellKnown} {data : ParamData} {l : Location}

/-- An attribute that fits a well-known one has the name of that. -/
theorem means_of_fits (named : attr.name? = some name) {wk : WellKnown} (fits : attr.Fits wk) :
    WellKnown.ofName? name = some wk := by
  simpa [named] using fits.name

/-- An attribute is usable in front of a parameter only, if it fits its meaning and that is free. -/
theorem fits_of_usable (of : args.Of attr) (named : attr.name? = some name) {wk : WellKnown}
    (known : WellKnown.ofName? name = some wk) (usable : judge target seen name wk args = .usable) :
    attr.Fits wk ∧ target = .parameter ∧ (wk.allowsMultiple = false → wk ∉ seen) := by
  cases judge_judged usable with
  | usable whole count parameter fresh =>
    rw [of.malformed] at whole
    rw [of.values] at count
    exact ⟨⟨by rw [named]; exact known, whole, count⟩, parameter, fresh⟩

/-- A meaning counts as used if it was, or if the attribute fits it. -/
theorem mem_seen_of_effect (of : args.Of attr) (named : attr.name? = some name)
    (effects : effect .parameter seen data name args l = .ok e) (wk : WellKnown) :
    wk ∈ e.seen ↔ wk ∈ seen ∨ attr.Fits wk := by
  have usable_iff {wk' : WellKnown} (known : WellKnown.ofName? name = some wk')
      (usable : judge .parameter seen name wk' args = .usable) : wk' = wk ↔ attr.Fits wk := by
    refine ⟨?_, fun other => Option.some.inj (known.symm.trans (means_of_fits named other))⟩
    rintro rfl
    exact (fits_of_usable of named known usable).1
  cases effect_outcome effects with
  | unknown none =>
    exact (or_iff_left fun other => by cases none.symm.trans (means_of_fits named other)).symm
  | @silent wk' known verdict =>
    cases judge_judged verdict with
    | silent broken =>
      rw [of.malformed] at broken
      exact (or_iff_left fun other => Bool.false_ne_true (other.whole.symm.trans broken)).symm
  | @refused wk' f known verdict =>
    cases judge_judged verdict with
    | refused _ refusal =>
      refine (or_iff_left_of_imp fun other => ?_).symm
      obtain rfl := Option.some.inj (known.symm.trans (means_of_fits named other))
      -- an attribute that fits can only be refused for one before it
      cases refusal with
      | count differs => exact absurd (of.values ▸ other.count) differs
      | misplaced _ elsewhere => exact absurd rfl elsewhere
      | repeated _ _ _ earlier => exact earlier
  | invalid known usable _ => rw [List.mem_cons, or_comm, eq_comm, usable_iff known usable]
  | used known usable _ => rw [List.mem_cons, or_comm, eq_comm, usable_iff known usable]

/-- Every attribute leaves the record of its effect. -/
theorem recorded_of_effect (of : args.Of attr) (named : attr.name? = some name)
    (used : target = .parameter → ∀ wk, wk ∈ seen ↔ ∃ a ∈ as, a.Fits wk)
    (effects : effect target seen data name args (place attr.range) = .ok e) :
    Recorded target place as attr ⟨⟨name, args.values, place attr.range, e.meaning⟩,
      args.problems.map .badLiteral ++ e.findings⟩ := by
  rw [of.values, of.problems]
  cases effect_outcome effects with
  | unknown none =>
    rw [List.append_nil]
    exact .unknown named none
  | silent known verdict =>
    cases judge_judged verdict with
    | silent broken =>
      rw [List.append_nil]
      exact .broken named known (of.malformed ▸ broken)
  | @refused wk f known verdict =>
    cases judge_judged verdict with
    | refused whole refusal =>
      rw [of.malformed] at whole
      rw [Node.literalProblems_of_whole whole]
      refine .rejected named known whole ?_
      cases refusal with
      | count differs =>
        rw [of.values] at differs ⊢
        exact .count differs
      | misplaced count elsewhere => exact .misplaced (of.values ▸ count) elsewhere
      | repeated count parameter single earlier =>
        exact .repeated (of.values ▸ count) parameter fun fresh =>
          fresh single ((used parameter wk).mp earlier)
  | @invalid wk known usable added =>
    obtain ⟨fits, parameter, free⟩ := fits_of_usable of named known usable
    have fresh : Fresh as wk := fun single earlier => free single ((used parameter wk).mpr earlier)
    rw [of.values] at added
    rw [Node.literalProblems_of_whole fits.whole]
    exact .rejected named known fits.whole
      (.argument fits.count parameter fresh (ParamData.takes_of_add fits.count added))
  | @used wk d known usable added =>
    obtain ⟨fits, parameter, free⟩ := fits_of_usable of named known usable
    have fresh : Fresh as wk := fun single earlier => free single ((used parameter wk).mpr earlier)
    rw [of.values] at added
    rw [Node.literalProblems_of_whole fits.whole]
    exact .used named fits parameter fresh (ParamData.takes_of_add fits.count added)

end Effect

/-! ### The records of all attributes -/

/-- The attributes bound so far left their records, and those that fit count as used. -/
structure Binding.Records (b : Binding) (target : AttributeTarget) (place : Range → Location)
    (as : List Node) (records : List Record) : Prop where
  entries : b.bag.entries = records.map (·.entry)
  findings : b.findings = records.flatMap fun x => x.findings.map fun f => (f, x.entry.location)
  used : target = .parameter → ∀ wk, wk ∈ b.seen ↔ ∃ a ∈ as, a.Fits wk
  records : Attributes.Records target place as records

/-- One more attribute leaves a record if it has a name, and none if it has not. -/
theorem Binding.Records.add (h : b.Records target place (as.filter Node.isNamed) records)
    (read : attr.ReadAsAttribute) (added : b.add target place attr = .ok c) :
    ∃ records', c.Records target place ((as ++ [attr]).filter Node.isNamed) records' := by
  rw [List.filter_append]
  rcases Binding.add_cases added with ⟨unnamed, rfl⟩ | ⟨t, args, e, token, arguments, effects, rfl⟩
  · have without : ¬attr.isNamed = true := by simp [Node.isNamed, Node.name?, unnamed]
    rw [List.filter_cons_of_neg without, List.filter_nil, List.append_nil]
    exact ⟨records, h⟩
  · have named : attr.name? = some t.token.text := by rw [Node.name?, token]; rfl
    have of := Arguments.of_ofNode read arguments
    have recorded := recorded_of_effect of named h.used effects
    rw [List.filter_cons_of_pos (by rw [Node.isNamed, named]; rfl), List.filter_nil]
    refine ⟨_, ?_, ?_, fun parameter wk => ?_, h.records.concat recorded⟩
    · rw [List.map_append, ← h.entries]
      rfl
    · rw [List.flatMap_append, ← h.findings, List.flatMap_singleton]
      rfl
    · subst parameter
      refine (mem_seen_of_effect of named effects wk).trans ?_
      rw [h.used rfl wk]
      simp [or_and_right, exists_or]

end Attributes

/-! ### Places -/

/-- An attribute with a name takes some bytes. -/
theorem Node.ReadAsAttribute.start_lt_stop {a : Node} (h : a.ReadAsAttribute)
    (named : a.isNamed = true) : a.start < a.range.stop := by
  unfold Node.isNamed Node.name? at named
  rw [Option.isSome_map] at named
  obtain ⟨t, token⟩ := Option.isSome_iff_exists.mp named
  have inside := Node.mem_tokensOf_of_mem_tokensFrom (List.mem_of_find?_eq_some token)
  obtain ⟨c, hc⟩ := List.exists_mem_of_ne_nil _ (h.chars_ne_nil t.token inside)
  have some : a.chars ≠ [] := List.ne_nil_of_mem (List.mem_flatMap.mpr ⟨t.token, inside, hc⟩)
  rw [a.stop_eq]
  exact Nat.lt_add_of_pos_right (byteLength_pos some)

/-- The attributes of a declaration that have names are at different places of its file. -/
theorem TreeRef.places_nodup {r : TreeRef} {text : List Char} (held : (parse text).root.Holds r.node) :
    ((r.tree.attributes.filter Node.isNamed).map fun a => r.place a.range).Nodup := by
  have apart : (r.tree.attributes.filter Node.isNamed).Pairwise fun a b => a.range.stop ≤ b.start :=
    (r.tree.nested.apart.filter _).filter _
  refine List.pairwise_map.mpr (apart.imp_of_mem fun {a b} ha _ behind same => ?_)
  obtain ⟨ha, named⟩ := List.mem_filter.mp ha
  have bytes := (TreeRef.readAsAttribute held a ha).start_lt_stop named
  have starts : a.start + r.offset = b.start + r.offset :=
    congrArg (fun l : Location => l.range.start) same
  omega

namespace Attributes

variable {target : AttributeTarget} {place : Range → Location} {as : List Node}
  {records : List Record} {x : Record}

/-- Every entry stands at the place of its attribute. -/
theorem Recorded.location {before : List Node} {a : Node} (h : Recorded target place before a x) :
    x.entry.location = place a.range := by
  cases h <;> rfl

/-- So the entries stand at the places of the attributes, in order. -/
theorem Records.locations (h : Records target place as records) :
    records.map (·.entry.location) = as.map fun a => place a.range := by
  refine List.ext_getElem (by simp [h.length]) fun i inside _ => ?_
  rw [List.length_map, h.length] at inside
  have split : as = as.take i ++ as[i] :: as.drop (i + 1) := by
    rw [List.getElem_cons_drop, List.take_append_drop]
  obtain ⟨x, found, recorded⟩ := h.each _ _ _ split
  rw [List.length_take, Nat.min_eq_left (Nat.le_of_lt inside)] at found
  rw [List.getElem_map, List.getElem_map, ← recorded.location,
    (List.getElem?_eq_some_iff.mp found).2]

/-- What is reported about an attribute is reported at its place. -/
theorem Record.filter_reports (x : Record) (owner : String) (l : Location) :
    (x.reports owner).filter (·.location = some l) =
      if x.entry.location = l then x.reports owner else [] := by
  have at_place : ∀ d ∈ x.reports owner, d.location = some x.entry.location := by
    intro d hd
    obtain ⟨f, -, rfl⟩ := List.mem_map.mp hd
    rfl
  split
  · rename_i same
    exact List.filter_eq_self.mpr fun d hd => decide_eq_true (same ▸ at_place d hd)
  · rename_i apart
    refine List.filter_eq_nil_iff.mpr fun d hd found => apart ?_
    exact Option.some.inj ((at_place d hd).symm.trans (of_decide_eq_true found))

/-- What is reported at the place of an attribute is what was found about it, if no other one is at
the same place. -/
theorem filter_flatMap_reports (apart : (records.map (·.entry.location)).Nodup) (owner : String)
    (hx : x ∈ records) :
    (records.flatMap (·.reports owner)).filter (·.location = some x.entry.location) =
      x.reports owner := by
  induction records with
  | nil => cases hx
  | cons y ys ih =>
    rw [List.map_cons, List.nodup_cons] at apart
    rw [List.flatMap_cons, List.filter_append, y.filter_reports]
    rcases List.mem_cons.mp hx with rfl | later
    · have others : (ys.flatMap (·.reports owner)).filter
          (·.location = some x.entry.location) = [] := by
        rw [List.filter_flatMap, List.flatMap_eq_nil_iff]
        intro z hz
        rw [z.filter_reports, if_neg fun same => apart.1 (List.mem_map.mpr ⟨z, hz, same⟩)]
      rw [if_pos rfl, others, List.append_nil]
    · rw [if_neg fun same => apart.1 (List.mem_map.mpr ⟨x, later, same.symm⟩), ih apart.2 later]
      rfl

end Attributes

/-- Attributes that were read from texts can be bound, in front of whatever they stand. Each of them
with a name leaves one record, in their order; the entries are those of the records, and what is
reported is what was found for these and nothing else. If the attributes are at different places, as
those of a declaration are, what is reported at the place of one is what was found about it. -/
theorem attributes_leave_records (attrs : List Node) (read : ∀ a ∈ attrs, a.ReadAsAttribute)
    (target : AttributeTarget) (place : Range → Location) (owner : String) :
    ∃ bound records, Attributes.bind attrs target place owner = .ok bound ∧
      Attributes.Records target place (attrs.filter Node.isNamed) records ∧
      bound.value.entries = records.map (·.entry) ∧
      bound.diagnostics = records.flatMap (·.reports owner) ∧
      (((attrs.filter Node.isNamed).map fun a => place a.range).Nodup → ∀ x ∈ records,
        bound.diagnostics.filter (·.location = some x.entry.location) = x.reports owner) := by
  obtain ⟨bound, result⟩ : ∃ bound, Attributes.bind attrs target place owner = .ok bound :=
    Attributes.bind_ok (fun a ha => (read a ha).decodes) place owner
  obtain ⟨b, ⟨records, left⟩, rfl⟩ := Attributes.bind_invariant
    (motive := fun b as => ∃ records, b.Records target place (as.filter Node.isNamed) records)
    (fun a ha _ _ _ ⟨_, left⟩ added => left.add (read a ha) added)
    ⟨[], rfl, rfl, fun _ _ => by simp, rfl, fun _ _ _ split => by simp at split⟩ result
  have reported : (b.findings.map fun f => f.1.report (.symbol owner) (some f.2)) =
      records.flatMap (·.reports owner) := by
    rw [left.findings, List.map_flatMap]
    refine congrArg (records.flatMap ·) (funext fun x => ?_)
    rw [List.map_map]
    rfl
  refine ⟨_, records, result, left.records, left.entries, reported, fun apart x hx => ?_⟩
  rw [← left.records.locations] at apart
  exact (congrArg _ reported).trans (Attributes.filter_flatMap_reports apart owner hx)

/-- An attribute that is used, one of its kind, one that no one knows with a literal that stands for
nothing, and one with a broken list. -/
def Sample.mixedAttributes : List Char :=
  "type T \x7b fn M([MarshalAs(I4)] [MarshalAs(I8)] [Odd(99999999999999999999)] ".toList ++
    "[Optional(@)] int x); \x7d".toList

/-- The second and the third of the attributes are reported, and only the first has a meaning. -/
theorem mixed_attributes_leave_records :
    ∃ (r : TreeRef) (bound : Completed AttributesBag) (records : List Attributes.Record),
      (parse Sample.mixedAttributes).root.Holds r.node ∧
      Attributes.bind r.tree.attributes .parameter r.place "T.M(x)" = .ok bound ∧
      Attributes.Records .parameter r.place (r.tree.attributes.filter Node.isNamed) records ∧
      bound.value.entries = records.map (·.entry) ∧
      bound.diagnostics = records.flatMap (·.reports "T.M(x)") ∧
      (∀ x ∈ records, bound.diagnostics.filter (·.location = some x.entry.location) =
        x.reports "T.M(x)") ∧
      bound.value.entries.map (·.wellKnown) = [some .marshalAs, none, none, none] ∧
      bound.diagnostics.map (·.code) = ["SG0202", "SG0204"] := by
  obtain ⟨n, inside, shown⟩ : ∃ n ∈ (parse Sample.mixedAttributes).root.within .param,
      (Attributes.bind (TreeRef.tree ⟨"a.decl", n⟩).attributes .parameter
        (TreeRef.place ⟨"a.decl", n⟩) "T.M(x)").toOption.any (fun c =>
          c.value.entries.map (·.wellKnown) = [some .marshalAs, none, none, none] &&
            c.diagnostics.map (·.code) = ["SG0202", "SG0204"]) = true := by
    decide +kernel
  have held := Node.holds_of_mem_inside (List.mem_filter.mp inside).1
  obtain ⟨bound, records, result, each, entries, reports, places⟩ := attributes_leave_records _
    (TreeRef.readAsAttribute (r := ⟨"a.decl", n⟩) held) .parameter (TreeRef.place ⟨"a.decl", n⟩)
    "T.M(x)"
  rw [result] at shown
  simp only [Except.toOption, Option.any_some, Bool.and_eq_true, decide_eq_true_eq] at shown
  exact ⟨⟨"a.decl", n⟩, bound, records, held, result, each, entries, reports,
    places (TreeRef.places_nodup held), shown.1, shown.2⟩

end DeclFront
