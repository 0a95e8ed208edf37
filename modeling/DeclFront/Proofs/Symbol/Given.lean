import DeclFront.Proofs.Symbol.Effect

/-!
# How a default value is given

A default value is written behind `=`, or it is the argument of an attribute. Here is what either says
in the tree of a file, apart from what is made of it: the constant of a literal, the sole argument of
an attribute, and the first attribute that gives a value. What is computed from a declaration is that,
and whatever does not give a value although it was meant to has been reported, or was complained about
before.
-/

set_option autoImplicit false

namespace DeclFront

namespace Node

/-- The constant that a literal stands for. -/
def constant? (n : Node) : Option Constant :=
  n.literalToken?.bind fun t => (Constant.ofToken t.token).toOption.bind Except.toOption

/-- Is a node an attribute that is there to give a default value? -/
def givesDefault (n : Node) : Bool :=
  (n.nameToken?.bind fun t => WellKnown.ofName? t.token.text) = some .defaultParameterValue

/-- The constant that the argument of an attribute stands for, if it is the only one and nothing is
wrong with the list. -/
def soleArgument? (n : Node) : Option Constant :=
  match n.hasMalformedArguments, n.arguments with
  | false, [l] => l.constant?
  | _, _ => none

/-- The default value that an attribute gives. -/
def givenDefault? (n : Node) : Option Constant :=
  if n.givesDefault then n.soleArgument? else none

/-- The default value that a declaration gives to a parameter of type `t`: the one that is written
behind `=`, and if nothing is written that of the first attribute with one. -/
def meantDefault? (n : Node) (t : ParamType) : Option Constant :=
  match n.defaultValue? with
  | some d => (d.literal?.bind constant?).bind (·.convertTo t)
  | none => (n.attributes.findSome? givenDefault?).bind (·.convertTo t)

end Node

/-- A constant that a type takes stays what it is, but for an integer that becomes a long one or a
floating-point number. -/
theorem Constant.convertTo_cases {c v : Constant} {t : ParamType} (h : c.convertTo t = some v) :
    v = c ∨ ∃ n, t.isArray = false ∧
      (t.special = .long ∧ v = .long n ∨ t.special = .double ∧ v = .double (Binary64.ofInt n)) := by
  unfold convertTo at h
  split at h
  · cases c with
    | null => exact .inl (Option.some.inj h).symm
    | _ => cases h
  · rename_i scalar
    rw [Bool.not_eq_true] at scalar
    cases c with
    | null =>
      simp only [Option.ite_none_right_eq_some, Option.some.injEq] at h
      exact .inl h.2.symm
    | int n =>
      cases special : t.special with
      | long =>
        simp only [special, Option.some.injEq] at h
        exact .inr ⟨n, scalar, .inl ⟨rfl, h.symm⟩⟩
      | double =>
        simp only [special, Option.some.injEq] at h
        exact .inr ⟨n, scalar, .inr ⟨rfl, h.symm⟩⟩
      | _ => simp_all
    | _ => cases special : t.special <;> simp_all

/-- To convert a constant once more changes nothing. -/
theorem Constant.convertTo_stable {c v : Constant} {t : ParamType} (h : c.convertTo t = some v) :
    v.convertTo t = some v := by
  rcases convertTo_cases h with rfl | ⟨n, scalar, ⟨special, rfl⟩ | ⟨special, rfl⟩⟩
  · exact h
  · unfold convertTo
    simp only [scalar, special, Bool.false_eq_true, if_false]
  · unfold convertTo
    simp only [scalar, special, Bool.false_eq_true, if_false]

/-- An error is reported at a location. -/
def ErrorAt (reports : List Diagnostic) (l : Location) : Prop :=
  ∃ d ∈ reports, d.severity = .error ∧ d.location = some l

/-- An error that is reported is among more reports, too. -/
theorem ErrorAt.mono {reports more : List Diagnostic} {l : Location} (h : ErrorAt reports l)
    (kept : reports ⊆ more) : ErrorAt more l := by
  obtain ⟨d, hd, error⟩ := h
  exact ⟨d, kept hd, error⟩

namespace Attributes

/-! ### Arguments -/

/-- Arguments read from literals: the constants that these stand for, and whether one of them stands
for none. What is wrong with one that has a token is told. -/
structure Arguments.Reads (a : Arguments) (marked : Bool) (ls : List Node) : Prop where
  values : a.values = ls.filterMap Node.constant?
  malformed : a.malformed = (marked || ls.any (·.constant?.isNone))
  told : a.problems = [] → ls.any (·.constant?.isNone) = false

/-- One more argument is read as the constant it stands for, or told to stand for none. -/
theorem Arguments.Reads.add {a b : Arguments} {marked : Bool} {ls : List Node}
    (h : a.Reads marked ls) {l : Node} (token : l.literalToken?.isSome) (added : a.add l = .ok b) :
    b.Reads marked (ls ++ [l]) := by
  have constant {t : PlacedToken} (ht : l.literalToken? = some t) :
      l.constant? = (Constant.ofToken t.token).toOption.bind Except.toOption := by
    rw [Node.constant?, ht]
    rfl
  rcases Arguments.add_cases added with ⟨none, -⟩ | ⟨t, ht, ⟨v, decoded, rfl⟩ | ⟨p, decoded, rfl⟩⟩
  · rw [none] at token
    cases token
  · have stands : l.constant? = some v := by rw [constant ht, decoded]; rfl
    refine ⟨?_, ?_, fun quiet => ?_⟩
    · rw [List.filterMap_append, ← h.values, List.filterMap_cons, stands]
      rfl
    · rw [List.any_append, List.any_cons, stands, h.malformed]
      simp
    · rw [List.any_append, h.told quiet, List.any_cons, stands]
      rfl
  · have stands : l.constant? = none := by rw [constant ht, decoded]; rfl
    refine ⟨?_, ?_, fun quiet => ?_⟩
    · rw [List.filterMap_append, ← h.values, List.filterMap_cons, stands]
      exact (List.append_nil _).symm
    · rw [List.any_append, List.any_cons, stands]
      simp
    · simp at quiet

variable {attr : Node} {args : Arguments}

/-- All arguments of an attribute are read so, by induction on them. -/
theorem Arguments.ofNode_reads (tokens : ∀ l ∈ attr.arguments, l.literalToken?.isSome)
    (h : Arguments.ofNode attr = .ok args) :
    args.Reads attr.hasMalformedArguments attr.arguments := by
  refine foldlM_invariant (motive := fun a ls => a.Reads attr.hasMalformedArguments ls)
    (fun l hl a b done reads added => reads.add (tokens l hl) added) ?_ h
  exact ⟨rfl, (Bool.or_false _).symm, fun _ => rfl⟩

/-- The sole argument is read as such. -/
theorem Arguments.Reads.soleArgument? (h : args.Reads attr.hasMalformedArguments attr.arguments) :
    attr.soleArgument? = if args.malformed = false ∧ args.values.length = 1 then args.values.head?
      else none := by
  rw [h.malformed, h.values]
  unfold Node.soleArgument?
  cases attr.hasMalformedArguments with
  | true => rfl
  | false =>
    match attr.arguments with
    | [] => rfl
    | [l] => cases stands : l.constant? <;> simp [stands]
    | l :: m :: ls =>
      cases first : l.constant? <;> cases second : m.constant? <;> simp [first, second]

/-- Arguments that are malformed were complained about, or it is told what is wrong with one. -/
theorem Arguments.Reads.loud {marked : Bool} {ls : List Node} (h : args.Reads marked ls)
    (malformed : args.malformed = true) : marked = true ∨ ∃ p, p ∈ args.problems := by
  rw [h.malformed, Bool.or_eq_true] at malformed
  refine malformed.imp_right fun broken => List.exists_mem_of_ne_nil _ fun quiet => ?_
  rw [h.told quiet] at broken
  cases broken

/-! ### The first attribute with a default value -/

variable {place : Range → Location}

/-- The attributes bound so far gave the default value of the first that has one, and each that gave
none has been reported, or its list of arguments is broken. -/
structure Binding.Gives (b : Binding) (place : Range → Location) (as : List Node) : Prop where
  used : .defaultParameterValue ∈ b.seen ↔ b.bag.data.defaultValue.isSome
  value : b.bag.data.defaultValue.map Prod.fst = as.findSome? Node.givenDefault?
  accounted : ∀ a ∈ as, a.givesDefault → a.hasMalformedArguments = true ∨
    (∃ f, (f, place a.range) ∈ b.findings ∧ f.severity = .error) ∨
    ∃ v, b.bag.data.defaultValue = some (v, place a.range)

variable {b c : Binding} {as : List Node}

/-- One more attribute may leave the default value as it is: if it gives none, or if there is one
already. -/
theorem Binding.Gives.keep (h : b.Gives place as)
    (used : .defaultParameterValue ∈ c.seen ↔ .defaultParameterValue ∈ b.seen)
    (same : c.bag.data.defaultValue = b.bag.data.defaultValue) (more : b.findings ⊆ c.findings)
    (late : attr.givenDefault? = none ∨ .defaultParameterValue ∈ b.seen)
    (accounted : attr.givesDefault → attr.hasMalformedArguments = true ∨
      ∃ f, (f, place attr.range) ∈ c.findings ∧ f.severity = .error) :
    c.Gives place (as ++ [attr]) := by
  refine ⟨by rw [used, same, h.used], ?_, fun a ha gives => ?_⟩
  · rw [same, h.value, List.findSome?_append, List.findSome?_singleton]
    rcases late with none | known
    · rw [none, Option.or_none]
    · have earlier := h.used.mp known
      rw [← Option.isSome_map (f := Prod.fst), h.value] at earlier
      exact (Option.or_of_isSome earlier).symm
  · rcases List.mem_append.mp ha with ha | ha
    · rw [same]
      refine (h.accounted a ha gives).imp_right (Or.imp_left ?_)
      exact fun ⟨f, hf, error⟩ => ⟨f, more hf, error⟩
    · rw [List.mem_singleton.mp ha] at gives ⊢
      exact (accounted gives).imp_right .inl

/-- The first attribute that gives a default value is the one that gives it. -/
theorem Binding.Gives.first (h : b.Gives place as) (missing : b.bag.data.defaultValue = none)
    (used : .defaultParameterValue ∈ c.seen) {v : Constant} (given : attr.givenDefault? = some v)
    (value : c.bag.data.defaultValue = some (v, place attr.range))
    (more : b.findings ⊆ c.findings) : c.Gives place (as ++ [attr]) := by
  refine ⟨iff_of_true used (by rw [value]; rfl), ?_, fun a ha gives => ?_⟩
  · rw [value, List.findSome?_append, ← h.value, missing, List.findSome?_singleton, given]
    rfl
  · rcases List.mem_append.mp ha with ha | ha
    · refine (h.accounted a ha gives).imp_right fun other => .inl ?_
      rcases other with ⟨f, hf, error⟩ | ⟨w, earlier⟩
      · exact ⟨f, more hf, error⟩
      · cases missing.symm.trans earlier
    · rw [List.mem_singleton.mp ha]
      exact .inr (.inr ⟨v, value⟩)

section Effects

variable {t : PlacedToken} {e : Effect} (name : attr.nameToken? = some t)
  (effects : effect .parameter b.seen b.bag.data t.token.text args (place attr.range) = .ok e)

include name effects

/-- An attribute of another meaning has no say in the default value. -/
theorem Binding.Gives.apply_other (h : b.Gives place as)
    (other : WellKnown.ofName? t.token.text ≠ some .defaultParameterValue) :
    (b.apply t.token.text args (place attr.range) e).Gives place (as ++ [attr]) := by
  have gives : ¬attr.givesDefault = true := by simpa [Node.givesDefault, name] using other
  have apart {wk : WellKnown} (same : WellKnown.ofName? t.token.text = some wk) :
      wk ≠ .defaultParameterValue := by
    rintro rfl
    exact other same
  refine h.keep ?_ ?_ (List.subset_append_left _ _) (.inl (if_neg gives)) (absurd · gives)
  · rcases effect_cases effects with ⟨seen, -, -⟩ | ⟨wk, same, -, seen, -⟩
    · exact iff_of_eq (congrArg _ seen)
    · show _ ∈ e.seen ↔ _
      rw [seen, List.mem_cons]
      exact or_iff_right (apart same).symm
  · rcases effect_cases effects with ⟨-, data, -⟩ | ⟨wk, same, -, -, ⟨-, data⟩ | added⟩
    · exact congrArg _ data
    · exact congrArg _ data
    · have kept := defaultValue_of_add added
      rwa [if_neg (apart same)] at kept

/-- An attribute that is there to give a default value gives it if it is the first that does, or is
reported, or its arguments are broken. -/
theorem Binding.Gives.apply_default (h : b.Gives place as)
    (reads : args.Reads attr.hasMalformedArguments attr.arguments)
    (known : WellKnown.ofName? t.token.text = some .defaultParameterValue) :
    (b.apply t.token.text args (place attr.range) e).Gives place (as ++ [attr]) := by
  have given : attr.givenDefault? = attr.soleArgument? :=
    if_pos (by simpa [Node.givesDefault, name] using known)
  have said (f : Finding) (hf : f ∈ args.problems.map .badLiteral ++ e.findings) :
      (f, place attr.range) ∈ (b.apply t.token.text args (place attr.range) e).findings :=
    List.mem_append_right _ (List.mem_map.mpr ⟨f, hf, rfl⟩)
  rcases effect_cases effects with ⟨seen, data, reason⟩ | ⟨wk, same, usable, seen, result⟩
  · refine h.keep (iff_of_eq (congrArg _ seen)) (congrArg _ data) (List.subset_append_left _ _) ?_
      fun _ => ?_
    · rw [given, reads.soleArgument?]
      rcases reason _ known with malformed | ⟨f, -, refused⟩
      · exact .inl (if_neg fun clean => by simp [malformed] at clean)
      · exact (judge_refused refused).2.2.imp_left fun count => if_neg fun sole => count sole.2
    · rcases reason _ known with malformed | ⟨f, hf, refused⟩
      · refine (reads.loud malformed).imp_right fun ⟨p, hp⟩ => ?_
        exact ⟨_, said (.badLiteral p) (List.mem_append_left _ (List.mem_map_of_mem hp)), rfl⟩
      · exact .inr ⟨f, said f (List.mem_append_right _ hf), (judge_refused refused).1⟩
  · cases known.symm.trans same
    obtain ⟨wellFormed, count, fresh⟩ := judge_usable usable
    obtain ⟨v, one⟩ := List.length_eq_one_iff.mp count
    have missing : b.bag.data.defaultValue = none := by
      rw [← Option.not_isSome_iff_eq_none, ← h.used]
      exact fresh rfl
    have used : .defaultParameterValue ∈ e.seen := by
      rw [seen]
      exact List.mem_cons_self
    refine h.first missing used (v := v) ?_ ?_ (List.subset_append_left _ _)
    · rw [given, reads.soleArgument?, if_pos ⟨wellFormed, count⟩, one]
      rfl
    · rw [one] at result
      rcases result with ⟨nothing, -⟩ | added
      · cases nothing
      · obtain ⟨w, rest, values, value⟩ := defaultValue_of_add added
        cases values
        exact value

end Effects

/-- One more attribute of either kind keeps the default value that of the first with one. -/
theorem Binding.Gives.add (h : b.Gives place as)
    (tokens : ∀ l ∈ attr.arguments, l.literalToken?.isSome)
    (added : b.add .parameter place attr = .ok c) : c.Gives place (as ++ [attr]) := by
  rcases Binding.add_cases added with ⟨unnamed, rfl⟩ | ⟨t, args, e, name, arguments, effects, rfl⟩
  · have other : ¬attr.givesDefault = true := by simp [Node.givesDefault, unnamed]
    exact h.keep .rfl rfl (List.Subset.refl _) (.inl (if_neg other)) (absurd · other)
  · by_cases known : WellKnown.ofName? t.token.text = some .defaultParameterValue
    · exact h.apply_default name effects (Arguments.ofNode_reads tokens arguments) known
    · exact h.apply_other name effects known

/-- All attributes of a parameter give the default value of the first that has one. -/
theorem gives_of_bind {attrs : List Node} {owner : String} {c : Completed AttributesBag}
    (tokens : ∀ attr ∈ attrs, ∀ l ∈ attr.arguments, l.literalToken?.isSome)
    (h : bind attrs .parameter place owner = .ok c) :
    c.value.data.defaultValue.map Prod.fst = attrs.findSome? Node.givenDefault? ∧
      ∀ a ∈ attrs, a.givesDefault → a.hasMalformedArguments = true ∨
        ErrorAt c.diagnostics (place a.range) ∨
        ∃ v, c.value.data.defaultValue = some (v, place a.range) := by
  have start : Binding.Gives {} place [] := ⟨by simp, rfl, nofun⟩
  obtain ⟨b, gives, rfl⟩ := bind_invariant (motive := fun b as => b.Gives place as)
    (fun a ha b c done given added => given.add (tokens a ha) added) start h
  refine ⟨gives.value, fun a ha default => ?_⟩
  refine (gives.accounted a ha default).imp_right (Or.imp_left ?_)
  rintro ⟨f, hf, error⟩
  exact ⟨_, List.mem_map_of_mem hf, error, rfl⟩

end Attributes

/-! ### What is written behind an equals sign -/

/-- A literal stands for the same constant wherever it stands. -/
theorem Node.constant?_moved (n : Node) (distance : Nat) :
    (n.moved distance).constant? = n.constant? := by
  rw [constant?, literalToken?_moved, Option.bind_map]
  rfl

namespace Parameter

variable {p : Parameter} {file : String} {n d : Node} {w : WrittenDefault}

/-- Nothing forbids a default value exactly if the parameter is passed neither by reference nor out,
and is not variadic. -/
theorem defaultForbidden_eq_nil :
    p.defaultForbidden = [] ↔ p.refKind ≠ .ref ∧ p.refKind ≠ .out ∧ p.caps.isVariadic = false := by
  unfold defaultForbidden
  cases p.refKind <;> cases p.caps.isVariadic <;> simp

/-- To give a default value where there can be none is an error. -/
theorem severity_of_mem_defaultForbidden {f : Finding} (h : f ∈ p.defaultForbidden) :
    f.severity = .error := by
  simp only [defaultForbidden, List.mem_append, List.mem_ite_nil_right, List.mem_singleton] at h
  rcases h with ⟨-, rfl⟩ | ⟨-, rfl⟩ <;> rfl

/-- What is read of a default value that is written in a file: the constant of its literal, as the type
of the parameter takes it, unless the parameter cannot have one. Without a value something has been
found to be wrong, or there is no literal. -/
structure Writes (p : Parameter) (file : String) (d : Node) (w : WrittenDefault) : Prop where
  place : w.place = some ⟨file, d.range⟩
  value : w.value = if p.defaultForbidden = [] then
    (d.literal?.bind Node.constant?).bind (·.convertTo p.type) else none
  told : w.value = none → (d.literal?.bind Node.literalToken?) = none ∨
    ∃ f ∈ w.findings, f.severity = .error
  forbidden : p.defaultForbidden ⊆ w.findings

/-- What is wrong with a literal as a default value is told if it gives none. -/
theorem literalDefault_cases {type : ParamType} {t : Token} {r : Option Constant × List Finding}
    (h : literalDefault type t = .ok r) :
    r.1 = ((Constant.ofToken t).toOption.bind Except.toOption).bind (·.convertTo type) ∧
      (r.1 = none → ∃ f ∈ r.2, f.severity = .error) := by
  unfold literalDefault at h
  cases decoded : Constant.ofToken t with
  | error f => simp [decoded, Except.map] at h
  | ok c =>
    rw [decoded] at h
    cases c with
    | error problem =>
      cases h
      exact ⟨rfl, fun _ => ⟨_, List.mem_singleton_self _, rfl⟩⟩
    | ok value =>
      simp only [Except.map, Except.ok.injEq] at h
      show _ = value.convertTo type ∧ _
      cases converted : value.convertTo type with
      | none =>
        simp only [converted] at h
        rw [← h]
        exact ⟨rfl, fun _ => ⟨_, List.mem_singleton_self _, rfl⟩⟩
      | some v =>
        simp only [converted] at h
        rw [← h]
        exact ⟨rfl, nofun⟩

/-- Whether a parameter can have a default value is decided apart from the literal. -/
theorem writes_of_literal {r : Option Constant × List Finding}
    (value : r.1 = (d.literal?.bind Node.constant?).bind (·.convertTo p.type))
    (told : r.1 = none → (d.literal?.bind Node.literalToken?) = none ∨
      ∃ f ∈ r.2, f.severity = .error) :
    p.Writes file d ⟨if p.defaultForbidden.isEmpty then r.1 else none, some ⟨file, d.range⟩,
      r.2 ++ p.defaultForbidden⟩ := by
  refine ⟨rfl, by rw [← value]; simp only [List.isEmpty_iff], fun nothing => ?_,
    List.subset_append_right _ _⟩
  cases forbidden : p.defaultForbidden with
  | nil =>
    rw [forbidden] at nothing
    exact (told nothing).imp_right fun ⟨f, hf, error⟩ => ⟨f, List.mem_append_left _ hf, error⟩
  | cons f fs =>
    have hf : f ∈ p.defaultForbidden := by rw [forbidden]; exact List.mem_cons_self
    exact .inr ⟨f, List.mem_append_right _ List.mem_cons_self, severity_of_mem_defaultForbidden hf⟩

/-- A declaration writes a default value, or none is read of it. -/
theorem writtenDefault_cases (kind : n.kind = .param) (h : p.writtenDefault ⟨file, n⟩ = .ok w) :
    (n.defaultValue? = none ∧ w = {}) ∨ ∃ d, n.defaultValue? = some d ∧ p.Writes file d w := by
  have moved : n.defaultValue? = n.reroot.defaultValue?.map (Node.moved n.start) :=
    n.childOf?_reroot .defaultValue
  have rooted : (⟨file, n⟩ : TreeRef).tree.kind = .param := kind
  unfold writtenDefault at h
  dsimp only at h
  rw [if_pos rooted] at h
  cases found : n.reroot.defaultValue? with
  | none =>
    rw [show (⟨file, n⟩ : TreeRef).tree.defaultValue? = none from found] at h
    cases h
    exact .inl ⟨by rw [moved, found]; rfl, rfl⟩
  | some d =>
    rw [show (⟨file, n⟩ : TreeRef).tree.defaultValue? = some d from found] at h
    refine .inr ⟨d.moved n.start, by rw [moved, found]; rfl, ?_⟩
    have place : (⟨file, n⟩ : TreeRef).place d.range = ⟨file, (d.moved n.start).range⟩ :=
      TreeRef.place_moved ⟨file, n⟩ d
    have literal : (d.moved n.start).literal? = d.literal?.map (Node.moved n.start) :=
      d.childOf?_moved .literal n.start
    have tokens : (d.moved n.start).literal?.bind Node.literalToken? =
        (d.literal?.bind Node.literalToken?).map (PlacedToken.moved n.start) := by
      rw [literal, Option.bind_map, Option.map_bind]
      exact congrArg _ (funext fun l => l.literalToken?_moved n.start)
    have constant : (d.moved n.start).literal?.bind Node.constant? =
        (d.literal?.bind Node.literalToken?).bind
          fun t => (Constant.ofToken t.token).toOption.bind Except.toOption := by
      rw [literal, Option.bind_map, Option.bind_assoc]
      exact congrArg _ (funext fun l => l.constant?_moved n.start)
    cases token : d.literal?.bind Node.literalToken? with
    | none =>
      simp only [token, Bind.bind, Except.bind, pure, Except.pure, place] at h
      cases h
      rw [token] at tokens constant
      exact writes_of_literal (r := (none, [])) (by rw [constant]; rfl) fun _ => .inl tokens
    | some t =>
      simp only [token, Bind.bind, Except.bind, pure, Except.pure, place] at h
      cases read : literalDefault p.type t.token with
      | error f => simp [read] at h
      | ok r =>
        rw [read] at h
        cases h
        obtain ⟨value, told⟩ := literalDefault_cases read
        rw [token] at constant
        exact writes_of_literal (by rw [value, constant]; rfl) fun none => .inr (told none)

/-! ### What is made of it -/

/-- An attribute gives the default value only if none is written, and as the type takes it. -/
theorem attributedDefault_value (written : Bool) (given : Option (Constant × Location)) :
    (p.attributedDefault written given).1 =
      if written then none else (given.map Prod.fst).bind (·.convertTo p.type) := by
  unfold attributedDefault
  cases given with
  | none => cases written <;> rfl
  | some g =>
    cases written with
    | true => rfl
    | false => cases converted : g.1.convertTo p.type <;> simp [converted]

/-- A default value that an attribute gives in vain is reported where the attribute is. -/
theorem attributedDefault_told {written : Bool} {c : Constant} {l : Location}
    (lost : written = true ∨ (p.attributedDefault written (some (c, l))).1 = none) :
    ∃ f, (f, l) ∈ (p.attributedDefault written (some (c, l))).2 ∧ f.severity = .error := by
  cases written with
  | true => exact ⟨_, List.mem_singleton_self _, rfl⟩
  | false =>
    rw [attributedDefault_value] at lost
    have unfit : c.convertTo p.type = none := lost.resolve_left nofun
    refine ⟨.unconvertible c p.type, ?_, rfl⟩
    simp [attributedDefault, unfit]

end Parameter

end DeclFront
