import DeclFront.Proofs.Symbol.Decoding
import DeclFront.Proofs.Syntax.Moved

/-!
# The effect of one attribute

What an attribute does to those bound before it depends on nothing but the meanings that were used so
far and what they said. So two bindings that differ in entries without a meaning, or in what was
reported, go on alike.
-/

set_option autoImplicit false

namespace DeclFront

/-- The entries that kept their meaning. -/
def AttributesBag.meanings (b : AttributesBag) : List AttributeEntry :=
  b.entries.filter (·.wellKnown.isSome)

namespace Attributes

/-- What one more attribute comes to: its meaning, what is wrong with it apart from its literals, and
what has been used and said from then on. -/
structure Effect where
  meaning : Option WellKnown := none
  findings : List Finding := []
  seen : List WellKnown
  data : ParamData

/-- The effect of an attribute of the given name and arguments. -/
def effect (target : AttributeTarget) (seen : List WellKnown) (data : ParamData) (name : String)
    (args : Arguments) (place : Location) : Except Fault Effect :=
  match WellKnown.ofName? name with
  | none => .ok { seen, data }
  | some wk =>
    match judge target seen name wk args with
    | .silent => .ok { seen, data }
    | .refused finding => .ok { findings := [finding], seen, data }
    | .usable => (data.add wk args.values place).map fun
      | none => { findings := [.invalidArgument name], seen := wk :: seen, data }
      | some data => { meaning := some wk, seen := wk :: seen, data }

/-- The binding after an attribute of the given name, arguments and place had its effect. -/
def Binding.apply (b : Binding) (name : String) (args : Arguments) (place : Location) (e : Effect) :
    Binding :=
  Binding.record { b with seen := e.seen, bag.data := e.data } ⟨name, args.values, place, e.meaning⟩
    (args.problems.map .badLiteral ++ e.findings)

variable {target : AttributeTarget} {place : Range → Location} {b c b' : Binding} {attr : Node}
  {location : Location}

/-- An attribute without a name changes nothing. -/
theorem Binding.add_unnamed (name : attr.nameToken? = none) : b.add target place attr = .ok b := by
  unfold add
  rw [name]

/-- An attribute with a name is bound by applying its effect. -/
theorem Binding.add_named {t : PlacedToken} (name : attr.nameToken? = some t) {args : Arguments}
    (arguments : Arguments.ofNode attr = .ok args) :
    b.add target place attr =
      (effect target b.seen b.bag.data t.token.text args (place attr.range)).map
        (b.apply t.token.text args (place attr.range)) := by
  unfold add effect
  rw [name]
  simp only [arguments, Bind.bind, Except.bind, pure, Except.pure]
  cases WellKnown.ofName? t.token.text with
  | none => simp [Binding.apply, Except.map]
  | some wk =>
    cases verdict : judge target b.seen t.token.text wk args with
    | silent => simp [verdict, Binding.apply, Except.map]
    | refused finding => simp [verdict, Binding.apply, Except.map]
    | usable =>
      simp only [verdict]
      cases b.bag.data.add wk args.values (place attr.range) with
      | error f => rfl
      | ok r => cases r <;> simp [Binding.apply, Except.map]

/-- What a binding with one more attribute comes from. -/
theorem Binding.add_cases (added : b.add target place attr = .ok c) :
    (attr.nameToken? = none ∧ c = b) ∨
    ∃ t args e, attr.nameToken? = some t ∧ Arguments.ofNode attr = .ok args ∧
      effect target b.seen b.bag.data t.token.text args (place attr.range) = .ok e ∧
      c = b.apply t.token.text args (place attr.range) e := by
  cases name : attr.nameToken? with
  | none =>
    rw [add_unnamed name] at added
    exact .inl ⟨rfl, (Except.ok.inj added).symm⟩
  | some t =>
    cases arguments : Arguments.ofNode attr with
    | error f => simp [add, name, arguments, Bind.bind, Except.bind] at added
    | ok args =>
      rw [add_named name arguments] at added
      cases effects : effect target b.seen b.bag.data t.token.text args (place attr.range) with
      | error f => simp [effects, Except.map] at added
      | ok e =>
        rw [effects] at added
        exact .inr ⟨t, args, e, rfl, rfl, effects, (Except.ok.inj added).symm⟩

/-! ### What comes of an attribute -/

section Judged

variable {seen : List WellKnown} {name : String} {wk : WellKnown} {args : Arguments}

/-- In front of a parameter an attribute is refused with an error, for the number of its arguments or
for one of its kind before it. -/
theorem judge_refused {f : Finding} (h : judge .parameter seen name wk args = .refused f) :
    f.severity = .error ∧ args.malformed = false ∧
      (args.values.length ≠ wk.arity ∨ wk ∈ seen) := by
  cases judge_judged h with
  | refused wellFormed reason =>
    cases reason with
    | count differs => exact ⟨rfl, wellFormed, .inl differs⟩
    | misplaced _ placed => exact absurd rfl placed
    | repeated _ _ _ known => exact ⟨rfl, wellFormed, .inr known⟩

/-- An attribute that can be used has arguments without fault, as many as it takes, and is not there
for the second time where once is all there may be. -/
theorem judge_usable (h : judge target seen name wk args = .usable) :
    args.malformed = false ∧ args.values.length = wk.arity ∧
      (wk.allowsMultiple = false → wk ∉ seen) := by
  cases judge_judged h with
  | usable wellFormed count _ fresh => exact ⟨wellFormed, count, fresh⟩

/-- All that an attribute of the given name and arguments can come to. -/
inductive Outcome (target : AttributeTarget) (seen : List WellKnown) (data : ParamData)
    (name : String) (args : Arguments) (place : Location) : Effect → Prop where
  | unknown : WellKnown.ofName? name = none →
    Outcome target seen data name args place { seen, data }
  | silent {wk : WellKnown} : WellKnown.ofName? name = some wk →
    judge target seen name wk args = .silent →
    Outcome target seen data name args place { seen, data }
  | refused {wk : WellKnown} {f : Finding} : WellKnown.ofName? name = some wk →
    judge target seen name wk args = .refused f →
    Outcome target seen data name args place { findings := [f], seen, data }
  | invalid {wk : WellKnown} : WellKnown.ofName? name = some wk →
    judge target seen name wk args = .usable → data.add wk args.values place = .ok none →
    Outcome target seen data name args place
      { findings := [.invalidArgument name], seen := wk :: seen, data }
  | used {wk : WellKnown} {d : ParamData} : WellKnown.ofName? name = some wk →
    judge target seen name wk args = .usable → data.add wk args.values place = .ok (some d) →
    Outcome target seen data name args place { meaning := some wk, seen := wk :: seen, data := d }

/-- Every attribute comes to one of the outcomes that there are. -/
theorem effect_outcome {data : ParamData} {e : Effect}
    (h : effect target seen data name args location = .ok e) :
    Outcome target seen data name args location e := by
  unfold effect at h
  cases known : WellKnown.ofName? name with
  | none =>
    rw [known] at h
    cases h
    exact .unknown known
  | some wk =>
    simp only [known] at h
    cases verdict : judge target seen name wk args with
    | silent =>
      simp only [verdict] at h
      cases h
      exact .silent known verdict
    | refused f =>
      simp only [verdict] at h
      cases h
      exact .refused known verdict
    | usable =>
      simp only [verdict] at h
      cases added : data.add wk args.values location with
      | error f => simp [added, Except.map] at h
      | ok r =>
        rw [added] at h
        cases r with
        | none =>
          cases h
          exact .invalid known verdict added
        | some d =>
          cases h
          exact .used known verdict added

/-- An attribute has no effect but what is reported about it, or it is used. -/
theorem effect_cases {data : ParamData} {e : Effect}
    (h : effect target seen data name args location = .ok e) :
    (e.seen = seen ∧ e.data = data ∧ ∀ wk, WellKnown.ofName? name = some wk →
      args.malformed = true ∨ ∃ f ∈ e.findings, judge target seen name wk args = .refused f) ∨
    ∃ wk, WellKnown.ofName? name = some wk ∧ judge target seen name wk args = .usable ∧
      e.seen = wk :: seen ∧
      (data.add wk args.values location = .ok none ∧ e.data = data ∨
        data.add wk args.values location = .ok (some e.data)) := by
  cases effect_outcome h with
  | unknown none => exact .inl ⟨rfl, rfl, fun wk known => by rw [none] at known; cases known⟩
  | @silent wk known verdict =>
    refine .inl ⟨rfl, rfl, fun _ same => .inl ?_⟩
    cases judge_judged verdict with
    | silent malformed => exact malformed
  | refused known verdict =>
    refine .inl ⟨rfl, rfl, fun _ same => .inr ⟨_, List.mem_singleton_self _, ?_⟩⟩
    cases known.symm.trans same
    exact verdict
  | invalid known usable added => exact .inr ⟨_, known, usable, rfl, .inl ⟨added, rfl⟩⟩
  | used known usable added => exact .inr ⟨_, known, usable, rfl, .inr added⟩

end Judged

/-! ### What an attribute says -/

/-- What a parameter says with the mark of an attribute that takes no arguments. -/
def mark (d : ParamData) : WellKnown → ParamData
  | .optional => { d with optional := true }
  | .callerFilePath => { d with caller.filePath := true }
  | .callerLineNumber => { d with caller.lineNumber := true }
  | .callerMemberName => { d with caller.memberName := true }
  | .allowNull => { d with flow.allowNull := true }
  | .disallowNull => { d with flow.disallowNull := true }
  | .maybeNull => { d with flow.maybeNull := true }
  | .notNull => { d with flow.notNull := true }
  | .iDispatchConstant => { d with iDispatchConstant := true }
  | .iUnknownConstant => { d with iUnknownConstant := true }
  | .defaultParameterValue | .marshalAs | .notNullIfNotNull => d

/-- All that an attribute can add to what a parameter says. -/
inductive Added (d : ParamData) (place : Location) :
    WellKnown → List Constant → ParamData → Prop where
  | default {v : Constant} {rest : List Constant} :
    Added d place .defaultParameterValue (v :: rest) { d with defaultValue := some (v, place) }
  | marshalling {v : Constant} {rest : List Constant} {kind : MarshalKind} :
    MarshalKind.ofConstant? v = some kind →
    Added d place .marshalAs (v :: rest) { d with marshalling := some kind }
  | notNullIf {s : String} {rest : List Constant} :
    Added d place .notNullIfNotNull (.string s :: rest) { d with notNullIf := d.notNullIf ++ [s] }
  | mark {wk : WellKnown} {args : List Constant} : wk.arity = 0 → Added d place wk args (mark d wk)

/-- What an attribute of a meaning adds is what such an attribute can add. -/
theorem added_of_add {d d' : ParamData} {wk : WellKnown} {args : List Constant}
    (h : d.add wk args location = .ok (some d')) : Added d location wk args d' := by
  unfold ParamData.add at h
  cases wk with
  | defaultParameterValue =>
    cases args with
    | nil => cases h
    | cons v rest =>
      cases h
      exact .default
  | marshalAs =>
    cases args with
    | nil => cases h
    | cons v rest =>
      obtain ⟨kind, decoded, rfl⟩ := Option.map_eq_some_iff.mp (Except.ok.inj h)
      exact .marshalling decoded
  | notNullIfNotNull =>
    cases args with
    | nil => cases h
    | cons v rest =>
      cases v with
      | string s =>
        cases h
        exact .notNullIf
      | _ => cases h
  | _ =>
    cases h
    exact .mark rfl

/-- The one attribute that gives a default value gives its first argument, at its own place. -/
theorem defaultValue_of_add {d d' : ParamData} {wk : WellKnown} {args : List Constant}
    (h : d.add wk args location = .ok (some d')) :
    if wk = .defaultParameterValue then
      ∃ v rest, args = v :: rest ∧ d'.defaultValue = some (v, location)
    else d'.defaultValue = d.defaultValue := by
  cases added_of_add h with
  | @default v rest => exact ⟨v, rest, rfl, rfl⟩
  | marshalling _ => rfl
  | notNullIf => rfl
  | mark _ => cases wk <;> first | rfl | contradiction

/-- An attribute can only give a default value at its own place. -/
theorem default_of_effect {seen : List WellKnown} {data : ParamData} {name : String}
    {args : Arguments} {e : Effect} (h : effect target seen data name args location = .ok e) :
    e.data.defaultValue = data.defaultValue ∨ ∃ v, e.data.defaultValue = some (v, location) := by
  rcases effect_cases h with ⟨-, same, -⟩ | ⟨wk, -, -, -, ⟨-, same⟩ | added⟩
  · exact .inl (congrArg _ same)
  · exact .inl (congrArg _ same)
  · have given := defaultValue_of_add added
    split at given
    · obtain ⟨v, -, -, given⟩ := given
      exact .inr ⟨v, given⟩
    · exact .inl given

/-! ### Bindings that go on alike -/

/-- The same was used and said, and the same entries kept their meaning. -/
structure Binding.Alike (b c : Binding) : Prop where
  seen : b.seen = c.seen
  data : b.bag.data = c.bag.data
  meanings : b.bag.meanings = c.bag.meanings

/-- The same effect leaves bindings alike that were alike. -/
theorem Binding.Alike.apply (h : b.Alike c) (name : String) (args : Arguments) (place : Location)
    (e : Effect) : (b.apply name args place e).Alike (c.apply name args place e) := by
  refine ⟨rfl, rfl, ?_⟩
  show List.filter _ (b.bag.entries ++ _) = List.filter _ (c.bag.entries ++ _)
  rw [List.filter_append, List.filter_append]
  exact congrArg (· ++ _) h.meanings

/-- The same attribute leaves bindings alike that were alike. -/
theorem Binding.Alike.add (h : b.Alike c) (added : b.add target place attr = .ok b') :
    ∃ c', c.add target place attr = .ok c' ∧ b'.Alike c' := by
  rcases Binding.add_cases added with ⟨name, rfl⟩ | ⟨t, args, e, name, arguments, effects, rfl⟩
  · exact ⟨c, Binding.add_unnamed name, h⟩
  · rw [h.seen, h.data] at effects
    refine ⟨_, ?_, h.apply t.token.text args (place attr.range) e⟩
    rw [Binding.add_named name arguments, effects]
    rfl

/-- The same attributes leave bindings alike that were alike, by induction on them. -/
theorem Binding.Alike.foldlM {attrs : List Node} (h : b.Alike c)
    (folded : attrs.foldlM (Binding.add target place) b = .ok b') :
    ∃ c', attrs.foldlM (Binding.add target place) c = .ok c' ∧ b'.Alike c' := by
  refine foldlM_invariant
    (motive := fun b' done => ∃ c', done.foldlM (Binding.add target place) c = .ok c' ∧ b'.Alike c')
    ?_ ⟨c, rfl, h⟩ folded
  rintro attr - b b' done ⟨c', run, alike⟩ added
  obtain ⟨next, added', alike'⟩ := alike.add added
  refine ⟨next, ?_, alike'⟩
  rw [List.foldlM_append, run]
  show [attr].foldlM (Binding.add target place) c' = _
  rw [List.foldlM_cons, added']
  rfl

/-- Attributes that were bound come from a binding that has all that each of them keeps. -/
theorem bind_invariant {attrs : List Node} {owner : String} {bound : Completed AttributesBag}
    {motive : Binding → List Node → Prop}
    (step : ∀ attr ∈ attrs, ∀ b c done, motive b done → b.add target place attr = .ok c →
      motive c (done ++ [attr]))
    (start : motive {} []) (h : bind attrs target place owner = .ok bound) :
    ∃ b, motive b attrs ∧
      bound = ⟨b.bag, b.findings.map fun f => f.1.report (.symbol owner) (some f.2)⟩ := by
  unfold bind at h
  cases folded : attrs.foldlM (Binding.add target place) {} with
  | error f => simp [folded, Except.map] at h
  | ok b =>
    rw [folded] at h
    exact ⟨b, foldlM_invariant step start folded, (Except.ok.inj h).symm⟩

/-! ### Attributes whose argument list is broken -/

/-- What one more literal does to arguments: it has no token, stands for a constant, or for none. -/
theorem Arguments.add_cases {a a' : Arguments} {literal : Node} (added : a.add literal = .ok a') :
    (literal.literalToken? = none ∧ a' = { a with malformed := true }) ∨
    ∃ t, literal.literalToken? = some t ∧
      ((∃ v, Constant.ofToken t.token = .ok (.ok v) ∧ a' = { a with values := a.values ++ [v] }) ∨
      ∃ p, Constant.ofToken t.token = .ok (.error p) ∧
        a' = { a with problems := a.problems ++ [p], malformed := true }) := by
  unfold Arguments.add at added
  cases token : literal.literalToken? with
  | none =>
    rw [token] at added
    exact .inl ⟨rfl, (Except.ok.inj added).symm⟩
  | some t =>
    simp only [token] at added
    cases decoded : Constant.ofToken t.token with
    | error f => simp [decoded, Except.map] at added
    | ok r =>
      rw [decoded] at added
      cases r with
      | ok v => exact .inr ⟨t, rfl, .inl ⟨v, decoded, (Except.ok.inj added).symm⟩⟩
      | error p => exact .inr ⟨t, rfl, .inr ⟨p, decoded, (Except.ok.inj added).symm⟩⟩

/-- Arguments that are broken stay so when one more is read. -/
theorem Arguments.malformed_of_add {a a' : Arguments} {literal : Node}
    (added : a.add literal = .ok a') (malformed : a.malformed = true) : a'.malformed = true := by
  rcases Arguments.add_cases added with ⟨-, rfl⟩ | ⟨t, -, ⟨v, -, rfl⟩ | ⟨p, -, rfl⟩⟩
  · rfl
  · exact malformed
  · rfl

/-- Arguments are broken if the list is marked as such. -/
theorem Arguments.malformed_of_marked {args : Arguments} (h : Arguments.ofNode attr = .ok args)
    (marked : attr.hasMalformedArguments = true) : args.malformed = true :=
  foldlM_invariant (motive := fun a _ => a.malformed = true)
    (fun _ _ _ _ _ malformed added => Arguments.malformed_of_add added malformed) marked h

/-- Malformed arguments have no effect at all. -/
theorem effect_malformed {seen : List WellKnown} {data : ParamData} {name : String}
    {args : Arguments} (malformed : args.malformed = true) (place : Location) :
    effect target seen data name args place = .ok { seen, data } := by
  unfold effect
  cases WellKnown.ofName? name with
  | none => rfl
  | some wk =>
    have silent : judge target seen name wk args = .silent := if_pos malformed
    simp only [silent]

/-- An attribute whose argument list is marked as broken has an entry without a meaning, if it has
one, and changes nothing else but what is reported. -/
theorem Binding.alike_of_marked (marked : attr.hasMalformedArguments = true)
    (added : b.add target place attr = .ok c) : c.Alike b := by
  rcases Binding.add_cases added with ⟨-, rfl⟩ | ⟨t, args, e, -, arguments, effects, rfl⟩
  · exact ⟨rfl, rfl, rfl⟩
  · rw [effect_malformed (Arguments.malformed_of_marked arguments marked)] at effects
    cases effects
    refine ⟨rfl, rfl, ?_⟩
    show List.filter _ (b.bag.entries ++ _) = List.filter _ b.bag.entries
    rw [List.filter_append]
    exact List.append_nil _

/-- To bind attributes among which one has a broken argument list is to bind the others. -/
theorem bind_without_marked {before after : List Node} (marked : attr.hasMalformedArguments = true)
    (decodes : ∀ a ∈ before ++ attr :: after, a.Decodes) (owner : String) :
    ∃ whole others, bind (before ++ attr :: after) target place owner = .ok whole ∧
      bind (before ++ after) target place owner = .ok others ∧
      whole.value.data = others.value.data ∧ whole.value.meanings = others.value.meanings := by
  have run (attrs : List Node) (inside : attrs ⊆ before ++ attr :: after) (b : Binding) :
      ∃ c, attrs.foldlM (Binding.add target place) b = .ok c :=
    foldlM_ok (fun a ha => binding_add_ok (decodes a (inside ha)) place) b
  obtain ⟨first, hf⟩ := run before (List.subset_append_left _ _) {}
  obtain ⟨next, hn⟩ : ∃ c, first.add target place attr = .ok c :=
    binding_add_ok (decodes attr (List.mem_append_right _ List.mem_cons_self)) place first
  obtain ⟨last, hl⟩ := run after
    (List.subset_append_of_subset_right _ (List.subset_cons_self attr after)) next
  obtain ⟨last', hl', alike⟩ := (Binding.alike_of_marked marked hn).foldlM hl
  have whole : (before ++ attr :: after).foldlM (Binding.add target place) {} = .ok last := by
    rw [List.foldlM_append, hf]
    show (attr :: after).foldlM (Binding.add target place) first = _
    rw [List.foldlM_cons, hn]
    exact hl
  have others : (before ++ after).foldlM (Binding.add target place) {} = .ok last' := by
    rw [List.foldlM_append, hf]
    exact hl'
  refine ⟨_, _, by rw [bind, whole]; rfl, by rw [bind, others]; rfl, alike.data, alike.meanings⟩

/-! ### Attributes where they stand in the file -/

/-- The arguments of an attribute are the same wherever it stands. -/
theorem Arguments.ofNode_moved (attr : Node) (distance : Nat) :
    Arguments.ofNode (attr.moved distance) = Arguments.ofNode attr := by
  unfold Arguments.ofNode
  rw [Node.arguments_moved, Node.hasMalformedArguments_moved, List.foldlM_map]
  refine congrArg (List.foldlM · _ _) (funext fun a => funext fun literal => ?_)
  unfold Arguments.add
  rw [Node.literalToken?_moved]
  cases literal.literalToken? <;> rfl

end Attributes

namespace TreeRef

/-- The place of a child of a kept declaration is where it stands in the file. -/
theorem place_moved (r : TreeRef) (a : Node) :
    r.place a.range = ⟨r.file, (a.moved r.node.start).range⟩ := by
  rw [Node.moved_range]
  rfl

/-- The attributes of a declaration are bound as they stand in the file. -/
theorem bind_eq (r : TreeRef) (target : AttributeTarget) (owner : String) :
    Attributes.bind r.tree.attributes target r.place owner =
      Attributes.bind r.node.attributes target (Location.mk r.file) owner := by
  have attrs : r.node.attributes = r.tree.attributes.map (Node.moved r.node.start) :=
    r.node.childrenOf_reroot .attributeItem
  unfold Attributes.bind
  rw [attrs, List.foldlM_map]
  refine congrArg (Except.map _ <| List.foldlM · _ _) (funext fun b => funext fun attr => ?_)
  unfold Attributes.Binding.add
  rw [Node.nameToken?_moved, Attributes.Arguments.ofNode_moved, place_moved]
  cases attr.nameToken? <;> rfl

end TreeRef

end DeclFront
