import DeclFront.Syntax.Parser

/-!
# What every rule of the grammar has in common

Rules are built from few steps: the gap is placed, a lexeme is taken, something is complained about,
a node is made, one reading follows another, and what comes next depends on nothing but the kinds
of the lexemes that are left. A property that all of these steps keep holds of every rule of the
grammar, so that it need not be looked for rule by rule.
-/

set_option autoImplicit false

namespace DeclFront

/-- The kinds of the lexemes that are left. -/
def Input.kinds (i : Input) : List TokenKind :=
  i.lexemes.map (·.token.kind)

/-- The next kind is the first of those that are left. -/
theorem Input.next?_eq_head? (i : Input) : i.next? = i.kinds.head? := by
  rw [next?, kinds, List.head?_map]

/-- There are as many kinds left as lexemes. -/
theorem Input.length_kinds (i : Input) : i.kinds.length = i.lexemes.length :=
  List.length_map _

namespace Reading

/-- A reading that reads nothing more changes nothing. -/
theorem append_empty (a : Reading) : a ++ ⟨[], [], a.rest⟩ = a := by
  show Reading.mk _ _ _ = a
  simp only [List.append_nil]

/-- It does not matter how readings one after another are put together. -/
theorem append_assoc (a b c : Reading) : a ++ b ++ c = a ++ (b ++ c) := by
  show Reading.mk _ _ _ = Reading.mk _ _ _
  simp only [append_elements, append_remarks, append_rest, List.append_assoc]

end Reading

namespace Grammar

open Rule

/-- The rules that make a node. -/
inductive Makes : Rule → Prop where
  | error : Makes (node .error bump)
  | literal : Makes (node .literal bump)
  | typeRef : Makes typeRef
  | attributeArgs : Makes attributeArgs
  | attributeItem : Makes attributeItem
  | defaultValue : Makes (node .defaultValue (inOrder [bump, Grammar.literal]))
  | param : Makes param
  | paramList : Makes paramList
  | genericList : Makes genericList
  | methodDecl : Makes methodDecl
  | typeDecl : Makes typeDecl

/-- Each of them makes a single node, which is no root. -/
theorem Makes.single {q : Rule} (h : Makes q) (i : Input) :
    ∃ kind children, kind ≠ .root ∧ (q i).elements = [.node kind children] := by
  cases h <;> exact ⟨_, _, by decide, rfl⟩

/-- No rule of the grammar makes a root; only a whole file becomes one. -/
theorem Makes.ne_root {kind : NodeKind} {p : Rule} (h : Makes (node kind p)) : kind ≠ .root := by
  obtain ⟨_, _, other, made⟩ := h.single ⟨[], [], 0⟩
  cases made
  exact other

end Grammar

namespace Rule

/-- A rule that reads nothing. -/
def nothing : Rule := fun i => ⟨[], [], i⟩

/-- One rule after another. -/
def andThen (p q : Rule) : Rule := fun i => p i ++ q (p i).rest

/-- A turn behind another reading. -/
def Turn.behind (a : Reading) : Turn → Turn
  | .again b => .again (a ++ b)
  | .last b => .last (a ++ b)

/-- A loop ends with a turn that is the last. -/
theorem loop_last {turn : Input → Turn} {advances : Advances turn} {i : Input} {a : Reading}
    (h : turn i = .last a) : loop turn advances i = a := by
  unfold loop
  split
  · rename_i b hb
    exact Turn.last.inj (hb.symm.trans h)
  · rename_i b hb
    rw [hb] at h
    simp at h

/-- A loop goes on behind a turn that is not the last. -/
theorem loop_again {turn : Input → Turn} {advances : Advances turn} {i : Input} {a : Reading}
    (h : turn i = .again a) : loop turn advances i = a ++ loop turn advances a.rest := by
  rw [loop]
  split
  · rename_i b hb
    rw [hb] at h
    simp at h
  · rename_i b hb
    rw [Turn.again.inj (hb.symm.trans h)]

/-- What holds of a last turn, and of one that goes on if it holds of what is read behind it, holds of a
loop. -/
theorem loop_induction {turn : Input → Turn} {advances : Advances turn}
    {motive : Input → Reading → Prop} (last : ∀ i a, turn i = .last a → motive i a)
    (again : ∀ i a b, turn i = .again a → motive a.rest b → motive i (a ++ b)) (i : Input) :
    motive i (loop turn advances i) := by
  induction hn : i.lexemes.length using Nat.strongRecOn generalizing i with
  | ind n ih =>
    cases turned : turn i with
    | last a =>
      rw [loop_last turned]
      exact last i a turned
    | again a =>
      have shorter := advances i a turned
      rw [loop_again turned]
      exact again i a _ turned (ih _ (by omega) a.rest rfl)

/-- A turn behind another reading has read both. -/
theorem Turn.behind_reading (a : Reading) (t : Turn) : (t.behind a).reading = a ++ t.reading := by
  cases t <;> rfl

/-- Properties of rules and of turns that every step keeps. Nodes are made by the rules of the
grammar that make one. -/
structure Kept (P : Rule → Prop) (Q : (Input → Turn) → Prop) : Prop where
  nothing : P nothing
  settle : P settle
  bump : P bump
  complain : ∀ c, P (complain c)
  node : ∀ kind p, Grammar.Makes (node kind p) → P p → P (node kind p)
  andThen : ∀ p q, P p → P q → P (p.andThen q)
  looking : ∀ p : Rule, (∀ ks, ∃ q, P q ∧ ∀ i : Input, i.kinds = ks → p i = q i) → P p
  again : ∀ p, P p → Q fun i => .again (p i)
  last : ∀ p, P p → Q fun i => .last (p i)
  behind : ∀ p t, P p → Q t → Q fun i => (t (p i).rest).behind (p i)
  lookingTurn : ∀ t : Input → Turn,
    (∀ ks, ∃ u, Q u ∧ ∀ i : Input, i.kinds = ks → t i = u i) → Q t
  loop : ∀ t (advances : Advances t), Q t → P (loop t advances)

namespace Kept

variable {P : Rule → Prop} {Q : (Input → Turn) → Prop}

/-- A rule may depend on the next kind alone. -/
theorem byNext (h : Kept P Q) (p : Rule)
    (each : ∀ k, ∃ q, P q ∧ ∀ i : Input, i.next? = k → p i = q i) : P p := by
  refine h.looking p fun ks => ?_
  obtain ⟨q, hq, same⟩ := each ks.head?
  refine ⟨q, hq, fun i hi => same i ?_⟩
  rw [i.next?_eq_head?, hi]

/-- A turn that looks at the next kind first keeps what it keeps for each kind. -/
theorem turnByNext (h : Kept P Q) (t : Input → Turn)
    (each : ∀ k, ∃ u, Q u ∧ ∀ i : Input, i.next? = k → t i = u i) : Q t := by
  refine h.lookingTurn t fun ks => ?_
  obtain ⟨u, hu, same⟩ := each ks.head?
  refine ⟨u, hu, fun i hi => same i ?_⟩
  rw [i.next?_eq_head?, hi]

/-- Rules one after another keep what each of them keeps. -/
theorem inOrder (h : Kept P Q) {ps : List Rule} (all : ∀ p ∈ ps, P p) : P (inOrder ps) := by
  induction ps with
  | nil => exact h.nothing
  | cons p ps ih =>
    have first := all p List.mem_cons_self
    have others := ih fun q hq => all q (List.mem_cons_of_mem p hq)
    exact h.andThen p _ first others

/-- To expect a token keeps what taking it and complaining about it keep. -/
theorem expect (h : Kept P Q) (kind : TokenKind) : P (expect kind) := by
  apply h.byNext
  intro k
  by_cases hk : k = some kind
  · exact ⟨Rule.bump, h.bump, fun i hi => if_pos (hi.trans hk)⟩
  · exact ⟨Rule.complain (.expected kind), h.complain _, fun i hi => if_neg fun hn => hk (hi ▸ hn)⟩

/-- To reject a token keeps what complaints, tokens and the nodes around them keep. -/
theorem reject (h : Kept P Q) (c : Complaint) : P (reject c) :=
  h.andThen _ _ (h.complain c) (h.node .error _ .error h.bump)

/-- What may be left out keeps what the rule keeps. -/
theorem optional (h : Kept P Q) (kind : TokenKind) {p : Rule} (hp : P p) : P (optional kind p) := by
  apply h.byNext
  intro k
  by_cases hk : k = some kind
  · exact ⟨_, h.andThen _ _ h.settle hp, fun i hi => if_pos (hi.trans hk)⟩
  · exact ⟨_, h.settle, fun i hi => if_neg fun hn => hk (hi ▸ hn)⟩

end Kept

/-- Relations between an input and what is read from it that every step establishes and that hold
of two readings together when they hold of each. -/
structure Chains (R : Input → Reading → Prop) : Prop where
  nothing : ∀ i, R i (nothing i)
  settle : ∀ i, R i (settle i)
  bump : ∀ i, R i (bump i)
  complain : ∀ c i, R i (complain c i)
  node : ∀ kind (p : Rule) i, Grammar.Makes (node kind p) → R i (p i) → R i (node kind p i)
  append : ∀ i a b, R i a → R a.rest b → R i (a ++ b)

/-- A relation that chains is kept by all rules, and by the readings of all turns. -/
theorem Chains.kept {R : Input → Reading → Prop} (h : Chains R) :
    Kept (fun p => ∀ i, R i (p i)) (fun t => ∀ i, R i (t i).reading) where
  nothing := h.nothing
  settle := h.settle
  bump := h.bump
  complain := h.complain
  node kind p made hp i := h.node kind p i made (hp i)
  andThen p q hp hq i := h.append i _ _ (hp i) (hq _)
  looking p each i := by
    obtain ⟨q, hq, same⟩ := each i.kinds
    rw [same i rfl]
    exact hq i
  again p hp := hp
  last p hp := hp
  behind p t hp ht i := by
    show R i (Turn.behind (p i) (t (p i).rest)).reading
    rw [Turn.behind_reading]
    exact h.append i _ _ (hp i) (ht _)
  lookingTurn t each i := by
    obtain ⟨u, hu, same⟩ := each i.kinds
    rw [same i rfl]
    exact hu i
  loop t advances ht := by
    apply loop_induction
    · intro i a turned
      have step := ht i
      rw [turned] at step
      exact step
    · intro i a b turned others
      have step := ht i
      rw [turned] at step
      exact h.append i _ _ step others

end Rule

namespace Grammar

open Rule

variable {P : Rule → Prop} {Q : (Input → Turn) → Prop}

/-- A literal keeps what every step keeps. -/
theorem literal_kept (h : Kept P Q) : P literal := by
  apply h.byNext
  intro k
  cases k with
  | none => exact ⟨_, h.complain .expectedLiteral, fun i hi => by simp only [literal, hi]⟩
  | some kind =>
    by_cases unknown : kind = .unknown
    · exact ⟨_, h.reject .expectedLiteral, fun i hi => by simp only [literal, hi, unknown]⟩
    · by_cases isLiteral : kind.isLiteral = true
      · refine ⟨_, h.andThen _ _ h.settle (h.node .literal _ .literal h.bump), fun i hi => ?_⟩
        unfold literal
        rw [hi]
        simp [isLiteral]
        rfl
      · refine ⟨_, h.complain .expectedLiteral, fun i hi => ?_⟩
        unfold literal
        rw [hi]
        simp [isLiteral]

/-- A type with its suffixes keeps what every step keeps. -/
theorem typeRef_kept (h : Kept P Q) : P typeRef := by
  apply h.node _ _ .typeRef
  apply h.inOrder
  intro p hp
  simp only [List.mem_cons, List.not_mem_nil, or_false] at hp
  rcases hp with rfl | rfl | rfl
  · exact h.bump
  · apply h.optional
    apply h.inOrder
    intro q hq
    simp only [List.mem_cons, List.not_mem_nil, or_false] at hq
    rcases hq with rfl | rfl
    · exact h.bump
    · exact h.expect _
  · exact h.optional _ h.bump

/-- A turn of an argument list keeps what every step keeps. -/
theorem argumentTurn_kept (h : Kept P Q) : Q argumentTurn := by
  have stops := h.last _ h.settle
  have goes : Q fun i => (if (literal i).rest.next? = some .comma then
      .again (literal i ++ bump (literal i).rest)
      else .last (literal i ++ settle (literal i).rest)) := by
    have decides : Q fun j =>
        if j.next? = some .comma then .again (bump j) else .last (settle j) := by
      apply h.turnByNext
      intro k
      by_cases hk : k = some .comma
      · exact ⟨_, h.again _ h.bump, fun j hj => if_pos (hj.trans hk)⟩
      · exact ⟨_, h.last _ h.settle, fun j hj => if_neg fun hn => hk (hj ▸ hn)⟩
    have both := h.behind _ _ (literal_kept h) decides
    refine cast (congrArg Q (funext fun i => ?_)) both
    split <;> rfl
  apply h.turnByNext
  intro k
  rcases k with _ | k
  · exact ⟨_, stops, fun i hi => by simp only [argumentTurn, hi]⟩
  · by_cases closing : k = .rightParen ∨ k = .rightBracket
    · refine ⟨_, stops, fun i hi => ?_⟩
      rcases closing with rfl | rfl <;> simp only [argumentTurn, hi]
    · rw [not_or] at closing
      refine ⟨_, goes, fun i hi => ?_⟩
      unfold argumentTurn
      rw [hi]
      cases k <;> first | rfl | simp at closing

/-- An argument list keeps what every step keeps. -/
theorem attributeArgs_kept (h : Kept P Q) : P attributeArgs := by
  apply h.node _ _ .attributeArgs
  apply h.inOrder
  intro p hp
  simp only [List.mem_cons, List.not_mem_nil, or_false] at hp
  rcases hp with rfl | rfl | rfl
  · exact h.bump
  · exact h.loop _ _ (argumentTurn_kept h)
  · exact h.expect _

/-- An attribute with its arguments keeps what every step keeps. -/
theorem attributeItem_kept (h : Kept P Q) : P attributeItem := by
  apply h.node _ _ .attributeItem
  apply h.inOrder
  intro p hp
  simp only [List.mem_cons, List.not_mem_nil, or_false] at hp
  rcases hp with rfl | rfl | rfl | rfl
  · exact h.bump
  · exact h.expect _
  · exact h.optional _ (attributeArgs_kept h)
  · exact h.expect _

/-- A turn of the loop over attributes keeps what every step keeps. -/
theorem attributeTurn_kept (h : Kept P Q) : Q attributeTurn := by
  apply h.turnByNext
  intro k
  by_cases hk : k = some .leftBracket
  · exact ⟨_, h.again _ (h.andThen _ _ h.settle (attributeItem_kept h)),
      fun i hi => if_pos (hi.trans hk)⟩
  · exact ⟨_, h.last _ h.settle, fun i hi => if_neg fun hn => hk (hi ▸ hn)⟩

/-- The attributes in front of a declaration keep what every step keeps. -/
theorem attributes_kept (h : Kept P Q) : P attributes :=
  h.loop _ _ (attributeTurn_kept h)

/-- A modifier keeps what every step keeps. -/
theorem modifier_kept (h : Kept P Q) : P modifier := by
  have second : P fun j => if j.next?.any TokenKind.isParameterModifier then
      settle j ++ reject .secondModifier (settle j).rest else settle j := by
    apply h.byNext
    intro k
    by_cases hk : k.any TokenKind.isParameterModifier = true
    · exact ⟨_, h.andThen _ _ h.settle (h.reject _), fun j hj => if_pos (by rw [hj, hk])⟩
    · exact ⟨_, h.settle, fun j hj => if_neg (by rw [hj]; exact hk)⟩
  apply h.byNext
  intro k
  by_cases hk : k.any TokenKind.isParameterModifier = true
  · refine ⟨_, h.andThen _ _ (h.andThen _ _ h.settle h.bump) second, fun i hi => ?_⟩
    unfold modifier andThen
    rw [hi, hk]
    simp only [if_true, Reading.append_rest]
    split
    · rw [Reading.append_assoc]
    · rfl
  · refine ⟨_, h.settle, fun i hi => ?_⟩
    unfold modifier
    rw [hi]
    exact if_neg hk

/-- A typed name with its default value keeps what every step keeps. -/
theorem typedName_kept (h : Kept P Q) : P typedName := by
  have named : P (inOrder
      [typeRef, expect .identifier,
        optional .equals (node .defaultValue (inOrder [bump, literal]))]) := by
    apply h.inOrder
    intro p hp
    simp only [List.mem_cons, List.not_mem_nil, or_false] at hp
    rcases hp with rfl | rfl | rfl
    · exact typeRef_kept h
    · exact h.expect _
    · apply h.optional
      apply h.node _ _ .defaultValue
      apply h.inOrder
      intro q hq
      simp only [List.mem_cons, List.not_mem_nil, or_false] at hq
      rcases hq with rfl | rfl
      · exact h.bump
      · exact literal_kept h
  apply h.byNext
  intro k
  by_cases hk : k = some .identifier
  · exact ⟨_, h.andThen _ _ h.settle named, fun i hi => if_pos (hi.trans hk)⟩
  · exact ⟨_, h.andThen _ _ h.settle (h.complain _), fun i hi => if_neg fun hn => hk (hi ▸ hn)⟩

/-- A parameter keeps what every step keeps. -/
theorem param_kept (h : Kept P Q) : P param := by
  apply h.node _ _ .param
  apply h.inOrder
  intro p hp
  simp only [List.mem_cons, List.not_mem_nil, or_false] at hp
  rcases hp with rfl | rfl | rfl
  · exact attributes_kept h
  · exact modifier_kept h
  · exact typedName_kept h

/-- What is decided behind a parameter depends on the kinds before it, because of the progress. -/
theorem paramTurn_kept (h : Kept P Q) : Q paramTurn := by
  have stops := h.last _ h.settle
  have read : P ((settle.andThen param).andThen settle) :=
    h.andThen _ _ (h.andThen _ _ h.settle (param_kept h)) h.settle
  have decides : ∀ n : Nat, Q fun j => (
      if j.next? = some .comma then .again (bump j)
      else if j.lexemes.length = n then .again (reject .expectedParameter j)
      else if j.next? = some .rightParen then .again (nothing j)
      else .last (nothing j)) := by
    intro n
    apply h.lookingTurn
    intro ks
    have look : ∀ j : Input, j.kinds = ks → j.next? = ks.head? ∧ j.lexemes.length = ks.length := by
      intro j hj
      rw [j.next?_eq_head?, ← j.length_kinds, hj]
      exact ⟨rfl, rfl⟩
    by_cases comma : ks.head? = some .comma
    · refine ⟨_, h.again _ h.bump, fun j hj => ?_⟩
      simp only [look j hj, comma, if_true]
    by_cases same : ks.length = n
    · refine ⟨_, h.again _ (h.reject .expectedParameter), fun j hj => ?_⟩
      simp only [look j hj, comma, same, if_true, if_false]
    by_cases closing : ks.head? = some .rightParen
    · refine ⟨_, h.again _ h.nothing, fun j hj => ?_⟩
      have next := (look j hj).1
      have length := (look j hj).2
      rw [if_neg (by rw [next]; exact comma), if_neg (by rw [length]; exact same),
        if_pos (by rw [next]; exact closing)]
    · refine ⟨_, h.last _ h.nothing, fun j hj => ?_⟩
      simp only [look j hj, same, closing, comma, if_false]
  apply h.lookingTurn
  intro ks
  by_cases stop : ks.head? = none ∨ ks.head? = some .rightParen
  · refine ⟨_, stops, fun i hi => ?_⟩
    rw [← hi, ← i.next?_eq_head?] at stop
    rcases stop with stop | stop <;> simp only [paramTurn, stop]
  · refine ⟨_, h.behind _ _ read (decides ks.length), fun i hi => ?_⟩
    rw [not_or] at stop
    obtain ⟨k, hk⟩ := Option.ne_none_iff_exists'.mp stop.1
    have next : i.next? = some k := by rw [i.next?_eq_head?, hi, hk]
    have length : ks.length = i.lexemes.length := by rw [← hi, i.length_kinds]
    have rest : ((settle.andThen param).andThen settle i).rest =
        (param (settle i).rest).rest.settled := rfl
    unfold paramTurn
    rw [next, length]
    split
    · simp at *
    · rename_i paren
      rw [hk, paren] at stop
      simp at stop
    · dsimp only
      rw [rest]
      show _ = Turn.behind _ (if (param (settle i).rest).rest.next? = some .comma then _
        else if (param (settle i).rest).rest.lexemes.length = i.lexemes.length then _
        else if (param (settle i).rest).rest.next? = some .rightParen then _ else _)
      split
      · rfl
      split
      · rfl
      split
      · exact congrArg Turn.again (Reading.append_empty _).symm
      · exact congrArg Turn.last (Reading.append_empty _).symm

/-- A parameter list keeps what every step keeps. -/
theorem paramList_kept (h : Kept P Q) : P paramList := by
  apply h.node _ _ .paramList
  have read : P (inOrder [loop paramTurn paramTurn_advances, expect .rightParen]) := by
    apply h.inOrder
    intro p hp
    simp only [List.mem_cons, List.not_mem_nil, or_false] at hp
    rcases hp with rfl | rfl
    · exact h.loop _ _ (paramTurn_kept h)
    · exact h.expect _
  apply h.byNext
  intro k
  by_cases hk : k = some .leftParen
  · exact ⟨_, h.andThen _ _ (h.expect _) read, fun i hi => if_pos (hi.trans hk)⟩
  · exact ⟨_, h.expect _, fun i hi => if_neg fun hn => hk (hi ▸ hn)⟩

/-- A turn of a generic list keeps what every step keeps. -/
theorem genericTurn_kept (h : Kept P Q) : Q genericTurn := by
  have decides : Q fun j => if j.next? = some .comma then
      .again (settle j ++ bump (settle j).rest) else .last (settle j) := by
    apply h.turnByNext
    intro k
    by_cases hk : k = some .comma
    · exact ⟨_, h.again _ (h.andThen _ _ h.settle h.bump), fun j hj => if_pos (hj.trans hk)⟩
    · exact ⟨_, h.last _ h.settle, fun j hj => if_neg fun hn => hk (hj ▸ hn)⟩
  have both := h.behind _ _ (h.expect .identifier) decides
  refine cast (congrArg Q (funext fun i => ?_)) both
  unfold genericTurn
  dsimp only
  split
  · exact congrArg Turn.again (Reading.append_assoc _ _ _).symm
  · rfl

/-- A generic list keeps what every step keeps. -/
theorem genericList_kept (h : Kept P Q) : P genericList := by
  apply h.node _ _ .genericList
  apply h.inOrder
  intro p hp
  simp only [List.mem_cons, List.not_mem_nil, or_false] at hp
  rcases hp with rfl | rfl | rfl
  · exact h.bump
  · exact h.loop _ _ (genericTurn_kept h)
  · exact h.expect _

/-- A method keeps what every step keeps. -/
theorem methodDecl_kept (h : Kept P Q) : P methodDecl := by
  apply h.node _ _ .methodDecl
  apply h.inOrder
  intro p hp
  simp only [List.mem_cons, List.not_mem_nil, or_false] at hp
  rcases hp with rfl | rfl | rfl | rfl | rfl | rfl
  · exact attributes_kept h
  · exact h.expect _
  · exact h.expect _
  · exact h.optional _ (genericList_kept h)
  · exact paramList_kept h
  · exact h.expect _

/-- A turn between the braces of a type keeps what every step keeps. -/
theorem memberTurn_kept (h : Kept P Q) : Q memberTurn := by
  have behindGap : ∀ {p : Rule}, P p → P (settle.andThen p) := fun hp => h.andThen _ _ h.settle hp
  apply h.turnByNext
  intro k
  rcases k with _ | k
  · exact ⟨_, h.last _ (behindGap (h.complain _)), fun i hi => by simp only [memberTurn, hi]; rfl⟩
  by_cases closing : k = .rightBrace
  · exact ⟨_, h.last _ (behindGap h.bump), fun i hi => by simp only [memberTurn, hi, closing]; rfl⟩
  by_cases opening : k = .kwFn ∨ k = .leftBracket
  · refine ⟨_, h.again _ (behindGap (methodDecl_kept h)), fun i hi => ?_⟩
    rcases opening with rfl | rfl <;> simp only [memberTurn, hi] <;> rfl
  by_cases forgotten : k = .kwType
  · exact ⟨_, h.last _ (behindGap (h.complain _)),
      fun i hi => by simp only [memberTurn, hi, forgotten]; rfl⟩
  · refine ⟨_, h.again _ (behindGap (h.reject .expectedMethod)), fun i hi => ?_⟩
    unfold memberTurn
    rw [hi]
    cases k <;> first | rfl | simp at closing opening forgotten

/-- The body of a type keeps what every step keeps. -/
theorem typeBody_kept (h : Kept P Q) : P typeBody := by
  apply h.byNext
  intro k
  by_cases hk : k = some .leftBrace
  · exact ⟨_, h.andThen _ _ (h.expect _) (h.loop _ _ (memberTurn_kept h)),
      fun i hi => if_pos (hi.trans hk)⟩
  · exact ⟨_, h.expect _, fun i hi => if_neg fun hn => hk (hi ▸ hn)⟩

/-- A type declaration keeps what every step keeps. -/
theorem typeDecl_kept (h : Kept P Q) : P typeDecl := by
  apply h.node _ _ .typeDecl
  apply h.inOrder
  intro p hp
  simp only [List.mem_cons, List.not_mem_nil, or_false] at hp
  rcases hp with rfl | rfl | rfl | rfl | rfl
  · exact attributes_kept h
  · exact h.expect _
  · exact h.expect _
  · exact h.optional _ (genericList_kept h)
  · exact typeBody_kept h

/-- A turn of a file keeps what every step keeps. -/
theorem fileTurn_kept (h : Kept P Q) : Q fileTurn := by
  have behindGap : ∀ {p : Rule}, P p → P (settle.andThen p) := fun hp => h.andThen _ _ h.settle hp
  apply h.turnByNext
  intro k
  rcases k with _ | k
  · exact ⟨_, h.last _ h.settle, fun i hi => by simp only [fileTurn, hi]⟩
  by_cases opening : k = .kwType ∨ k = .leftBracket
  · refine ⟨_, h.again _ (behindGap (typeDecl_kept h)), fun i hi => ?_⟩
    rcases opening with rfl | rfl <;> simp only [fileTurn, hi] <;> rfl
  · refine ⟨_, h.again _ (behindGap (h.reject .expectedTypeDecl)), fun i hi => ?_⟩
    unfold fileTurn
    rw [hi]
    cases k <;> first | rfl | simp at opening

/-- What every step keeps holds of the rule for the types of a file. -/
theorem fileLoop_kept (h : Kept P Q) : P (loop fileTurn fileTurn_advances) :=
  h.loop _ _ (fileTurn_kept h)

end Grammar

end DeclFront
