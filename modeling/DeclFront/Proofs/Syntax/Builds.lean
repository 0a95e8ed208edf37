import DeclFront.Proofs.Syntax.Trivia

/-!
# What rules build

What a rule builds is said of the tokens that it reads and of what may follow them: a rule that
could go on has to be followed by something with which it does not. The steps are put together here
for every rule, so that for a rule of the grammar nothing is left but to name its parts.
-/

set_option autoImplicit false

namespace DeclFront

/-- The kind of what comes next where some tokens stand before something of the kind `k`. -/
def ahead (ts : List Token) (k : Option TokenKind) : Option TokenKind :=
  (ts.head?.map Token.kind).or k

section Ahead

variable (t : Token) (ts us : List Token) (k : Option TokenKind)

/-- Where nothing stands before it, what follows comes next. -/
@[simp]
theorem ahead_nil : ahead [] k = k := rfl

/-- Where tokens stand before it, the first of them comes next. -/
@[simp]
theorem ahead_cons : ahead (t :: ts) k = some t.kind := rfl

/-- What comes next before tokens and others is what comes next before the first of them. -/
@[simp]
theorem ahead_append : ahead (ts ++ us) k = ahead ts (ahead us k) := by
  cases ts <;> rfl

/-- What comes next in a row of tokens is its first one. -/
theorem ahead_head? : (ts ++ us).head?.map Token.kind = ahead ts (us.head?.map Token.kind) := by
  cases ts <;> rfl

end Ahead

namespace Input

variable (ts : List Token) (n : Nat)

/-- The first of some tokens comes next. -/
theorem next?_ofBare : (ofBare ts n).next? = ts.head?.map Token.kind := by
  cases ts <;> rfl

/-- Without trivia there is no gap to place. -/
theorem settle_ofBare : Rule.settle (ofBare ts n) = ⟨[], [], ofBare ts n⟩ := rfl

end Input

namespace Rule

open Input (ofBare)

variable {follow after : Option TokenKind → Prop} {p : Rule} {ps : List Rule} {ts us : List Token}
  {es fs : List Element} {t : Token} {k : TokenKind}

/-- The rule reads all of `ts`, and only that, as the trees `es`, if what follows is a `follow`. -/
def Builds (p : Rule) (ts : List Token) (es : List Element) (follow : Option TokenKind → Prop) :
    Prop :=
  ∀ rest n, follow (rest.head?.map Token.kind) →
    p (ofBare (ts ++ rest) n) = ⟨es, [], ofBare rest (n + ts.length)⟩

/-- Anything may follow. -/
def anything : Option TokenKind → Prop := fun _ => True

/-- What builds before more builds before less. -/
theorem Builds.narrow (h : Builds p ts es follow) (fewer : ∀ l, after l → follow l) :
    Builds p ts es after :=
  fun rest n hr => h rest n (fewer _ hr)

/-- What builds before anything builds before something. -/
theorem Builds.always (h : Builds p ts es anything) : Builds p ts es follow :=
  h.narrow fun _ _ => trivial

/-- Two rules build one behind the other, if what the second begins with may follow the first. -/
theorem Builds.andThen {q : Rule} (hp : Builds p ts es follow) (hq : Builds q us fs after)
    (fits : ∀ l, after l → follow (ahead us l)) :
    Builds (p.andThen q) (ts ++ us) (es ++ fs) after := by
  intro rest n hr
  have first := hp (us ++ rest) n (by rw [ahead_head?]; exact fits _ hr)
  have second := hq rest (n + ts.length) hr
  unfold Rule.andThen
  rw [List.append_assoc, first]
  dsimp only
  rw [second, List.length_append, ← Nat.add_assoc]
  rfl

/-- To read nothing builds nothing. -/
theorem nothing_builds : Builds nothing [] [] follow := fun _ _ _ => rfl

/-- Taking a token builds it. -/
theorem bump_builds : Builds bump [t] [.token t] anything := fun _ _ _ => rfl

/-- Expecting a token of its kind builds it. -/
theorem expect_builds (h : t.kind = k) : Builds (expect k) [t] [.token t] anything :=
  fun _ _ _ => if_pos (congrArg some h)

/-- A node is built of its parts. -/
theorem node_builds (kind : NodeKind) (h : Builds p ts es follow) :
    Builds (node kind p) ts [.node kind es] follow := by
  intro rest n hr
  unfold node
  rw [h rest n hr]

/-- The first of some rules builds in front of the others. -/
theorem inOrder_cons_builds (hp : Builds p ts es follow) (hps : Builds (inOrder ps) us fs after)
    (fits : ∀ l, after l → follow (ahead us l)) :
    Builds (inOrder (p :: ps)) (ts ++ us) (es ++ fs) after :=
  hp.andThen hps fits

/-- The last of some rules builds what it builds alone. -/
theorem inOrder_last_builds (hp : Builds p ts es follow) : Builds (inOrder [p]) ts es follow := by
  have stop : Builds nothing [] [] follow := nothing_builds
  have both := hp.andThen stop fun _ hl => hl
  rw [List.append_nil, List.append_nil] at both
  exact both

/-- A rule that is not used builds nothing. -/
theorem optional_none_builds : Builds (optional k p) [] [] (· ≠ some k) :=
  fun rest n hr => if_neg (by rw [Input.next?_ofBare]; exact hr)

/-- A rule that is used builds what it builds. -/
theorem optional_some_builds (ht : t.kind = k) (hp : Builds p (t :: ts) es follow) :
    Builds (optional k p) (t :: ts) es follow := by
  intro rest n hr
  have next : (ofBare (t :: ts ++ rest) n).next? = some k := congrArg some ht
  unfold optional
  dsimp only
  rw [if_pos next, Input.settle_ofBare, hp rest n hr]
  rfl

/-! ### Loops -/

/-- The turn reads all of `ts`, and only that, as the trees `es`, and then ends or not, if what
follows is a `follow`. -/
def TurnBuilds (turn : Input → Turn) (wrap : Reading → Turn) (ts : List Token) (es : List Element)
    (follow : Option TokenKind → Prop) : Prop :=
  ∀ rest n, follow (rest.head?.map Token.kind) →
    turn (ofBare (ts ++ rest) n) = wrap ⟨es, [], ofBare rest (n + ts.length)⟩

variable {turn : Input → Turn} {advances : Advances turn}

/-- The last turn of a loop ends it. -/
theorem loop_last_builds (h : TurnBuilds turn .last ts es follow) :
    Builds (loop turn advances) ts es follow :=
  fun rest n hr => loop_last (h rest n hr)

/-- Any other turn builds in front of the turns that come after it. -/
theorem loop_again_builds (first : TurnBuilds turn .again ts es follow)
    (others : Builds (loop turn advances) us fs after) (fits : ∀ l, after l → follow (ahead us l)) :
    Builds (loop turn advances) (ts ++ us) (es ++ fs) after := by
  intro rest n hr
  have step := first (us ++ rest) n (by rw [ahead_head?]; exact fits _ hr)
  rw [List.append_assoc, loop_again step, others rest _ hr, List.length_append, ← Nat.add_assoc]
  rfl

/-- A loop over things that stand next to each other. -/
theorem loop_each_builds {α : Type} {tokens : α → List Token} {element : α → Element}
    (again : ∀ x, TurnBuilds turn .again (tokens x) [element x] anything)
    (stops : Builds (loop turn advances) us fs follow) (xs : List α) :
    Builds (loop turn advances) (xs.flatMap tokens ++ us) (xs.map element ++ fs) follow := by
  induction xs with
  | nil => exact stops
  | cons x xs ih =>
    rw [List.flatMap_cons, List.append_assoc]
    show Builds _ _ ([element x] ++ (xs.map element ++ fs)) _
    exact loop_again_builds (again x) ih fun _ _ => trivial

/-- A loop over things with a comma between each two of them. -/
theorem loop_commaSeparated_builds {α : Type} {tokens : α → List Token}
    {elements : α → List Element} {comma : Token}
    (again : ∀ x,
      TurnBuilds turn .again (tokens x ++ [comma]) (elements x ++ [.token comma]) anything)
    (stops : ∀ x, Builds (loop turn advances) (tokens x) (elements x) follow) (x : α)
    (xs : List α) :
    Builds (loop turn advances) ([comma].intercalate ((x :: xs).map tokens))
      ([.token comma].intercalate ((x :: xs).map elements)) follow := by
  induction xs generalizing x with
  | nil =>
    rw [List.map_singleton, List.map_singleton, List.intercalate_singleton,
      List.intercalate_singleton]
    exact stops x
  | cons y ys ih =>
    rw [List.map_cons, List.map_cons, List.map_cons, List.map_cons, List.intercalate_cons_cons,
      List.intercalate_cons_cons]
    exact loop_again_builds (again x) (ih y) fun _ _ => trivial

end Rule

end DeclFront
