import DeclFront.Syntax.Complaint

/-!
# Rules of a parser that never gives up

A rule reads lexemes: tokens that carry meaning, each with the trivia behind it. It answers with
the trees it built, what it complains about, and what it left unread. Trivia is never looked at.
The trivia before the next lexeme is the gap; whoever looks at the next lexeme first places the
gap into the tree that is open at that moment.

A complaint is recorded with the number of the lexeme it stands at, so a rule needs no offsets.
-/

set_option autoImplicit false

namespace DeclFront

/-- A token that carries meaning, with the trivia up to the next such token. -/
structure Lexeme where
  token : Token
  trailing : List Token

/-- What is left to read: the trivia before the next lexeme, if nobody has placed it yet, the
lexemes, and the number of lexemes read so far. -/
structure Input where
  gap : List Token
  lexemes : List Lexeme
  index : Nat

/-- A complaint at the lexeme with the given number, or at the end of the text when there are only
that many lexemes. -/
structure Remark where
  index : Nat
  complaint : Complaint
  deriving DecidableEq

/-- What a rule built and said, and what it left unread. -/
structure Reading where
  elements : List Element
  remarks : List Remark
  rest : Input

/-- One reading after another: what the first left unread, the second has read. -/
instance : Append Reading where
  append a b := ⟨a.elements ++ b.elements, a.remarks ++ b.remarks, b.rest⟩

/-- A rule reads some of its input. -/
abbrev Rule := Input → Reading

namespace Input

/-- The kind of the next lexeme. -/
def next? (i : Input) : Option TokenKind :=
  i.lexemes.head?.map (·.token.kind)

/-- The tokens that are left, trivia included. -/
def tokens (i : Input) : List Token :=
  i.gap ++ i.lexemes.flatMap fun l => l.token :: l.trailing

/-- Groups tokens into lexemes, for the tokens behind the first gap. -/
def group : List Token → List Lexeme
  | [] => []
  | t :: ts => ⟨t, ts.takeWhile Token.isTrivia⟩ :: group (ts.dropWhile Token.isTrivia)
termination_by ts => ts.length
decreasing_by
  have := (List.dropWhile_sublist Token.isTrivia (l := ts)).length_le
  simp only [List.length_cons]
  omega

/-- All of a token list, as something to read. -/
def ofTokens (ts : List Token) : Input :=
  ⟨ts.takeWhile Token.isTrivia, group (ts.dropWhile Token.isTrivia), 0⟩

/-- The same input with its gap placed. -/
def settled (i : Input) : Input :=
  { i with gap := [] }

end Input

namespace Reading

/-- Two readings build what they build one behind the other. -/
@[simp]
theorem append_elements (a b : Reading) : (a ++ b).elements = a.elements ++ b.elements := rfl

/-- Two readings say what they say one behind the other. -/
@[simp]
theorem append_remarks (a b : Reading) : (a ++ b).remarks = a.remarks ++ b.remarks := rfl

/-- Two readings leave what the second leaves. -/
@[simp]
theorem append_rest (a b : Reading) : (a ++ b).rest = b.rest := rfl

end Reading

namespace Rule

/-- Places the gap before the next lexeme. -/
def settle : Rule := fun i =>
  ⟨i.gap.map .token, [], i.settled⟩

/-- Takes the next lexeme, if there is one. -/
def bump : Rule := fun i =>
  match i.lexemes with
  | [] => settle i
  | l :: ls => settle i ++ ⟨[.token l.token], [], ⟨l.trailing, ls, i.index + 1⟩⟩

/-- Takes nothing and complains about the next lexeme, or about the end of the text. -/
def complain (c : Complaint) : Rule := fun i =>
  settle i ++ ⟨[], [⟨i.index, c⟩], i.settled⟩

/-- Takes the next lexeme if it is of the given kind, and complains otherwise. -/
def expect (kind : TokenKind) : Rule := fun i =>
  if i.next? = some kind then bump i else complain (.expected kind) i

/-- Makes one node of everything that a rule built. -/
def node (kind : NodeKind) (p : Rule) : Rule := fun i =>
  let a := p i
  { a with elements := [.node kind a.elements] }

/-- Complains about the next lexeme and takes it into a node of its own. -/
def reject (c : Complaint) : Rule := fun i =>
  let a := complain c i
  a ++ node .error bump a.rest

/-- Rules one after another. -/
def inOrder : List Rule → Rule
  | [] => fun i => ⟨[], [], i⟩
  | p :: ps => fun i =>
    let a := p i
    a ++ inOrder ps a.rest

/-- Places the gap; then, if the next lexeme is of the given kind, a rule that starts with it. -/
def optional (kind : TokenKind) (p : Rule) : Rule := fun i =>
  let a := settle i
  if i.next? = some kind then a ++ p a.rest else a

/-- One turn of a loop: a reading, after which the loop goes on or stops. -/
inductive Turn where
  | again (a : Reading)
  | last (a : Reading)

/-- The reading of a turn. -/
def Turn.reading : Turn → Reading
  | .again a => a
  | .last a => a

/-- A turn that goes on only after it has taken a lexeme, so that a loop of such turns ends. -/
def Advances (turn : Input → Turn) : Prop :=
  ∀ i a, turn i = .again a → a.rest.lexemes.length < i.lexemes.length

/-- Turn after turn, until one is the last. -/
def loop (turn : Input → Turn) (advances : Advances turn) (i : Input) : Reading :=
  match _h : turn i with
  | .last a => a
  | .again a => a ++ loop turn advances a.rest
termination_by i.lexemes.length
decreasing_by exact advances i a ‹_›

/-! ### What each rule leaves unread -/

/-- A rule never gives lexemes back. -/
def Shrinks (p : Rule) : Prop :=
  ∀ i, (p i).rest.lexemes.length ≤ i.lexemes.length

/-- Placing a gap takes no lexeme. -/
theorem settle_shrinks : Shrinks settle := fun _ => Nat.le_refl _

/-- Complaining takes no lexeme. -/
theorem complain_shrinks (c : Complaint) : Shrinks (complain c) := fun _ => Nat.le_refl _

/-- Taking a lexeme leaves one less, or none as before. -/
theorem bump_shrinks : Shrinks bump := by
  intro i
  unfold bump
  split <;> simp_all [settle, Input.settled]

/-- Expecting a lexeme takes it or leaves it. -/
theorem expect_shrinks (kind : TokenKind) : Shrinks (expect kind) := by
  intro i
  unfold expect
  split
  · exact bump_shrinks i
  · exact complain_shrinks _ i

/-- A node takes what its parts take. -/
theorem node_shrinks (kind : NodeKind) {p : Rule} (h : Shrinks p) : Shrinks (node kind p) := h

/-- Rejecting a lexeme takes it. -/
theorem reject_shrinks (c : Complaint) : Shrinks (reject c) := fun i =>
  bump_shrinks (complain c i).rest

/-- Rules one after another give nothing back if none of them does. -/
theorem inOrder_shrinks {ps : List Rule} (h : ∀ p ∈ ps, Shrinks p) : Shrinks (inOrder ps) := by
  induction ps with
  | nil => exact fun _ => Nat.le_refl _
  | cons p ps ih =>
      intro i
      have first := h p (by simp) i
      have others := ih (fun q hq => h q (by simp [hq])) (p i).rest
      exact Nat.le_trans others first

/-- A rule that may not be used gives nothing back either way. -/
theorem optional_shrinks (kind : TokenKind) {p : Rule} (h : Shrinks p) : Shrinks (optional kind p) := by
  intro i
  unfold optional
  dsimp only
  split
  · exact h (settle i).rest
  · exact settle_shrinks i

/-- A loop gives nothing back if none of its turns does, by induction on what is left to read. -/
theorem loop_shrinks (turn : Input → Turn) (advances : Advances turn) (h : ∀ i, (turn i).reading.rest.lexemes.length ≤ i.lexemes.length) : Shrinks (loop turn advances) := by
  intro i
  induction hn : i.lexemes.length using Nat.strongRecOn generalizing i with
  | ind n ih =>
      have step := h i
      unfold loop
      split
      · rename_i a ha
        simpa [ha, Turn.reading, hn] using step
      · rename_i a ha
        have shorter := advances i a ha
        have rest := ih a.rest.lexemes.length (by omega) a.rest rfl
        simp only [Reading.append_rest]
        omega

/-- Where there is a lexeme, taking it leaves one less. -/
theorem bump_lt {i : Input} {k : TokenKind} (h : i.next? = some k) : (bump i).rest.lexemes.length < i.lexemes.length := by
  unfold Input.next? at h
  unfold bump
  split
  · rename_i none
    simp [none] at h
  · rename_i l ls some
    simp [some]

/-- Where the expected lexeme comes next, expecting it leaves one less. -/
theorem expect_lt {i : Input} {k : TokenKind} (h : i.next? = some k) : (expect k i).rest.lexemes.length < i.lexemes.length := by
  unfold expect
  rw [if_pos h]
  exact bump_lt h

/-- Where there is a lexeme, rejecting it leaves one less. -/
theorem reject_lt (c : Complaint) {i : Input} {k : TokenKind} (h : i.next? = some k) : (reject c i).rest.lexemes.length < i.lexemes.length :=
  bump_lt (i := (complain c i).rest) h

/-- If the first of some rules takes a lexeme, so do all of them together. -/
theorem inOrder_lt {p : Rule} {ps : List Rule} {i : Input} (first : (p i).rest.lexemes.length < i.lexemes.length) (others : ∀ q ∈ ps, Shrinks q) : (inOrder (p :: ps) i).rest.lexemes.length < i.lexemes.length :=
  Nat.lt_of_le_of_lt (inOrder_shrinks others (p i).rest) first

end Rule

end DeclFront
