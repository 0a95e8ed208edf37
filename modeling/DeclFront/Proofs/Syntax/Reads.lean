import DeclFront.Proofs.Syntax.Builds
import DeclFront.Proofs.Syntax.Form

/-!
# What rules read without complaint

That a rule reads without complaint only what a form derives is put together from its steps, as what
it builds is. The rules are given their input without trivia. For a list in parentheses it matters
what stands behind it: a comma that ends the list stands directly before the closing parenthesis.
-/

set_option autoImplicit false

namespace DeclFront

/-- What is left once the trivia is gone. Unless commas before a closing parenthesis are derived,
there are none. -/
structure Input.Plain (trailing : Bool) (i : Input) : Prop where
  gap : i.gap = []
  behind : ∀ l ∈ i.lexemes, l.trailing = []
  commas : trailing = true ∨ ¬ [.comma, .rightParen] <:+: i.kinds

/-- Without trivia the lexemes are the tokens. -/
theorem Input.Plain.kinds_eq {trailing : Bool} {i : Input} (h : i.Plain trailing) :
    i.kinds = i.tokens.map Token.kind := by
  have alone : ∀ ls : List Lexeme, (∀ l ∈ ls, l.trailing = []) →
      ls.flatMap (fun l => l.token :: l.trailing) = ls.map Lexeme.token := by
    intro ls
    induction ls with
    | nil => exact fun _ => rfl
    | cons l ls ih =>
      intro hls
      rw [List.flatMap_cons, List.map_cons, ih fun m hm => hls m (List.mem_cons_of_mem l hm),
        hls l List.mem_cons_self]
      rfl
  rw [kinds, tokens, h.gap, List.nil_append, alone _ h.behind, List.map_map]
  rfl

/-- Tokens without trivia are plain, if no comma stands before a closing parenthesis where that is
not derived. -/
theorem Input.plain_ofBare {trailing : Bool} {ts : List Token}
    (h : trailing = true ∨ ¬ [.comma, .rightParen] <:+: ts.map Token.kind) (n : Nat) :
    (ofBare ts n).Plain trailing := by
  refine ⟨rfl, fun l hl => ?_, ?_⟩
  · obtain ⟨t, -, rfl⟩ := List.mem_map.mp hl
    rfl
  · have kinds : (ofBare ts n).kinds = ts.map Token.kind := List.map_map
    rw [kinds]
    exact h

namespace Rule

open Form (Derives)

variable {trailing : Bool} {i : Input}

/-- What is left of a plain input is plain. -/
theorem plain_chains (trailing : Bool) :
    Chains fun i a => i.Plain trailing → a.rest.Plain trailing where
  nothing _ h := h
  settle _ h := ⟨rfl, h.behind, h.commas⟩
  bump i h := by
    unfold bump
    split
    · exact ⟨rfl, h.behind, h.commas⟩
    · rename_i l ls lexemes
      obtain ⟨-, behind, commas⟩ := h
      rw [lexemes] at behind
      refine ⟨behind l List.mem_cons_self, fun m hm => behind m (List.mem_cons_of_mem l hm), ?_⟩
      refine commas.imp_right fun none pair => none ?_
      have shorter : ls.map (fun m => m.token.kind) <:+ i.kinds := by
        rw [Input.kinds, lexemes]
        exact List.suffix_cons _ _
      exact pair.trans shorter.isInfix
  complain _ _ h := ⟨rfl, h.behind, h.commas⟩
  node _ _ _ _ hp := hp
  append _ _ _ ha hb h := hb (ha h)

/-- Whenever it starts at a `look`, the rule reads without complaint only what the form derives. -/
def Reads (trailing : Bool) (look : Option TokenKind → Prop) (p : Rule) (f : Form) : Prop :=
  ∀ i : Input, i.Plain trailing → look i.next? →
    (p i).rest.Plain trailing ∧ ((p i).remarks = [] → f.Derives (p i).elements)

section Steps

variable {look : Option TokenKind → Prop} {p : Rule} {ps : List Rule} {f g : Form} {fs : List Form}
  {k : TokenKind} {ks : List TokenKind} {c : Complaint}

/-- Two readings are without complaint only if both are. -/
theorem quiet_append {a b : Reading} (h : (a ++ b).remarks = []) :
    a.remarks = [] ∧ b.remarks = [] :=
  List.append_eq_nil_iff.mp h

/-- To complain is not without complaint. -/
theorem complain_remarks_ne_nil : (complain c i).remarks ≠ [] := by
  simp [complain, settle]

/-- To reject a lexeme is not without complaint. -/
theorem reject_remarks_ne_nil : (reject c i).remarks ≠ [] :=
  fun h => complain_remarks_ne_nil (quiet_append h).1

/-- Without trivia a gap has nothing in it. -/
theorem settle_elements (h : i.Plain trailing) : (settle i).elements = [] := by
  rw [settle, h.gap, List.map_nil]

/-- A plain input stays plain when its gap is placed. -/
theorem settle_plain (h : i.Plain trailing) : (settle i).rest.Plain trailing :=
  (plain_chains trailing).settle i h

/-- Taking a lexeme reads a token of its kind. -/
theorem bump_reads : Reads trailing (fun l => ∃ k ∈ ks, l = some k) bump (.token ks) := by
  intro i hi hl
  refine ⟨(plain_chains trailing).bump i hi, fun _ => ?_⟩
  obtain ⟨k, hk, next⟩ := hl
  unfold bump
  split
  · rename_i lexemes
    simp [Input.next?, lexemes] at next
  · rename_i l ls lexemes
    have kind : l.token.kind = k := by simpa [Input.next?, lexemes] using next
    rw [Reading.append_elements, settle_elements hi]
    exact .token (kind ▸ hk)

/-- So it does where only one kind can come next. -/
theorem bump_one_reads : Reads trailing (· = some k) bump (.token [k]) :=
  fun i hi hl => bump_reads i hi ⟨k, List.mem_singleton_self k, hl⟩

/-- To expect a lexeme without complaint reads it. -/
theorem expect_reads : Reads trailing anything (expect k) (.token [k]) := by
  intro i hi _
  unfold expect
  split
  · rename_i next
    exact bump_one_reads i hi next
  · exact ⟨(plain_chains trailing).complain _ i hi, fun quiet => absurd quiet complain_remarks_ne_nil⟩

/-- A lexeme that is expected without complaint comes next. -/
theorem next?_of_expect_quiet (quiet : (expect k i).remarks = []) : i.next? = some k := by
  by_contra other
  rw [expect, if_neg other] at quiet
  exact complain_remarks_ne_nil quiet

/-- A node is read as its parts are. -/
theorem node_reads {n : NodeKind} (h : Reads trailing look p f) :
    Reads trailing look (node n p) (.node n f) :=
  fun i hi hl => ⟨(h i hi hl).1, fun quiet => .node ((h i hi hl).2 quiet)⟩

/-- No rules read nothing. -/
theorem inOrder_nil_reads : Reads trailing look (inOrder []) (Form.inOrder []) :=
  fun _ hi _ => ⟨hi, fun _ => .nothing⟩

/-- Two rules read their forms one behind the other. -/
theorem andThen_reads {q : Rule} (hp : Reads trailing look p f) (hq : Reads trailing anything q g) :
    Reads trailing look (p.andThen q) (.both f g) := by
  intro i hi hl
  obtain ⟨plain, first⟩ := hp i hi hl
  obtain ⟨plainRest, others⟩ := hq _ plain trivial
  exact ⟨plainRest, fun quiet => (first (quiet_append quiet).1).both (others (quiet_append quiet).2)⟩

/-- The first of some rules reads in front of the others. -/
theorem inOrder_cons_reads (hp : Reads trailing look p f)
    (hps : Reads trailing anything (inOrder ps) (Form.inOrder fs)) :
    Reads trailing look (inOrder (p :: ps)) (Form.inOrder (f :: fs)) :=
  andThen_reads hp hps

/-- The last of some rules reads what it reads alone. -/
theorem inOrder_last_reads (hp : Reads trailing look p f) : Reads trailing look (inOrder [p]) f := by
  intro i hi hl
  have same : inOrder [p] i = p i := Reading.append_empty (p i)
  rw [same]
  exact hp i hi hl

/-- A rule that may not be used reads its form or nothing. -/
theorem optional_reads (hp : Reads trailing (· = some k) p f) :
    Reads trailing anything (optional k p) (.optional f) := by
  intro i hi _
  have none := settle_elements hi
  unfold optional
  dsimp only
  split
  · rename_i next
    obtain ⟨plain, one⟩ := hp (settle i).rest (settle_plain hi) next
    refine ⟨plain, fun quiet => ?_⟩
    rw [Reading.append_elements, none]
    exact .present (one (quiet_append quiet).2)
  · rw [none]
    exact ⟨settle_plain hi, fun _ => .absent⟩

end Steps

section Loops

variable {turn : Input → Turn} {advances : Advances turn} {f g : Form}

/-- In every turn that goes on, a loop reads what `f` derives, and in its last turn what `g` derives.
It may also read the latter one turn before a last one that reads nothing. -/
structure TurnReads (trailing : Bool) (turn : Input → Turn) (f g : Form) : Prop where
  plain : ∀ i : Input, i.Plain trailing → (turn i).reading.rest.Plain trailing
  again : ∀ (i : Input) (a : Reading), i.Plain trailing → turn i = .again a → a.remarks = [] →
    f.Derives a.elements ∨
      g.Derives a.elements ∧ ∃ b, turn a.rest = .last b ∧ b.elements = []
  last : ∀ (i : Input) (a : Reading), i.Plain trailing → turn i = .last a → a.remarks = [] →
    g.Derives a.elements

/-- A loop reads its form once for every turn that goes on, and what its last turn reads. -/
theorem loop_reads (h : TurnReads trailing turn f g) :
    Reads trailing anything (loop turn advances) (.both (.many f) g) := by
  intro i hi _
  refine ⟨(plain_chains trailing).kept.loop turn advances h.plain i hi, fun quiet => ?_⟩
  induction hn : i.lexemes.length using Nat.strongRecOn generalizing i with
  | ind n ih =>
    have plain := h.plain i hi
    cases step : turn i with
    | last a =>
      rw [loop_last step] at quiet ⊢
      exact Derives.done.both (h.last i a hi step quiet)
    | again a =>
      rw [step] at plain
      rw [loop_again step] at quiet ⊢
      obtain ⟨quietOne, quietMore⟩ := quiet_append quiet
      rw [Reading.append_elements]
      rcases h.again i a hi step quietOne with one | ⟨final, b, stop, none⟩
      · have shorter := advances i a step
        have others := ih _ (by omega) a.rest plain trivial quietMore rfl
        obtain ⟨es, fs, hes, hfs, split⟩ := Form.derives_both.mp others
        rw [split, ← List.append_assoc]
        exact (one.more hes).both hfs
      · rw [loop_last stop, none, List.append_nil]
        exact Derives.done.both final

/-- A loop that ends with nothing of its own. -/
theorem loop_many_reads (h : TurnReads trailing turn f .nothing) :
    Reads trailing anything (loop turn advances) (.many f) := by
  intro i hi hl
  have list : Reads trailing anything (loop turn advances) (.both (.many f) .nothing) := loop_reads h
  obtain ⟨plain, derives⟩ := list i hi hl
  refine ⟨plain, fun quiet => ?_⟩
  obtain ⟨es, fs, hes, hfs, split⟩ := Form.derives_both.mp (derives quiet)
  rw [split, Form.derives_nothing.mp hfs, List.append_nil]
  exact hes

/-- Before a closing parenthesis, things with a comma behind each of them are a list, where a comma
behind the last can only be one that is derived. -/
theorem closed_list_reads {p : Rule} (lossless : ∀ i, Lossless i (p i))
    (hp : Reads trailing anything p
      (.both (.many (.both f (.token [.comma]))) (.optional f))) :
    Reads trailing anything (inOrder [p, expect .rightParen])
      (Form.inOrder [.optional (.commaSeparated trailing f), .token [.rightParen]]) := by
  intro i hi hl
  obtain ⟨plain, derives⟩ := hp i hi hl
  have parenthesis : Reads trailing anything (inOrder [expect .rightParen])
      (Form.inOrder [.token [.rightParen]]) := inOrder_cons_reads expect_reads inOrder_nil_reads
  obtain ⟨plainRest, close⟩ := parenthesis _ plain trivial
  refine ⟨plainRest, fun quiet => ?_⟩
  obtain ⟨quietList, quietClose⟩ := quiet_append quiet
  refine Derives.both ?_ (close quietClose)
  have closing := next?_of_expect_quiet (quiet_append quietClose).1
  rcases Form.commaSeparated_of_each (derives quietList) with none | strict | ⟨loose, es, c, hc, ends⟩
  · rw [none]
    exact .absent
  · refine .present ?_
    cases trailing with
    | false => exact strict
    | true =>
      obtain ⟨es, fs, hes, hfs, split⟩ := Form.derives_both.mp strict
      obtain ⟨gs, hs, hgs, hhs, splitRest⟩ := Form.derives_both.mp hfs
      rw [split, splitRest, Form.derives_nothing.mp hhs]
      exact hes.both (hgs.both .absent)
  · rcases hi.commas with rfl | apart
    · exact .present loose
    · refine absurd ?_ apart
      -- The comma that ends the list and the parenthesis behind it stand in the input.
      obtain ⟨l, ls, lexemes, kind⟩ : ∃ l ls, (p i).rest.lexemes = l :: ls ∧
          l.token.kind = .rightParen := by
        unfold Input.next? at closing
        cases lexemes : (p i).rest.lexemes with
        | nil => simp [lexemes] at closing
        | cons l ls => exact ⟨l, ls, rfl, by simpa [lexemes] using closing⟩
      have all := congrArg (List.map Token.kind) (lossless i)
      have rest : (p i).rest.tokens.map Token.kind = .rightParen :: ls.map (·.token.kind) := by
        rw [← plain.kinds_eq, Input.kinds, lexemes, List.map_cons, kind]
      rw [ends, List.map_append, rest, Element.tokensOf_append, Element.tokensOf_singleton,
        List.map_append] at all
      refine ⟨(Element.tokensOf es).map Token.kind, ls.map (·.token.kind), ?_⟩
      rw [hi.kinds_eq, ← all, List.append_assoc, List.append_assoc]
      simp [Element.tokens, hc]

end Loops

end Rule

end DeclFront
