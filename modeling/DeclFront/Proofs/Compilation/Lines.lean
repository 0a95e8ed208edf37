import DeclFront.LineIndex
import Mathlib.Algebra.Group.Nat.Defs
import Mathlib.Data.List.DropRight
import Mathlib.Data.Prod.Lex

/-!
# Lines of a text

A line index knows where the lines of its text start and nothing else of the text. What it answers is
compared here with the text itself: the line of an offset is the number of line feeds before it, and
the column counts from behind the last of them. So a position leads back to the offset it was found
for, and a later offset has a later position.

The other way, from any position to an offset, the sum of the start of the line and the column is
formed in 32 bits. Where it does not fit there is neither an offset nor the answer that there is none.
-/

set_option autoImplicit false

namespace DeclFront

namespace Text

/-- The characters of a text that end at or before an offset. An offset may be inside a character. -/
def charsBefore (offset : Nat) : List Char → List Char
  | [] => []
  | c :: cs => if c.utf8Size ≤ offset then c :: charsBefore (offset - c.utf8Size) cs else []

/-- The characters of a text up to its last line feed, which is the last of them. -/
def wholeLines (cs : List Char) : List Char :=
  cs.rdropWhile (· ≠ '\n')

/-- The line with this number starts at the offset: as many line feeds are before it, and the last of
them is right before it. The first line starts where the text does. -/
def StartsLine (text : List Char) (line start : Nat) : Prop :=
  ∃ front back, text = front ++ back ∧ (front = [] ∨ front.getLast? = some '\n') ∧
    front.count '\n' = line ∧ byteLength front = start

/-- The offset that a position stands for, whatever its size and that of the text: where its line
starts, and the column from there. -/
def StandsFor (text : List Char) (p : LineCol) (n : Nat) : Prop :=
  ∃ start, StartsLine text p.line.toNat start ∧ start + p.col.toNat = n

section Before

variable {offset : Nat} {cs : List Char}

/-- What stands before an offset is the beginning of the text. -/
theorem charsBefore_prefix_self (offset : Nat) (cs : List Char) : charsBefore offset cs <+: cs := by
  induction cs generalizing offset with
  | nil => exact List.prefix_refl _
  | cons c cs ih =>
    unfold charsBefore
    split
    · exact List.prefix_cons_inj c |>.mpr (ih _)
    · exact List.nil_prefix

/-- What stands before an offset ends there or earlier. -/
theorem byteLength_charsBefore_le (offset : Nat) (cs : List Char) :
    byteLength (charsBefore offset cs) ≤ offset := by
  induction cs generalizing offset with
  | nil => exact offset.zero_le
  | cons c cs ih =>
    unfold charsBefore
    split
    · have rest := ih (offset - c.utf8Size)
      rw [byteLength_cons]
      omega
    · exact offset.zero_le

/-- What ends at or before an offset is before it. -/
theorem prefix_charsBefore {front : List Char} (h : front <+: cs) (fits : byteLength front ≤ offset) :
    front <+: charsBefore offset cs := by
  induction cs generalizing front offset with
  | nil => exact h
  | cons c cs ih =>
    cases front with
    | nil => exact List.nil_prefix
    | cons d front =>
      obtain ⟨rfl, rest⟩ := List.cons_prefix_cons.mp h
      rw [byteLength_cons] at fits
      have first : d.utf8Size ≤ offset := by omega
      rw [charsBefore, if_pos first]
      exact (List.prefix_cons_inj d).mpr (ih rest (by omega))

/-- What stands before an offset stands before every later one. -/
theorem charsBefore_mono {later : Nat} (h : offset ≤ later) (cs : List Char) :
    charsBefore offset cs <+: charsBefore later cs :=
  prefix_charsBefore (charsBefore_prefix_self offset cs) ((byteLength_charsBefore_le offset cs).trans h)

end Before

section WholeLines

variable (cs : List Char)

/-- The whole lines are the beginning of the text. -/
theorem wholeLines_prefix_self : wholeLines cs <+: cs :=
  List.rdropWhile_prefix _ _

/-- The whole lines end with a line feed, if there are any. -/
theorem wholeLines_ends : wholeLines cs = [] ∨ (wholeLines cs).getLast? = some '\n' := by
  by_cases none : wholeLines cs = []
  · exact .inl none
  · have last := List.rdropWhile_last_not (fun c : Char => decide (c ≠ '\n')) cs none
    rw [decide_eq_true_eq, not_not] at last
    exact .inr (by rw [List.getLast?_eq_some_getLast none]; exact congrArg some last)

/-- All line feeds are in the whole lines. -/
theorem count_wholeLines : (wholeLines cs).count '\n' = cs.count '\n' := by
  unfold wholeLines
  induction cs using List.reverseRecOn with
  | nil => rfl
  | append_singleton cs c ih =>
    rw [List.rdropWhile_concat]
    split
    · rename_i other
      rw [ih, List.count_append, List.count_singleton, if_neg (by simpa using other), Nat.add_zero]
    · rfl

end WholeLines

/-- The line that an offset is on starts behind the last line feed before the offset. -/
theorem startsLine_before (offset : Nat) (text : List Char) :
    StartsLine text ((charsBefore offset text).count '\n')
      (byteLength (wholeLines (charsBefore offset text))) := by
  obtain ⟨back, whole⟩ :=
    (wholeLines_prefix_self (charsBefore offset text)).trans (charsBefore_prefix_self offset text)
  exact ⟨_, back, whole.symm, wholeLines_ends _, count_wholeLines _, rfl⟩

/-- The beginning of a text is no longer than the text. -/
theorem byteLength_le_of_prefix {cs ds : List Char} (h : cs <+: ds) : byteLength cs ≤ byteLength ds := by
  obtain ⟨rest, rfl⟩ := h
  rw [byteLength_append]
  exact Nat.le_add_right _ _

/-- Every character takes a byte at least. -/
theorem length_le_byteLength (cs : List Char) : cs.length ≤ byteLength cs := by
  induction cs with
  | nil => exact Nat.le_refl _
  | cons c cs ih =>
    have some := c.utf8Size_pos
    rw [List.length_cons, byteLength_cons]
    omega

end Text

namespace LineIndex

open Text (StartsLine StandsFor charsBefore wholeLines byteLength)

/-! ### The table of starts -/

section Starts

variable {offset : Nat} {cs front back : List Char}

/-- Each line feed starts one more line. -/
theorem length_startsFrom (offset : Nat) (cs : List Char) :
    (startsFrom offset cs).length = cs.count '\n' := by
  induction cs generalizing offset with
  | nil => rfl
  | cons c cs ih =>
    unfold startsFrom
    by_cases feed : c = '\n'
    · rw [if_pos feed, List.length_cons, ih, feed, List.count_cons_self]
    · rw [if_neg feed, ih, List.count_cons_of_ne feed]

/-- Behind each line feed there is a start, at its place among the others. -/
theorem getElem?_startsFrom (offset : Nat) (front back : List Char) :
    (startsFrom offset (front ++ '\n' :: back))[front.count '\n']? =
      some (offset + byteLength (front ++ ['\n'])) := by
  induction front generalizing offset with
  | nil => rfl
  | cons c front ih =>
    rw [List.cons_append, startsFrom, List.cons_append, Text.byteLength_cons, ← Nat.add_assoc]
    by_cases feed : c = '\n'
    · rw [feed, List.count_cons_self, ← ih]
      rfl
    · rw [if_neg feed, List.count_cons_of_ne feed, ih]

/-- Every start is behind the first character. -/
theorem le_of_mem_startsFrom {c : Char} {start : Nat} (h : start ∈ startsFrom offset (c :: cs)) :
    offset + c.utf8Size ≤ start := by
  induction cs generalizing offset c with
  | nil =>
    unfold startsFrom at h
    split at h
    · rw [List.mem_singleton.mp h]
    · cases h
  | cons d cs ih =>
    have later : start ∈ startsFrom (offset + c.utf8Size) (d :: cs) → offset + c.utf8Size ≤ start :=
      fun h => (Nat.le_add_right _ _).trans (ih h)
    rw [startsFrom] at h
    split at h
    · rcases List.mem_cons.mp h with rfl | h
      · exact Nat.le_refl _
      · exact later h
    · exact later h

/-- The starts up to an offset are as many as the line feeds before it. -/
theorem length_takeWhile_startsFrom (start offset : Nat) (cs : List Char) :
    ((startsFrom start cs).takeWhile (· ≤ start + offset)).length =
      (charsBefore offset cs).count '\n' := by
  induction cs generalizing start offset with
  | nil => rfl
  | cons c cs ih =>
    unfold charsBefore startsFrom
    by_cases inside : c.utf8Size ≤ offset
    · have same : start + offset = (start + c.utf8Size) + (offset - c.utf8Size) := by omega
      rw [if_pos inside, same]
      by_cases feed : c = '\n'
      · rw [if_pos feed, List.takeWhile_cons_of_pos (by simp), List.length_cons, ih, feed,
          List.count_cons_self]
      · rw [if_neg feed, ih, List.count_cons_of_ne feed]
    · -- the offset is inside this character, and every start is behind it
      have none : (startsFrom start (c :: cs)).takeWhile (· ≤ start + offset) = [] := by
        rw [List.takeWhile_eq_nil_iff]
        intro some
        have behind := le_of_mem_startsFrom (List.get_mem _ ⟨0, some⟩)
        rw [decide_eq_true_eq]
        omega
      rw [if_neg inside, List.count_nil]
      exact congrArg List.length none

end Starts

/-- Before as many line feeds as a text has at least, there are characters of it. -/
theorem exists_split_of_lt_count {text : List Char} {n : Nat} (h : n < text.count '\n') :
    ∃ front back, text = front ++ '\n' :: back ∧ front.count '\n' = n := by
  induction text generalizing n with
  | nil => cases h
  | cons c cs ih =>
    by_cases feed : c = '\n'
    · subst feed
      cases n with
      | zero => exact ⟨[], cs, rfl, rfl⟩
      | succ n =>
        rw [List.count_cons_self] at h
        obtain ⟨front, back, rfl, rfl⟩ := ih (Nat.lt_of_succ_lt_succ h)
        exact ⟨'\n' :: front, back, rfl, List.count_cons_self⟩
    · rw [List.count_cons_of_ne feed] at h
      obtain ⟨front, back, rfl, rfl⟩ := ih h
      exact ⟨c :: front, back, rfl, List.count_cons_of_ne feed⟩

section OfText

variable {text : List Char} {line start offset : Nat}

/-- There is one line more than there are line feeds. -/
theorem lineCount_ofText (text : List Char) : (ofText text).lineCount = text.count '\n' + 1 := by
  rw [lineCount, ofText, List.size_toArray, length_startsFrom]

/-- The index has the start of every line. -/
theorem start?_of_startsLine (h : StartsLine text line start) :
    (ofText text).start? line = some start := by
  obtain ⟨front, back, rfl, ends, rfl, rfl⟩ := h
  rcases ends with rfl | ends
  · rfl
  · obtain ⟨front, rfl⟩ := List.getLast?_eq_some_iff.mp ends
    rw [List.count_append, List.count_singleton_self, start?, ofText, List.getElem?_toArray,
      List.append_assoc, List.singleton_append, getElem?_startsFrom, Nat.zero_add]

/-- The table has the starts of all lines and nothing else. -/
theorem start?_eq_some_iff :
    (ofText text).start? line = some start ↔ StartsLine text line start := by
  refine ⟨fun found => ?_, start?_of_startsLine⟩
  cases line with
  | zero => exact ⟨[], text, rfl, .inl rfl, rfl, Option.some.inj found⟩
  | succ line =>
    have inside : line < text.count '\n' := by
      have inside := (Array.getElem?_eq_some_iff.mp found).1
      rwa [ofText, List.size_toArray, length_startsFrom] at inside
    obtain ⟨front, back, whole, count⟩ := exists_split_of_lt_count inside
    have starts : StartsLine text (line + 1) (byteLength (front ++ ['\n'])) := by
      refine ⟨front ++ ['\n'], back, ?_, .inr List.getLast?_concat, ?_, rfl⟩
      · rw [whole, List.append_assoc, List.singleton_append]
      · rw [List.count_append, count, List.count_singleton_self]
    obtain rfl := Option.some.inj (found.symm.trans (start?_of_startsLine starts))
    exact starts

/-- Lines that the index has no start for are not in the text. -/
theorem start?_eq_none_iff : (ofText text).start? line = none ↔ ¬∃ start, StartsLine text line start := by
  simp only [Option.eq_none_iff_forall_ne_some, ne_eq, start?_eq_some_iff, not_exists]

/-- The line of an offset is the number of line feeds before it. -/
theorem lineOf_ofText (text : List Char) (offset : Nat) :
    (ofText text).lineOf offset = (charsBefore offset text).count '\n' := by
  have counted := length_takeWhile_startsFrom 0 offset text
  rwa [Nat.zero_add] at counted

/-- The line of an offset is where the offset cuts the table: the starts at or before it come first. -/
theorem lt_lineOf_iff {i : Nat} (h : (ofText text).starts[i]? = some start) :
    i < (ofText text).lineOf offset ↔ start ≤ offset := by
  constructor
  · intro before
    have taken := (List.takeWhile_prefix (· ≤ offset)).getElem before
    rw [← Array.getElem?_toList] at h
    obtain ⟨_, rfl⟩ := List.getElem?_eq_some_iff.mp h
    have here := List.mem_takeWhile_imp (List.getElem_mem before)
    rw [taken] at here
    exact of_decide_eq_true here
  · intro fits
    have starts : StartsLine text (i + 1) start := start?_eq_some_iff.mp h
    obtain ⟨front, back, whole, -, count, rfl⟩ := starts
    have inside := Text.prefix_charsBefore ⟨back, whole.symm⟩ fits
    have fewer := inside.sublist.count_le '\n'
    rw [lineOf_ofText]
    omega

/-- The line of an offset within the text, and its column there. -/
theorem lineCol?_ofText (h : offset ≤ byteLength text) :
    (ofText text).lineCol? offset =
      some ⟨.ofNat ((charsBefore offset text).count '\n'),
        .ofNat (offset - byteLength (wholeLines (charsBefore offset text)))⟩ := by
  have within : ¬(ofText text).length < offset := Nat.not_lt.mpr h
  rw [lineCol?, if_neg within, lineOf_ofText]
  dsimp only
  rw [start?_of_startsLine (Text.startsLine_before offset text)]
  rfl

/-- Offsets within the text, its end included, have a line and a column. -/
theorem lineCol?_isSome_iff : ((ofText text).lineCol? offset).isSome ↔ offset ≤ byteLength text := by
  refine ⟨fun some => ?_, fun h => by rw [lineCol?_ofText h]; rfl⟩
  by_contra h
  have behind : (ofText text).length < offset := Nat.not_le.mp h
  rw [lineCol?, if_pos behind] at some
  cases some

end OfText

/-! ### From offsets to positions and back -/

section Positions

variable {text : List Char} {offset : Nat} {p : LineCol}

/-- In a text whose offsets fit a word, so do lines and columns. -/
theorem toNat_lineCol? (fits : byteLength text < 2 ^ 32) (h : (ofText text).lineCol? offset = some p) :
    p.line.toNat = (charsBefore offset text).count '\n' ∧
      byteLength (wholeLines (charsBefore offset text)) + p.col.toNat = offset := by
  have within := lineCol?_isSome_iff.mp (Option.isSome_of_eq_some h)
  rw [lineCol?_ofText within] at h
  have before := Text.byteLength_charsBefore_le offset text
  have lines := Text.byteLength_le_of_prefix (Text.wholeLines_prefix_self (charsBefore offset text))
  have feeds := List.count_le_length (a := '\n') (l := charsBefore offset text)
  have chars := Text.length_le_byteLength (charsBefore offset text)
  rw [← Option.some.inj h, UInt32.toNat_ofNat_of_lt', UInt32.toNat_ofNat_of_lt']
  · omega
  · show _ < 2 ^ 32
    omega
  · show _ < 2 ^ 32
    omega

/-- A position in a line that is not there has no offset. -/
theorem offset?_of_missing (h : ¬∃ n, StandsFor text p n) : (ofText text).offset? p = .ok none := by
  have none : (ofText text).start? p.line.toNat = none := by
    rw [start?_eq_none_iff]
    rintro ⟨start, starts⟩
    exact h ⟨_, start, starts, rfl⟩
  rw [offset?, none]

/-- The sum of a line start and a column is the offset, if it lies within the text; one that does
not fit into 32 bits is refused before that is asked. -/
theorem offset?_of_standsFor {n : Nat} (h : StandsFor text p n) :
    (ofText text).offset? p =
      if n < 2 ^ 32 then .ok (if n ≤ byteLength text then some n else none)
      else .error .tooLarge := by
  obtain ⟨start, starts, rfl⟩ := h
  have advanced : advanceOffset start p.col.toNat =
      if start + p.col.toNat < 2 ^ 32 then .ok (start + p.col.toNat) else .error .tooLarge := rfl
  rw [offset?, start?_of_startsLine starts]
  dsimp only
  rw [advanced]
  split <;> rfl

/-- A position stands for one number only. -/
theorem standsFor_iff {n : Nat} (h : StandsFor text p n) (m : Nat) : StandsFor text p m ↔ m = n := by
  refine ⟨?_, fun same => same ▸ h⟩
  rintro ⟨other, startsOther, rfl⟩
  obtain ⟨start, starts, rfl⟩ := h
  have same := (start?_of_startsLine startsOther).symm.trans (start?_of_startsLine starts)
  rw [Option.some.inj same]

/-- A position that was found for an offset leads back to it. -/
theorem offset?_of_lineCol? (fits : byteLength text < 2 ^ 32)
    (h : (ofText text).lineCol? offset = some p) : (ofText text).offset? p = .ok (some offset) := by
  have within := lineCol?_isSome_iff.mp (Option.isSome_of_eq_some h)
  obtain ⟨line, col⟩ := toNat_lineCol? fits h
  have starts := Text.startsLine_before offset text
  rw [← line] at starts
  rw [offset?_of_standsFor ⟨_, starts, col⟩, if_pos (by omega), if_pos within]

/-- A later offset is on a later line, or on the same line in a later column. -/
theorem lineCol?_lt {later : Nat} {q : LineCol} (fits : byteLength text < 2 ^ 32)
    (hp : (ofText text).lineCol? offset = some p) (hq : (ofText text).lineCol? later = some q)
    (h : offset < later) : toLex (p.line, p.col) < toLex (q.line, q.col) := by
  obtain ⟨pLine, pCol⟩ := toNat_lineCol? fits hp
  obtain ⟨qLine, qCol⟩ := toNat_lineCol? fits hq
  have feeds := (Text.charsBefore_mono (Nat.le_of_lt h) text).sublist.count_le '\n'
  rw [Prod.Lex.toLex_lt_toLex, UInt32.lt_iff_toNat_lt, UInt32.lt_iff_toNat_lt, ← UInt32.toNat_inj]
  dsimp only
  rcases Nat.lt_or_eq_of_le feeds with fewer | same
  · exact .inl (by omega)
  · -- on one line, both columns count from its start
    have first := start?_of_startsLine (Text.startsLine_before offset text)
    have second := start?_of_startsLine (Text.startsLine_before later text)
    rw [same] at first
    have start := Option.some.inj (first.symm.trans second)
    exact .inr ⟨by omega, by omega⟩

end Positions

/-- The index of a text whose offsets fit a word tells the lines and columns of exactly the offsets
within the text. The line is the number of line feeds before the offset, which is where the offset cuts
the table of starts, and it is one of the lines of the text; the column is the distance from behind the
last of these line feeds, or from the beginning. The position leads back to the offset, and a later
offset has a later position. -/
theorem positions_count_line_feeds (text : List Char) (fits : byteLength text < 2 ^ 32) :
    let x := ofText text
    (∀ o, (x.lineCol? o).isSome ↔ o ≤ byteLength text) ∧
    (∀ o p, x.lineCol? o = some p →
      p.line.toNat = (charsBefore o text).count '\n' ∧
      byteLength (wholeLines (charsBefore o text)) + p.col.toNat = o ∧
      (∀ i start, x.starts[i]? = some start → (i < p.line.toNat ↔ start ≤ o)) ∧
      p.line.toNat < x.lineCount ∧ x.lineCount = text.count '\n' + 1 ∧
      x.offset? p = .ok (some o)) ∧
    (∀ o later p q, x.lineCol? o = some p → x.lineCol? later = some q → o < later →
      toLex (p.line, p.col) < toLex (q.line, q.col)) := by
  intro x
  refine ⟨fun o => lineCol?_isSome_iff, fun o p hp => ?_, fun o later p q => lineCol?_lt fits⟩
  obtain ⟨line, col⟩ := toNat_lineCol? fits hp
  have feeds := (Text.charsBefore_prefix_self o text).sublist.count_le '\n'
  have lines := lineCount_ofText text
  refine ⟨line, col, fun i start found => ?_, ?_, lines, offset?_of_lineCol? fits hp⟩
  · rw [line, ← lineOf_ofText]
    exact lt_lineOf_iff found
  · show _ < (ofText text).lineCount
    omega

/-- Two line feeds behind a letter of two bytes, and a sign of three bytes behind them. -/
def Sample.threeLines : List Char := "é\n\n日".toList

/-- An offset inside the last sign is on the third line, one byte behind its start. -/
theorem inner_byte_has_position : byteLength Sample.threeLines < 2 ^ 32 ∧
    (ofText Sample.threeLines).lineCol? 5 = some ⟨2, 1⟩ ∧
    (ofText Sample.threeLines).offset? ⟨2, 1⟩ = .ok (some 5) := by
  have fits : byteLength Sample.threeLines < 2 ^ 32 := by decide
  have place : (ofText Sample.threeLines).lineCol? 5 = some ⟨2, 1⟩ := by decide
  obtain ⟨-, told, -⟩ := positions_count_line_feeds Sample.threeLines fits
  obtain ⟨-, -, -, -, -, back⟩ := told 5 _ place
  exact ⟨fits, place, back⟩

/-- What any position is mapped to, in a text whose offsets fit a word. It is an offset exactly if the
position stands for that and the text is so long. There is none if there is no such line, or if the
position stands for an offset behind the text. Where that does not even fit a word, it cannot be
formed, and nothing is answered. -/
theorem position_maps_back_unless_too_large (text : List Char) (fits : byteLength text < 2 ^ 32)
    (p : LineCol) :
    let x := ofText text
    (∀ o, x.offset? p = .ok (some o) ↔ StandsFor text p o ∧ o ≤ byteLength text) ∧
    (x.offset? p = .ok none ↔
      (¬∃ n, StandsFor text p n) ∨ ∃ n, StandsFor text p n ∧ byteLength text < n ∧ n < 2 ^ 32) ∧
    (∀ e, x.offset? p = .error e ↔ e = .tooLarge ∧ ∃ n, StandsFor text p n ∧ 2 ^ 32 ≤ n) := by
  intro x
  by_cases there : ∃ n, StandsFor text p n
  · obtain ⟨n, h⟩ := there
    have result : x.offset? p = _ := offset?_of_standsFor h
    simp only [result, standsFor_iff h, exists_eq, exists_eq_left, not_true, false_or]
    -- what is left says when each of the three results comes of `n`
    refine ⟨fun o => ?_, ?_, fun e => ?_⟩ <;> grind
  · have missing : x.offset? p = .ok none := offset?_of_missing there
    have nothing : ∀ n, ¬StandsFor text p n := not_exists.mp there
    simp [missing, nothing]

/-- On the third line of the sample, which starts at 4, a column of 2 ^ 32 - 5 is behind the text, and
the one to the right of it is too far. -/
theorem column_at_limit : byteLength Sample.threeLines < 2 ^ 32 ∧
    (ofText Sample.threeLines).offset? ⟨2, 4294967291⟩ = .ok none ∧
    (ofText Sample.threeLines).offset? ⟨2, 4294967292⟩ = .error .tooLarge := by
  have fits : byteLength Sample.threeLines < 2 ^ 32 := by decide
  have third : StartsLine Sample.threeLines 2 4 := ⟨['é', '\n', '\n'], ['日'], rfl, .inr rfl, rfl, rfl⟩
  obtain ⟨-, none, -⟩ := position_maps_back_unless_too_large Sample.threeLines fits ⟨2, 4294967291⟩
  obtain ⟨-, -, refused⟩ := position_maps_back_unless_too_large Sample.threeLines fits ⟨2, 4294967292⟩
  refine ⟨fits, none.mpr (.inr ⟨2 ^ 32 - 1, ⟨4, third, rfl⟩, by decide, by decide⟩), ?_⟩
  exact (refused _).mpr ⟨rfl, 2 ^ 32, ⟨4, third, rfl⟩, Nat.le_refl _⟩

/-- In a text of one line feed, the last column that can be written stands for an offset far behind the
text on the second line. It is not answered that there is none. -/
theorem far_column_is_not_answered :
    StandsFor ['\n'] ⟨1, 4294967295⟩ (2 ^ 32) ∧ byteLength ['\n'] < 2 ^ 32 ∧
      (ofText ['\n']).offset? ⟨1, 4294967295⟩ = .error .tooLarge :=
  ⟨⟨1, ⟨['\n'], [], rfl, .inr rfl, rfl, rfl⟩, rfl⟩, by decide, by decide⟩

end LineIndex

end DeclFront
