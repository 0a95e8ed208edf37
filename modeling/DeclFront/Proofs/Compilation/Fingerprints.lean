import DeclFront.Compilation

/-!
# What a fingerprint tells apart

The fingerprint of a compilation depends on nothing but the words into which the bytes of its names
and texts are packed. Two compilations with the same words have the same fingerprint; if one word
differs and the others are the same, the fingerprints differ, since mixing in a word can be undone.

A piece of fewer than eight bytes is a word like any other, with zeros above it. So zeros at the end
of a text can be lost: `Fingerprint.textWords_append_nul`.
-/

set_option autoImplicit false

namespace DeclFront

namespace Fingerprint

/-- Words mixed in. -/
def addWords (h : Fingerprint) (ws : List UInt64) : Fingerprint :=
  ws.foldl addWord h

/-- The words of fewer than eight bytes. -/
def tailWords (bytes : List UInt8) : List UInt64 :=
  let rest₄ := if 4 ≤ bytes.length then bytes.drop 4 else bytes
  let rest₂ := if 2 ≤ rest₄.length then rest₄.drop 2 else rest₄
  (if 4 ≤ bytes.length then [littleEndian (bytes.take 4)] else []) ++
    (if 2 ≤ rest₄.length then [littleEndian (rest₄.take 2)] else []) ++ rest₂.map UInt8.toUInt64

/-- The words of bytes. -/
def byteWords : List UInt8 → List UInt64
  | b₀ :: b₁ :: b₂ :: b₃ :: b₄ :: b₅ :: b₆ :: b₇ :: rest =>
    littleEndian [b₀, b₁, b₂, b₃, b₄, b₅, b₆, b₇] :: byteWords rest
  | short => tailWords short

/-- The words of a text, the one at its end included. -/
def textWords (s : String) : List UInt64 :=
  byteWords (s.toList.flatMap String.utf8EncodeChar) ++ [0xff]

section Words

variable (h : Fingerprint)

/-- The words of one list are mixed in before those of the next. -/
theorem addWords_append (us vs : List UInt64) :
    h.addWords (us ++ vs) = (h.addWords us).addWords vs :=
  List.foldl_append

/-- Fewer than eight bytes are mixed in as their words are. -/
theorem addTail_eq (bytes : List UInt8) : h.addTail bytes = h.addWords (tailWords bytes) := by
  unfold addTail tailWords addWords
  dsimp only
  rw [List.foldl_append, List.foldl_append, List.foldl_map]
  split <;> split <;> rfl

/-- Bytes are mixed in as their words are, by induction on groups of eight. -/
theorem addBytes_eq (bytes : List UInt8) : h.addBytes bytes = h.addWords (byteWords bytes) := by
  fun_induction byteWords bytes generalizing h with
  | case1 b₀ b₁ b₂ b₃ b₄ b₅ b₆ b₇ rest ih => exact ih _
  | case2 short long =>
    unfold addBytes
    split
    · exact absurd rfl (long _ _ _ _ _ _ _ _ _)
    · exact h.addTail_eq _

/-- A text is mixed in as its words are, the closing one included. -/
theorem addText_eq (s : String) : h.addText s = h.addWords (textWords s) := by
  rw [textWords, addWords_append, ← addBytes_eq]
  rfl

end Words

/-! ### A single word shows -/

/-- The two shifts make a rotation by five bits, so nothing is lost. -/
theorem toBitVec_rotate (w : UInt64) : (rotate w).toBitVec = w.toBitVec.rotateLeft 5 := by
  simp [rotate, BitVec.rotateLeft_def]

/-- The bit at `i` moves to the bit five above it, around the end of the word. -/
theorem rotate_injective : Function.Injective rotate := by
  intro v w h
  have bits := congrArg UInt64.toBitVec h
  rw [toBitVec_rotate, toBitVec_rotate] at bits
  refine UInt64.toBitVec_inj.mp (BitVec.eq_of_getLsbD_eq fun i hi => ?_)
  by_cases low : i < 59
  · have bit := congrArg (·.getLsbD (i + 5)) bits
    have bound : i + 5 < 64 := by omega
    have inside : ¬i + 5 < 5 := by omega
    simpa [BitVec.getLsbD_rotateLeft, bound, inside, hi] using bit
  · have bit := congrArg (·.getLsbD (i - 59)) bits
    have bound : i - 59 < 5 := by omega
    have place : 59 + (i - 59) = i := by omega
    simpa [BitVec.getLsbD_rotateLeft, bound, place] using bit

/-- What the fixed odd number has to be multiplied with to give one. -/
def inverse : UInt64 := 0x2040003d780970bd

/-- Multiplying by the odd number can be undone, since it has an inverse modulo a power of two. -/
theorem mul_multiplier_injective : Function.Injective fun w : UInt64 => w * multiplier := by
  have undone (w : UInt64) : w * multiplier * inverse = w := by
    rw [UInt64.mul_assoc, show multiplier * inverse = 1 by decide, UInt64.mul_one]
  exact fun v w h => (undone v).symm.trans ((congrArg (· * inverse) h).trans (undone w))

/-- Mixing a word in can be undone: different states stay different. -/
theorem addWord_injective (w : UInt64) : Function.Injective fun h : Fingerprint => h.addWord w := by
  rintro ⟨v₁⟩ ⟨v₂⟩ h
  have mixed := mul_multiplier_injective (congrArg word h)
  exact congrArg mk (rotate_injective ((UInt64.xor_left_inj w).mp mixed))

/-- Different words make different states of one state. -/
theorem addWord_word_injective (h : Fingerprint) : Function.Injective h.addWord := by
  intro v w same
  exact (UInt64.xor_right_inj _).mp (mul_multiplier_injective (congrArg word same))

/-- Mixing in any words can be undone, by induction on them. -/
theorem addWords_injective (ws : List UInt64) :
    Function.Injective fun h : Fingerprint => h.addWords ws := by
  induction ws with
  | nil => exact fun _ _ h => h
  | cons w ws ih => exact fun _ _ h => addWord_injective w (ih h)

/-- One different word among words that are the same makes another fingerprint. -/
theorem addWords_ne_of_one (h : Fingerprint) {a b : UInt64} (ne : a ≠ b) (us vs : List UInt64) :
    h.addWords (us ++ a :: vs) ≠ h.addWords (us ++ b :: vs) := by
  intro same
  rw [addWords_append, addWords_append] at same
  exact ne (addWord_word_injective _ (addWords_injective vs same))

/-! ### A zero at the end may not show -/

/-- Where a single byte is left over, it makes the same word with a zero behind it. -/
theorem tailWords_append_zero {bytes : List UInt8} (short : bytes.length < 8)
    (h : bytes.length % 4 = 1) : tailWords (bytes ++ [0]) = tailWords bytes := by
  have length : bytes.length = 1 ∨ bytes.length = 5 := by omega
  rcases length with one | five
  · obtain ⟨a, rfl⟩ := List.length_eq_one_iff.mp one
    simp [tailWords, littleEndian]
  · obtain ⟨a, b, c, d, e, rfl⟩ : ∃ a b c d e, bytes = [a, b, c, d, e] := by
      match bytes, five with
      | [a, b, c, d, e], _ => exact ⟨a, b, c, d, e, rfl⟩
    simp [tailWords, littleEndian]

/-- Fewer than eight bytes are all left over. -/
theorem byteWords_of_length_lt {bytes : List UInt8} (h : bytes.length < 8) :
    byteWords bytes = tailWords bytes := by
  unfold byteWords
  split
  · simp only [List.length_cons] at h
    omega
  · rfl

/-- A zero behind a piece of one byte makes a piece of two with the same word. -/
theorem byteWords_append_zero {bytes : List UInt8} (h : bytes.length % 4 = 1) :
    byteWords (bytes ++ [0]) = byteWords bytes := by
  induction hn : bytes.length using Nat.strongRecOn generalizing bytes with
  | ind n ih =>
    match bytes, hn with
    | b₀ :: b₁ :: b₂ :: b₃ :: b₄ :: b₅ :: b₆ :: b₇ :: rest, hn =>
      simp only [List.length_cons] at h hn
      have shorter := ih rest.length (by omega) (by omega) rfl
      exact congrArg (littleEndian [b₀, b₁, b₂, b₃, b₄, b₅, b₆, b₇] :: ·) shorter
    | [_], _ | [_, _, _, _, _], _ =>
      rw [byteWords_of_length_lt (by simp), byteWords_of_length_lt (by simp)]
      exact tailWords_append_zero (by simp) h
    | [], _ | [_, _], _ | [_, _, _], _ | [_, _, _, _], _ | [_, _, _, _, _, _], _
    | [_, _, _, _, _, _, _], _ => simp at h

/-- A text of a byte more than a multiple of four has the same words with a zero behind it. -/
theorem textWords_append_nul {s : String}
    (h : (s.toList.flatMap String.utf8EncodeChar).length % 4 = 1) :
    textWords (s ++ "\x00") = textWords s := by
  have bytes : (s ++ "\x00").toList.flatMap String.utf8EncodeChar =
      s.toList.flatMap String.utf8EncodeChar ++ [0] := by
    rw [String.toList_append, List.flatMap_append]
    congr 1
  rw [textWords, textWords, bytes, byteWords_append_zero h]

end Fingerprint

namespace Compilation

/-- The names and texts of the inputs. -/
def texts (c : Compilation) : List (String × String) :=
  c.inputs.map fun f => (f.name, f.text)

/-- The words of the names and texts of the inputs. -/
def words (c : Compilation) : List UInt64 :=
  c.texts.flatMap fun t => Fingerprint.textWords t.1 ++ Fingerprint.textWords t.2

/-- The fingerprint depends on the words alone. -/
theorem fingerprint_eq (c : Compilation) : c.fingerprint = Fingerprint.empty.addWords c.words := by
  unfold fingerprint words texts
  generalize Fingerprint.empty = h
  induction c.inputs generalizing h with
  | nil => rfl
  | cons f fs ih =>
    rw [List.foldl_cons, ih, List.map_cons, List.flatMap_cons, Fingerprint.addWords_append,
      Fingerprint.addWords_append, ← Fingerprint.addText_eq, ← Fingerprint.addText_eq]
    rfl

/-- If all words but one are the same, the fingerprints differ. -/
theorem fingerprint_ne_of_one_word {c d : Compilation} {us vs : List UInt64} {a b : UInt64}
    (hc : c.words = us ++ a :: vs) (hd : d.words = us ++ b :: vs) (ne : a ≠ b) :
    c.fingerprint ≠ d.fingerprint := by
  rw [fingerprint_eq, fingerprint_eq, hc, hd]
  exact Fingerprint.addWords_ne_of_one _ ne us vs

end Compilation

end DeclFront
