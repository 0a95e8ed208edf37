/-!
# Ranges of bytes

Offsets into a text are counted in bytes and fit 32 bits. The offsets that reading a text yields
fit as the text does; where a caller puts offsets together, the sum may leave the 32 bits and a
range may be given the wrong way round, and then there is no result to go on with.
-/

set_option autoImplicit false

namespace DeclFront

/-- Why offsets cannot be put together. -/
inductive OffsetProblem where
  /-- The sum does not fit 32 bits. -/
  | tooLarge
  /-- The range would end before it starts. -/
  | reversed
  deriving DecidableEq

/-- The wording of the problem. -/
def OffsetProblem.message : OffsetProblem → String
  | tooLarge => "attempt to add with overflow"
  | reversed => "assertion failed: start.raw <= end.raw"

/-- The offset `distance` bytes behind another one. -/
def advanceOffset (offset distance : Nat) : Except OffsetProblem Nat :=
  if offset + distance < 0x100000000 then .ok (offset + distance) else .error .tooLarge

/-- The bytes from `start` up to but not including `stop`. -/
structure Range where
  start : Nat
  stop : Nat
  deriving DecidableEq

namespace Range

/-- The same range counted from `offset` bytes further left. -/
def shift (r : Range) (offset : Nat) : Range :=
  ⟨r.start + offset, r.stop + offset⟩

/-- The range between two offsets, which have to be in order. -/
def between (start stop : Nat) : Except OffsetProblem Range :=
  if start ≤ stop then .ok ⟨start, stop⟩ else .error .reversed

/-- The range of `length` bytes from `start` on. -/
def sized (start length : Nat) : Except OffsetProblem Range :=
  (advanceOffset start length).map (⟨start, ·⟩)

end Range

end DeclFront
