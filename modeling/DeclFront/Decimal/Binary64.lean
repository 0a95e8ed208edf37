/-!
# Binary floating point

The numbers of the 64-bit binary format as words: a sign bit, eleven bits of exponent and fifty-two
bits of fraction. A ratio is rounded to the nearest such number, and a ratio half way between two to
the one whose last bit is zero; what is too large becomes infinite. All arithmetic is exact
arithmetic on natural numbers.
-/

set_option autoImplicit false

namespace DeclFront

/-- A number of the 64-bit binary format, as its bits. -/
structure Binary64 where
  bits : UInt64
  deriving DecidableEq

namespace Binary64

/-- The bits of positive infinity. -/
def infinityBits : Nat := 0x7FF0000000000000

/-- The quotient nearest to `n / d`, and of two equally near ones the even one. -/
def divideEven (n d : Nat) : Nat :=
  let q := n / d
  let r := n % d
  if 2 * r < d then q
  else if d < 2 * r then q + 1
  else if q % 2 = 0 then q else q + 1

/-- The bits of the magnitude nearest to `n / d`.

The exponent `q` is chosen so that `n / d` lies between `2 ^ (q + 52)` and `2 ^ (q + 53)`, but not
below the least exponent of the format; it is stored with 1074 added. A significand that rounds up
to `2 ^ 53` carries into the stored exponent by itself. -/
def magnitude (n d : Nat) : Nat :=
  if n = 0 then 0
  else
    let guess : Int := (n.log2 : Int) - (d.log2 : Int) - 52
    let below (q : Int) : Bool :=
      n * Nat.pow 2 (-q).toNat < d * Nat.pow 2 q.toNat * Nat.pow 2 52
    let exact : Int := if below guess then guess - 1 else guess
    let q : Int := max exact (-1074)
    let significand := divideEven (n * Nat.pow 2 (-q).toNat) (d * Nat.pow 2 q.toNat)
    min ((q + 1074).toNat * Nat.pow 2 52 + significand) infinityBits

/-- The number nearest to a ratio with a sign. -/
def ofRatio (negative : Bool) (n d : Nat) : Binary64 :=
  ⟨UInt64.ofNat ((if negative then Nat.pow 2 63 else 0) + magnitude n d)⟩

/-- The number nearest to `digits * 10 ^ exponent` with a sign. -/
def ofDecimal (negative : Bool) (digits : Nat) (exponent : Int) : Binary64 :=
  ofRatio negative (digits * Nat.pow 10 exponent.toNat) (Nat.pow 10 (-exponent).toNat)

/-- The number nearest to an integer. -/
def ofInt (i : Int) : Binary64 :=
  ofRatio (i < 0) i.natAbs 1

/-- The sign bit. -/
def isNegative (x : Binary64) : Bool :=
  Nat.pow 2 63 ≤ x.bits.toNat

/-- The bits without the sign. -/
def magnitudeBits (x : Binary64) : Nat :=
  x.bits.toNat % Nat.pow 2 63

/-- The significand `m` and exponent `q` of a finite number, whose magnitude is `m * 2 ^ q`. -/
def parts (x : Binary64) : Nat × Int :=
  let stored : Nat := x.magnitudeBits / Nat.pow 2 52
  let fraction : Nat := x.magnitudeBits % Nat.pow 2 52
  if stored = 0 then (fraction, -1074) else (Nat.pow 2 52 + fraction, (stored : Int) - 1075)

end Binary64

end DeclFront
