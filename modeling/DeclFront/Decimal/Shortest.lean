import DeclFront.Decimal.Binary64

/-!
# The fewest digits that read back

`Binary64.shortest` finds, for a positive finite number, the decimal with the fewest digits that
rounds to it, and of several such the one nearest to it. A decimal rounds to a number when it lies
between the middles to the two neighbouring numbers; the middles themselves belong to it when its
significand is even.

`Binary64.text` writes a number with these digits: positionally with at least one digit behind the
point, or with an exponent when the number is very large or very small.
-/

set_option autoImplicit false

namespace DeclFront

/-- The decimal `0.d₁d₂… * 10 ^ point` with the digits `d₁d₂…` of a natural number. -/
structure Decimal where
  digits : Nat
  point : Int
  deriving DecidableEq

namespace Binary64

/-- A positive number and the bounds of what rounds to it, over one denominator. -/
structure Interval where
  low : Nat
  value : Nat
  high : Nat
  unit : Nat
  closed : Bool

/-- The bounds of what rounds to `m * 2 ^ q`. Below a power of two the neighbour is half as far. -/
def interval (m : Nat) (q : Int) : Interval :=
  let up := Nat.pow 2 q.toNat
  let low := if m = Nat.pow 2 52 ∧ -1074 < q then 4 * m - 1 else 4 * m - 2
  ⟨low * up, 4 * m * up, (4 * m + 2) * up, 4 * Nat.pow 2 (-q).toNat, m % 2 = 0⟩

/-- Does `digits * 10 ^ e` round to the number? -/
def Interval.holds (x : Interval) (digits : Nat) (e : Int) : Bool :=
  let v := digits * Nat.pow 10 e.toNat * x.unit
  let low := x.low * Nat.pow 10 (-e).toNat
  let high := x.high * Nat.pow 10 (-e).toNat
  if x.closed then low ≤ v && v ≤ high else low < v && v < high

/-- The least `k` from `guess` on with the number below `10 ^ k`, looked for in `fuel` steps. -/
def Interval.pointFrom (x : Interval) (guess : Int) : Nat → Int
  | 0 => guess
  | fuel + 1 =>
    if x.value * Nat.pow 10 (-guess).toNat < x.unit * Nat.pow 10 guess.toNat then guess
    else x.pointFrom (guess + 1) fuel

/-- The nearest decimal with `n` digits that rounds to a number below `10 ^ point`. -/
def Interval.withDigits (x : Interval) (point : Int) (n : Nat) : Option Decimal :=
  let e := point - n
  let scaled := x.value * Nat.pow 10 (-e).toNat
  let grid := x.unit * Nat.pow 10 e.toNat
  let below := scaled / grid
  let answer (digits : Nat) : Decimal :=
    if digits = Nat.pow 10 n then ⟨1, point + 1⟩ else ⟨digits, point⟩
  match x.holds below e, x.holds (below + 1) e with
  | true, true => some (answer (if 2 * (scaled % grid) < grid then below else below + 1))
  | true, false => some (answer below)
  | false, true => some (answer (below + 1))
  | false, false => none

/-- The fewest digits from `n` on, looked for in `fuel` steps. Seventeen always suffice. -/
def Interval.fewest (x : Interval) (point : Int) (n : Nat) : Nat → Decimal
  | 0 => ⟨0, 0⟩
  | fuel + 1 =>
    match x.withDigits point n with
    | some d => d
    | none => x.fewest point (n + 1) fuel

/-- The shortest decimal that rounds to the positive finite number `m * 2 ^ q`. -/
def shortest (m : Nat) (q : Int) : Decimal :=
  let x := interval m q
  let guess := ((m.log2 : Int) + q) * 30103 / 100000 - 1
  let point := x.pointFrom guess 4
  x.fewest point 1 17

/-- The texts of a decimal outside these places of the point are written with an exponent. -/
def leastPoint : Int := -3

/-- The texts of a decimal outside these places of the point are written with an exponent. -/
def greatestPoint : Int := 16

/-- The digits of a number without the zeros at the end. -/
def significantDigits (n : Nat) : List Char :=
  (((Nat.toDigits 10 n).reverse.dropWhile (· == '0')).reverse)

/-- A decimal as text. -/
def decimalText (d : Decimal) : List Char :=
  let digits := significantDigits d.digits
  if d.point < leastPoint ∨ greatestPoint < d.point then
    let fraction := match digits with
      | _ :: rest@(_ :: _) => '.' :: rest
      | _ => []
    digits.take 1 ++ fraction ++ 'e' :: (toString (d.point - 1)).toList
  else if d.point ≤ 0 then
    '0' :: '.' :: List.replicate (-d.point).toNat '0' ++ digits
  else
    let place := d.point.toNat
    let whole := digits.take place ++ List.replicate (place - digits.length) '0'
    let fraction := digits.drop place
    whole ++ '.' :: (if fraction.isEmpty then ['0'] else fraction)

/-- A number as text. -/
def text (x : Binary64) : String :=
  let sign := if x.isNegative then ['-'] else []
  if x.magnitudeBits > infinityBits then "NaN"
  else if x.magnitudeBits = infinityBits then String.ofList (sign ++ ['i', 'n', 'f'])
  else if x.magnitudeBits = 0 then String.ofList (sign ++ ['0', '.', '0'])
  else String.ofList (sign ++ decimalText (shortest x.parts.1 x.parts.2))

end Binary64

end DeclFront
