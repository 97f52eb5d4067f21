import Monorepo.Decimal.Binary64

/-!
# The shortest decimal that reads back

Among the decimals that round to a given positive floating-point number, those with the fewest
digits are preferred, and of these the nearest. On the grid of decimals with `n` digits the two
neighbours of the number are the only candidates: whenever some point of the grid rounds to the
number, so does one of its neighbours.
-/

namespace Monorepo.Decimal

/-- The decimal `digits · 10 ^ exponent`. -/
structure Scientific where
  /-- The digits, read as a natural number. -/
  digits : Nat
  /-- The exponent of the last digit. -/
  exponent : Int
deriving DecidableEq, Repr

/-- The reals that round to a number `value / scale > 0`: from `low / scale` to `high / scale`, the
    ends included when `closed`. -/
structure Interval where
  /-- The number itself. -/
  value : Nat
  /-- The lower end. -/
  low : Nat
  /-- The upper end. -/
  high : Nat
  /-- The common denominator. -/
  scale : Nat
  /-- Whether the ends round to the number as well. -/
  closed : Bool

namespace Interval

/-- The interval of a positive floating-point number. The gap below a power of two is half the gap
    above it, except at the bottom of the range; a tie goes to the even mantissa. -/
def ofDyadic (d : Dyadic) : Interval :=
  let up := Nat.pow 2 d.exponent.toNat
  let down := Nat.pow 2 (-d.exponent).toNat
  let below := if d.mantissa = exponentUnit ∧ d.exponent > -1074 then 1 else 2
  { value := 4 * d.mantissa * up, low := (4 * d.mantissa - below) * up
    high := (4 * d.mantissa + 2) * up, scale := 4 * down, closed := d.mantissa % 2 = 0 }

/-- Whether the real `n / m` lies in the interval. -/
def holds (i : Interval) (n m : Nat) : Bool :=
  if i.closed then i.low * m ≤ n * i.scale && n * i.scale ≤ i.high * m
  else i.low * m < n * i.scale && n * i.scale < i.high * m

/-- The exponent of the leading decimal digit, found from a first guess by steps of one. -/
def leadingExponent (i : Interval) : Int :=
  let fits (e : Int) : Bool :=
    if e ≥ 0 then i.scale * Nat.pow 10 e.toNat ≤ i.value
    else i.scale ≤ i.value * Nat.pow 10 (-e).toNat
  let guess : Int := ((i.value.log2 : Int) - i.scale.log2) * 30103 / 100000
  if fits (guess + 1) then guess + 1 else if fits guess then guess else guess - 1

/-- The neighbour of the number among the multiples of `10 ^ e` that rounds to it, the nearer one if
    both do; of two equally near ones the greater. -/
def onGrid (i : Interval) (e : Int) : Option Nat :=
  let up := Nat.pow 10 e.toNat
  let down := Nat.pow 10 (-e).toNat
  let floor := i.value * down / (i.scale * up)
  let rest := i.value * down % (i.scale * up)
  let lowHits := floor > 0 && i.holds (floor * up) down
  let highHits := i.holds ((floor + 1) * up) down
  if lowHits && highHits then
    if 2 * rest < i.scale * up then some floor else some (floor + 1)
  else if lowHits then some floor
  else if highHits then some (floor + 1)
  else none

/-- Tries the grids of `n`, `n + 1`, … digits, at most `fuel` of them. -/
def search (i : Interval) (leading : Int) : Nat → Nat → Scientific
  | 0, _ => ⟨i.value / i.scale, 0⟩
  | fuel + 1, n =>
    match i.onGrid (leading - n) with
    | some digits => ⟨digits, leading - n⟩
    | none => search i leading fuel (n + 1)

end Interval

/-- Drops the trailing zeros of the digits, at most `fuel` of them. -/
def Scientific.trim : Nat → Scientific → Scientific
  | 0, d => d
  | fuel + 1, d =>
    if d.digits ≠ 0 ∧ d.digits % 10 = 0 then trim fuel ⟨d.digits / 10, d.exponent + 1⟩ else d

/-- The shortest decimal that rounds to `d > 0`; 17 digits always suffice. -/
def Scientific.shortest (d : Dyadic) : Scientific :=
  let i := Interval.ofDyadic d
  Scientific.trim 20 (i.search i.leadingExponent 18 0)

/-- The decimal in positional notation. -/
def Scientific.positional (d : Scientific) : String :=
  let digits := (Nat.toDigits 10 d.digits)
  if d.exponent ≥ 0 then String.ofList (digits ++ List.replicate d.exponent.toNat '0')
  else
    let places := (-d.exponent).toNat
    let padded := List.replicate (places + 1 - digits.length) '0' ++ digits
    let whole := padded.length - places
    String.ofList (padded.take whole ++ '.' :: padded.drop whole)

/-- From here on an integral number has no fraction. -/
def wholeLimit : Nat := 10000000000000000

/-- The text of a floating-point number: an integral one below `10 ^ 16` in absolute value ends in
    `.0`, any other finite one is the shortest decimal that reads back, without an exponent. -/
def floatText (x : Float) : String :=
  match Binary64.ofFloat x with
  | .nan => "NaN"
  | .infinite negative => if negative then "-inf" else "inf"
  | .finite d =>
    let sign := if d.negative then "-" else ""
    if d.isWhole && d.wholePart < wholeLimit then sign ++ toString d.wholePart ++ ".0"
    else sign ++ (Scientific.shortest d).positional

end Monorepo.Decimal
