/-!
# Reading numerals

Digit strings in a base, signed integers in a range and decimal fractions with an exponent. Every
reader takes the whole text or answers `none`.
-/

namespace Monorepo.Decimal

/-- The value of a digit in a base up to 36, whatever its case. -/
def digitValue (base : Nat) (c : Char) : Option Nat :=
  let value :=
    if c.isDigit then some (c.toNat - '0'.toNat)
    else if c.isAlpha then some (c.toLower.toNat - 'a'.toNat + 10)
    else none
  value.filter (· < base)

/-- Appends the digits `cs` to the number `n`. -/
def appendDigits (base : Nat) : Nat → List Char → Option Nat
  | n, [] => some n
  | n, c :: cs => (digitValue base c).bind fun d => appendDigits base (n * base + d) cs

/-- The natural number written by `cs`, which must be digits and not empty. -/
def readNat? (base : Nat) : List Char → Option Nat
  | [] => none
  | cs => appendDigits base 0 cs

/-- What 64 bits cannot hold any more. -/
def wordLimit : Nat := 0x10000000000000000

/-- The least number of a signed 64-bit integer. -/
def minInt64 : Int := -0x8000000000000000

/-- The greatest number of a signed 64-bit integer. -/
def maxInt64 : Int := 0x7FFFFFFFFFFFFFFF

/-- `n` when it fits in a signed 64-bit integer. -/
def int64? (n : Int) : Option Int :=
  if minInt64 ≤ n ∧ n ≤ maxInt64 then some n else none

/-- The signed 64-bit integer with the last 64 bits of `n`. -/
def wrapInt64 (n : Int) : Int := n.bmod wordLimit

/-- A signed 64-bit integer in decimal, with an optional sign. -/
def readInt64? : List Char → Option Int
  | '-' :: cs => (readNat? 10 cs).bind fun n => int64? (-n)
  | '+' :: cs => (readNat? 10 cs).bind fun n => int64? n
  | cs => (readNat? 10 cs).bind fun n => int64? n

/-- Splits `cs` into its leading decimal digits and the rest. -/
def spanDigits (cs : List Char) : List Char × List Char :=
  (cs.takeWhile Char.isDigit, cs.dropWhile Char.isDigit)

/-- The exponent part: nothing, or an `e` with an optional sign and at least one digit. -/
def readExponent? : List Char → Option Int
  | [] => some 0
  | 'e' :: '-' :: cs => (readNat? 10 cs).map fun n => -(n : Int)
  | 'e' :: '+' :: cs => (readNat? 10 cs).map fun n => (n : Int)
  | 'e' :: cs => (readNat? 10 cs).map fun n => (n : Int)
  | _ => none

/-- The floating-point number nearest to `digits · 10 ^ exponent`. Exponents far outside the range
    are settled before any power is computed. -/
def nearestFloat (digits : Nat) (exponent : Int) : Float :=
  if digits = 0 then 0.0
  else
    let magnitude : Int := (Nat.toDigits 10 digits).length + exponent
    if magnitude > 400 then 1.0 / 0.0
    else if magnitude < -400 then 0.0
    else Float.ofScientific digits (exponent < 0) exponent.natAbs

/-- A decimal fraction without a sign: digits on at least one side of the point, which may be
    missing, and an optional exponent in lower case. -/
def readFloat? (cs : List Char) : Option Float :=
  let (whole, rest) := spanDigits cs
  let (fraction, rest) := match rest with
    | '.' :: more => spanDigits more
    | _ => ([], rest)
  if whole.isEmpty && fraction.isEmpty then none
  else
    (readExponent? rest).bind fun exponent =>
      (readNat? 10 (whole ++ fraction)).map fun digits =>
        nearestFloat digits (exponent - fraction.length)

end Monorepo.Decimal
