/-!
# Floating-point numbers as exact dyadic fractions

A finite floating-point number is a natural number times a power of two, with a sign. The operations
here read that fraction from the bits, or write it back, and so round nothing.
-/

namespace Monorepo.Decimal

/-- The number `± mantissa · 2 ^ exponent`. -/
structure Dyadic where
  /-- Whether the sign is minus; zero has a sign too. -/
  negative : Bool
  /-- The absolute value in units of `2 ^ exponent`. -/
  mantissa : Nat
  /-- The exponent of the unit. -/
  exponent : Int
deriving DecidableEq, Repr

/-- What the bits of a floating-point number stand for. -/
inductive Binary64
  /-- A finite number. -/
  | finite (value : Dyadic)
  /-- An infinity with its sign. -/
  | infinite (negative : Bool)
  /-- Not a number. -/
  | nan
deriving DecidableEq, Repr

/-- The value of the sign bit. -/
def signUnit : Nat := 0x8000000000000000

/-- The value of the last bit of the exponent, which is one more than the greatest fraction. -/
def exponentUnit : Nat := 0x10000000000000

/-- Reads sign, exponent and fraction from the bits of `x`. -/
def Binary64.ofFloat (x : Float) : Binary64 :=
  let bits := x.toBits.toNat
  let negative := bits / signUnit = 1
  let exponent : Nat := bits / exponentUnit % 0x800
  let fraction := bits % exponentUnit
  if exponent = 0x7FF then
    if fraction = 0 then .infinite negative else .nan
  else if exponent = 0 then .finite ⟨negative, fraction, -1074⟩
  else .finite ⟨negative, fraction + exponentUnit, exponent - 1075⟩

namespace Dyadic

/-- The bits of a fraction whose mantissa has at most 53 digits and whose exponent is in range, so
    that it is one of the floating-point numbers. -/
def toFloat (d : Dyadic) : Float :=
  let sign := if d.negative then signUnit else 0
  let magnitude :=
    if d.mantissa = 0 then 0
    else
      let top := d.mantissa.log2
      let scale := d.exponent + top
      if scale ≥ -1022 then
        (scale + 1022).toNat * exponentUnit + d.mantissa * Nat.pow 2 (52 - top)
      else d.mantissa * Nat.pow 2 (d.exponent + 1074).toNat
  Float.ofBits (UInt64.ofNat (sign + magnitude))

/-- The greatest natural number not above the absolute value. -/
def wholePart (d : Dyadic) : Nat :=
  if d.exponent ≥ 0 then d.mantissa * Nat.pow 2 d.exponent.toNat
  else d.mantissa / Nat.pow 2 (-d.exponent).toNat

/-- Whether the number is an integer. -/
def isWhole (d : Dyadic) : Bool :=
  d.exponent ≥ 0 || d.mantissa % Nat.pow 2 (-d.exponent).toNat = 0

/-- The integer nearest to the number on the side of zero. -/
def truncate (d : Dyadic) : Int :=
  if d.negative then -(d.wholePart : Int) else d.wholePart

/-- The greatest integer not above the number. -/
def floor (d : Dyadic) : Int :=
  if d.negative && !d.isWhole then d.truncate - 1 else d.truncate

/-- The remainder of `a` by `b ≠ 0` that has the sign of `a` and is smaller than `b` in absolute
    value. -/
def remainder (a b : Dyadic) : Dyadic :=
  let unit := min a.exponent b.exponent
  let x := a.mantissa * Nat.pow 2 (a.exponent - unit).toNat
  let y := b.mantissa * Nat.pow 2 (b.exponent - unit).toNat
  ⟨a.negative, x % y, unit⟩

end Dyadic

/-- The greatest integral number not above `x`; what is not finite, or is integral, stays. -/
def floorFloat (x : Float) : Float :=
  match Binary64.ofFloat x with
  | .finite d => if d.isWhole then x else Float.ofInt d.floor
  | _ => x

/-- The remainder of `x` by `y` with the sign of `x`. -/
def remainderFloat (x y : Float) : Float :=
  match Binary64.ofFloat x, Binary64.ofFloat y with
  | .finite a, .finite b => if b.mantissa = 0 then x - x + 0.0 / 0.0 else (a.remainder b).toFloat
  | .finite _, .infinite _ => x
  | _, _ => 0.0 / 0.0

end Monorepo.Decimal
