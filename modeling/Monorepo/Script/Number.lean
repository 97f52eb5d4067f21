import Monorepo.Script.EvalError
import Monorepo.Decimal.Binary64
import Monorepo.Decimal.Reading

/-!
# Arithmetic

Integers are exact and stay within 64 bits: an operation whose result does not fit is a fault. The
quotient of integers is a floating-point number; the floor quotient and the remainder that goes with
it are integers, and where the floor quotient does not fit there is no remainder either. If one
operand is a floating-point number, so is the other.
-/

namespace Monorepo.Script

/-- A number. -/
inductive Number
  /-- An integer. -/
  | int (value : Int)
  /-- A floating-point number. -/
  | float (value : Float)
deriving DecidableEq, Repr

/-- The number that a value is; truth values are zero and one. -/
def Value.number? : Value → Option Number
  | .int n => some (.int n)
  | .bool b => some (.int (if b then 1 else 0))
  | .float x => some (.float x)
  | _ => Option.none

namespace Number

/-- The number as a floating-point number. -/
def toFloat : Number → Float
  | .int n => Float.ofInt n
  | .float x => x

end Number

/-- An integer, unless it does not fit in 64 bits. -/
def checkInt (n : Int) : Except EvalFault Int :=
  match Decimal.int64? n with
  | some n => .ok n
  | none => .error .overflow

/-- The integer nearest to a floating-point number on the side of zero. -/
def truncateFloat (x : Float) : Except EvalFault Int :=
  match Decimal.Binary64.ofFloat x with
  | .finite d => checkInt d.truncate
  | .infinite _ => .error .overflow
  | .nan => .error .nanToInt

/-- Whether an operator divides. -/
def ArithmeticOp.divides : ArithmeticOp → Bool
  | .divide | .floorDivide | .modulo => true
  | _ => false

/-- An operation on two integers. -/
def intArithmetic (op : ArithmeticOp) (x y : Int) : Except EvalFault Value :=
  if op.divides && y == 0 then .error .divisionByZero
  else match op with
    | .add => (checkInt (x + y)).map .int
    | .subtract => (checkInt (x - y)).map .int
    | .multiply => (checkInt (x * y)).map .int
    | .divide => .ok (.float (Float.ofInt x / Float.ofInt y))
    | .floorDivide => (checkInt (x.fdiv y)).map .int
    | .modulo => (checkInt (x.fdiv y)).map fun _ => .int (x.fmod y)

/-- The remainder with the sign of the divisor. -/
def floatModulo (x y : Float) : Float :=
  let r := Decimal.remainderFloat x y
  if r != 0.0 && (r < 0.0) != (y < 0.0) then r + y else r

/-- An operation on two floating-point numbers. -/
def floatArithmetic (op : ArithmeticOp) (x y : Float) : Except EvalFault Value :=
  if op.divides && y == 0.0 then .error .floatDivisionByZero
  else .ok <| .float <| match op with
    | .add => x + y
    | .subtract => x - y
    | .multiply => x * y
    | .divide => x / y
    | .floorDivide => Decimal.floorFloat (x / y)
    | .modulo => floatModulo x y

/-- An operation on two numbers. -/
def arithmetic (op : ArithmeticOp) : Number → Number → Except EvalFault Value
  | .int x, .int y => intArithmetic op x y
  | a, b => floatArithmetic op a.toFloat b.toFloat

end Monorepo.Script
