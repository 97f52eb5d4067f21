import Monorepo.Script.Number
import Monorepo.Script.Value.Equality
import Monorepo.Script.Value.Text
import Monorepo.Script.Value.Size
import Monorepo.Text.Pieces

/-!
# Templates

Two small languages fill values into a text. In the first a field stands in braces and names an
argument, by its position, by its name or, when empty, as the next one; doubled braces stand for
themselves. In the second a percent sign and a letter stand for the next value; a doubled percent
sign stands for itself.
-/

namespace Monorepo.Script

namespace Template

/-- The position that a field names: digits, behind a plus sign or not. -/
def position? (key : List Char) : Option Nat :=
  let digits := match key with
    | '+' :: digits => digits
    | digits => digits
  (Decimal.readNat? 10 digits).filter (· < Decimal.wordLimit)

/-- The argument that a field names, where `next` is the next position, and the position after
    it. -/
def argument (arguments : List Value) (keywords : Keywords) (next : Nat) (field : List Char) :
    Option Value × Nat :=
  let key := field.takeWhile fun c => c != ':' && c != '!'
  if key.isEmpty then (arguments[next]?, next + 1)
  else match position? key with
    | some position => (arguments[position]?, next)
    | none => (keywords.get? (String.ofList key), next)

/-- Fills a field behind `out`: as a literal if the field says so. -/
def fill (arguments : List Value) (keywords : Keywords) (next : Nat) (field : List Char)
    (out : String) : Except EvalFault (Nat × String) :=
  match argument arguments keywords next field with
  | (some value, next) =>
    let out := out ++ if Text.holds ['!', 'r'] field then value.repr else value.display
    if out.utf8ByteSize > maxSequence then .error (.resultSize "format") else .ok (next, out)
  | (none, _) => .error (.unmatchedField (String.ofList field))

/-- Fills the fields of a template. Inside a field, what was read of it stands in reverse; `next` is
    the position of the next argument and `out` what was written. -/
def formatFrom (arguments : List Value) (keywords : Keywords) :
    Option (List Char) → Nat → String → List Char → Except EvalFault String
  | some _, _, _, [] => .error .openBrace
  | some field, next, out, '}' :: cs => do
    let (next, out) ← fill arguments keywords next field.reverse out
    formatFrom arguments keywords none next out cs
  | some field, next, out, c :: cs => formatFrom arguments keywords (some (c :: field)) next out cs
  | none, _, out, [] => .ok out
  | none, next, out, '{' :: '{' :: cs => formatFrom arguments keywords none next (out.push '{') cs
  | none, next, out, '}' :: '}' :: cs => formatFrom arguments keywords none next (out.push '}') cs
  | none, next, out, '{' :: cs => formatFrom arguments keywords (some []) next out cs
  | none, _, _, '}' :: _ => .error .closingBrace
  | none, next, out, c :: cs => formatFrom arguments keywords none next (out.push c) cs

theorem formatFrom_plain (arguments : List Value) (keywords : Keywords) {c : Char} (hopen : c ≠ '{')
    (hclose : c ≠ '}') (next : Nat) (out : String) (cs : List Char) :
    formatFrom arguments keywords none next out (c :: cs) =
      formatFrom arguments keywords none next (out.push c) cs :=
  formatFrom.eq_9 _ _ _ _ _ _ (fun _ h => absurd h hopen) (fun _ h => absurd h hclose) hopen hclose

/-- Fills the fields in braces. -/
def format (template : String) (arguments : List Value) (keywords : Keywords) :
    Except EvalFault String :=
  formatFrom arguments keywords none 0 "" template.toList

/-- The text of a value under a conversion. -/
def convert (conversion : Char) (value : Value) : Except EvalFault String :=
  if conversion = 's' then .ok value.display
  else if conversion = 'r' then .ok value.repr
  else if conversion = 'd' ∨ conversion = 'i' then
    match value.number? with
    | some (.int n) => .ok (toString n)
    | some (.float x) => (truncateFloat x).map toString
    | none => .error (.conversionNumber conversion value.type)
  else .error (.unknownConversion conversion)

/-- Fills values behind percent signs; `out` is what was written. -/
def percentFrom : List Value → String → List Char → Except EvalFault String
  | [], out, [] => .ok out
  | _ :: _, _, [] => .error .unusedConversionValue
  | _, _, ['%'] => .error .incompleteConversion
  | values, out, '%' :: '%' :: cs => percentFrom values (out.push '%') cs
  | [], _, '%' :: _ :: _ => .error .missingConversionValue
  | value :: values, out, '%' :: conversion :: cs => do
    percentFrom values (out ++ (← convert conversion value)) cs
  | values, out, c :: cs => percentFrom values (out.push c) cs

theorem percentFrom_plain {c : Char} (hc : c ≠ '%') (values : List Value) (out : String)
    (cs : List Char) : percentFrom values out (c :: cs) = percentFrom values (out.push c) cs :=
  percentFrom.eq_7 _ _ _ _ (fun h => absurd h hc) (fun _ h => absurd h hc)
    (fun _ _ _ h => absurd h hc) (fun _ _ _ _ _ h => absurd h hc)

/-- Fills the items of a tuple, or a single value, behind percent signs. -/
def percent (template : String) (operand : Value) : Except EvalFault String :=
  let values := match operand with
    | .tuple items => items
    | value => [value]
  percentFrom values "" template.toList

end Template

end Monorepo.Script
