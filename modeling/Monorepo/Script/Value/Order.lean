import Monorepo.Script.Value
import Monorepo.Sorting

/-!
# Order of values

Only values of one type have an order, and integers with floating-point numbers: numbers by size,
truth values with false first, texts by their characters, lists and tuples by their first unequal
items. So the order is partial, and two lists may be comparable although some of their items are
not.
-/

namespace Monorepo.Script

namespace Value

/-- The order of two floating-point numbers; a number that is none has no place in it. -/
def compareFloat (x y : Float) : Option Ordering :=
  if x < y then some .lt
  else if x == y then some .eq
  else if y < x then some .gt
  else Option.none

mutual

/-- How two values compare, if they do. -/
def compare? : Value → Value → Option Ordering
  | .int a, .int b => some (compare a b)
  | .float a, .float b => compareFloat a b
  | .int a, .float b => compareFloat (Float.ofInt a) b
  | .float a, .int b => compareFloat a (Float.ofInt b)
  | .bool a, .bool b => some (compare a b)
  | .text a, .text b => some (compare a b)
  | .list as, .list bs => compareItems? as bs
  | .tuple as, .tuple bs => compareItems? as bs
  | _, _ => Option.none

/-- How two lists compare: by their first items that are not equal in order, else by length. -/
def compareItems? : List Value → List Value → Option Ordering
  | [], [] => some .eq
  | [], _ :: _ => some .lt
  | _ :: _, [] => some .gt
  | a :: as, b :: bs =>
    match compare? a b with
    | some .eq => compareItems? as bs
    | other => other

end

end Value

/-! ## Sorting -/

/-- Why values are not sorted. -/
inductive SortFault
  /-- Two values do not compare: first the one that was asked to be the lesser. -/
  | incomparable (left right : ValueType)
  /-- The sorting noticed that the order which it was told is none. -/
  | disorder
deriving DecidableEq, Repr

/-- The order of two values as the sorting is told it: values that do not compare count as equal. -/
def Value.sortingOrder (a b : Value) : Ordering := (a.compare? b).getD .eq

/-- Whether `a` comes before `b`, as the sorting is told it. -/
def toldBefore (a b : Value) : Except SortFault Bool := .ok (a.sortingOrder b == .lt)

/-- Whether `a` comes before `b`. -/
def comesBefore (a b : Value) : Except SortFault Bool :=
  match a.compare? b with
  | some order => .ok (order == .lt)
  | none => .error (.incomparable a.type b.type)

/-- The values in ascending order. The sorting takes values that do not compare for equal ones and
    goes on. Only when it is done, the first two of them that it asked for are the answer, if there
    are such. -/
def sortValues (values : List Value) : Except SortFault (List Value) := do
  let sorted ← Sorting.sort .disorder toldBefore values
  match Sorting.sort .disorder comesBefore values with
  | .error (.incomparable left right) => .error (.incomparable left right)
  | _ => .ok sorted

end Monorepo.Script
