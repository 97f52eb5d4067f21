import Monorepo.Script.Template
import Monorepo.Script.Value.Order

/-!
# Operators on values

What the operators of the language yield. An operation with a stub yields a stub, whatever the other
operand, except that equality is decided and `not` always yields a truth value.
-/

namespace Monorepo.Script

/-! ## Repetition and arithmetic -/

/-- How often something of `unit` parts is repeated, if the result is not too long. -/
def repeatCount (unit : Nat) (times : Int) : Except EvalFault Nat :=
  if times ≤ 0 then .ok 0
  else if unit * times.toNat > maxSequence then .error .repetitionSize
  else .ok times.toNat

/-- `items` one after another, `count` times. -/
def repeatItems {α : Type} (items : List α) (count : Nat) : List α :=
  if items.isEmpty then [] else (List.replicate count items).flatten

/-- A text repeated. -/
def repeatText (s : String) (times : Int) : Except EvalFault Value := do
  let count ← repeatCount s.utf8ByteSize times
  return .text (String.ofList (repeatItems s.toList count))

/-- A list repeated. -/
def repeatList (items : List Value) (times : Int) : Except EvalFault Value := do
  let count ← repeatCount items.length times
  return .list (repeatItems items count)

/-- An operation on two numbers, a fault for anything else. -/
def operateNumbers (op : ArithmeticOp) (left right : Value) : Except EvalFault Value :=
  match left.number?, right.number? with
  | some a, some b => arithmetic op a b
  | _, _ => .error (.unsupportedOperands op.symbol left.type right.type)

/-- An arithmetic operation. Texts and sequences of one type can be added, texts and lists
    multiplied with an integer on either side, and `%` fills a template. -/
def operate (op : ArithmeticOp) (left right : Value) : Except EvalFault Value :=
  match left, right with
  | .stub trace, right => .ok (.stub (Trace.operate trace op.symbol right))
  | left, .stub trace => .ok (.stub (Trace.reflect left op.symbol trace))
  | left, right =>
    match op, left, right with
    | .add, .text a, .text b => .ok (.text (a ++ b))
    | .add, .list as, .list bs => .ok (.list (as ++ bs))
    | .add, .tuple as, .tuple bs => .ok (.tuple (as ++ bs))
    | .multiply, .text s, .int n => repeatText s n
    | .multiply, .int n, .text s => repeatText s n
    | .multiply, .list items, .int n => repeatList items n
    | .multiply, .int n, .list items => repeatList items n
    | .modulo, .text template, operand => (Template.percent template operand).map .text
    | op, left, right => operateNumbers op left right

/-- An operation on one value. -/
def applyUnary (op : UnaryOp) (operand : Value) : Except EvalFault Value :=
  match op, operand with
  | .not, v => .ok (.bool !v.isTrue)
  | op, .stub trace => .ok (.stub (Trace.prefixed op.symbol trace))
  | .minus, .int n => (checkInt (-n)).map .int
  | .minus, .float x => .ok (.float (-x))
  | .minus, .bool b => .ok (.int (if b then -1 else 0))
  | .plus, .int n => .ok (.int n)
  | .plus, .float x => .ok (.float x)
  | .plus, .bool b => .ok (.int (if b then 1 else 0))
  | op, v => .error (.badOperand op.symbol v.type)

/-! ## Comparison and membership -/

/-- Whether a container holds an item: a text its parts, a dictionary its keys. -/
def contains (container item : Value) : Except EvalFault Bool :=
  match container with
  | .text s =>
    match item with
    | .text part => .ok (Text.holds part.toList s.toList)
    | other => .error (.textContainer other.type)
  | .list items => .ok (items.any (·.equals item))
  | .tuple items => .ok (items.any (·.equals item))
  | .dict entries => .ok (Entries.has entries item)
  | other => .error (.containerType other.type)

/-- The order of two values, which have to compare. -/
def orderOf (op : ComparisonOp) (left right : Value) : Except EvalFault Ordering :=
  match left.compare? right with
  | some order => .ok order
  | none => .error (.incomparable op.symbol left.type right.type)

/-- A comparison that no stub leaves open. -/
def decideComparison (op : ComparisonOp) (left right : Value) : Except EvalFault Bool :=
  match op with
  | .equal | .same => .ok (left.equals right)
  | .notEqual | .notSame => .ok !(left.equals right)
  | .within => contains right left
  | .notWithin => (contains right left).map (!·)
  | .less => (orderOf op left right).map (· == .lt)
  | .lessEqual => (orderOf op left right).map (· != .gt)
  | .greater => (orderOf op left right).map (· == .gt)
  | .greaterEqual => (orderOf op left right).map (· != .lt)

/-- Whether an operator asks for equality, which is decided for stubs as well. -/
def ComparisonOp.isEquality : ComparisonOp → Bool
  | .equal | .notEqual | .same | .notSame => true
  | _ => false

/-- A comparison. -/
def applyComparison (op : ComparisonOp) (left right : Value) : Except EvalFault Value :=
  if op.isEquality then (decideComparison op left right).map .bool
  else match left, right with
    | .stub trace, right => .ok (.stub (Trace.operate trace op.symbol right))
    | left, .stub trace => .ok (.stub (Trace.reflect left op.symbol trace))
    | left, right => (decideComparison op left right).map .bool

/-! ## Items -/

/-- The place that an index names in a sequence; negative indices count from the end. -/
def placeOf (index : Int) (length : Nat) : Option Nat :=
  let place := if index < 0 then index + length else index
  if 0 ≤ place ∧ place < length then some place.toNat else none

/-- The item at an index, or a fault. -/
def itemAt {α : Type} (fault : EvalFault) (items : List α) (index : Int) : Except EvalFault α :=
  match (placeOf index items.length).bind (items[·]?) with
  | some item => .ok item
  | none => .error fault

/-- An item of a value. -/
def subscript (object index : Value) : Except EvalFault Value :=
  match object, index with
  | .stub trace, index => .ok (.stub (Trace.index trace index))
  | object, .stub trace => .ok (.stub (Trace.index object.repr (.stub trace)))
  | .list items, .int n => itemAt .indexOutOfRange items n
  | .tuple items, .int n => itemAt .indexOutOfRange items n
  | .text s, .int n =>
    (itemAt .textIndexOutOfRange s.toList n).map fun c => .text (String.singleton c)
  | .dict entries, key =>
    match Entries.get? entries key with
    | some value => .ok value
    | none => .error (.keyNotFound key.repr)
  | .list _, index => .error (.indexType .list index.type)
  | .tuple _, index => .error (.indexType .tuple index.type)
  | .text _, index => .error (.indexType .text index.type)
  | object, _ => .error (.notSubscriptable object.type)

/-- A container with an item replaced or an entry inserted; a stub takes any assignment and stays
    what it is. -/
def replaceItem (container key value : Value) : Except EvalFault Value :=
  match container with
  | .dict entries => .ok (.dict (Entries.insert entries key value))
  | .list items =>
    match key with
    | .int n =>
      match placeOf n items.length with
      | some place => .ok (.list (items.set place value))
      | none => .error .listAssignmentOutOfRange
    | .stub _ => .ok container
    | other => .error (.indexType .list other.type)
  | .stub _ => .ok container
  | other => .error (.noItemAssignment other.type)

/-- The values that a value yields one by one. -/
def iterate (v : Value) : Except EvalFault (List Value) :=
  match v.items? with
  | some items => .ok items
  | none => .error (.notIterable v.type)

end Monorepo.Script
