import Monorepo.Script.Methods

/-!
# Predefined functions

The predefined functions that compute a value from their arguments alone.
-/

namespace Monorepo.Script

/-- The length of a value. -/
def lengthOf (arguments : List Value) : Except EvalFault Value := do
  let [value] := arguments | throw (.exactlyOne "len")
  match value with
  | .text s => return .int s.length
  | .list items => return .int items.length
  | .tuple items => return .int items.length
  | .dict entries => return .int entries.length
  | other => throw (.noLength other.type)

/-- The integer that a text spells, with blanks around it and underscores in it. -/
def readInteger? (s : String) : Option Int :=
  Decimal.readInt64? ((Text.dropEnds Text.isBlank s.toList).filter (· != '_'))

/-- The integer of a number or text. -/
def toInteger (arguments : List Value) : Except EvalFault Value :=
  match arguments with
  | [] => .ok (.int 0)
  | [.int n] => .ok (.int n)
  | [.bool b] => .ok (.int (if b then 1 else 0))
  | [.float x] => (truncateFloat x).map .int
  | [.text s] =>
    match readInteger? s with
    | some n => .ok (.int n)
    | none => .error (.invalidInteger (Value.text s).repr)
  | [other] => .error (.notANumber other.type)
  | _ => .error (.atMostOne "int")

/-- The text of a value. -/
def toText (arguments : List Value) : Except EvalFault Value :=
  match arguments with
  | [] => .ok (.text "")
  | [value] => .ok (.text value.display)
  | _ => .error (.atMostOne "str")

/-- The items of the only argument, if there is one. -/
def itemsOfArgument (function : String) (arguments : List Value) : Except EvalFault (List Value) :=
  match arguments with
  | [] => .ok []
  | [value] => iterate value
  | _ => .error (.atMostOne function)

/-- The items that equal none before them; `kept` are those kept so far, the last one first. -/
def distinctFrom (kept : List Value) : List Value → List Value
  | [] => kept.reverse
  | item :: items =>
    if kept.any (·.equals item) then distinctFrom kept items else distinctFrom (item :: kept) items

/-- The items that equal none before them. -/
def distinct (items : List Value) : List Value := distinctFrom [] items

/-- Inserts pairs into a dictionary. -/
def insertPairs (entries : Entries) : List Value → Except EvalFault Entries
  | [] => .ok entries
  | pair :: pairs =>
    match pair.items? with
    | some [key, value] => insertPairs (entries.insert key value) pairs
    | _ => .error .notAPair

/-- A dictionary from another one or from pairs, and from keywords. -/
def toDict (arguments : List Value) (keywords : Keywords) : Except EvalFault Value := do
  let entries ← match arguments with
    | [] => pure []
    | [.dict entries] => pure entries
    | [pairs] => insertPairs [] (← iterate pairs)
    | _ => throw (.atMostOnePositional "dict")
  return .dict (Entries.insertAll entries (keywords.map fun (name, value) => (.text name, value)))

/-- The items of a value in order, or against it. Where the sorting notices that the order which it
    was told is none, nothing takes that fault from it: the program is aborted. -/
def sorted (arguments : List Value) (keywords : Keywords) : Except EvalFault Value := do
  let [source] := arguments | throw (.exactlyOnePositional "sorted")
  if let some (name, _) := keywords.find? fun (name, _) => name != "reverse" then
    throw (.unexpectedKeyword "sorted" name)
  match sortValues (← iterate source) with
  | .error .disorder => throw .aborted
  | .error (.incomparable left right) => throw (.incomparable "<" left right)
  | .ok items =>
    let reverse := (Keywords.get? keywords "reverse").any Value.isTrue
    return .list (if reverse then items.reverse else items)

/-- How many numbers there are from `start` in steps of `step` before `stop` is reached. -/
def rangeLength (start stop step : Int) : Nat :=
  if step > 0 ∧ start < stop then ((stop - start - 1) / step + 1).toNat
  else if step < 0 ∧ start > stop then ((start - stop - 1) / -step + 1).toNat
  else 0

/-- An argument of `range`. -/
def rangeBound (argument : Value) : Except EvalFault Int :=
  match argument.number? with
  | some (.int n) => .ok n
  | _ => .error (.rangeType argument.type)

/-- The numbers from `start` in steps of `step` before `stop` is reached. They are computed in wider
    numbers and then cut down to 64 bits. -/
def rangeList (start stop step : Int) : Except EvalFault Value :=
  if step = 0 then .error .rangeStep
  else
    let length := rangeLength start stop step
    if length > maxSequence then .error (.rangeSize length)
    else .ok (.list ((List.range length).map fun i : Nat =>
      .int (Decimal.wrapInt64 (start + i * step))))

/-- The numbers between bounds. -/
def range (arguments : List Value) : Except EvalFault Value := do
  match ← arguments.mapM rangeBound with
  | [stop] => rangeList 0 stop 1
  | [start, stop] => rangeList start stop 1
  | [start, stop, step] => rangeList start stop step
  | _ => throw .rangeCount

/-- File patterns: each marked with the letter of its flavour, and behind them the leaves to
    exclude, each with a minus sign behind it. -/
def glob (kind : GlobKind) (arguments : List Value) (keywords : Keywords) :
    Except EvalFault Value := do
  let patterns := arguments.map fun pattern =>
    Value.text ("|" ++ kind.letter ++ "|" ++ pattern.display)
  let excluded : List Value := match Keywords.get? keywords "exclude" with
    | some value => value.leaves.filter fun leaf : Value => leaf.type != ValueType.none
    | none => []
  let marked ← excluded.mapM fun leaf => operate .add leaf (.text "-")
  return .list (patterns ++ marked)

end Monorepo.Script
