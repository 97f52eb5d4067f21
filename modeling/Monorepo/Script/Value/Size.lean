import Monorepo.Script.EvalError

/-!
# The size of values

A value is measured by a walk over everything reachable from it: items, keys, entries and receivers
of methods, each one level deeper than what holds it. What holds something counts before its parts
do, and later parts before earlier ones; the walk ends with the first limit that is passed.
-/

namespace Monorepo.Script

/-- The items of one list, tuple or dictionary, or the bytes of one text. -/
def maxSequence : Nat := 100000

/-- The total size of everything reachable from one value. -/
def maxSize : Nat := 1000000

/-- The levels of nesting of one value. -/
def maxDepth : Nat := 100

namespace Value

/-- What a value counts for by itself: the bytes of a text, the items of a container and one more,
    otherwise one. -/
def ownSize : Value → Nat
  | .text s => max s.utf8ByteSize 1
  | .stub trace => max trace.utf8ByteSize 1
  | .list items => items.length + 1
  | .tuple items => items.length + 1
  | .dict entries => entries.length + 1
  | _ => 1

/-- Adds what a value counts for by itself to `total`, unless the value passes a limit. -/
def addOwnSize (depth total : Nat) (v : Value) : Except EvalFault Nat :=
  let size := v.ownSize
  if depth > maxDepth then .error .tooDeep
  else if size > maxSequence + 1 then .error (.tooLong v.type (size - 1))
  else if total + size > maxSize then .error .tooLarge
  else .ok (total + size)

mutual

/-- Adds the size of a value at a depth to `total`. -/
def addSize (depth total : Nat) : Value → Except EvalFault Nat
  | .list items => do addSizes (depth + 1) (← addOwnSize depth total (.list items)) items
  | .tuple items => do addSizes (depth + 1) (← addOwnSize depth total (.tuple items)) items
  | .dict entries => do
    addEntrySizes (depth + 1) (← addOwnSize depth total (.dict entries)) entries
  | .method receiver name => do
    addSize (depth + 1) (← addOwnSize depth total (.method receiver name)) receiver
  | leaf => addOwnSize depth total leaf

/-- Adds the sizes of some values to `total`, the last one first. -/
def addSizes (depth total : Nat) : List Value → Except EvalFault Nat
  | [] => .ok total
  | value :: values => do addSize depth (← addSizes depth total values) value

/-- Adds the sizes of some entries to `total`, the last one first, and each value before its
    key. -/
def addEntrySizes (depth total : Nat) : List (Value × Value) → Except EvalFault Nat
  | [] => .ok total
  | (key, value) :: entries => do
    let total ← addEntrySizes depth total entries
    addSize depth (← addSize depth total value) key

end

/-- The size of a value, unless it passes a limit. -/
def measure (v : Value) : Except EvalFault Nat := v.addSize 1 0

/-- The value itself, unless it passes a limit. -/
def bounded (v : Value) : Except EvalFault Value := v.measure.map fun _ => v

end Value

end Monorepo.Script
