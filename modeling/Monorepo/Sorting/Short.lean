/-!
# Sorting short lists

Every sorting here asks a test which of two values comes first, and ends where the test has no
answer. So it is fixed which values are compared, and in which order. A short list is sorted in two
halves, each by insertion, and the halves are merged from both ends at once. The answers of a test
that is no order can contradict each other there: then the two ends pass each other in one of the
halves, and the sorting ends with a fault of its own, which is called `disorder` throughout.
-/

namespace Monorepo.Sorting

/-- A test whether one value comes before another. It may have no answer but a fault. -/
abbrev Test (α ε : Type) := α → α → Except ε Bool

variable {α ε : Type}

/-! ## Insertion -/

/-- Inserts `a` into a list that descends: behind all values that are greater. -/
def insert (before : Test α ε) (a : α) : List α → Except ε (List α)
  | [] => .ok [a]
  | b :: bs => do
    if ← before a b then return b :: (← insert before a bs) else return a :: b :: bs

/-- Inserts one value after another into a list that descends. -/
def insertAll (before : Test α ε) (sorted : List α) : List α → Except ε (List α)
  | [] => .ok sorted
  | a :: rest => do insertAll before (← insert before a sorted) rest

/-- Two values in order. -/
def orderTwo (before : Test α ε) (a b : α) : Except ε (α × α) := do
  if ← before b a then return (b, a) else return (a, b)

/-- Four values in order. Two pairs are put in order; then their lesser values are compared, their
    greater ones, and at last the two that are neither the least nor the greatest. -/
def orderFour (before : Test α ε) (p q r s : α) : Except ε (List α) := do
  let (a, b) ← orderTwo before p q
  let (c, d) ← orderTwo before r s
  let lower ← before c a
  let higher ← before d b
  let (x, y) := match lower, higher with
    | false, false => (b, c)
    | false, true => (c, d)
    | true, false => (a, b)
    | true, true => (a, d)
  let (x, y) ← orderTwo before x y
  return [if lower then c else a, x, y, if higher then b else d]

/-- What insertion begins with, descending, and the values behind it: the first four values if so
    many are asked for, else the first one. -/
def startInsertion (before : Test α ε) (four : Bool) (items : List α) :
    Except ε (List α × List α) :=
  match four, items with
  | true, p :: q :: r :: s :: rest => do return ((← orderFour before p q r s).reverse, rest)
  | _, a :: rest => .ok ([a], rest)
  | _, [] => .ok ([], [])

/-! ## Merging from both ends -/

/-- An ascending list that is taken from at both ends. -/
structure Ends (α : Type) where
  /-- The values from the first one on that is not taken at the front. -/
  front : List α
  /-- The values from the last one down that is not taken at the back. -/
  back : List α
  /-- How many values are not taken. -/
  left : Nat

namespace Ends

/-- Nothing is taken. -/
def ofList (items : List α) : Ends α := ⟨items, items.reverse, items.length⟩

/-- The first value is taken. -/
def dropFirst (e : Ends α) : Ends α := ⟨e.front.tail, e.back, e.left - 1⟩

/-- The last value is taken. -/
def dropLast (e : Ends α) : Ends α := ⟨e.front, e.back.tail, e.left - 1⟩

/-- The values that are not taken. -/
def rest (e : Ends α) : List α := e.front.take e.left

end Ends

/-- Two ascending lists while they are merged from both ends. -/
structure Meeting (α : Type) where
  /-- What is left of the first list. -/
  as : Ends α
  /-- What is left of the second list. -/
  bs : Ends α
  /-- The values taken at the front, the last one first. -/
  low : List α
  /-- The values taken at the back, the last one first. -/
  high : List α

namespace Meeting

/-- Nothing is taken of two lists. -/
def ofLists (as bs : List α) : Meeting α := ⟨.ofList as, .ofList bs, [], []⟩

/-- Whether a value is taken from the second list, as the test says. The list has to have values
    left. -/
def choose (disorder : ε) (m : Meeting α) (second : Bool) : Except ε Bool :=
  if (if second then m.bs.left else m.as.left) = 0 then .error disorder else .ok second

/-- The first value of the second list, `b`, is taken, or that of the first one, `a`. -/
def takeLow (m : Meeting α) (second : Bool) (a b : α) : Meeting α :=
  if second then { m with bs := m.bs.dropFirst, low := b :: m.low }
  else { m with as := m.as.dropFirst, low := a :: m.low }

/-- The last value of the second list, `b`, is taken, or that of the first one, `a`. -/
def takeHigh (m : Meeting α) (second : Bool) (a b : α) : Meeting α :=
  if second then { m with bs := m.bs.dropLast, high := b :: m.high }
  else { m with as := m.as.dropLast, high := a :: m.high }

/-- The values taken at the front, what is left and the values taken at the back. -/
def result (m : Meeting α) : List α := m.low.reverse ++ m.as.rest ++ m.bs.rest ++ m.high

end Meeting

/-- Merges two ascending lists from both ends: a round takes the least value that is left and then
    the greatest. The test is asked even where one list has nothing left. -/
def mergeInward (disorder : ε) (before : Test α ε) : Nat → Meeting α → Except ε (List α)
  | 0, m => .ok m.result
  | rounds + 1, m =>
    match m.as.front, m.bs.front, m.as.back, m.bs.back with
    | a :: _, b :: _, a' :: _, b' :: _ => do
      let m := m.takeLow (← m.choose disorder (← before b a)) a b
      let m := m.takeHigh (← m.choose disorder !(← before b' a')) a' b'
      mergeInward disorder before rounds m
    | _, _, _, _ => .ok m.result

/-! ## Short lists -/

/-- The longest list that is called short. -/
def shortLimit : Nat := 32

/-- A short list in order; of equal values the earlier ones come first. -/
def sortShort (disorder : ε) (before : Test α ε) (items : List α) : Except ε (List α) := do
  let half := items.length / 2
  let four : Bool := items.length ≥ 8
  let (as, more) ← startInsertion before four (items.take half)
  let (bs, more') ← startInsertion before four (items.drop half)
  let as ← insertAll before as more
  let bs ← insertAll before bs more'
  mergeInward disorder before half (.ofLists as.reverse bs.reverse)

end Monorepo.Sorting
