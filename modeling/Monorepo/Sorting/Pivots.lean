import Monorepo.Sorting.Runs

/-!
# Sorting by pivots

A long list without order is split at one of its values, the pivot, and both parts are sorted in the
same way. A pivot that equals the one to the left of its part is the least value there, so all that
equal it are split off at once. Where too many splits were needed the list is sorted by runs.
-/

namespace Monorepo.Sorting

variable {α ε : Type}

/-- The one of three values that lies between the others. -/
def middleOf {β : Type} (before : Test β ε) (a b c : β) : Except ε β := do
  let left ← before a b
  let right ← before a c
  if left == right then
    let between ← before b c
    return if between != left then c else b
  else return a

/-- A value for `length` values from the place `start` on, and its place. Each level takes the
    middle one of the values for three eighths of them: the first, the fifth and the last; below all
    levels the first value stands for the others. A place outside of the list counts as `first`. -/
def representative (before : Test α ε) (items : Array α) (first : α) :
    Nat → Nat → Nat → Except ε (Nat × α)
  | 0, start, _ => .ok (start, items.getD start first)
  | levels + 1, start, length => do
    let eighth := length / 8
    let a ← representative before items first levels start eighth
    let b ← representative before items first levels (start + 4 * eighth) eighth
    let c ← representative before items first levels (start + 7 * eighth) eighth
    middleOf (fun x y => before x.2 y.2) a b c

/-- The pivot of a list that begins with `first`, and its place: as many levels are used as the list
    can be cut into eighths. -/
def choosePivot (before : Test α ε) (first : α) (items : List α) : Except ε (Nat × α) :=
  representative before items.toArray first (Nat.log2 items.length / 3) 0 items.length

/-- Adds the values that a test holds for to the left ones and the other ones to the right ones, all
    in reverse. -/
def distribute (test : α → Except ε Bool) (left right : List α) :
    List α → Except ε (List α × List α)
  | [] => .ok (left, right)
  | a :: rest => do
    if ← test a then distribute test (a :: left) right rest
    else distribute test left (a :: right) rest

/-- Splits a list into the values that a test holds for and the other ones, without changing their
    order. The test is not asked for the pivot. -/
def split (test : α → Except ε Bool) (pivotLeft : Bool) (front : List α) (pivot : α)
    (back : List α) : Except ε (List α × List α) := do
  let (left, right) ← distribute test [] [] front
  let (left, right) := if pivotLeft then (pivot :: left, right) else (left, pivot :: right)
  let (left, right) ← distribute test left right back
  return (left.reverse, right.reverse)

/-- A list in order; of equal values the earlier ones come first. At most `limit` splits lie within
    one another; `ancestor` is the pivot to the left. -/
def sortByPivots (disorder : ε) (before : Test α ε) :
    Nat → Option α → List α → Except ε (List α)
  | 0, _, items =>
    if items.length ≤ shortLimit then sortShort disorder before items
    else sortByRuns disorder before true (sortShort disorder before) items
  | _ + 1, _, [] => .ok []
  | limit + 1, ancestor, first :: rest => do
    let items := first :: rest
    if items.length ≤ shortLimit then sortShort disorder before items
    else
      let (place, pivot) ← choosePivot before first items
      let front := items.take place
      let back := items.drop (place + 1)
      let least ← match ancestor with
        | some a => (before a pivot).map (!·)
        | none => pure false
      let (lesser, others) ←
        if least then pure ([], items)
        else split (fun a => before a pivot) false front pivot back
      if lesser.isEmpty then
        let (equal, greater) ←
          split (fun a => (before pivot a).map (!·)) true front pivot back
        return equal ++ (← sortByPivots disorder before limit none greater)
      else
        let others ← sortByPivots disorder before limit (some pivot) others
        let lesser ← sortByPivots disorder before limit ancestor lesser
        return lesser ++ others

end Monorepo.Sorting
