import Monorepo.Sorting.Pivots

/-!
# Sorting

Sorting puts values in order and leaves equal ones in the order in which they came. It ends with the
first fault of its test, or with `disorder` where it notices that the answers of the test contradict
each other. Few values are sorted by insertion. More are cut into runs: where they are not many the
runs are sorted at once, else late and by pivots.
-/

namespace Monorepo.Sorting

variable {α ε : Type}

/-- The longest list that is sorted by insertion alone. -/
def insertionLimit : Nat := 20

/-- How many splits may lie within one another when a list is sorted by pivots. -/
def splitLimit (length : Nat) : Nat := 2 * Nat.log2 length

/-- A list in order; of equal values the earlier ones come first. -/
def sort (disorder : ε) (before : Test α ε) (items : List α) : Except ε (List α) :=
  if items.length ≤ insertionLimit then (insertAll before [] items).map List.reverse
  else sortByRuns disorder before (items.length ≤ 2 * shortLimit)
    (fun run => sortByPivots disorder before (splitLimit run.length) none run) items

end Monorepo.Sorting
