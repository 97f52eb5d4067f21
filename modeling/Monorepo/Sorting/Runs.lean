import Monorepo.Sorting.Short

/-!
# Sorting by runs

A list is cut into runs, and neighbouring runs are joined until one is left. A run is a part of the
list that is already in order, if that is long enough; else some values, which may stay unsorted
until they are joined with a run that is sorted. Which runs are joined first depends on their places
alone: the joints of a list form a balanced tree.
-/

namespace Monorepo.Sorting

variable {α ε : Type}

/-! ## Merging -/

/-- Merges two ascending lists from the front onto `done`, which descends; of equal values those of
    `as` come first. The fuel is at least the number of values. -/
def mergeUp (before : Test α ε) : Nat → List α → List α → List α → Except ε (List α)
  | fuel + 1, a :: as, b :: bs, done => do
    if ← before b a then mergeUp before fuel (a :: as) bs (b :: done)
    else mergeUp before fuel as (b :: bs) (a :: done)
  | _, as, bs, done => .ok (done.reverse ++ as ++ bs)

/-- Merges two lists that descend onto `done`, which ascends; of equal values those of `as` come to
    stand first. The fuel is at least the number of values. -/
def mergeDown (before : Test α ε) : Nat → List α → List α → List α → Except ε (List α)
  | fuel + 1, a :: as, b :: bs, done => do
    if ← before b a then mergeDown before fuel as (b :: bs) (a :: done)
    else mergeDown before fuel (a :: as) bs (b :: done)
  | _, as, bs, done => .ok (as.reverse ++ bs.reverse ++ done)

/-- Merges two ascending lists, from the end at which the shorter one stands. -/
def merge (before : Test α ε) (as bs : List α) : Except ε (List α) :=
  let fuel := as.length + bs.length
  if as.length ≤ bs.length then mergeUp before fuel as bs []
  else mergeDown before fuel as.reverse bs.reverse []

/-! ## Runs -/

/-- A part of a list. -/
structure Run (α : Type) where
  /-- The values. -/
  items : List α
  /-- Whether they are in order. -/
  sorted : Bool

namespace Run

/-- The values in order. -/
def finish (sort : List α → Except ε (List α)) (run : Run α) : Except ε (List α) :=
  if run.sorted then .ok run.items else sort run.items

/-- Joins neighbouring runs. Two that are not in order stay so for the moment. -/
def join (before : Test α ε) (sort : List α → Except ε (List α)) (left right : Run α) :
    Except ε (Run α) := do
  if left.sorted || right.sorted then
    let as ← left.finish sort
    let bs ← right.finish sort
    return ⟨← merge before as bs, true⟩
  else return ⟨left.items ++ right.items, false⟩

end Run

/-- How long a part of a list has to be in order to count as a run. -/
def leastRun (length : Nat) : Nat :=
  if length ≤ 4096 then min (length - length / 2) 64
  else
    let root := Nat.pow 2 ((1 + Nat.log2 length) / 2)
    (root + length / root) / 2

/-- How far a list goes on to descend, or not to, behind the value `a`; `count` are the values
    before. -/
def runLength (before : Test α ε) (descending : Bool) (count : Nat) (a : α) :
    List α → Except ε Nat
  | [] => .ok count
  | b :: rest => do
    if (← before b a) == descending then runLength before descending (count + 1) b rest
    else return count

/-- The length of the run that a list begins with, and whether it descends. -/
def leadingRun (before : Test α ε) : List α → Except ε (Nat × Bool)
  | a :: b :: rest => do
    let descending ← before b a
    return (← runLength before descending 2 b rest, descending)
  | items => .ok (items.length, false)

/-- Cuts the next run off a list of `length` values: what is in order there, if it is not shorter
    than `least`. Else an `eager` cut sorts a short list at once, and another one takes `least`
    values as they are. -/
def nextRun (disorder : ε) (before : Test α ε) (eager : Bool) (least length : Nat)
    (items : List α) : Except ε (Run α × List α) := do
  let (count, descending) ← if length < least then pure (0, false) else leadingRun before items
  if count ≥ least then
    let run := items.take count
    return (⟨if descending then run.reverse else run, true⟩, items.drop count)
  else if eager then
    return (⟨← sortShort disorder before (items.take shortLimit), true⟩, items.drop shortLimit)
  else return (⟨items.take least, false⟩, items.drop least)

/-! ## The order of joints -/

/-- The rank of the joint of two neighbouring runs in a list of `length` values, where they begin,
    meet and end at the given places: the highest binary digit in which the doubled middles of the
    runs differ, on a scale that is finer than the places. -/
def jointRank (length start meeting stop : Nat) : Nat :=
  let scale := (Nat.pow 2 62 + length - 1) / length
  Nat.log2 (Nat.xor (scale * (start + meeting)) (scale * (meeting + stop)))

/-- Joins a run with the runs in front of it, the nearest first, as long as the ranks of their
    joints are at most `rank`. -/
def collapse (join : Run α → Run α → Except ε (Run α)) (rank : Nat) :
    List (Run α × Nat) → Run α → Except ε (List (Run α × Nat) × Run α)
  | (left, r) :: stack, run => do
    if r ≤ rank then collapse join rank stack (← join left run)
    else return ((left, r) :: stack, run)
  | [], run => .ok ([], run)

/-- Joins a run with those in front of it and with those that are cut off the values behind it.
    `stack` are the runs in front, each with the rank of its joint; the run stands between the
    places `start` and `meeting`. The fuel is at least the number of values. -/
def joinRuns (cut : Nat → List α → Except ε (Run α × List α))
    (join : Run α → Run α → Except ε (Run α)) (length : Nat) :
    Nat → List (Run α × Nat) → Run α → Nat → Nat → List α → Except ε (Run α)
  | fuel + 1, stack, run, start, meeting, a :: rest => do
    let (next, rest) ← cut (length - meeting) (a :: rest)
    let stop := meeting + next.items.length
    let rank := jointRank length start meeting stop
    let (stack, run) ← collapse join rank stack run
    joinRuns cut join length fuel ((run, rank) :: stack) next meeting stop rest
  | _, stack, run, _, _, _ => do
    let (_, run) ← collapse join 64 stack run
    return run

/-- A list in order; of equal values the earlier ones come first. Runs that were not sorted when
    they were cut are sorted by `sort`. -/
def sortByRuns (disorder : ε) (before : Test α ε) (eager : Bool)
    (sort : List α → Except ε (List α)) (items : List α) : Except ε (List α) := do
  let length := items.length
  let cut := nextRun disorder before eager (leastRun length)
  let (run, rest) ← cut length items
  let run ← joinRuns cut (Run.join before sort) length length [] run 0 run.items.length rest
  run.finish sort

end Monorepo.Sorting
