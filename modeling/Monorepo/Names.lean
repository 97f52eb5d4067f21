/-!
# Sets of names and tables by name

A set of names is the ascending list of its members, a table the list of its rows with ascending
keys. Names are ordered by their characters.
-/

namespace Monorepo

/-- Sets of names, as ascending lists without repetitions. -/
abbrev Names := List String

namespace Names

/-- The set with one name more. -/
def insert (name : String) : Names → Names
  | [] => [name]
  | n :: names =>
    if name < n then name :: n :: names
    else if n = name then n :: names
    else n :: insert name names

/-- The set of the names in a list. -/
def ofList (names : List String) : Names := names.foldl (fun set name => insert name set) []

end Names

/-- Tables of values by name, as lists with ascending keys. -/
abbrev Table (α : Type) := List (String × α)

namespace Table

variable {α : Type}

/-- The value of a key. -/
def get? (table : Table α) (key : String) : Option α := table.lookup key

/-- Whether a key has a value. -/
def has (table : Table α) (key : String) : Bool := (table.get? key).isSome

/-- The table in which a key has a given value. -/
def set (key : String) (value : α) : Table α → Table α
  | [] => [(key, value)]
  | (k, v) :: rows =>
    if key < k then (key, value) :: (k, v) :: rows
    else if k = key then (k, value) :: rows
    else (k, v) :: set key value rows

/-- The table without a key. -/
def erase (table : Table α) (key : String) : Table α := table.filter fun (k, _) => k != key

/-- The keys, in ascending order. -/
def keys (table : Table α) : List String := table.map (·.1)

/-- The values, in the order of their keys. -/
def values (table : Table α) : List α := table.map (·.2)

end Table

/-- The names of a list in ascending order, repetitions kept. -/
def sortNames (names : List String) : List String := names.mergeSort fun a b => a ≤ b

end Monorepo
