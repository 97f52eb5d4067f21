import Monorepo.Script.Value

/-!
# Equality of values and look-up in dictionaries

Equality is structural: sequences item by item, dictionaries as sets of entries, functions by their
definition. Integers and floating-point numbers are compared as floating-point numbers. A method
equals nothing. A dictionary is searched with this equality from its first entry on.
-/

namespace Monorepo.Script

namespace Value

mutual

/-- Whether two values are equal. -/
def equals : Value → Value → Bool
  | .none, .none => true
  | .bool a, .bool b => a == b
  | .int a, .int b => a == b
  | .float a, .float b => a == b
  | .int a, .float b => Float.ofInt a == b
  | .float a, .int b => Float.ofInt b == a
  | .text a, .text b => a == b
  | .list as, .list bs => as.length == bs.length && equalItems as bs
  | .tuple as, .tuple bs => as.length == bs.length && equalItems as bs
  | .dict as, .dict bs => as.length == bs.length && holdsEntries bs as
  | .builtin a, .builtin b => a == b
  | .function a, .function b => a.line == b.line
  | .stub a, .stub b => a == b
  | _, _ => false

/-- Whether two lists are equal item by item, up to the end of the shorter one. -/
def equalItems : List Value → List Value → Bool
  | a :: as, b :: bs => equals a b && equalItems as bs
  | _, _ => true

/-- Whether each of some entries equals one of `bs`. -/
def holdsEntries (bs : List (Value × Value)) : List (Value × Value) → Bool
  | [] => true
  | (key, value) :: as =>
    (bs.any fun (k, v) => equals key k && equals value v) && holdsEntries bs as

end

/-- Of a function only its definition matters. -/
theorem equals_function_congr {f g : Function} (h : f.line = g.line) (v : Value) :
    (Value.function f).equals v = (Value.function g).equals v := by
  cases v with
  | function k => rw [equals, equals, h]
  | _ => rfl

end Value

/-- The entries of a dictionary. -/
abbrev Entries := List (Value × Value)

namespace Entries

/-- The value under the first key that equals `key`. -/
def get? (entries : Entries) (key : Value) : Option Value :=
  (entries.find? fun (k, _) => k.equals key).map (·.2)

/-- Whether some key equals `key`. -/
def has (entries : Entries) (key : Value) : Bool :=
  entries.any fun (k, _) => k.equals key

/-- Sets the value under `key`: the first equal key keeps its place, a new one goes to the end. -/
def insert (entries : Entries) (key value : Value) : Entries :=
  match entries with
  | [] => [(key, value)]
  | (k, v) :: rest => if k.equals key then (k, value) :: rest else (k, v) :: insert rest key value

/-- Inserts one entry after another. -/
def insertAll (entries : Entries) (more : List (Value × Value)) : Entries :=
  more.foldl (fun entries (key, value) => entries.insert key value) entries

end Entries

namespace Keywords

/-- The argument of a name. -/
def get? (keywords : Keywords) (name : String) : Option Value :=
  (keywords.find? fun (k, _) => k == name).map (·.2)

/-- Sets the argument of a name: a name passed again keeps its place, a new one goes to the end. -/
def set (keywords : Keywords) (name : String) (value : Value) : Keywords :=
  match keywords with
  | [] => [(name, value)]
  | (k, v) :: rest => if k == name then (k, value) :: rest else (k, v) :: set rest name value

end Keywords

end Monorepo.Script
