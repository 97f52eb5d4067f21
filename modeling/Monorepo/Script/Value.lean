import Monorepo.Script.Syntax

/-!
# Values of descriptor scripts

A value is either known or a stub. A stub stands for something the script uses and nobody models;
all that is kept of it is a trace of the operations applied to it.
-/

namespace Monorepo.Script

/-- The flavours of file patterns. -/
inductive GlobKind
  /-- Patterns for one directory. -/
  | plain
  /-- Patterns for a directory and all below it. -/
  | recursive
  /-- Patterns in which two stars stand for any directories. -/
  | starred
deriving DecidableEq, Repr

/-- The letter that marks patterns of a flavour. -/
def GlobKind.letter : GlobKind → String
  | .plain => "g"
  | .recursive => "r"
  | .starred => "z"

/-- The functions that a script finds predefined. -/
inductive Builtin
  /-- Declares a target of a kind. -/
  | target (kind : String)
  /-- Makes file patterns. -/
  | glob (kind : GlobKind)
  /-- The version of the language. -/
  | version
  /-- The root of the repository. -/
  | root
  /-- The path of the descriptor. -/
  | descriptorPath
  | len | str | int | bool | list | tuple | dict | sorted | range | set | print
deriving DecidableEq, Repr

/-- The name of a predefined function. -/
def Builtin.name : Builtin → String
  | .target kind => kind
  | .glob .plain => "globs"
  | .glob .recursive => "rglobs"
  | .glob .starred => "zglobs"
  | .version => "pants_version"
  | .root => "get_buildroot"
  | .descriptorPath => "buildfile_path"
  | .len => "len"
  | .str => "str"
  | .int => "int"
  | .bool => "bool"
  | .list => "list"
  | .tuple => "tuple"
  | .dict => "dict"
  | .sorted => "sorted"
  | .range => "range"
  | .set => "set"
  | .print => "print"

/-- A function that a script defines. Two functions are the same when one statement defined both,
    and no two definitions of a script start on one line. -/
structure Function where
  /-- The line of its definition. -/
  line : Nat
  /-- Its name. -/
  name : String
  /-- Its parameters. -/
  parameters : List Parameter
  /-- Its statements. -/
  body : List Statement

/-- A value. -/
inductive Value
  /-- The absent value. -/
  | none
  /-- A truth value. -/
  | bool (value : Bool)
  /-- An integer; arithmetic keeps it within 64 bits. -/
  | int (value : Int)
  /-- A floating-point number. -/
  | float (value : Float)
  /-- A text. -/
  | text (value : String)
  /-- A list. -/
  | list (items : List Value)
  /-- A tuple. -/
  | tuple (items : List Value)
  /-- A dictionary, in the order in which its keys were first inserted. -/
  | dict (entries : List (Value × Value))
  /-- A predefined function. -/
  | builtin (builtin : Builtin)
  /-- A function of the script. -/
  | function (function : Function)
  /-- A method looked up on a value. -/
  | method (receiver : Value) (name : String)
  /-- Something that is not modelled, with the trace of what was done to it. -/
  | stub (trace : String)

instance : Inhabited Value := ⟨.none⟩

/-- Arguments passed by name, in order and without repetitions. -/
abbrev Keywords := List (String × Value)

/-- The types of values. -/
inductive ValueType
  | none | bool | int | float | text | list | tuple | dict | builtin | function | method | stub
deriving DecidableEq, Repr

/-- The name of a type in messages. -/
def ValueType.label : ValueType → String
  | .none => "NoneType"
  | .bool => "bool"
  | .int => "int"
  | .float => "float"
  | .text => "str"
  | .list => "list"
  | .tuple => "tuple"
  | .dict => "dict"
  | .builtin => "builtin_function"
  | .function => "function"
  | .method => "method"
  | .stub => "Any"

namespace Value

/-- The type of a value. -/
def type : Value → ValueType
  | .none => .none
  | .bool _ => .bool
  | .int _ => .int
  | .float _ => .float
  | .text _ => .text
  | .list _ => .list
  | .tuple _ => .tuple
  | .dict _ => .dict
  | .builtin _ => .builtin
  | .function _ => .function
  | .method .. => .method
  | .stub _ => .stub

/-- Whether a value is anything but a stub. -/
def isKnown : Value → Bool
  | .stub _ => false
  | _ => true

/-- Whether a value counts as true: all do but the absent value, zero and what is empty. -/
def isTrue : Value → Bool
  | .none => false
  | .bool b => b
  | .int n => n != 0
  | .float x => x != 0.0
  | .text s => !s.isEmpty
  | .list items => !items.isEmpty
  | .tuple items => !items.isEmpty
  | .dict entries => !entries.isEmpty
  | .builtin _ | .function _ | .method .. | .stub _ => true

/-- The text of a text value. -/
def text? : Value → Option String
  | .text s => some s
  | _ => Option.none

/-- The values that a value yields one by one, if it can be iterated: a text yields its characters,
    a dictionary its keys and a stub one stub. -/
def items? : Value → Option (List Value)
  | .list items => some items
  | .tuple items => some items
  | .text s => some (s.toList.map fun c => .text (String.singleton c))
  | .dict entries => some (entries.map (·.1))
  | .stub trace => some [.stub (trace ++ "[]")]
  | _ => Option.none

mutual

/-- Puts the leaves of a value in front of `done`, the last one first. -/
def leavesOnto (done : List Value) : Value → List Value
  | .list items => leavesOfOnto done items
  | .tuple items => leavesOfOnto done items
  | leaf => leaf :: done

/-- Puts the leaves of several values in front of `done`, the last one first. -/
def leavesOfOnto (done : List Value) : List Value → List Value
  | [] => done
  | value :: values => leavesOfOnto (leavesOnto done value) values

end

/-- What is left of a value when lists and tuples, however nested, are flattened. -/
def leaves (v : Value) : List Value := (leavesOnto [] v).reverse

end Value

end Monorepo.Script
