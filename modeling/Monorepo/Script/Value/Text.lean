import Monorepo.Script.Value
import Monorepo.Decimal.Shortest
import Monorepo.Text.Blank

/-!
# The text of values

`repr` writes a value as the literal that would yield it, as far as there is one; `display` does the
same but leaves texts as they are and marks stubs. Texts are built from left to right onto what has
been written before. The traces of stubs are made of these texts.
-/

namespace Monorepo.Script

/-- One of the sixteen hexadecimal digits. -/
def hexDigit (n : Nat) : Char := "0123456789abcdef".toList.getD n '0'

/-- A character inside a quoted text. -/
def quoteChar (c : Char) : String :=
  if c = '\\' then "\\\\"
  else if c = '\'' then "\\'"
  else if c = '\n' then "\\n"
  else if c = '\t' then "\\t"
  else if c = '\r' then "\\r"
  else if Text.isControl c then
    String.ofList ['\\', 'x', hexDigit (c.toNat / 16), hexDigit (c.toNat % 16)]
  else String.singleton c

/-- A text in quotes: backslash, quote, line break, tab and carriage return are escaped by a letter,
    other control characters by their number. -/
def quote (s : String) : String :=
  s.toList.foldl (fun out c => out ++ quoteChar c) "'" ++ "'"

namespace Value

mutual

/-- Writes a value behind `out`. -/
def write (out : String) : Value → String
  | .none => out ++ "None"
  | .bool true => out ++ "True"
  | .bool false => out ++ "False"
  | .int n => out ++ toString n
  | .float x => out ++ Decimal.floatText x
  | .text s => out ++ quote s
  | .list items => writeItems "" (out ++ "[") items ++ "]"
  | .tuple [item] => write (out ++ "(") item ++ ",)"
  | .tuple items => writeItems "" (out ++ "(") items ++ ")"
  | .dict entries => writeEntries "" (out ++ "\x7b") entries ++ "\x7d"
  | .builtin b => out ++ "<built-in function " ++ b.name ++ ">"
  | .function f => out ++ "<function " ++ f.name ++ ">"
  | .method receiver name => out ++ "<method " ++ name ++ " of " ++ receiver.type.label ++ ">"
  | .stub trace => out ++ trace

/-- Writes values with commas between them behind `out`, after `separator`. -/
def writeItems (separator out : String) : List Value → String
  | [] => out
  | item :: items => writeItems ", " (write (out ++ separator) item) items

/-- Writes entries with commas between them behind `out`, after `separator`. -/
def writeEntries (separator out : String) : List (Value × Value) → String
  | [] => out
  | (key, value) :: entries =>
    writeEntries ", " (write (write (out ++ separator) key ++ ": ") value) entries

end

/-- A value as a literal. -/
def repr (v : Value) : String := v.write ""

/-- A value for people: texts without quotes, stubs marked as such. -/
def display : Value → String
  | .text s => s
  | .stub trace => "Any(" ++ trace ++ ")"
  | v => v.repr

theorem repr_text (s : String) : (text s).repr = quote s := by
  rw [repr, write, String.empty_append]

theorem repr_int (n : Int) : (int n).repr = toString n := by
  rw [repr, write, String.empty_append]

end Value

/-! ## Traces of stubs -/

namespace Trace

/-- A call of a stub. -/
def call (trace : String) (arguments : List Value) (keywords : Keywords) : String :=
  trace ++ "(" ++ ", ".intercalate
    (arguments.map Value.display ++ keywords.map fun (name, value) => name ++ "=" ++ value.repr)
    ++ ")"

/-- An attribute of a stub. -/
def member (trace name : String) : String := trace ++ "." ++ name

/-- An item of a stub. -/
def index (trace : String) (key : Value) : String := trace ++ "[" ++ key.repr ++ "]"

/-- An operation with a stub on the left. -/
def operate (trace symbol : String) (right : Value) : String :=
  trace ++ " " ++ symbol ++ " " ++ right.repr

/-- An operation with a stub on the right. -/
def reflect (left : Value) (symbol trace : String) : String :=
  left.repr ++ " " ++ symbol ++ " " ++ trace

/-- An operation on a stub alone. -/
def prefixed (symbol trace : String) : String := symbol ++ trace

end Trace

end Monorepo.Script
