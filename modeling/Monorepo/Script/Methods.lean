import Monorepo.Script.Operators
import Monorepo.Text.Casing

/-!
# Methods of values

The methods of texts, lists and dictionaries. A method that is given a stub yields a stub, apart
from `format` and `join`. Methods that change their receiver do so only when the receiver is a
variable; on any other value they have no effect.
-/

namespace Monorepo.Script

/-- The methods of texts. -/
def textMethods : List String :=
  ["format", "join", "replace", "startswith", "endswith", "split", "strip", "lstrip", "rstrip",
   "lower", "upper"]

/-- The methods of lists. -/
def listMethods : List String := ["append", "extend", "insert"]

/-- The methods of dictionaries. -/
def dictMethods : List String := ["get", "keys", "values", "items", "update"]

/-- Whether a value has a method. -/
def hasMethod (object : Value) (name : String) : Bool :=
  match object with
  | .text _ => textMethods.contains name
  | .list _ => listMethods.contains name
  | .dict _ => dictMethods.contains name
  | _ => false

/-- The stub for the call of a method. -/
def stubMethod (receiver : Value) (name : String) (arguments : List Value) (keywords : Keywords) :
    Value :=
  .stub (Trace.call (Trace.member receiver.repr name) arguments keywords)

/-- Whether some argument is a stub. -/
def anyStub (arguments : List Value) (keywords : Keywords) : Bool :=
  arguments.any (!·.isKnown) || keywords.any fun (_, value) => !value.isKnown

/-! ## Texts -/

/-- Items with a text between them. -/
def joinTexts (separator : String) (arguments : List Value) : Except EvalFault Value := do
  let [source] := arguments | throw (.exactlyOne "join")
  let items ← iterate source
  if items.any (!·.isKnown) then return stubMethod (.text separator) "join" arguments []
  let pieces ← items.mapM fun item =>
    match item with
    | .text s => pure s
    | other => throw (.joinItem other.type)
  let length := pieces.foldl (fun length piece => length + piece.utf8ByteSize) 0
    + separator.utf8ByteSize * (pieces.length - 1)
  if length > maxSequence then throw (.resultSize "join")
  return .text (String.ofList (Text.join separator.toList (pieces.map String.toList)))

/-- How often a text occurs; the empty one does in front of every character and at the end. -/
def hitsIn (s old : String) : Nat :=
  if old.isEmpty then s.length + 1 else Text.occurrences old.toList s.toList

/-- A text with occurrences of `old` replaced by `new`, at most `limit` of them. -/
def replaceText (s old new : String) (limit : Option Nat) : Except EvalFault Value := do
  let hits := match limit with
    | some n => min (hitsIn s old) n
    | none => hitsIn s old
  let grown := hits * (new.utf8ByteSize - old.utf8ByteSize)
  if s.utf8ByteSize + grown > maxSequence then throw (.resultSize "replace")
  return .text (String.ofList (Text.replace old.toList new.toList limit s.toList))

/-- The method `replace`; a negative count is none. -/
def replaceMethod (s : String) (arguments : List Value) : Except EvalFault Value :=
  match arguments with
  | [.text old, .text new] => replaceText s old new none
  | [.text old, .text new, .int count] =>
    replaceText s old new (if count < 0 then none else some count.toNat)
  | _ => .error .replaceArguments

/-- Whether a text satisfies `affixed` with one of the given texts. -/
def affixMethod (name : String) (affixed : List Char → Bool) (arguments : List Value) :
    Except EvalFault Value := do
  let [pattern] := arguments | throw (.exactlyOne name)
  match pattern with
  | .text p => return .bool (affixed p.toList)
  | .tuple items => return .bool ((items.filterMap Value.text?).any fun p => affixed p.toList)
  | other => throw (.affixType name other.type)

/-- The methods that drop characters at the ends of a text: blanks, or given ones. -/
def stripMethod (s name : String) (arguments : List Value) : Except EvalFault Value := do
  let p : Char → Bool ← match arguments.head? with
    | none => pure Text.isBlank
    | some .none => pure Text.isBlank
    | some (.text chars) => pure fun c => chars.toList.contains c
    | some other => throw (.stripType name other.type)
  let cs := s.toList
  let stripped :=
    if name == "strip" then Text.dropEnds p cs
    else if name == "lstrip" then Text.dropLeft p cs
    else Text.dropRight p cs
  return .text (String.ofList stripped)

/-- The pieces of a text between separators, or its words; `limit` bounds the number of cuts. -/
def splitPieces (s : List Char) (separator : Option (List Char)) (limit : Option Nat) :
    List (List Char) :=
  match separator, limit with
  | none, none => Text.words s
  | none, some n => Text.firstWords n s
  | some separator, limit => Text.cut separator limit s

/-- The method `split`; a negative limit is none. -/
def splitMethod (s : String) (arguments : List Value) (keywords : Keywords) :
    Except EvalFault Value := do
  let separator : Option (List Char) ←
    match arguments.head? <|> Keywords.get? keywords "sep" with
    | none => pure none
    | some .none => pure none
    | some (.text separator) =>
      if separator.isEmpty then throw .emptySeparator else pure (some separator.toList)
    | some other => throw (.separatorType other.type)
  let limit : Option Nat ←
    match arguments[1]? <|> Keywords.get? keywords "maxsplit" with
    | none => pure none
    | some (.int n) => pure (if n < 0 then none else some n.toNat)
    | some other => throw (.splitLimitType other.type)
  return .list ((splitPieces s.toList separator limit).map fun piece => .text (String.ofList piece))

/-- A method of a text. -/
def callTextMethod (s name : String) (arguments : List Value) (keywords : Keywords) :
    Except EvalFault Value :=
  match name with
  | "format" => (Template.format s arguments keywords).map .text
  | "join" => joinTexts s arguments
  | "replace" => replaceMethod s arguments
  | "startswith" => affixMethod name (fun p => p.isPrefixOf s.toList) arguments
  | "endswith" => affixMethod name (fun p => p.isSuffixOf s.toList) arguments
  | "split" => splitMethod s arguments keywords
  | "strip" | "lstrip" | "rstrip" => stripMethod s name arguments
  | "lower" => .ok (.text (Text.lower s))
  | "upper" => .ok (.text (Text.upper s))
  | _ => .ok (stubMethod (.text s) name arguments keywords)

/-! ## Dictionaries -/

/-- The method `get`. -/
def getMethod (entries : Entries) (arguments : List Value) : Except EvalFault Value :=
  match arguments with
  | [key] => .ok ((entries.get? key).getD .none)
  | [key, default] => .ok ((entries.get? key).getD default)
  | _ => .error .getCount

/-- A method of a dictionary. -/
def callDictMethod (entries : Entries) (name : String) (arguments : List Value)
    (keywords : Keywords) : Except EvalFault Value :=
  match name with
  | "get" => getMethod entries arguments
  | "keys" => .ok (.list (entries.map (·.1)))
  | "values" => .ok (.list (entries.map (·.2)))
  | "items" => .ok (.list (entries.map fun (key, value) => .tuple [key, value]))
  | "update" => .ok .none
  | _ => .ok (stubMethod (.dict entries) name arguments keywords)

/-- A method of a value. -/
def callMethod (receiver : Value) (name : String) (arguments : List Value) (keywords : Keywords) :
    Except EvalFault Value :=
  if anyStub arguments keywords && name != "format" && name != "join" then
    .ok (stubMethod receiver name arguments keywords)
  else match receiver with
    | .text s => callTextMethod s name arguments keywords
    | .list items =>
      .ok (if listMethods.contains name then .none
        else stubMethod (.list items) name arguments keywords)
    | .dict entries => callDictMethod entries name arguments keywords
    | other => .ok (stubMethod other name arguments keywords)

/-! ## Changes in place -/

/-- A list with a value inserted at an index; indices past an end mean that end. -/
def insertItem (items : List Value) (index : Int) (item : Value) : List Value :=
  let length : Int := items.length
  let place := if index < 0 then max (length + index) 0 else min index length
  items.take place.toNat ++ item :: items.drop place.toNat

/-- The entries that `update` inserts; a stub stands for unknown ones. -/
def updatesOf (arguments : List Value) (keywords : Keywords) :
    Except EvalFault (Option (List (Value × Value))) :=
  let named := keywords.map fun (name, value) => (Value.text name, value)
  match arguments with
  | [] => .ok (some named)
  | [.dict other] => .ok (some (other ++ named))
  | [.stub _] => .ok none
  | [other] => .error (.updateSource other.type)
  | _ => .error (.atMostOnePositional "update")

/-- What a method makes of the variable it is called on, or nothing when the call changes no
    variable. -/
def changeInPlace (receiver : Value) (name : String) (arguments : List Value)
    (keywords : Keywords) : Except EvalFault (Option Value) :=
  match receiver, name with
  | .list items, "append" =>
    match arguments with
    | [item] => .ok (some (.list (items ++ [item])))
    | _ => .error (.exactlyOne "append")
  | .list items, "extend" =>
    match arguments with
    | [source] => (iterate source).map fun more => some (.list (items ++ more))
    | _ => .error (.exactlyOne "extend")
  | .list items, "insert" =>
    match arguments with
    | [.int index, item] => .ok (some (.list (insertItem items index item)))
    | [.stub _, _] => .ok none
    | _ => .error .insertArguments
  | .dict entries, "update" =>
    (updatesOf arguments keywords).map fun updates =>
      updates.map fun updates => .dict (Entries.insertAll entries updates)
  | _, _ => .ok none

end Monorepo.Script
