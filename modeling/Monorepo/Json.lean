/-!
# Structured output

Numbers, texts, lists and objects, written as JSON over several lines: every item and every field
has a line of its own, two blanks deeper than the brackets around it, and empty brackets stand
together.
-/

namespace Monorepo

/-- A structured value. The fields of an object are written in order. -/
inductive Json
  /-- An integer. -/
  | int (value : Int)
  /-- A text. -/
  | text (content : String)
  /-- A list. -/
  | list (items : List Json)
  /-- An object. -/
  | object (fields : List (String × Json))

namespace Json

/-- How a character is written inside of a text: quotes and backslashes behind a backslash, line
    breaks and their like by a letter, other control characters by their number. -/
def escape (c : Char) : List Char :=
  if c = '"' then ['\\', '"']
  else if c = '\\' then ['\\', '\\']
  else if c = '\n' then ['\\', 'n']
  else if c = '\r' then ['\\', 'r']
  else if c = '\t' then ['\\', 't']
  else if c.toNat = 8 then ['\\', 'b']
  else if c.toNat = 12 then ['\\', 'f']
  else if c.toNat < 32 then
    ['\\', 'u', '0', '0', Nat.digitChar (c.toNat / 16), Nat.digitChar (c.toNat % 16)]
  else [c]

/-- A text in quotes. -/
def quote (content : String) : List Char := '"' :: (content.toList.flatMap escape ++ ['"'])

/-- The start of a line inside of `depth` brackets. -/
def newLine (depth : Nat) : List Char := '\n' :: List.replicate (2 * depth) ' '

mutual

/-- A value inside of `depth` brackets. -/
def write (depth : Nat) : Json → List Char
  | .int value => (toString value).toList
  | .text content => quote content
  | .list [] => ['[', ']']
  | .list (item :: items) =>
    '[' :: (newLine (depth + 1) ++ item.write (depth + 1) ++ writeItems (depth + 1) items
      ++ newLine depth ++ [']'])
  | .object [] => ['\x7b', '\x7d']
  | .object ((key, value) :: fields) =>
    '\x7b' :: (newLine (depth + 1) ++ quote key ++ [':', ' '] ++ value.write (depth + 1)
      ++ writeFields (depth + 1) fields ++ newLine depth ++ ['\x7d'])

/-- The items behind the first one. -/
def writeItems (depth : Nat) : List Json → List Char
  | [] => []
  | item :: items => ',' :: (newLine depth ++ item.write depth ++ writeItems depth items)

/-- The fields behind the first one. -/
def writeFields (depth : Nat) : List (String × Json) → List Char
  | [] => []
  | (key, value) :: fields =>
    ',' :: (newLine depth ++ quote key ++ [':', ' '] ++ value.write depth
      ++ writeFields depth fields)

end

/-- The text of a value. -/
def render (value : Json) : String := String.ofList (value.write 0)

/-- The list of some texts. -/
def texts (contents : List String) : Json := .list (contents.map .text)

end Json

end Monorepo
