import Monorepo.Decimal.Reading

/-!
# Reading structured text

Readers for the parts of a JSON text. A reader answers what it read and the text behind it, or
refuses. A value whose content does not matter is skipped: its form is checked, but not whether its
texts can be texts or its numbers fit anywhere.
-/

namespace Monorepo.Json

/-- A reader takes what it reads from the front of a text, or refuses. -/
abbrev Reader (α : Type) := List Char → Option (α × List Char)

/-- Whether a character may stand between the parts of a structured text. -/
def isSpace (c : Char) : Bool := c == ' ' || c == '\n' || c == '\t' || c == '\r'

/-- The text without the space at its start. -/
def dropSpace (cs : List Char) : List Char := cs.dropWhile isSpace

/-- The text behind a character and the space in front of it. -/
def expect (c : Char) (cs : List Char) : Option (List Char) :=
  match dropSpace cs with
  | d :: ds => if d = c then some ds else none
  | [] => none

/-! ## Texts -/

/-- The number that four digits write in base 16. -/
def codeUnit? (a b c d : Char) : Option Nat := Decimal.readNat? 16 [a, b, c, d]

/-- Whether a number is the first half of a pair. -/
def isHighHalf (unit : Nat) : Bool := 0xD800 ≤ unit && unit < 0xDC00

/-- Whether a number is the second half of a pair. -/
def isLowHalf (unit : Nat) : Bool := 0xDC00 ≤ unit && unit < 0xE000

/-- The character that two halves stand for. -/
def pairChar (high low : Nat) : Char :=
  Char.ofNat (0x10000 + (high - 0xD800) * 0x400 + (low - 0xDC00))

/-- The character that a letter behind a backslash stands for. -/
def escaped? (c : Char) : Option Char :=
  if c = '"' ∨ c = '\\' ∨ c = '/' then some c
  else if c = 'b' then some (Char.ofNat 8)
  else if c = 'f' then some (Char.ofNat 12)
  else if c = 'n' then some '\n'
  else if c = 'r' then some '\r'
  else if c = 't' then some '\t'
  else none

/-- A text under way. -/
structure TextSoFar where
  /-- Its characters, in reverse. -/
  done : List Char
  /-- Whether every half so far has its other half. -/
  sound : Bool
  /-- The half that was read last, if it still lacks the other one. -/
  half : Option Nat

namespace TextSoFar

/-- Nothing was read. -/
def empty : TextSoFar := ⟨[], true, none⟩

/-- Adds a character. -/
def addChar (t : TextSoFar) (c : Char) : TextSoFar := ⟨c :: t.done, t.sound && t.half.isNone, none⟩

/-- Adds what a number stands for. -/
def addUnit (t : TextSoFar) (unit : Nat) : TextSoFar :=
  if isLowHalf unit then
    match t.half with
    | some high => ⟨pairChar high unit :: t.done, t.sound, none⟩
    | none => { t with sound := false }
  else if isHighHalf unit then ⟨t.done, t.sound && t.half.isNone, some unit⟩
  else t.addChar (Char.ofNat unit)

/-- The content; a text with a half that lacks the other one has none. -/
def content? (t : TextSoFar) : Option String :=
  if t.sound && t.half.isNone then some (String.ofList t.done.reverse) else none

end TextSoFar

/-- Reads a text up to its closing quote. -/
def readTextFrom (t : TextSoFar) : List Char → Option (TextSoFar × List Char)
  | [] => none
  | '"' :: cs => some (t, cs)
  | '\\' :: 'u' :: a :: b :: c :: d :: cs =>
    match codeUnit? a b c d with
    | some unit => readTextFrom (t.addUnit unit) cs
    | none => none
  | '\\' :: c :: cs =>
    match escaped? c with
    | some c => readTextFrom (t.addChar c) cs
    | none => none
  | c :: cs => if c.toNat < 32 then none else readTextFrom (t.addChar c) cs

/-- Reads a text in quotes; space may stand in front of it. -/
def readText : Reader String := fun cs => do
  let (t, rest) ← readTextFrom .empty (← expect '"' cs)
  return (← t.content?, rest)

/-- Skips a text in quotes. -/
def skipText (cs : List Char) : Option (List Char) := do
  let (_, rest) ← readTextFrom .empty (← expect '"' cs)
  return rest

/-! ## Numbers -/

/-- Splits off the digits of a whole number, which begin with a zero only if that is all. -/
def readWhole : Reader (List Char) := fun cs =>
  let (digits, rest) := Decimal.spanDigits cs
  if digits.isEmpty || (digits.head? == some '0' && digits.length > 1) then none
  else some (digits, rest)

/-- Whether a fraction or an exponent follows a whole number. -/
def hasFraction (cs : List Char) : Bool :=
  match cs with
  | c :: _ => c == '.' || c == 'e' || c == 'E'
  | [] => false

/-- Reads an integer that is written without fraction and exponent; zero has no sign. -/
def readInt : Reader Int := fun cs =>
  let cs := dropSpace cs
  let negative := cs.head? == some '-'
  do
    let (digits, rest) ← readWhole (if negative then cs.tail else cs)
    let n ← Decimal.readNat? 10 digits
    if hasFraction rest || (negative && n = 0) then none
    else return (if negative then -n else n, rest)

/-- Skips the digits of a fraction or an exponent, of which there has to be one. -/
def skipDigits (cs : List Char) : Option (List Char) :=
  let (digits, rest) := Decimal.spanDigits cs
  if digits.isEmpty then none else some rest

/-- Skips the fraction of a number, if it has one. -/
def skipFraction (cs : List Char) : Option (List Char) :=
  match cs with
  | '.' :: cs => skipDigits cs
  | cs => some cs

/-- Skips the exponent of a number, if it has one. -/
def skipExponent (cs : List Char) : Option (List Char) :=
  match cs with
  | c :: cs =>
    if c = 'e' ∨ c = 'E' then
      match cs with
      | s :: rest => if s = '+' ∨ s = '-' then skipDigits rest else skipDigits (s :: rest)
      | [] => none
    else some (c :: cs)
  | [] => some []

/-- Skips a number. -/
def skipNumber (cs : List Char) : Option (List Char) := do
  let (_, rest) ← readWhole (if cs.head? == some '-' then cs.tail else cs)
  skipExponent (← skipFraction rest)

/-! ## Any values -/

/-- The text behind a word. -/
def skipWord (word : String) (cs : List Char) : Option (List Char) :=
  if word.toList.isPrefixOf cs then some (cs.drop word.length) else none

/-- Skips a value without brackets, in front of which there is no space. -/
def skipScalar (cs : List Char) : Option (List Char) :=
  match cs with
  | '"' :: _ => skipText cs
  | 't' :: _ => skipWord "true" cs
  | 'f' :: _ => skipWord "false" cs
  | 'n' :: _ => skipWord "null" cs
  | _ => skipNumber cs

/-- The brackets around a value. -/
inductive Bracket
  | list
  | object
deriving DecidableEq, Repr

/-- Skips the key of a field and the colon. -/
def skipKey (cs : List Char) : Option (List Char) := do expect ':' (← skipText cs)

mutual

/-- Skips a value inside of open brackets and what follows up to the last closing bracket. `fuel`
    is at least the length of the text. -/
def skipInside : Nat → List Bracket → List Char → Option (List Char)
  | 0, _, _ => none
  | fuel + 1, brackets, cs =>
    match dropSpace cs with
    | '[' :: cs =>
      match expect ']' cs with
      | some rest => skipBehind fuel brackets rest
      | none => skipInside fuel (.list :: brackets) cs
    | '\x7b' :: cs =>
      match expect '\x7d' cs with
      | some rest => skipBehind fuel brackets rest
      | none => (skipKey cs).bind (skipInside fuel (.object :: brackets))
    | cs => (skipScalar cs).bind (skipBehind fuel brackets)

/-- Skips what follows a value inside of open brackets up to the last closing bracket. -/
def skipBehind : Nat → List Bracket → List Char → Option (List Char)
  | _, [], cs => some cs
  | 0, _, _ => none
  | fuel + 1, bracket :: brackets, cs =>
    match bracket, dropSpace cs with
    | .list, ',' :: cs => skipInside fuel (.list :: brackets) cs
    | .list, ']' :: cs => skipBehind fuel brackets cs
    | .object, ',' :: cs => (skipKey cs).bind (skipInside fuel (.object :: brackets))
    | .object, '\x7d' :: cs => skipBehind fuel brackets cs
    | _, _ => none

end

/-- Skips a value. -/
def skipValue (cs : List Char) : Option (List Char) := skipInside (cs.length + 1) [] cs

/-! ## Lists -/

/-- Reads the items behind one in a list of texts. `done` are the items so far, in reverse, and
    `fuel` is at least the length of the text. -/
def readTextsFrom : Nat → List String → Reader (List String)
  | 0, _, _ => none
  | fuel + 1, done, cs =>
    match dropSpace cs with
    | ',' :: cs => (readText cs).bind fun (item, cs) => readTextsFrom fuel (item :: done) cs
    | ']' :: cs => some (done.reverse, cs)
    | _ => none

/-- Reads a list of texts. -/
def readTexts : Reader (List String) := fun cs => do
  let cs ← expect '[' cs
  match expect ']' cs with
  | some rest => return ([], rest)
  | none =>
    let (item, rest) ← readText cs
    readTextsFrom (rest.length + 1) [item] rest

end Monorepo.Json
