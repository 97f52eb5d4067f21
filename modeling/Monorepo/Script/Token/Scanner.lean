import Monorepo.Script.SyntaxError
import Monorepo.Text.Letter
import Monorepo.Text.Numeral
import Monorepo.Decimal.Reading

/-!
# The scanner

Characters become tokens one at a time: the scanner is a machine that reads a character, never looks
ahead, and keeps what it has begun in its mode. So scanning a text is a fold, and scanning two texts
in a row is scanning the second from the state that the first leaves behind.

* At the start of a line the mode measures the margin; blank lines and comment lines leave no token.
* Inside brackets a line break is a blank, and after a backslash it disappears.
* A literal that follows a literal is appended to it.
-/

namespace Monorepo.Script

/-- A text literal under way. -/
structure Literal where
  /-- Where its first quote stands. -/
  start : Position
  /-- Whether backslashes stand for themselves. -/
  raw : Bool
  /-- The quote it began with. -/
  quote : Char
deriving DecidableEq, Repr

/-- What a scanner has begun and not finished. -/
inductive Mode
  /-- The margin of a line, up to a width so far. -/
  | margin (width : Nat)
  /-- A comment on a line of its own. -/
  | marginComment
  /-- Between two tokens. -/
  | between
  /-- A comment behind other tokens. -/
  | comment
  /-- A character that may be the first of two. -/
  | pending (start : Position) (first : Char)
  /-- A name, its characters in reverse. -/
  | name (start : Position) (reversed : List Char)
  /-- A number, its characters in reverse and without underscores. -/
  | number (start : Position) (reversed : List Char)
  /-- One quote of a literal. -/
  | opened (literal : Literal)
  /-- Two quotes: an empty literal, or the start of a long one. -/
  | openedTwice (literal : Literal)
  /-- Inside a literal that ends with its quote on the same line. -/
  | short (literal : Literal) (reversed : List Char)
  /-- After a backslash inside such a literal. -/
  | shortEscape (literal : Literal) (reversed : List Char)
  /-- Inside a literal that ends with three quotes, `closing < 3` of which were just read. -/
  | long (literal : Literal) (closing : Nat) (reversed : List Char)
  /-- After a backslash inside such a literal. -/
  | longEscape (literal : Literal) (reversed : List Char)
deriving DecidableEq, Repr

/-- The state of a scanner between two characters. -/
structure Scanner where
  /-- What has been begun. -/
  mode : Mode
  /-- The place of the next character. -/
  next : Position
  /-- The widths of the open indented blocks, the innermost first. -/
  widths : List Nat
  /-- How many brackets are open. -/
  brackets : Nat
  /-- The tokens so far, the last one first. -/
  emitted : List Token
deriving DecidableEq, Repr

/-- The characters that a backslash and `c` stand for, in reverse, in a literal that is not raw. -/
def unescape : Char → List Char
  | '\n' => []
  | 'n' => ['\n']
  | 't' => ['\t']
  | 'r' => ['\r']
  | '0' => [Char.ofNat 0]
  | '\\' => ['\\']
  | '\'' => ['\'']
  | '"' => ['"']
  | c => [c, '\\']

/-- The characters that a backslash and `c` stand for, in reverse. -/
def Literal.escaped (l : Literal) (c : Char) : List Char :=
  if l.raw then [c, '\\'] else unescape c

namespace Scanner

/-- The scanner before the first character. -/
def start : Scanner := ⟨.margin 0, ⟨1, 1⟩, [], 0, []⟩

/-- Adds a token. -/
def emit (s : Scanner) (position : Position) (lexeme : Lexeme) : Scanner :=
  { s with emitted := ⟨lexeme, position⟩ :: s.emitted, mode := .between }

/-- Adds a text literal, to the token before it when that is a literal as well. -/
def emitText (s : Scanner) (position : Position) (value : String) : Scanner :=
  match s.emitted with
  | ⟨.text before, place⟩ :: tokens =>
    { s with emitted := ⟨.text (before ++ value), place⟩ :: tokens, mode := .between }
  | _ => s.emit position (.text value)

/-- Adds a mark and counts the open brackets; a closing one too many is not counted. -/
def emitMark (s : Scanner) (position : Position) (m : Mark) : Scanner :=
  let brackets := match m with
    | .leftParen | .leftBracket | .leftBrace => s.brackets + 1
    | .rightParen | .rightBracket | .rightBrace => s.brackets - 1
    | _ => s.brackets
  { s.emit position (.mark m) with brackets := brackets }

/-- The mark that one character stands for on its own. -/
def oneMark : Char → Option Mark
  | '(' => some .leftParen
  | ')' => some .rightParen
  | '[' => some .leftBracket
  | ']' => some .rightBracket
  | '{' => some .leftBrace
  | '}' => some .rightBrace
  | ',' => some .comma
  | ':' => some .colon
  | ';' => some .semicolon
  | '.' => some .dot
  | '=' => some .assign
  | '+' => some .plus
  | '-' => some .minus
  | '*' => some .star
  | '/' => some .slash
  | '%' => some .percent
  | '<' => some .less
  | '>' => some .greater
  | _ => none

/-- The mark that two characters stand for together. -/
def twoMark : Char → Char → Option Mark
  | '*', '*' => some .doubleStar
  | '/', '/' => some .doubleSlash
  | '=', '=' => some .equal
  | '!', '=' => some .notEqual
  | '<', '=' => some .lessEqual
  | '>', '=' => some .greaterEqual
  | '+', '=' => some .plusAssign
  | '-', '=' => some .minusAssign
  | _, _ => none

/-- Whether a token that starts with `c` may need a second character to be known. -/
def mayPair (c : Char) : Bool :=
  ['*', '/', '=', '!', '<', '>', '+', '-', '.', '\\'].contains c

/-- The number that lower-case characters spell: with a base mark `0x`, `0o` or `0b` an integer in
    that base, with a point or an exponent a fraction, and otherwise a decimal integer with any
    number of `l` behind it. An integer has to fit in 63 bits. -/
def readNumber? (cs : List Char) : Option Lexeme :=
  let integer (n : Option Nat) : Option Lexeme := (n.filter (· ≤ Decimal.maxInt64.toNat)).map .int
  match cs with
  | '0' :: 'x' :: digits => integer (Decimal.readNat? 16 digits)
  | '0' :: 'o' :: digits => integer (Decimal.readNat? 8 digits)
  | '0' :: 'b' :: digits => integer (Decimal.readNat? 2 digits)
  | _ =>
    if cs.contains '.' || cs.contains 'e' then (Decimal.readFloat? cs).map .float
    else integer (Decimal.readNat? 10 (cs.reverse.dropWhile (· == 'l')).reverse)

/-- Whether `c` continues the number read so far. A sign does after the letter of an exponent, which
    is no exponent in base 16. -/
def continuesNumber (reversed : List Char) (c : Char) : Bool :=
  c.isAlphanum || c == '.' || c == '_' ||
    ((c == '+' || c == '-') && (reversed.head? == some 'e' || reversed.head? == some 'E')
      && !((reversed.reverse.take 2).map Char.toLower == ['0', 'x']))

/-- Whether a name is a mark in front of a literal: at most two of `r`, `u`, `b` and `f`. -/
def isLiteralMark (name : List Char) : Bool :=
  name.length ≤ 2 && name.all fun c => ['r', 'u', 'b', 'f'].contains c.toLower

/-- Compares the margin of a line that holds a token with the open blocks. -/
def indentTo (s : Scanner) (width : Nat) : Except SyntaxError Scanner :=
  let here : Position := ⟨s.next.line, 1⟩
  let current := s.widths.headD 0
  if width > current then
    .ok { s.emit here .indent with widths := width :: s.widths }
  else
    let closed := s.widths.takeWhile (· > width)
    let left := s.widths.dropWhile (· > width)
    let s' := closed.foldl (fun s _ => s.emit here .dedent) s
    if left.headD 0 = width then .ok { s' with widths := left, mode := .between }
    else .error ⟨s.next, .unmatchedDedent⟩

/-- Ends what has been begun, as if no further character belonged to it. -/
def settle (s : Scanner) : Except SyntaxError Scanner :=
  match s.mode with
  | .margin _ | .marginComment | .between | .comment => .ok s
  | .pending position first =>
    match oneMark first with
    | some m => .ok (s.emitMark position m)
    | none => .error ⟨position, .unexpectedCharacter first⟩
  | .name position reversed => .ok (s.emit position (.name (String.ofList reversed.reverse)))
  | .number position reversed =>
    match readNumber? (reversed.reverse.map Char.toLower) with
    | some lexeme => .ok (s.emit position lexeme)
    | none => .error ⟨position, .invalidNumber (String.ofList reversed.reverse)⟩
  | .openedTwice literal => .ok (s.emitText literal.start "")
  | .opened literal | .short literal _ | .shortEscape literal _ | .long literal _ _
  | .longEscape literal _ => .error ⟨literal.start, .unterminatedText⟩

/-- A character between two tokens. -/
def begin (s : Scanner) (c : Char) : Except SyntaxError Scanner :=
  if c = ' ' ∨ c = '\t' ∨ c = '\r' ∨ c = '\x0c' then .ok { s with mode := .between }
  else if c = '#' then .ok { s with mode := .comment }
  else if c = '\n' then
    if s.brackets = 0 then .ok { s.emit s.next .newline with mode := .margin 0 }
    else .ok { s with mode := .between }
  else if c = '"' ∨ c = '\'' then .ok { s with mode := .opened ⟨s.next, false, c⟩ }
  else if c.isDigit then .ok { s with mode := .number s.next [c] }
  else if mayPair c then .ok { s with mode := .pending s.next c }
  else match oneMark c with
    | some m => .ok (s.emitMark s.next m)
    | none =>
      if Text.isLetter c || c == '_' then .ok { s with mode := .name s.next [c] }
      else .error ⟨s.next, .unexpectedCharacter c⟩

/-- Ends what has been begun and begins anew with `c`. -/
def restart (s : Scanner) (c : Char) : Except SyntaxError Scanner :=
  s.settle.bind (·.begin c)

/-- A character inside a short literal. -/
def stepShort (s : Scanner) (l : Literal) (reversed : List Char) (c : Char) :
    Except SyntaxError Scanner :=
  if c = l.quote then .ok (s.emitText l.start (String.ofList reversed.reverse))
  else if c = '\n' then .error ⟨l.start, .unterminatedText⟩
  else if c = '\\' then .ok { s with mode := .shortEscape l reversed }
  else .ok { s with mode := .short l (c :: reversed) }

/-- A character inside a long literal. -/
def stepLong (s : Scanner) (l : Literal) (closing : Nat) (reversed : List Char) (c : Char) :
    Scanner :=
  let kept := List.replicate closing l.quote ++ reversed
  if c = l.quote then
    if closing = 2 then s.emitText l.start (String.ofList reversed.reverse)
    else { s with mode := .long l (closing + 1) reversed }
  else if c = '\\' then { s with mode := .longEscape l kept }
  else { s with mode := .long l 0 (c :: kept) }

/-- What a character does to the scanner, its place apart. -/
def react (s : Scanner) (c : Char) : Except SyntaxError Scanner :=
  match s.mode with
  | .margin width =>
    if c = ' ' then .ok { s with mode := .margin (width + 1) }
    else if c = '\t' then .ok { s with mode := .margin ((width / 8 + 1) * 8) }
    else if c = '\x0c' ∨ c = '\r' then .ok s
    else if c = '\n' then .ok { s with mode := .margin 0 }
    else if c = '#' then .ok { s with mode := .marginComment }
    else (s.indentTo width).bind (·.begin c)
  | .marginComment => .ok (if c = '\n' then { s with mode := .margin 0 } else s)
  | .between => s.begin c
  | .comment => if c = '\n' then s.begin c else .ok s
  | .pending position first =>
    if first = '\\' ∧ c = '\n' then .ok { s with mode := .between }
    else if first = '.' ∧ c.isDigit then .ok { s with mode := .number position [c, '.'] }
    else match twoMark first c with
      | some m => .ok (s.emitMark position m)
      | none => s.restart c
  | .name position reversed =>
    if Text.isLetter c || Text.isNumeral c || c == '_' then
      .ok { s with mode := .name position (c :: reversed) }
    else if (c = '"' ∨ c = '\'') ∧ isLiteralMark reversed then
      .ok { s with mode := .opened ⟨s.next, reversed.any (·.toLower == 'r'), c⟩ }
    else s.restart c
  | .number position reversed =>
    if continuesNumber reversed c then
      .ok { s with mode := .number position (if c = '_' then reversed else c :: reversed) }
    else s.restart c
  | .opened l =>
    if c = l.quote then .ok { s with mode := .openedTwice l } else s.stepShort l [] c
  | .openedTwice l =>
    if c = l.quote then .ok { s with mode := .long l 0 [] } else s.restart c
  | .short l reversed => s.stepShort l reversed c
  | .shortEscape l reversed => .ok { s with mode := .short l (l.escaped c ++ reversed) }
  | .long l closing reversed => .ok (s.stepLong l closing reversed c)
  | .longEscape l reversed => .ok { s with mode := .long l 0 (l.escaped c ++ reversed) }

/-- Reads one character. -/
def step (s : Scanner) (c : Char) : Except SyntaxError Scanner :=
  (s.react c).map fun s' => { s' with next := s.next.after c }

/-- Reads one character after another, up to the first fault. -/
def run : Scanner → List Char → Except SyntaxError Scanner
  | s, [] => .ok s
  | s, c :: cs => (s.step c).bind (·.run cs)

/-- The tokens of the text that the scanner has read: a last line without a line break is ended, and
    so are the open blocks. -/
def close (s : Scanner) : Except SyntaxError (List Token) :=
  s.settle.map fun s =>
    let ended := match s.emitted with
      | [] => s
      | ⟨.newline, _⟩ :: _ => s
      | _ => s.emit s.next .newline
    let closed := s.widths.foldl (fun s _ => s.emit s.next .dedent) ended
    (closed.emit s.next .finish).emitted.reverse

end Scanner

/-- The tokens of a text. -/
def tokenize (source : String) : Except SyntaxError (List Token) :=
  (Scanner.start.run source.toList).bind Scanner.close

end Monorepo.Script
