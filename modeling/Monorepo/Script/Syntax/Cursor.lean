import Monorepo.Script.SyntaxError

/-!
# Reading tokens

A cursor stands on a token of a stream that is never empty: it does not move past the last token. A
parser takes a cursor and either moves it and gives a result, or fails at the token on which it
stands. All repetitions are instances of one loop, which is paid for with the tokens ahead: every
turn has to take one.
-/

namespace Monorepo.Script

/-- A place in a stream of tokens. -/
structure Cursor where
  /-- The token under the cursor. -/
  here : Token
  /-- The tokens behind it. -/
  ahead : List Token
deriving Repr

/-- The tokens that are left, the one under the cursor included. -/
def Cursor.tokens (c : Cursor) : List Token := c.here :: c.ahead

/-- The cursor on the next token; the last token is kept. -/
def Cursor.next (c : Cursor) : Cursor :=
  match c.ahead with
  | [] => c
  | token :: tokens => ⟨token, tokens⟩

/-- A reader of tokens. -/
abbrev Parser := StateT Cursor (Except SyntaxError)

namespace Parser

variable {α : Type}

/-- Fails at the token under the cursor. -/
def fail (fault : SyntaxFault) : Parser α :=
  fun c => .error ⟨c.here.position, fault⟩

/-- Fails because something else should stand under the cursor. -/
def unexpected (expected : Expectation) : Parser α :=
  fun c => .error ⟨c.here.position, .unexpected expected c.here.lexeme⟩

/-- What stands under the cursor. -/
def peek : Parser Lexeme := fun c => .ok (c.here.lexeme, c)

/-- The line of the token under the cursor. -/
def line : Parser Nat := fun c => .ok (c.here.position.line, c)

/-- What stands behind the token under the cursor. -/
def peekNext : Parser (Option Lexeme) := fun c => .ok (c.ahead.head?.map Token.lexeme, c)

/-- Moves to the next token. -/
def advance : Parser Unit := fun c => .ok ((), c.next)

/-- Whether `lexeme` stands under the cursor. -/
def at? (lexeme : Lexeme) : Parser Bool := fun c => .ok (c.here.lexeme = lexeme, c)

/-- Takes `lexeme` if it stands under the cursor, and tells whether it did. -/
def eat (lexeme : Lexeme) : Parser Bool := do
  if ← at? lexeme then
    advance
    return true
  else return false

/-- Takes a mark if it is there. -/
def eatMark (m : Mark) : Parser Bool := eat (.mark m)

/-- Takes a keyword if it is there. -/
def eatKeyword (keyword : String) : Parser Bool := eat (.name keyword)

/-- Takes `lexeme`, which has to be there. -/
def expect (lexeme : Lexeme) (expected : Expectation) : Parser Unit := do
  unless ← eat lexeme do unexpected expected

/-- Takes a mark that has to be there. -/
def expectMark (m : Mark) : Parser Unit := expect (.mark m) (.mark m)

/-- Takes a keyword that has to be there. -/
def expectKeyword (keyword : String) : Parser Unit :=
  expect (.name keyword) (.keyword keyword)

/-- The loop of `collect`: every turn is paid for with a token of the `budget`; `done` holds the
    items so far, the last one first. -/
def collectWithin (more : Parser Bool) (item : Parser α) :
    List Token → List α → Parser (List α)
  | [], _ => fail .stalled
  | _ :: budget, done => do
    if ← more then collectWithin more item budget ((← item) :: done)
    else return done.reverse

/-- Reads an `item` as long as `more` tells that there is one; each turn has to take a token. -/
def collect (more : Parser Bool) (item : Parser α) : Parser (List α) :=
  fun c => collectWithin more item c.tokens [] c

/-- The rest of a list whose items are separated by commas. A comma may stand at the end, in front
    of what `stop` recognizes. -/
def commaRest (stop : Parser Bool) (item : Parser α) : Parser (List α) :=
  collect (do if ← eatMark .comma then return !(← stop) else return false) item

/-- A list of items separated by commas that ends in front of what `stop` recognizes. -/
def commaList (stop : Parser Bool) (item : Parser α) : Parser (List α) := do
  if ← stop then return []
  else return (← item) :: (← commaRest stop item)

end Parser

end Monorepo.Script
