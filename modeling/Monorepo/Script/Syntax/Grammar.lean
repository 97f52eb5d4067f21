import Monorepo.Script.Syntax
import Monorepo.Script.Syntax.Cursor
import Monorepo.Script.Token.Scanner

/-!
# The grammar

The grammar is stratified by the room left for nesting. A bracket, a block, an operand of a unary
operator and every further link of a chain of operators takes one unit of room; the parsers that
work in the room left over are the fields of `Inner`. So each parser below is an ordinary function
of the parsers one level further in, and the whole grammar is one recursion on the room. Only the
clauses of a comprehension are read without taking room; they are stratified by a bound on the
tokens that are left.

Binding, from the loosest: conditional, `or`, `and`, `not`, comparison, sum, product, sign, then
calls, subscripts and attributes. Chains associate to the left.
-/

namespace Monorepo.Script

open Monorepo.Script.Parser

/-- How deeply brackets, operators and blocks may be nested. -/
def maxNesting : Nat := 100

/-- The parsers that work one level further in. -/
structure Inner where
  /-- An expression without commas. -/
  test : Parser Expr
  /-- The operand of `not`. -/
  negation : Parser Expr
  /-- The operand of a sign. -/
  factor : Parser Expr
  /-- The right operand of `or`, and what follows it. -/
  orLink : Expr → Parser Expr
  /-- The right operand of `and`, and what follows it. -/
  andLink : Expr → Parser Expr
  /-- The right operand of a comparison, and what follows it. -/
  compareLink : ComparisonOp → Expr → Parser Expr
  /-- The right operand in a sum, and what follows it. -/
  sumLink : ArithmeticOp → Expr → Parser Expr
  /-- The right operand in a product, and what follows it. -/
  productLink : ArithmeticOp → Expr → Parser Expr
  /-- A call, subscript or attribute, and what follows it. -/
  trailer : Expr → Parser Expr
  /-- A block of statements. -/
  block : Parser (List Statement)
  /-- What a comprehension runs over, and its condition; these take no room. -/
  clause : Parser Expr

/-! ## Expressions -/

/-- Whether an expression can start with the token under the cursor. -/
def startsExpression : Parser Bool := do
  match ← peek with
  | .name name => return !isKeyword name || name == "not" || name == "lambda"
  | .int _ | .float _ | .text _ => return true
  | .mark .leftParen | .mark .leftBracket | .mark .leftBrace | .mark .minus | .mark .plus =>
    return true
  | _ => return false

/-- A name that is no keyword. -/
def identifier : Parser String := do
  match ← peek with
  | .name name =>
    if isKeyword name then unexpected .identifier
    else
      advance
      return name
  | _ => unexpected .identifier

/-- The variables of a loop: names with commas between them, in parentheses or not. -/
def loopTargets : Parser (List String) := do
  let parenthesized ← eatMark .leftParen
  let first ← identifier
  let stop : Parser Bool := do
    return (← at? (.name "in")) || (← at? (.mark .rightParen))
  let rest ← commaRest stop identifier
  if parenthesized then expectMark .rightParen
  return first :: rest

/-- Expressions with commas between them: a tuple, or a single one as it is. -/
def testList (inner : Inner) : Parser Expr := do
  let first ← inner.test
  if ← at? (.mark .comma) then
    let rest ← commaRest (do return !(← startsExpression)) inner.test
    return .tuple (first :: rest)
  else return first

/-- An argument of a call. -/
def argument (inner : Inner) : Parser Argument := do
  match ← peek, ← peekNext with
  | .mark .star, _ =>
    advance
    return .spread (← inner.test)
  | .mark .doubleStar, _ =>
    advance
    return .spreadKeywords (← inner.test)
  | .name name, some (.mark .assign) =>
    if isKeyword name then positional
    else
      advance
      advance
      return .keyword name (← inner.test)
  | _, _ => positional
where
  /-- An argument that is an expression. -/
  positional : Parser Argument := do
    let value ← inner.test
    if ← at? (.name "for") then fail .generatorArgument
    return .positional value

/-- The arguments of a call, up to the closing parenthesis. -/
def callArguments (inner : Inner) : Parser (List Argument) := do
  let arguments ← commaList (at? (.mark .rightParen)) (argument inner)
  expectMark .rightParen
  return arguments

/-- What follows an opening parenthesis: the rest of a tuple, or of an expression. -/
def parenthesized (inner : Inner) : Parser Expr := do
  if ← eatMark .rightParen then return .tuple []
  let first ← inner.test
  if ← eatMark .rightParen then return first
  let rest ← commaRest (at? (.mark .rightParen)) inner.test
  expectMark .rightParen
  return .tuple (first :: rest)

/-- The entry of a dictionary. -/
def entry (inner : Inner) : Parser (Expr × Expr) := do
  let key ← inner.test
  expectMark .colon
  return (key, ← inner.test)

/-- What follows an opening brace. -/
def braced (inner : Inner) : Parser Expr := do
  let entries ← commaList (at? (.mark .rightBrace)) (entry inner)
  expectMark .rightBrace
  return .dict entries

/-- Calls, subscripts and attributes behind an expression. -/
def trailers (inner : Inner) (e : Expr) : Parser Expr := do
  match ← peek with
  | .mark .leftParen | .mark .leftBracket | .mark .dot => inner.trailer e
  | _ => return e

/-- Further operands of a product. -/
def productTail (inner : Inner) (left : Expr) : Parser Expr := do
  match ← peek with
  | .mark .star => advance; inner.productLink .multiply left
  | .mark .slash => advance; inner.productLink .divide left
  | .mark .doubleSlash => advance; inner.productLink .floorDivide left
  | .mark .percent => advance; inner.productLink .modulo left
  | _ => return left

/-- Further operands of a sum. -/
def sumTail (inner : Inner) (left : Expr) : Parser Expr := do
  match ← peek with
  | .mark .plus => advance; inner.sumLink .add left
  | .mark .minus => advance; inner.sumLink .subtract left
  | _ => return left

/-- The comparison operator under the cursor and the number of tokens it takes. -/
def comparisonOp : Parser (Option (ComparisonOp × Nat)) := do
  match ← peek, ← peekNext with
  | .mark .equal, _ => return some (.equal, 1)
  | .mark .notEqual, _ => return some (.notEqual, 1)
  | .mark .less, _ => return some (.less, 1)
  | .mark .lessEqual, _ => return some (.lessEqual, 1)
  | .mark .greater, _ => return some (.greater, 1)
  | .mark .greaterEqual, _ => return some (.greaterEqual, 1)
  | .name "in", _ => return some (.within, 1)
  | .name "is", some (.name "not") => return some (.notSame, 2)
  | .name "is", _ => return some (.same, 1)
  | .name "not", some (.name "in") => return some (.notWithin, 2)
  | _, _ => return none

/-- Further operands of a chain of comparisons. -/
def compareTail (inner : Inner) (left : Expr) : Parser Expr := do
  match ← comparisonOp with
  | some (op, width) =>
    advance
    if width = 2 then advance
    inner.compareLink op left
  | none => return left

/-- Further operands of `and`. -/
def andTail (inner : Inner) (left : Expr) : Parser Expr := do
  if ← eatKeyword "and" then inner.andLink left else return left

/-- Further operands of `or`. -/
def orTail (inner : Inner) (left : Expr) : Parser Expr := do
  if ← eatKeyword "or" then inner.orLink left else return left

/-- What an expression in brackets may be: a list, or a comprehension. -/
def bracketed (inner : Inner) : Parser Expr := do
  if ← eatMark .rightBracket then return .list []
  let first ← inner.test
  if ← eatKeyword "for" then
    let targets ← loopTargets
    expectKeyword "in"
    let source ← inner.clause
    let condition ← if ← eatKeyword "if" then some <$> inner.clause else pure none
    expectMark .rightBracket
    return .comprehension first targets source condition
  let rest ← commaRest (at? (.mark .rightBracket)) inner.test
  expectMark .rightBracket
  return .list (first :: rest)

/-- A literal, a name or an expression in brackets. -/
def atom (inner : Inner) : Parser Expr := do
  match ← peek with
  | .int value => advance; return .int value
  | .float value => advance; return .float value
  | .text value => advance; return .text value
  | .name "True" => advance; return .bool true
  | .name "False" => advance; return .bool false
  | .name "None" => advance; return .none
  | .name name =>
    if isKeyword name then unexpected .expression
    else
      advance
      return .name name
  | .mark .leftParen => advance; parenthesized inner
  | .mark .leftBracket => advance; bracketed inner
  | .mark .leftBrace => advance; braced inner
  | _ => unexpected .expression

/-- An atom with its calls, subscripts and attributes, behind any number of signs. -/
def factor (inner : Inner) : Parser Expr := do
  match ← peek with
  | .mark .minus => advance; return .unary .minus (← inner.factor)
  | .mark .plus => advance; return .unary .plus (← inner.factor)
  | _ => trailers inner (← atom inner)

/-- A product. -/
def product (inner : Inner) : Parser Expr := do productTail inner (← factor inner)

/-- A sum. -/
def sum (inner : Inner) : Parser Expr := do sumTail inner (← product inner)

/-- An expression behind any number of `not`. -/
def negation (inner : Inner) : Parser Expr := do
  if ← eatKeyword "not" then return .unary .not (← inner.negation)
  else compareTail inner (← sum inner)

/-- A chain of `and`. -/
def conjunction (inner : Inner) : Parser Expr := do andTail inner (← negation inner)

/-- A chain of `or`. -/
def disjunction (inner : Inner) : Parser Expr := do orTail inner (← conjunction inner)

/-- An expression without commas. -/
def conditional (inner : Inner) : Parser Expr := do
  if ← at? (.name "lambda") then fail .lambda
  let positive ← disjunction inner
  if ← eatKeyword "if" then
    let condition ← disjunction inner
    expectKeyword "else"
    return .conditional condition positive (← inner.test)
  else return positive

/-! ## Statements -/

/-- The target that an expression in front of `=` stands for. -/
def assignTarget : Expr → Parser Target
  | .name name => return .name name
  | .tuple items | .list items => do
    let names ← items.mapM fun
      | .name name => pure name
      | _ => fail .unpackTarget
    return .unpack names
  | e@(.attribute ..) | e@(.subscript ..) => return .place e
  | _ => fail .assignTarget

/-- Names with dots between them. -/
def dottedName : Parser (List String) := do
  let first ← identifier
  return first :: (← collect (eatMark .dot) identifier)

/-- One module of an import. Without a name of its own it binds the first part of the path. -/
def importEntry : Parser (String × String) := do
  let path ← dottedName
  if ← eatKeyword "as" then return (← identifier, ".".intercalate path)
  else return (path.headD "", path.headD "")

/-- What follows `import`. -/
def importModules : Parser Action := do
  let first ← importEntry
  return .imports (first :: (← collect (eatMark .comma) importEntry))

/-- One name imported from a module. -/
def importedName (origin : String) : Parser (String × String) := do
  let name ← identifier
  let bound ← if ← eatKeyword "as" then identifier else pure name
  let separator := if origin.isEmpty || origin.back == '.' then "" else "."
  return (bound, origin ++ separator ++ name)

/-- What follows `from`. A star binds nothing. -/
def importFrom : Parser Action := do
  let dots ← collect (eatMark .dot) (pure '.')
  let path ← if ← at? (.name "import") then pure [] else dottedName
  let origin := String.ofList dots ++ ".".intercalate path
  expectKeyword "import"
  if ← eatMark .star then return .imports []
  let parenthesized ← eatMark .leftParen
  let stop : Parser Bool := do return parenthesized && (← at? (.mark .rightParen))
  let bindings ← commaList stop (importedName origin)
  if parenthesized then expectMark .rightParen
  return .imports bindings

/-- An expression, or an assignment to it. -/
def expressionAction (inner : Inner) : Parser Action := do
  let e ← testList inner
  match ← peek with
  | .mark .assign =>
    advance
    let value ← testList inner
    let more ← collect (eatMark .assign) (testList inner)
    unless more.isEmpty do fail .chainedAssignment
    return .assign (← assignTarget e) value
  | .mark .plusAssign => advance; augment .add e
  | .mark .minusAssign => advance; augment .subtract e
  | _ => return .evaluate e
where
  /-- What follows the operator of an augmented assignment. -/
  augment (op : ArithmeticOp) (e : Expr) : Parser Action := do
    match e with
    | .name name => return .augment name op (← testList inner)
    | _ => fail .augmentedTarget

/-- A statement that holds no block. -/
def simpleAction (inner : Inner) : Parser Action := do
  match ← peek with
  | .name "pass" => advance; return .pass
  | .name "break" => advance; return .leave
  | .name "continue" => advance; return .proceed
  | .name "return" =>
    advance
    match ← peek with
    | .newline | .mark .semicolon | .finish => return .give none
    | _ => return .give (some (← testList inner))
  | .name "import" => advance; importModules
  | .name "from" => advance; importFrom
  | _ => expressionAction inner

/-- A statement that holds no block, with its line. -/
def simpleStatement (inner : Inner) : Parser Statement := do
  let line ← line
  return .at line (← simpleAction inner)

/-- Statements on one line with semicolons between them. -/
def simpleLine (inner : Inner) : Parser (List Statement) := do
  let first ← simpleStatement inner
  let more : Parser Bool := do
    if ← eatMark .semicolon then
      return !((← at? .newline) || (← at? .finish))
    else return false
  let rest ← collect more (simpleStatement inner)
  match ← peek with
  | .newline => advance
  | .finish | .dedent => pure ()
  | _ => unexpected .endOfStatement
  return first :: rest

/-- What follows `if`. -/
def branchAction (inner : Inner) : Parser Action := do
  let first ← guarded
  let more ← collect (eatKeyword "elif") guarded
  let otherwise ← if ← eatKeyword "else" then inner.block else pure []
  return .branch (first :: more) otherwise
where
  /-- A condition and its block. -/
  guarded : Parser (Expr × List Statement) := do
    let condition ← inner.test
    return (condition, ← inner.block)

/-- What follows `for`. -/
def loopAction (inner : Inner) : Parser Action := do
  let targets ← loopTargets
  expectKeyword "in"
  let source ← testList inner
  return .loop targets source (← inner.block)

/-- A parameter of a function. -/
def parameter (inner : Inner) : Parser Parameter := do
  match ← peek with
  | .mark .star | .mark .doubleStar => fail .variadicParameter
  | _ => pure ()
  let name ← identifier
  if ← eatMark .assign then return ⟨name, some (← inner.test)⟩
  else return ⟨name, none⟩

/-- What follows `def`. -/
def defineAction (inner : Inner) : Parser Action := do
  let name ← identifier
  expectMark .leftParen
  let parameters ← commaList (at? (.mark .rightParen)) (parameter inner)
  expectMark .rightParen
  return .define name parameters (← inner.block)

/-- The keywords of statements that scripts do not have. -/
def unsupportedKeywords : List String :=
  ["while", "class", "try", "with", "lambda", "global", "del", "raise", "assert", "yield",
   "nonlocal"]

/-- A statement, or several on one line. -/
def statements (inner : Inner) : Parser (List Statement) := do
  let line ← line
  match ← peek with
  | .name "if" => advance; return [.at line (← branchAction inner)]
  | .name "for" => advance; return [.at line (← loopAction inner)]
  | .name "def" => advance; return [.at line (← defineAction inner)]
  | .name name =>
    if unsupportedKeywords.contains name then fail (.unsupportedStatement name)
    else simpleLine inner
  | _ => simpleLine inner

/-- A colon and a block: the rest of the line, or indented lines below it. -/
def suite (inner : Inner) : Parser (List Statement) := do
  expectMark .colon
  if ← eat .newline then
    expect .indent .indentedBlock
    let more : Parser Bool := do return !((← at? .dedent) || (← at? .finish))
    let body ← collect more (statements inner)
    let _ ← eat .dedent
    return body.flatten
  else simpleLine inner

/-! ## The recursion on the room -/

namespace Inner

/-- No room is left. -/
def exhausted : Inner where
  test := fail .nesting
  negation := fail .nesting
  factor := fail .nesting
  orLink _ := fail .nesting
  andLink _ := fail .nesting
  compareLink _ _ := fail .nesting
  sumLink _ _ := fail .nesting
  productLink _ _ := fail .nesting
  trailer _ := fail .nesting
  block := fail .nesting
  clause := fail .nesting

/-- A call, subscript or attribute, and what follows it. -/
def readTrailer (inner : Inner) (e : Expr) : Parser Expr := do
  match ← peek with
  | .mark .leftParen =>
    advance
    trailers inner (.call e (← callArguments inner))
  | .mark .leftBracket =>
    advance
    if ← at? (.mark .colon) then fail .slice
    let index ← testList inner
    if ← at? (.mark .colon) then fail .slice
    expectMark .rightBracket
    trailers inner (.subscript e index)
  | _ =>
    advance
    trailers inner (.attribute e (← identifier))

/-- The parsers with one more unit of room than `inner`. -/
def deeper (inner : Inner) : Inner where
  test := conditional inner
  negation := Script.negation inner
  factor := Script.factor inner
  orLink left := do orTail inner (.either left (← conjunction inner))
  andLink left := do andTail inner (.both left (← Script.negation inner))
  compareLink op left := do compareTail inner (.compare op left (← sum inner))
  sumLink op left := do sumTail inner (.arithmetic op left (← product inner))
  productLink op left := do productTail inner (.arithmetic op left (← Script.factor inner))
  trailer := readTrailer inner
  block := suite inner
  clause := fail .stalled

/-- The parsers of `inner` with clauses in which comprehensions stand inside one another up to `n`
    times. -/
def withClauses (inner : Inner) : Nat → Inner
  | 0 => { inner with clause := fail .stalled }
  | n + 1 => { inner with clause := fun c => disjunction (inner.withClauses n) c }

/-- The parsers with room for a given depth of nesting, on at most `tokens` tokens. -/
def ofRoom (tokens : Nat) : Nat → Inner
  | 0 => exhausted
  | room + 1 => (ofRoom tokens room).deeper.withClauses tokens

end Inner

/-- The statements of a whole script, up to the end of the input. -/
def wholeScript (inner : Inner) : Parser (List Statement) := do
  let item : Parser (List Statement) := do
    if ← eat .newline then return [] else statements inner
  return (← collect (do return !(← at? .finish)) item).flatten

/-- The statements that a stream of tokens spells. -/
def parseTokens (tokens : List Token) : Except SyntaxError (List Statement) :=
  match tokens with
  | [] => .ok []
  | here :: ahead =>
    ((wholeScript (Inner.ofRoom (ahead.length + 1) maxNesting)).run ⟨here, ahead⟩).map (·.1)

/-- The statements of a script. -/
def parseScript (source : String) : Except SyntaxError (List Statement) :=
  (tokenize source).bind parseTokens

end Monorepo.Script
