import Monorepo.Script.Syntax.Grammar

/-!
# Recursive descent

The grammar once more, as a machine that reads a stream of tokens by recursive descent: it holds an
index into the stream and counts the levels of nesting that are open. It looks after itself: it
halts when it reads a token that is not there, leaves more levels than are open, turns a loop
without taking a token, or begins a routine neither behind its caller's first token nor on a lower
level of the grammar. So it ends on every stream, and a halt that is not a fault of the text says
that it does not work as it should.
-/

namespace Monorepo.Script

/-- Where a descent stands in its stream, and how many levels of nesting are open. -/
structure Place where
  /-- The index of the next token. -/
  index : Nat
  /-- The number of open levels. -/
  depth : Nat
deriving DecidableEq, Repr

/-- Why a descent ends without a result. -/
inductive Halt
  /-- The text is faulty. -/
  | fault (e : SyntaxError)
  /-- A token was read that is not in the stream. -/
  | outOfRange
  /-- More levels of nesting were left than were open. -/
  | underflow
  /-- A turn of a loop took no token and did not end the loop. -/
  | idle
  /-- A routine began where its caller began, but on no lower level of the grammar. -/
  | circular
deriving DecidableEq, Repr

/-- A part of a descent through a stream of tokens. Its place outlasts a halt. -/
abbrev Descent := ReaderT (List Token) (ExceptT Halt (StateM Place))

namespace Descent

variable {α β σ κ : Type}

/-! ## Tokens -/

/-- Ends the descent. -/
def halt (h : Halt) : Descent α := fun _ s => (.error h, s)

/-- The token at an index. -/
def tokenAt (i : Nat) : Descent Token := fun tokens s =>
  match tokens[i]? with
  | some token => (.ok token, s)
  | none => (.error .outOfRange, s)

/-- The token under the index; behind the stream, its last one. -/
def token : Descent Token := fun tokens s =>
  tokenAt (min s.index (tokens.length - 1)) tokens s

/-- What stands under the index. -/
def peek : Descent Lexeme := do return (← token).lexeme

/-- What stands behind the token under the index, if there is anything. -/
def peekNext : Descent (Option Lexeme) := fun tokens s =>
  (.ok (tokens[s.index + 1]?.map Token.lexeme), s)

/-- Moves to the next token; the last one is kept. -/
def advance : Descent Unit := fun tokens s =>
  (.ok (), if s.index < tokens.length - 1 then { s with index := s.index + 1 } else s)

/-- Fails at the token under the index. -/
def fail (fault : SyntaxFault) : Descent α := do halt (.fault ⟨(← token).position, fault⟩)

/-- Fails because something else should stand under the index. -/
def unexpected (expected : Expectation) : Descent α := do
  let here ← token
  halt (.fault ⟨here.position, .unexpected expected here.lexeme⟩)

/-- Whether `lexeme` stands under the index. -/
def at? (lexeme : Lexeme) : Descent Bool := do return (← peek) = lexeme

/-- Takes `lexeme` if it stands under the index, and tells whether it did. -/
def eat (lexeme : Lexeme) : Descent Bool := do
  if ← at? lexeme then
    advance
    return true
  else return false

/-- Takes a mark if it is there. -/
def eatMark (m : Mark) : Descent Bool := eat (.mark m)

/-- Takes a keyword if it is there. -/
def eatKeyword (keyword : String) : Descent Bool := eat (.name keyword)

/-- Takes `lexeme`, which has to be there. -/
def expect (lexeme : Lexeme) (expected : Expectation) : Descent Unit := do
  unless ← eat lexeme do unexpected expected

/-- Takes a mark that has to be there. -/
def expectMark (m : Mark) : Descent Unit := expect (.mark m) (.mark m)

/-- Takes a keyword that has to be there. -/
def expectKeyword (keyword : String) : Descent Unit := expect (.name keyword) (.keyword keyword)

/-! ## Levels of nesting -/

/-- Opens a level. -/
def descend : Descent Unit := fun tokens s =>
  if s.depth ≥ maxNesting then fail .nesting tokens s
  else (.ok (), { s with depth := s.depth + 1 })

/-- Leaves `n` levels. -/
def ascend (n : Nat) : Descent Unit := fun _ s =>
  if s.depth < n then (.error .underflow, s) else (.ok (), { s with depth := s.depth - n })

/-- One level further in; the level is left behind a fault as well. -/
def nested (m : Descent α) : Descent α := do
  descend
  fun tokens s => match m tokens s with
    | (result, s') => match ascend 1 tokens s' with
      | (.ok (), s'') => (result, s'')
      | (.error h, s'') => (.error h, s'')

/-! ## Loops -/

/-- Turns a loop as long as a turn gives something to go on with, which takes a token each time. -/
def turns (turn : σ → Descent (σ ⊕ β)) (x : σ) : Descent β := fun tokens s =>
  match turn x tokens s with
  | (.error h, s') => (.error h, s')
  | (.ok (.inr b), s') => (.ok b, s')
  | (.ok (.inl y), s') =>
    if tokens.length - s'.index < tokens.length - s.index then turns turn y tokens s'
    else (.error .idle, s')
termination_by tokens s => tokens.length - s.index

/-- Takes one more item if `more` tells that there is one. -/
def whileTurn (more : Descent Bool) (item : Descent α) (done : List α) :
    Descent (List α ⊕ List α) := do
  if ← more then return .inl (done ++ [← item]) else return .inr done

/-- Items as long as `more` tells that there is one. -/
def whileMore (more : Descent Bool) (item : Descent α) : Descent (List α) :=
  turns (whileTurn more item) []

/-- Takes one more item, the last one unless `more` tells otherwise. -/
def itemTurn (item : Descent α) (more : Descent Bool) (done : List α) :
    Descent (List α ⊕ List α) := do
  let done := done ++ [← item]
  if ← more then return .inl done else return .inr done

/-- An item, and others as long as `more` tells behind the last one that there is one. -/
def itemsWhile (item : Descent α) (more : Descent Bool) : Descent (List α) :=
  turns (itemTurn item more) []

/-- Takes one more item unless there is `stop`, the last one if no comma follows. -/
def commaTurn (stop : Descent Bool) (item : Descent α) (done : List α) :
    Descent (List α ⊕ List α) := do
  if ← stop then return .inr done
  let done := done ++ [← item]
  if ← eatMark .comma then return .inl done else return .inr done

/-- Items with commas between and perhaps behind them, up to what `stop` recognizes. -/
def commaItems (stop : Descent Bool) (item : Descent α) : Descent (List α) :=
  turns (commaTurn stop item) []

/-- Adds a link to a chain if there is an operator; otherwise leaves the levels of its links. -/
def chainTurn (operator : Descent (Option κ)) (link : κ → Expr → Descent Expr) :
    Expr × Nat → Descent ((Expr × Nat) ⊕ Expr)
  | (left, links) => do
    match ← operator with
    | none =>
      ascend links
      return .inr left
    | some op =>
      descend
      return .inl (← link op left, links + 1)

/-- An operand and the links of a chain behind it, each of which opens a level up to the end of the
    chain. -/
def chain (operand : Descent Expr) (operator : Descent (Option κ))
    (link : κ → Expr → Descent Expr) : Descent Expr := do
  turns (chainTurn operator link) (← operand, 0)

end Descent

/-! ## Routines -/

/-- The routines of a descent, which begin one another. -/
inductive Routine : Type → Type
  | statements : Routine (List Statement)
  | simpleLine : Routine (List Statement)
  | simpleAction : Routine Action
  | branchAction : Routine Action
  | loopAction : Routine Action
  | defineAction : Routine Action
  | block : Routine (List Statement)
  | suite : Routine (List Statement)
  | testList : Routine Expr
  | test : Routine Expr
  | conditional : Routine Expr
  | disjunction : Routine Expr
  | conjunction : Routine Expr
  | negation : Routine Expr
  | comparison : Routine Expr
  | sum : Routine Expr
  | product : Routine Expr
  | factor : Routine Expr
  | primary : Routine Expr
  | callArguments : Routine (List Argument)
  | atom : Routine Expr

/-- The level of the grammar that a routine reads. -/
def Routine.level {α : Type} : Routine α → Nat
  | .statements => 16
  | .simpleLine => 15
  | .simpleAction | .branchAction | .loopAction | .defineAction => 14
  | .block => 13
  | .suite => 12
  | .testList | .callArguments => 11
  | .test => 10
  | .conditional => 9
  | .disjunction => 8
  | .conjunction => 7
  | .negation => 6
  | .comparison => 5
  | .sum => 4
  | .product => 3
  | .factor => 2
  | .primary => 1
  | .atom => 0

namespace Descent

variable (call : {β : Type} → Routine β → Descent β)

/-! ### Expressions -/

/-- Whether an expression can start with the token under the index. -/
def startsExpression : Descent Bool := do
  match ← peek with
  | .name name => return !isKeyword name || name == "not" || name == "lambda"
  | .int _ | .float _ | .text _ => return true
  | .mark .leftParen | .mark .leftBracket | .mark .leftBrace | .mark .minus | .mark .plus =>
    return true
  | _ => return false

/-- A name that is no keyword. -/
def identifier : Descent String := do
  match ← peek with
  | .name name =>
    if isKeyword name then unexpected .identifier
    else
      advance
      return name
  | _ => unexpected .identifier

/-- The rest of a list behind its first item: a comma that nothing follows may stand at the end. -/
def commaRest (stop : Descent Bool) (item : Descent α) : Descent (List α) :=
  whileMore (do if ← eatMark .comma then return !(← stop) else return false) item

/-- The variables of a loop. -/
def loopTargets : Descent (List String) := do
  let parenthesized ← eatMark .leftParen
  let first ← identifier
  let stop : Descent Bool := do
    return (← at? (.name "in")) || (← at? (.mark .rightParen))
  let rest ← commaRest stop identifier
  if parenthesized then expectMark .rightParen
  return first :: rest

/-- Expressions with commas between them. -/
def testList : Descent Expr := do
  let first ← call .test
  if ← at? (.mark .comma) then
    let rest ← commaRest (do return !(← startsExpression)) (call .test)
    return .tuple (first :: rest)
  else return first

/-- An argument that is an expression. -/
def positional : Descent Argument := do
  let value ← call .test
  if ← at? (.name "for") then fail .generatorArgument
  return .positional value

/-- An argument of a call. -/
def argument : Descent Argument := do
  match ← peek, ← peekNext with
  | .mark .star, _ =>
    advance
    return .spread (← call .test)
  | .mark .doubleStar, _ =>
    advance
    return .spreadKeywords (← call .test)
  | .name name, some (.mark .assign) =>
    if isKeyword name then positional call
    else
      advance
      advance
      return .keyword name (← call .test)
  | _, _ => positional call

/-- The arguments of a call, up to the closing parenthesis. -/
def callArguments : Descent (List Argument) := do
  let arguments ← commaItems (at? (.mark .rightParen)) (argument call)
  expectMark .rightParen
  return arguments

/-- What follows an opening parenthesis. -/
def parenthesized : Descent Expr := do
  if ← eatMark .rightParen then return .tuple []
  let first ← call .test
  if ← eatMark .rightParen then return first
  let rest ← commaRest (at? (.mark .rightParen)) (call .test)
  expectMark .rightParen
  return .tuple (first :: rest)

/-- The entry of a dictionary. -/
def entry : Descent (Expr × Expr) := do
  let key ← call .test
  expectMark .colon
  return (key, ← call .test)

/-- What follows an opening brace. -/
def braced : Descent Expr := do
  let entries ← commaItems (at? (.mark .rightBrace)) (entry call)
  expectMark .rightBrace
  return .dict entries

/-- What follows the element of a comprehension and `for`. -/
def comprehension (element : Expr) : Descent Expr := do
  let targets ← loopTargets
  expectKeyword "in"
  let source ← call .disjunction
  let condition ← if ← eatKeyword "if" then some <$> call .disjunction else pure none
  expectMark .rightBracket
  return .comprehension element targets source condition

/-- What follows an opening bracket. -/
def bracketed : Descent Expr := do
  if ← eatMark .rightBracket then return .list []
  let first ← call .test
  if ← eatKeyword "for" then return ← comprehension call first
  let rest ← commaRest (at? (.mark .rightBracket)) (call .test)
  expectMark .rightBracket
  return .list (first :: rest)

/-- A literal, a name or an expression in brackets. -/
def atom : Descent Expr := do
  match ← peek with
  | .int value => advance; return .int value
  | .float value => advance; return .float value
  | .text value => advance; return .text value
  | .name "True" => advance; return .bool true
  | .name "False" => advance; return .bool false
  | .name "None" => advance; return .none
  | .name name =>
    if isKeyword name then unexpected .expression
    else
      advance
      return .name name
  | .mark .leftParen => advance; parenthesized call
  | .mark .leftBracket => advance; bracketed call
  | .mark .leftBrace => advance; braced call
  | _ => unexpected .expression

/-- The mark under the index, if a call, a subscript or an attribute begins with it. -/
def trailerMark : Descent (Option Mark) := do
  match ← peek with
  | .mark .leftParen => return some .leftParen
  | .mark .leftBracket => return some .leftBracket
  | .mark .dot => return some .dot
  | _ => return none

/-- A call, a subscript or an attribute of an expression. -/
def trailer (m : Mark) (object : Expr) : Descent Expr := do
  advance
  match m with
  | .leftParen => return .call object (← call .callArguments)
  | .leftBracket =>
    if ← at? (.mark .colon) then fail .slice
    let index ← call .testList
    if ← at? (.mark .colon) then fail .slice
    expectMark .rightBracket
    return .subscript object index
  | _ => return .attribute object (← identifier)

/-- An atom with its calls, subscripts and attributes. -/
def primary : Descent Expr := chain (call .atom) trailerMark (trailer call)

/-- A primary expression behind any number of signs. -/
def factor : Descent Expr := do
  match ← peek with
  | .mark .minus => advance; return .unary .minus (← nested (call .factor))
  | .mark .plus => advance; return .unary .plus (← nested (call .factor))
  | _ => call .primary

/-- Takes the operator of a product. -/
def productOp : Descent (Option ArithmeticOp) := do
  match ← peek with
  | .mark .star => advance; return some .multiply
  | .mark .slash => advance; return some .divide
  | .mark .doubleSlash => advance; return some .floorDivide
  | .mark .percent => advance; return some .modulo
  | _ => return none

/-- A product. -/
def product : Descent Expr :=
  chain (call .factor) productOp fun op left =>
    return .arithmetic op left (← call .factor)

/-- Takes the operator of a sum. -/
def sumOp : Descent (Option ArithmeticOp) := do
  match ← peek with
  | .mark .plus => advance; return some .add
  | .mark .minus => advance; return some .subtract
  | _ => return none

/-- A sum. -/
def sum : Descent Expr :=
  chain (call .product) sumOp fun op left => return .arithmetic op left (← call .product)

/-- The comparison operator that two tokens begin with, and the number of tokens it takes. -/
def comparisonOf : Lexeme → Option Lexeme → Option (ComparisonOp × Nat)
  | .mark .equal, _ => some (.equal, 1)
  | .mark .notEqual, _ => some (.notEqual, 1)
  | .mark .less, _ => some (.less, 1)
  | .mark .lessEqual, _ => some (.lessEqual, 1)
  | .mark .greater, _ => some (.greater, 1)
  | .mark .greaterEqual, _ => some (.greaterEqual, 1)
  | .name "in", _ => some (.within, 1)
  | .name "is", some (.name "not") => some (.notSame, 2)
  | .name "is", _ => some (.same, 1)
  | .name "not", some (.name "in") => some (.notWithin, 2)
  | _, _ => none

/-- Takes a comparison operator. -/
def comparisonOp : Descent (Option ComparisonOp) := do
  match comparisonOf (← peek) (← peekNext) with
  | some (op, width) =>
    advance
    if width = 2 then advance
    return some op
  | none => return none

/-- A chain of comparisons. -/
def comparison : Descent Expr :=
  chain (call .sum) comparisonOp fun op left => return .compare op left (← call .sum)

/-- An expression behind any number of `not`. -/
def negation : Descent Expr := do
  if ← eatKeyword "not" then return .unary .not (← nested (call .negation))
  else call .comparison

/-- Takes a keyword that stands between two operands. -/
def keywordOp (keyword : String) : Descent (Option Unit) := do
  if ← eatKeyword keyword then return some () else return none

/-- A chain of `and`. -/
def conjunction : Descent Expr :=
  chain (call .negation) (keywordOp "and") fun _ left => return .both left (← call .negation)

/-- A chain of `or`. -/
def disjunction : Descent Expr :=
  chain (call .conjunction) (keywordOp "or") fun _ left =>
    return .either left (← call .conjunction)

/-- An expression without commas. -/
def conditional : Descent Expr := do
  if ← at? (.name "lambda") then fail .lambda
  let positive ← call .disjunction
  if ← eatKeyword "if" then
    let condition ← call .disjunction
    expectKeyword "else"
    return .conditional condition positive (← call .test)
  else return positive

/-! ### Statements -/

/-- The name that an expression is. -/
def targetName : Expr → Descent String
  | .name name => pure name
  | _ => fail .unpackTarget

/-- The target that an expression in front of `=` stands for. -/
def assignTarget : Expr → Descent Target
  | .name name => return .name name
  | .tuple items | .list items => return .unpack (← items.mapM targetName)
  | e@(.attribute ..) | e@(.subscript ..) => return .place e
  | _ => fail .assignTarget

/-- Names with dots between them. -/
def dottedName : Descent (List String) := do
  let first ← identifier
  return first :: (← whileMore (eatMark .dot) identifier)

/-- One module of an import. -/
def importEntry : Descent (String × String) := do
  let path ← dottedName
  if ← eatKeyword "as" then return (← identifier, ".".intercalate path)
  else return (path.headD "", path.headD "")

/-- What follows `import`. -/
def importModules : Descent Action := do
  return .imports (← itemsWhile importEntry (eatMark .comma))

/-- One name imported from a module. -/
def importedName (origin : String) : Descent (String × String) := do
  let name ← identifier
  let bound ← if ← eatKeyword "as" then identifier else pure name
  let separator := if origin.isEmpty || origin.back == '.' then "" else "."
  return (bound, origin ++ separator ++ name)

/-- What follows the module that names are imported from. -/
def importNames (origin : String) : Descent Action := do
  expectKeyword "import"
  if ← eatMark .star then return .imports []
  let parenthesized ← eatMark .leftParen
  let stop : Descent Bool := do return parenthesized && (← at? (.mark .rightParen))
  let bindings ← commaItems stop (importedName origin)
  if parenthesized then expectMark .rightParen
  return .imports bindings

/-- What follows `from`. -/
def importFrom : Descent Action := do
  let dots ← whileMore (eatMark .dot) (pure '.')
  let path ← if ← at? (.name "import") then pure [] else dottedName
  importNames (String.ofList dots ++ ".".intercalate path)

/-- What follows the operator of an augmented assignment. -/
def augment (op : ArithmeticOp) (e : Expr) : Descent Action := do
  match e with
  | .name name => return .augment name op (← call .testList)
  | _ => fail .augmentedTarget

/-- An expression, or an assignment to it. -/
def expressionAction : Descent Action := do
  let e ← call .testList
  match ← peek with
  | .mark .assign =>
    advance
    let value ← call .testList
    let more ← whileMore (eatMark .assign) (call .testList)
    unless more.isEmpty do fail .chainedAssignment
    return .assign (← assignTarget e) value
  | .mark .plusAssign => advance; augment call .add e
  | .mark .minusAssign => advance; augment call .subtract e
  | _ => return .evaluate e

/-- A statement that holds no block. -/
def simpleAction : Descent Action := do
  match ← peek with
  | .name "pass" => advance; return .pass
  | .name "break" => advance; return .leave
  | .name "continue" => advance; return .proceed
  | .name "return" =>
    advance
    match ← peek with
    | .newline | .mark .semicolon | .finish => return .give none
    | _ => return .give (some (← call .testList))
  | .name "import" => advance; importModules
  | .name "from" => advance; importFrom
  | _ => expressionAction call

/-- A statement that holds no block, with its line. -/
def simpleStatement : Descent Statement := do
  let line := (← token).position.line
  return .at line (← call .simpleAction)

/-- Statements on one line with semicolons between them. -/
def simpleLine : Descent (List Statement) := do
  let more : Descent Bool := do
    if ← eatMark .semicolon then
      return !((← at? .newline) || (← at? .finish))
    else return false
  let body ← itemsWhile (simpleStatement call) more
  match ← peek with
  | .newline => advance
  | .finish | .dedent => pure ()
  | _ => unexpected .endOfStatement
  return body

/-- A condition and its block. -/
def guarded : Descent (Expr × List Statement) := do
  let condition ← call .test
  return (condition, ← call .block)

/-- `if` and what follows it. -/
def branchAction : Descent Action := do
  advance
  let first ← guarded call
  let more ← whileMore (eatKeyword "elif") (guarded call)
  let otherwise ← if ← eatKeyword "else" then call .block else pure []
  return .branch (first :: more) otherwise

/-- `for` and what follows it. -/
def loopAction : Descent Action := do
  advance
  let targets ← loopTargets
  expectKeyword "in"
  let source ← call .testList
  return .loop targets source (← call .block)

/-- A parameter of a function. -/
def parameter : Descent Parameter := do
  match ← peek with
  | .mark .star | .mark .doubleStar => fail .variadicParameter
  | _ => pure ()
  let name ← identifier
  if ← eatMark .assign then return ⟨name, some (← call .test)⟩
  else return ⟨name, none⟩

/-- `def` and what follows it. -/
def defineAction : Descent Action := do
  advance
  let name ← identifier
  expectMark .leftParen
  let parameters ← commaItems (at? (.mark .rightParen)) (parameter call)
  expectMark .rightParen
  return .define name parameters (← call .block)

/-- A statement, or several on one line. -/
def statements : Descent (List Statement) := do
  let line := (← token).position.line
  match ← peek with
  | .name "if" => return [.at line (← call .branchAction)]
  | .name "for" => return [.at line (← call .loopAction)]
  | .name "def" => return [.at line (← call .defineAction)]
  | .name name =>
    if unsupportedKeywords.contains name then fail (.unsupportedStatement name)
    else call .simpleLine
  | _ => call .simpleLine

/-- A colon and a block. -/
def suite : Descent (List Statement) := do
  expectMark .colon
  if ← eat .newline then
    expect .indent .indentedBlock
    let more : Descent Bool := do return !((← at? .dedent) || (← at? .finish))
    let body ← whileMore more (call .statements)
    let _ ← eat .dedent
    return body.flatten
  else call .simpleLine

/-- What a routine does, given how it begins other routines. -/
def body : {α : Type} → Routine α → Descent α
  | _, .statements => statements call
  | _, .simpleLine => simpleLine call
  | _, .simpleAction => simpleAction call
  | _, .branchAction => branchAction call
  | _, .loopAction => loopAction call
  | _, .defineAction => defineAction call
  | _, .block => nested (call .suite)
  | _, .suite => suite call
  | _, .testList => testList call
  | _, .test => nested (call .conditional)
  | _, .conditional => conditional call
  | _, .disjunction => disjunction call
  | _, .conjunction => conjunction call
  | _, .negation => negation call
  | _, .comparison => comparison call
  | _, .sum => sum call
  | _, .product => product call
  | _, .factor => factor call
  | _, .primary => primary call
  | _, .callArguments => callArguments call
  | _, .atom => atom call

/-- A routine may begin behind a token that its caller took, or on a lower level of the grammar: so
    the tokens left and the level descend in the lexicographic order. -/
def Below (next caller : Nat × Nat) : Prop :=
  next.1 < caller.1 ∨ next.1 = caller.1 ∧ next.2 < caller.2

instance (next caller : Nat × Nat) : Decidable (Below next caller) :=
  inferInstanceAs (Decidable (_ ∨ _))

end Descent

/-- Runs a routine, and the routines it begins as long as they descend. -/
def Routine.run {α : Type} (r : Routine α) : Descent α := fun tokens s =>
  Descent.body (fun {_} next tokens' s' =>
    if Descent.Below (tokens'.length - s'.index, next.level) (tokens.length - s.index, r.level) then
      next.run tokens' s'
    else (.error .circular, s')) r tokens s
termination_by tokens s => (tokens.length - s.index, r.level)
decreasing_by
  rename_i h
  exact Prod.lex_def.mpr h

namespace Descent

/-- Takes an empty line or reads a statement, up to the end of the input. -/
def scriptTurn (done : List Statement) : Descent (List Statement ⊕ List Statement) := do
  match ← peek with
  | .finish => return .inr done
  | .newline =>
    advance
    return .inl done
  | _ => return .inl (done ++ (← Routine.statements.run))

/-- Reads a whole script. -/
def script : Descent (List Statement) := turns scriptTurn []

end Descent

end Monorepo.Script
