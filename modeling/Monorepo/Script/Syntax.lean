/-!
# The syntax of descriptor scripts

Scripts are written in a small imperative language: expressions over text, numbers, lists, tuples
and dictionaries, and statements that assign, branch, loop and define functions.
-/

namespace Monorepo.Script

/-- The arithmetic operators. -/
inductive ArithmeticOp
  | add | subtract | multiply | divide | floorDivide | modulo
deriving DecidableEq, Repr

/-- How an arithmetic operator is written. -/
def ArithmeticOp.symbol : ArithmeticOp → String
  | .add => "+"
  | .subtract => "-"
  | .multiply => "*"
  | .divide => "/"
  | .floorDivide => "//"
  | .modulo => "%"

/-- The comparison operators. -/
inductive ComparisonOp
  | equal | notEqual | less | lessEqual | greater | greaterEqual
  | within | notWithin | same | notSame
deriving DecidableEq, Repr

/-- How a comparison operator is written. -/
def ComparisonOp.symbol : ComparisonOp → String
  | .equal => "=="
  | .notEqual => "!="
  | .less => "<"
  | .lessEqual => "<="
  | .greater => ">"
  | .greaterEqual => ">="
  | .within => "in"
  | .notWithin => "not in"
  | .same => "is"
  | .notSame => "is not"

/-- The operators with one operand. -/
inductive UnaryOp
  | minus | plus | not
deriving DecidableEq, Repr

/-- How a unary operator is written in front of its operand. -/
def UnaryOp.symbol : UnaryOp → String
  | .minus => "-"
  | .plus => "+"
  | .not => "not "

mutual

/-- An expression. -/
inductive Expr
  /-- The literal of the absent value. -/
  | none
  /-- A truth value. -/
  | bool (value : Bool)
  /-- An integer literal; it has no sign. -/
  | int (value : Nat)
  /-- A literal with a point or an exponent. -/
  | float (value : Float)
  /-- A text literal. -/
  | text (value : String)
  /-- A variable. -/
  | name (name : String)
  /-- `[e, …]`. -/
  | list (items : List Expr)
  /-- `(e, …)`. -/
  | tuple (items : List Expr)
  /-- A dictionary display. -/
  | dict (entries : List (Expr × Expr))
  /-- `[element for targets in source if condition]`. -/
  | comprehension (element : Expr) (targets : List String) (source : Expr)
      (condition : Option Expr)
  /-- `callee(arguments)`. -/
  | call (callee : Expr) (arguments : List Argument)
  /-- `object.name`. -/
  | attribute (object : Expr) (name : String)
  /-- `object[index]`. -/
  | subscript (object : Expr) (index : Expr)
  /-- An arithmetic operation. -/
  | arithmetic (op : ArithmeticOp) (left right : Expr)
  /-- An operation with one operand. -/
  | unary (op : UnaryOp) (operand : Expr)
  /-- A comparison. -/
  | compare (op : ComparisonOp) (left right : Expr)
  /-- `left and right`. -/
  | both (left right : Expr)
  /-- `left or right`. -/
  | either (left right : Expr)
  /-- `positive if condition else negative`. -/
  | conditional (condition positive negative : Expr)

/-- An argument of a call. -/
inductive Argument
  /-- `e`. -/
  | positional (value : Expr)
  /-- `name=e`. -/
  | keyword (name : String) (value : Expr)
  /-- `*e`. -/
  | spread (value : Expr)
  /-- `**e`. -/
  | spreadKeywords (value : Expr)

end

instance : Inhabited Expr := ⟨.none⟩

/-- What an assignment assigns to. -/
inductive Target
  /-- A variable. -/
  | name (name : String)
  /-- Several variables, one item each. -/
  | unpack (names : List String)
  /-- An attribute or item of the value of an expression. -/
  | place (expression : Expr)

/-- A parameter of a function, with its default if it has one. -/
structure Parameter where
  /-- The variable it binds. -/
  name : String
  /-- The expression for a missing argument. -/
  default : Option Expr

mutual

/-- A statement and the line on which it starts. -/
inductive Statement
  /-- What the statement of a line does. -/
  | at (line : Nat) (action : Action)

/-- What a statement does. -/
inductive Action
  /-- Evaluates an expression for its effects. -/
  | evaluate (value : Expr)
  /-- `target = value`. -/
  | assign (target : Target) (value : Expr)
  /-- `name op= value`, for addition and subtraction. -/
  | augment (name : String) (op : ArithmeticOp) (value : Expr)
  /-- Imports: each name with the dotted path that it stands for. -/
  | imports (bindings : List (String × String))
  /-- Conditions with their blocks, tried in order, and the block for none. -/
  | branch (branches : List (Expr × List Statement)) (otherwise : List Statement)
  /-- A loop over the items of a value. -/
  | loop (targets : List String) (source : Expr) (body : List Statement)
  /-- The definition of a function. -/
  | define (name : String) (parameters : List Parameter) (body : List Statement)
  /-- `return`, with a value or without. -/
  | give (value : Option Expr)
  /-- Leaves the loop. -/
  | leave
  /-- Goes on with the next item of the loop. -/
  | proceed
  /-- Does nothing. -/
  | pass

end

instance : Inhabited Statement := ⟨.at 0 .pass⟩

/-- The line on which a statement starts. -/
def Statement.line : Statement → Nat
  | .at line _ => line

/-- What a statement does. -/
def Statement.action : Statement → Action
  | .at _ action => action

/-- The words that are no names. -/
def keywords : List String :=
  ["and", "as", "assert", "break", "class", "continue", "def", "del", "elif", "else", "except",
   "finally", "for", "from", "global", "if", "import", "in", "is", "lambda", "nonlocal", "not",
   "or", "pass", "raise", "return", "try", "while", "with", "yield"]

/-- Tells whether `name` is a keyword. -/
def isKeyword (name : String) : Bool := keywords.contains name

end Monorepo.Script
