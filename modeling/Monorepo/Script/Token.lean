/-!
# Tokens of a descriptor script

A script is read as a stream of tokens. Besides names, literals and marks the stream holds the
layout of the text: the end of each logical line, the places where the indentation grows and
shrinks, and the end of the input.
-/

namespace Monorepo.Script

/-- A place in a text; lines and columns count from 1, columns count characters. -/
structure Position where
  /-- The line. -/
  line : Nat
  /-- The column. -/
  column : Nat
deriving DecidableEq, Repr, Inhabited

/-- The place after `c`, when `c` stands at `p`. -/
def Position.after (p : Position) (c : Char) : Position :=
  if c = '\n' then ⟨p.line + 1, 1⟩ else ⟨p.line, p.column + 1⟩

/-- The punctuation of the language. -/
inductive Mark
  | leftParen | rightParen | leftBracket | rightBracket | leftBrace | rightBrace
  | comma | colon | semicolon | dot
  | assign | plusAssign | minusAssign
  | plus | minus | star | doubleStar | slash | doubleSlash | percent
  | equal | notEqual | less | lessEqual | greater | greaterEqual
deriving DecidableEq, Repr, Inhabited

/-- The name that a mark goes by in token streams and error texts. -/
def Mark.label : Mark → String
  | .leftParen => "LParen"
  | .rightParen => "RParen"
  | .leftBracket => "LBracket"
  | .rightBracket => "RBracket"
  | .leftBrace => "LBrace"
  | .rightBrace => "RBrace"
  | .comma => "Comma"
  | .colon => "Colon"
  | .semicolon => "Semicolon"
  | .dot => "Dot"
  | .assign => "Assign"
  | .plusAssign => "PlusAssign"
  | .minusAssign => "MinusAssign"
  | .plus => "Plus"
  | .minus => "Minus"
  | .star => "Star"
  | .doubleStar => "DoubleStar"
  | .slash => "Slash"
  | .doubleSlash => "DoubleSlash"
  | .percent => "Percent"
  | .equal => "Eq"
  | .notEqual => "NotEq"
  | .less => "Lt"
  | .lessEqual => "LtEq"
  | .greater => "Gt"
  | .greaterEqual => "GtEq"

/-- How a mark is written. -/
def Mark.spelling : Mark → String
  | .leftParen => "("
  | .rightParen => ")"
  | .leftBracket => "["
  | .rightBracket => "]"
  | .leftBrace => "\x7b"
  | .rightBrace => "\x7d"
  | .comma => ","
  | .colon => ":"
  | .semicolon => ";"
  | .dot => "."
  | .assign => "="
  | .plusAssign => "+="
  | .minusAssign => "-="
  | .plus => "+"
  | .minus => "-"
  | .star => "*"
  | .doubleStar => "**"
  | .slash => "/"
  | .doubleSlash => "//"
  | .percent => "%"
  | .equal => "=="
  | .notEqual => "!="
  | .less => "<"
  | .lessEqual => "<="
  | .greater => ">"
  | .greaterEqual => ">="

/-- What a token is, apart from its place. -/
inductive Lexeme
  /-- A name or keyword. -/
  | name (text : String)
  /-- An integer literal. -/
  | int (value : Nat)
  /-- A literal with a point or an exponent. -/
  | float (value : Float)
  /-- A text literal, or several adjacent ones, without quotes and escapes. -/
  | text (value : String)
  /-- A punctuation mark. -/
  | mark (mark : Mark)
  /-- The end of a logical line. -/
  | newline
  /-- The indentation grows. -/
  | indent
  /-- One level of indentation ends. -/
  | dedent
  /-- The end of the input. -/
  | finish
deriving DecidableEq, Repr, Inhabited

/-- A token and the place where it starts. -/
structure Token where
  /-- What it is. -/
  lexeme : Lexeme
  /-- Where it starts. -/
  position : Position
deriving DecidableEq, Repr, Inhabited

/-- How an error text describes a token that was not expected. -/
def Lexeme.describe : Lexeme → String
  | .name spelling => "'" ++ spelling ++ "'"
  | .int _ => "number"
  | .float _ => "number"
  | .text _ => "string literal"
  | .mark m => m.label
  | .newline => "end of line"
  | .indent => "indent"
  | .dedent => "dedent"
  | .finish => "end of file"

end Monorepo.Script
