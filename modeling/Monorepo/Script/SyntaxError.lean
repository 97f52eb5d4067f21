import Monorepo.Script.Token

/-!
# Faults of a script's text

Why a text is not a script, with the place where reading it stopped.
-/

namespace Monorepo.Script

/-- What could have stood where something else was found. -/
inductive Expectation
  | endOfStatement | identifier | expression | indentedBlock
  /-- One particular keyword. -/
  | keyword (text : String)
  /-- One particular mark. -/
  | mark (mark : Mark)
deriving DecidableEq, Repr

/-- The words for an expectation. -/
def Expectation.describe : Expectation → String
  | .endOfStatement => "end of statement"
  | .identifier => "an identifier"
  | .expression => "an expression"
  | .indentedBlock => "an indented block"
  | .keyword text => "'" ++ text ++ "'"
  | .mark m => "'" ++ m.spelling ++ "'"

/-- Why a text is not a script. -/
inductive SyntaxFault
  /-- A line is indented less than the block it stands in, but not as an enclosing one. -/
  | unmatchedDedent
  /-- A text literal does not end, or not on its line. -/
  | unterminatedText
  /-- Letters and digits that form no number. -/
  | invalidNumber (text : String)
  /-- A character that starts no token. -/
  | unexpectedCharacter (c : Char)
  /-- A statement of the wider language that scripts do not have. -/
  | unsupportedStatement (keyword : String)
  /-- Something else was expected. -/
  | unexpected (expected : Expectation) (found : Lexeme)
  | chainedAssignment
  | augmentedTarget
  | unpackTarget
  | assignTarget
  | variadicParameter
  | lambda
  | slice
  | generatorArgument
  /-- Brackets, operators or blocks are nested too deeply. -/
  | nesting
  /-- A repetition took no token; the grammar never lets that happen. -/
  | stalled
deriving DecidableEq, Repr

/-- The words for a fault. -/
def SyntaxFault.message : SyntaxFault → String
  | .unmatchedDedent => "unindent does not match any outer indentation level"
  | .unterminatedText => "unterminated string literal"
  | .invalidNumber text => "invalid number literal '" ++ text ++ "'"
  | .unexpectedCharacter c => "unexpected character '" ++ String.singleton c ++ "'"
  | .unsupportedStatement keyword => "unsupported statement '" ++ keyword ++ "'"
  | .unexpected expected found =>
    "expected " ++ expected.describe ++ ", found " ++ found.describe
  | .chainedAssignment => "chained assignment is not supported"
  | .augmentedTarget => "augmented assignment requires a plain name"
  | .unpackTarget => "cannot unpack into a non-name target"
  | .assignTarget => "cannot assign to expression"
  | .variadicParameter => "variadic parameters are not supported"
  | .lambda => "lambda expressions are not supported"
  | .slice => "slices are not supported"
  | .generatorArgument => "generator arguments are not supported"
  | .nesting => "too many nested expressions or blocks"
  | .stalled => "no progress"

/-- A fault and its place. -/
structure SyntaxError where
  /-- Where reading stopped. -/
  position : Position
  /-- Why it stopped. -/
  fault : SyntaxFault
deriving DecidableEq, Repr

end Monorepo.Script
