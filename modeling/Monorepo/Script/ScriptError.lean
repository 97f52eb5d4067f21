import Monorepo.Script.SyntaxError
import Monorepo.Script.EvalError

/-!
# Faults of scripts

Why a script has no result: its text is no script, or its execution stopped.
-/

namespace Monorepo.Script

/-- Why a script has no result. -/
inductive ScriptError
  /-- The text is no script. -/
  | malformed (error : SyntaxError)
  /-- Execution stopped. -/
  | stopped (error : EvalError)
deriving DecidableEq, Repr

/-- The words for an error in the text of a script. -/
def SyntaxError.message (e : SyntaxError) : String :=
  "syntax error at line " ++ toString e.position.line ++ ", column "
    ++ toString e.position.column ++ ": " ++ e.fault.message

/-- The words for an error in the execution of a script. -/
def EvalError.message (e : EvalError) : String :=
  "evaluation error at line " ++ toString e.line ++ ": " ++ e.fault.message

/-- The words for an error. -/
def ScriptError.message : ScriptError → String
  | .malformed e => e.message
  | .stopped e => e.message

end Monorepo.Script
