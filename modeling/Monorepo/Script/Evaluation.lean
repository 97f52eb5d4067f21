import Monorepo.Script.State
import Monorepo.Script.Builtins

/-!
# Evaluation

Expressions and statements are evaluated by recursion on their syntax; only the call of a function
of the script leaves the syntax at hand. So evaluation takes what such a call does as a parameter,
and the recursion is closed by a bound on the calls in progress. A script never gets near that bound
through the bodies of functions, since `maxFrames` of them stop the run first; but the default of a
parameter is evaluated before its function has a frame.

Every value that an expression builds is measured before anything else sees it.
-/

namespace Monorepo.Script

/-- How many functions may be executing their bodies. -/
def maxFrames : Nat := 64

/-- How many calls may be in progress, those included that are still evaluating defaults. -/
def maxPending : Nat := 32768

/-- What a script can ask about its surroundings. -/
structure Setting where
  /-- The root of the repository. -/
  root : String
  /-- The version of the language. -/
  version : Int
  /-- The path of the descriptor. -/
  descriptorPath : String

/-- What the call of a function does, given evaluated arguments. -/
abbrev Invoke := Function → List Value → Keywords → Eval Value

/-- Surroundings, and what calls do in them. -/
structure Context where
  /-- The surroundings. -/
  setting : Setting
  /-- What the call of a function does. -/
  invoke : Invoke

/-! ## Calls of what is predefined -/

/-- Declares a target. -/
def declareTarget (kind : String) (arguments : List Value) (keywords : Keywords) : Eval Value := do
  unless arguments.isEmpty do Eval.warn (.positionalIgnored kind arguments.length)
  modify fun s => { s with declared := ⟨kind, keywords, s.line⟩ :: s.declared }
  return .none

/-- A predefined function of known values. -/
def computeBuiltin (setting : Setting) (b : Builtin) (arguments : List Value)
    (keywords : Keywords) : Except EvalFault Value :=
  match b with
  | .target _ | .print => .ok .none
  | .glob kind => glob kind arguments keywords
  | .version => .ok (.int setting.version)
  | .root => .ok (.text setting.root)
  | .descriptorPath => .ok (.text setting.descriptorPath)
  | .len => lengthOf arguments
  | .str => toText arguments
  | .int => toInteger arguments
  | .bool => .ok (.bool (arguments.head?.any Value.isTrue))
  | .list => (itemsOfArgument "list" arguments).map .list
  | .tuple => (itemsOfArgument "tuple" arguments).map .tuple
  | .dict => toDict arguments keywords
  | .sorted => sorted arguments keywords
  | .range => range arguments
  | .set => (itemsOfArgument "set" arguments).map fun items => .list (distinct items)

/-- Whether a predefined function takes stubs like other values; for any other one a stub among the
    arguments makes the whole call a stub. -/
def Builtin.takesStubs : Builtin → Bool
  | .target _ | .glob _ | .print | .str => true
  | _ => false

/-- The call of a predefined function. -/
def callBuiltin (setting : Setting) (b : Builtin) (arguments : List Value) (keywords : Keywords) :
    Eval Value :=
  match b with
  | .target kind => declareTarget kind arguments keywords
  | b =>
    if !b.takesStubs && anyStub arguments keywords then
      return .stub (Trace.call b.name arguments keywords)
    else Eval.lift (computeBuiltin setting b arguments keywords)

/-- The call of a value. -/
def call (context : Context) (callee : Value) (arguments : List Value) (keywords : Keywords) :
    Eval Value :=
  match callee with
  | .stub trace => return .stub (Trace.call trace arguments keywords)
  | .builtin b => callBuiltin context.setting b arguments keywords
  | .function f => context.invoke f arguments keywords
  | .method receiver name => Eval.lift (callMethod receiver name arguments keywords)
  | other => Eval.fault (.notCallable other.type)

/-- An attribute of a value: one of its methods, or a stub. -/
def member (object : Value) (name : String) : Eval Value := do
  match object with
  | .stub trace => return .stub (Trace.member trace name)
  | object =>
    if hasMethod object name then return .method object name
    else
      Eval.warn (.unknownAttribute name object.type)
      return .stub (Trace.member object.repr name)

/-- The variable and the method, if the callee is a method that may change a variable. -/
def mutationTarget : Expr → Option (String × String)
  | .attribute (.name receiver) method =>
    if listMethods.contains method || method == "update" then some (receiver, method) else none
  | _ => none

/-- Changes a variable in place, and tells whether the call does that. -/
def changeVariable (name method : String) (arguments : List Value) (keywords : Keywords) :
    Eval Bool := do
  match (← get).find? name with
  | none => return false
  | some value =>
    match ← Eval.lift (changeInPlace value method arguments keywords) with
    | none => return false
    | some changed =>
      modify (·.update name changed)
      Eval.checkStored name
      return true

/-- Adds the entries of a dictionary to the arguments passed by name. -/
def spreadEntries (keywords : Keywords) : List (Value × Value) → Eval Keywords
  | [] => return keywords
  | (.text name, value) :: entries => spreadEntries (keywords.set name value) entries
  | _ :: _ => Eval.fault .keywordNotText

/-- Adds what a value passes by name behind two stars. -/
def spreadKeywords (keywords : Keywords) (value : Value) : Eval Keywords := do
  match value with
  | .dict entries => spreadEntries keywords entries
  | .stub trace =>
    Eval.warn (.stubKeywords trace)
    return keywords
  | other => Eval.fault (.notAMapping other.type)

/-- The items of a comprehension: what `turn` makes of the values, where it yields anything. Their
    sizes are summed up as they come; `kept` holds them in reverse. -/
def gather (turn : Value → Eval (Option Value)) :
    List Value → Nat → Nat → List Value → Eval (List Value)
  | [], _, _, kept => return kept.reverse
  | item :: items, size, count, kept => do
    match ← turn item with
    | none => gather turn items size count kept
    | some value =>
      let size := size + (← Eval.lift value.measure)
      if size > maxSize || count ≥ maxSequence then Eval.fault .comprehensionSize
      else gather turn items size (count + 1) (value :: kept)

/-! ## Expressions -/

mutual

/-- The value of an expression. -/
def eval (context : Context) : Expr → Eval Value
  | .none => return .none
  | .bool b => return .bool b
  | .int n => return .int n
  | .float x => return .float x
  | .text s => return .text s
  | .name name => Eval.lookup name
  | .list items => do Eval.bounded (.list (← evalAll context items))
  | .tuple items => do Eval.bounded (.tuple (← evalAll context items))
  | .dict entries => do Eval.bounded (.dict (← evalEntries context [] entries))
  | .comprehension element targets source condition => do
    let items ← Eval.items (← eval context source)
    let turn (item : Value) : Eval (Option Value) := do
      Eval.bindTargets targets item
      match condition with
      | none => return some (← eval context element)
      | some condition =>
        if (← eval context condition).isTrue then return some (← eval context element)
        else return none
    Eval.bounded (.list (← Eval.restoring targets (gather turn items 0 0 [])))
  | .call callee arguments => do
    match mutationTarget callee with
    | some (receiver, method) =>
      let (arguments, keywords) ← evalArguments context [] [] arguments
      if ← changeVariable receiver method arguments keywords then Eval.bounded .none
      else Eval.bounded (← call context (← eval context callee) arguments keywords)
    | none =>
      let callee ← eval context callee
      let (arguments, keywords) ← evalArguments context [] [] arguments
      Eval.bounded (← call context callee arguments keywords)
  | .attribute object name => do Eval.bounded (← member (← eval context object) name)
  | .subscript object index => do
    let object ← eval context object
    let index ← eval context index
    Eval.bounded (← Eval.lift (subscript object index))
  | .arithmetic op left right => do
    let left ← eval context left
    let right ← eval context right
    Eval.bounded (← Eval.lift (operate op left right))
  | .unary op operand => do Eval.bounded (← Eval.lift (applyUnary op (← eval context operand)))
  | .compare op left right => do
    let left ← eval context left
    let right ← eval context right
    Eval.bounded (← Eval.lift (applyComparison op left right))
  | .both left right => do
    let value ← eval context left
    Eval.bounded (← if value.isTrue then eval context right else pure value)
  | .either left right => do
    let value ← eval context left
    Eval.bounded (← if value.isTrue then pure value else eval context right)
  | .conditional condition positive negative => do
    let chosen ←
      if (← eval context condition).isTrue then eval context positive else eval context negative
    Eval.bounded chosen

/-- The values of expressions. -/
def evalAll (context : Context) : List Expr → Eval (List Value)
  | [] => return []
  | e :: es => do
    let value ← eval context e
    return value :: (← evalAll context es)

/-- The entries of a dictionary, inserted into `done`. -/
def evalEntries (context : Context) (done : Entries) : List (Expr × Expr) → Eval Entries
  | [] => return done
  | (key, value) :: entries => do
    let key ← eval context key
    let value ← eval context value
    evalEntries context (done.insert key value) entries

/-- The values of arguments: those by position, which come to stand behind `done`, itself in
    reverse, and those by name, added to `keywords`. -/
def evalArguments (context : Context) (done : List Value) (keywords : Keywords) :
    List Argument → Eval (List Value × Keywords)
  | [] => return (done.reverse, keywords)
  | .positional e :: arguments => do
    evalArguments context ((← eval context e) :: done) keywords arguments
  | .keyword name e :: arguments => do
    evalArguments context done (keywords.set name (← eval context e)) arguments
  | .spread e :: arguments => do
    let items ← Eval.items (← eval context e)
    evalArguments context (items.reverse ++ done) keywords arguments
  | .spreadKeywords e :: arguments => do
    evalArguments context done (← spreadKeywords keywords (← eval context e)) arguments

end

/-! ## Statements -/

/-- How a statement ends. -/
inductive Flow
  /-- The next statement follows. -/
  | next
  /-- The loop is left. -/
  | leave
  /-- The next turn of the loop follows. -/
  | proceed
  /-- The function returns a value. -/
  | give (value : Value)

/-- Runs the turns of a loop, up to one that leaves it. -/
def runLoop (turn : Value → Eval Flow) : List Value → Eval Flow
  | [] => return .next
  | item :: items => do
    match ← turn item with
    | .leave => return .next
    | .give value => return .give value
    | .next | .proceed => runLoop turn items

/-- Assigns an item of a variable. -/
def assignItem (name : String) (key value : Value) : Eval Unit := do
  match (← get).find? name with
  | none => Eval.warn (.undefinedItem name)
  | some container =>
    let changed ← Eval.lift (replaceItem container key value)
    modify (·.update name changed)
    Eval.checkStored name

/-- Assigns a value. What is no variable and no item of one can only be assigned if it is a stub,
    and then nothing happens. -/
def assign (context : Context) (target : Target) (value : Value) : Eval Unit := do
  match target with
  | .name name => Eval.store name value
  | .unpack names => Eval.unpack names value
  | .place (.subscript (.name name) index) => assignItem name (← eval context index) value
  | .place (.subscript object index) =>
    discard (eval context index)
    match ← eval context object with
    | .stub _ => return
    | other => Eval.fault (.temporaryItem other.type)
  | .place (.attribute object name) =>
    match ← eval context object with
    | .stub _ => return
    | other => Eval.fault (.readOnlyAttribute other.type name)
  | .place _ => Eval.fault .unassignable

/-- Binds imported names to stubs. -/
def bindImports : List (String × String) → Eval Unit
  | [] => return
  | (name, path) :: bindings => do
    Eval.store name (.stub path)
    bindImports bindings

/-- Assigns the result of an operation on a variable to that variable. -/
def augment (context : Context) (name : String) (op : ArithmeticOp) (e : Expr) : Eval Unit := do
  let current ← Eval.lookup name
  let operand ← eval context e
  Eval.store name (← Eval.bounded (← Eval.lift (operate op current operand)))

mutual

/-- Executes a statement. -/
def exec (context : Context) : Statement → Eval Flow
  | .at line action => do
    Eval.setLine line
    execAction context line action

/-- Executes what stands on a line. -/
def execAction (context : Context) (line : Nat) : Action → Eval Flow
  | .evaluate e => do
    discard (eval context e)
    return .next
  | .assign target e => do
    assign context target (← eval context e)
    return .next
  | .augment name op e => do
    augment context name op e
    return .next
  | .imports bindings => do
    bindImports bindings
    return .next
  | .branch branches otherwise => do
    match ← execBranches context branches with
    | some flow => return flow
    | none => execBlock context otherwise
  | .loop targets source body => do
    let items ← Eval.items (← eval context source)
    let turn (item : Value) : Eval Flow := do
      Eval.bindTargets targets item
      execBlock context body
    runLoop turn items
  | .define name parameters body => do
    Eval.store name (.function ⟨line, name, parameters, body⟩)
    return .next
  | .give value => do
    if (← get).frames.isEmpty then Eval.fault .returnOutsideFunction
    else match value with
      | some e => return .give (← eval context e)
      | none => return .give .none
  | .leave => return .leave
  | .proceed => return .proceed
  | .pass => return .next

/-- Executes statements up to the first that is not followed by the next one. -/
def execBlock (context : Context) : List Statement → Eval Flow
  | [] => return .next
  | statement :: statements => do
    match ← exec context statement with
    | .next => execBlock context statements
    | flow => return flow

/-- Executes the block of the first condition that holds, if one does. -/
def execBranches (context : Context) : List (Expr × List Statement) → Eval (Option Flow)
  | [] => return none
  | (condition, block) :: branches => do
    if (← eval context condition).isTrue then return some (← execBlock context block)
    else execBranches context branches

end

/-! ## Functions -/

/-- The frame of a call: every parameter takes the next argument by position, the one of its name or
    its default, which is evaluated where the call stands. -/
def bindParameters (context : Context) (function : String) (keywords : Keywords) :
    List Parameter → List Value → Scope → Eval Scope
  | [], _, frame => return frame
  | parameter :: parameters, arguments, frame => do
    let value ← match arguments.head?, keywords.get? parameter.name, parameter.default with
      | some _, some _, _ => Eval.fault (.repeatedArgument function parameter.name)
      | some value, none, _ => pure value
      | none, some value, _ => pure value
      | none, none, some e => eval context e
      | none, none, none => Eval.fault (.missingArgument function parameter.name)
    bindParameters context function keywords parameters arguments.tail
      (frame.set parameter.name value)

/-- The call of a function of the script. -/
def callFunction (context : Context) (f : Function) (arguments : List Value)
    (keywords : Keywords) : Eval Value := do
  if (← get).frames.length ≥ maxFrames then Eval.fault .recursion
  if arguments.length > f.parameters.length then
    Eval.fault (.tooManyArguments f.name f.parameters.length arguments.length)
  let unexpected := keywords.find? fun (name, _) => !f.parameters.any (·.name == name)
  if let some (name, _) := unexpected then Eval.fault (.unexpectedKeyword f.name name)
  let frame ← bindParameters context f.name keywords f.parameters arguments []
  match ← Eval.inFrame frame (execBlock context f.body) with
  | .give value => return value
  | .next => return .none
  | .leave | .proceed => Eval.fault .exitOutsideLoop

/-- What calls do in a setting while at most `pending` of them may be in progress. -/
def invoke (setting : Setting) : Nat → Invoke
  | 0 => fun _ _ _ => Eval.fault .recursion
  | pending + 1 => callFunction ⟨setting, invoke setting pending⟩

/-- The context of a whole script. -/
def Setting.context (setting : Setting) : Context := ⟨setting, invoke setting maxPending⟩

/-- Executes a whole script. -/
def execScript (setting : Setting) (script : List Statement) : Eval Unit := do
  match ← execBlock setting.context script with
  | .next => return
  | .give _ => Eval.fault .returnOutsideFunction
  | .leave | .proceed => Eval.fault .exitOutsideLoop

end Monorepo.Script
