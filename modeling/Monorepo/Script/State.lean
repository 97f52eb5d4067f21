import Monorepo.Script.EvalError
import Monorepo.Script.Value.Size
import Monorepo.Script.Value.Text
import Monorepo.Script.Operators

/-!
# The state of a running script

A run has global variables, a frame of local variables for every call in progress, the line of the
statement under execution, and what it has produced so far: declared targets and warnings. A step of
a run changes the state whether it succeeds or fails, so that the state can be looked at afterwards.
-/

namespace Monorepo.Script

/-- Variables and their values; no name occurs twice. -/
abbrev Scope := List (String × Value)

namespace Scope

/-- The value of a variable. -/
def get? (scope : Scope) (name : String) : Option Value := scope.lookup name

/-- Whether a variable is bound. -/
def has (scope : Scope) (name : String) : Bool := scope.any fun (n, _) => n == name

/-- Sets a variable that is bound. -/
def replace (scope : Scope) (name : String) (value : Value) : Scope :=
  scope.map fun (n, v) => if n == name then (n, value) else (n, v)

/-- Binds a variable, or sets it when it is bound. -/
def set (scope : Scope) (name : String) (value : Value) : Scope :=
  if scope.has name then scope.replace name value else (name, value) :: scope

/-- Unbinds a variable. -/
def erase (scope : Scope) (name : String) : Scope := scope.filter fun (n, _) => n != name

end Scope

/-- A target as a script declares it. -/
structure TargetCall where
  /-- The kind of the target. -/
  kind : String
  /-- The arguments, by name. -/
  keywords : Keywords
  /-- The line of the declaration. -/
  line : Nat

/-- The state of a run. -/
structure State where
  /-- The global variables. -/
  globals : Scope
  /-- The local variables of the calls in progress, the innermost first. -/
  frames : List Scope
  /-- The line of the statement that was begun last. -/
  line : Nat
  /-- The targets declared so far, the last one first. -/
  declared : List TargetCall
  /-- The warnings so far, the last one first and none twice. -/
  warned : List Warning

namespace State

/-- The state before a run with given globals. -/
def start (globals : Scope) : State := ⟨globals, [], 0, [], []⟩

/-- The targets in the order of their declaration. -/
def calls (s : State) : List TargetCall := s.declared.reverse

/-- The warnings in order. -/
def warnings (s : State) : List Warning := s.warned.reverse

/-- The variables that an assignment binds: those of the innermost call, else the globals. -/
def scope (s : State) : Scope := s.frames.headD s.globals

/-- The state with other variables in the innermost scope. -/
def withScope (s : State) (scope : Scope) : State :=
  match s.frames with
  | [] => { s with globals := scope }
  | _ :: frames => { s with frames := scope :: frames }

/-- The value of a variable: a local one hides a global one. -/
def find? (s : State) (name : String) : Option Value :=
  (s.frames.head?.bind (·.get? name)) <|> s.globals.get? name

/-- Binds a variable in the innermost scope. -/
def store (s : State) (name : String) (value : Value) : State :=
  s.withScope (s.scope.set name value)

/-- Sets a variable where it is bound. -/
def update (s : State) (name : String) (value : Value) : State :=
  if s.scope.has name then s.withScope (s.scope.replace name value)
  else { s with globals := s.globals.replace name value }

end State

/-- A step of a run. -/
abbrev Eval := EStateM EvalError State

namespace Eval

variable {α : Type}

/-- Stops the run. -/
def fault (f : EvalFault) : Eval α := fun s => .error ⟨s.line, f⟩ s

/-- Takes the result of a computation, or stops the run with its fault. -/
def lift (result : Except EvalFault α) : Eval α :=
  match result with
  | .ok a => pure a
  | .error f => fault f

/-- Adds a warning for the current line, unless there is the same one. -/
def warn (notice : Notice) : Eval Unit :=
  modify fun s =>
    let warning := ⟨s.line, notice⟩
    if s.warned.contains warning then s else { s with warned := warning :: s.warned }

/-- Begins the statement of a line. -/
def setLine (line : Nat) : Eval Unit := modify fun s => { s with line := line }

/-- The value of a variable; a name that nothing binds is used as a stub. -/
def lookup (name : String) : Eval Value := do
  match (← get).find? name with
  | some value => return value
  | none =>
    warn (.undefinedName name)
    return .stub name

/-- Binds a variable in the innermost scope. -/
def store (name : String) (value : Value) : Eval Unit := modify (·.store name value)

/-- Fails if the value of a variable passes a limit. -/
def checkStored (name : String) : Eval Unit := do
  match (← get).find? name with
  | some value => discard (lift value.measure)
  | none => return

/-- A value, unless it passes a limit. -/
def bounded (value : Value) : Eval Value := lift value.bounded

/-- The values that a value yields one by one. -/
def items (value : Value) : Eval (List Value) := lift (iterate value)

/-- Binds names to values, one each. -/
def storeAll : List String → List Value → Eval Unit
  | name :: names, value :: values => do
    store name value
    storeAll names values
  | _, _ => return

/-- Binds names to the items of a value, which have to be as many. A stub has an item for every
    name. -/
def unpack (names : List String) (value : Value) : Eval Unit := do
  match value with
  | .stub trace =>
    storeAll names
      ((List.range names.length).map fun i : Nat => .stub (Trace.index trace (.int i)))
  | value =>
    let values ← items value
    if values.length != names.length then fault (.unpackCount names.length values.length)
    storeAll names values

/-- Binds the variables of a loop: one takes the whole item, several take its parts. -/
def bindTargets (targets : List String) (item : Value) : Eval Unit :=
  match targets with
  | [name] => store name item
  | names => unpack names item

/-- Runs a step and binds the variables again as they were before it, however it ended. -/
def restoring (names : List String) (step : Eval α) : Eval α := fun s =>
  let saved := names.map fun name => (name, s.scope.get? name)
  let restore (s : State) : State :=
    saved.foldl (fun s (name, value) =>
      match value with
      | some value => s.store name value
      | none => s.withScope (s.scope.erase name)) s
  match step s with
  | .ok a s => .ok a (restore s)
  | .error e s => .error e (restore s)

/-- Runs a step in a frame of its own and comes back to the line of the caller. -/
def inFrame (frame : Scope) (step : Eval α) : Eval α := fun s =>
  let line := s.line
  let back (s : State) : State := { s with frames := s.frames.tail, line := line }
  match step { s with frames := frame :: s.frames } with
  | .ok a s => .ok a (back s)
  | .error e s => .error e (back s)

end Eval

end Monorepo.Script
