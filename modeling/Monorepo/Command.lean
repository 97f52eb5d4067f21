import Monorepo.Decimal.Reading

/-!
# Commands

What can be asked of the program on its command line. The words of a command line are read from left
to right, and the first word that cannot be understood, or that asks for help, decides. Some options
may stand in front of the name of a command and behind it; behind it they count more.
-/

namespace Monorepo

/-- What to do in a repository. -/
inductive Action
  /-- Ask for every descriptor below a path and report failures. -/
  | check (path : String) (depth : Option Nat) (warnings : Bool)
  /-- List the targets of some directories. -/
  | targets (inputs : List String)
  /-- List the directories that a target or a directory depends on. -/
  | dependencies (input : String) (depth : Option Nat)
  /-- List the projects. -/
  | projects
  /-- List the projects that some directories depend on. -/
  | projectDependencies (inputs : List String) (depth : Option Nat)
  /-- List the directories with a descriptor below a path. -/
  | find (path : String) (depth : Option Nat)
deriving DecidableEq, Repr

/-- What to do, where, and how to write it. -/
structure Command where
  /-- The root of the repository; without one it is looked for. -/
  root : Option String
  /-- Whether the output is structured. -/
  json : Bool
  /-- What to do. -/
  action : Action
deriving DecidableEq, Repr

/-- Why a command line is no command. -/
inductive Refusal
  /-- It is not understood. -/
  | misuse
  /-- It asks for help or for the version of the program. -/
  | help
deriving DecidableEq, Repr

/-! ## Options -/

/-- The options. -/
inductive Switch
  | root
  | json
  | depth
  | warnings
  | help
  | version
deriving DecidableEq, Repr

/-- Whether an option has a value. -/
def Switch.hasValue : Switch → Bool
  | .root | .depth => true
  | .json | .warnings | .help | .version => false

/-- The place of an option on a command line. -/
structure Level where
  /-- Whether there is a depth. -/
  hasDepth : Bool
  /-- Whether there are warnings to ask for. -/
  hasWarnings : Bool
  /-- Whether the version can be asked for. -/
  hasVersion : Bool
  /-- How many operands there may be, if their number is limited. -/
  capacity : Option Nat
deriving DecidableEq, Repr

namespace Level

/-- In front of the name of a command. -/
def front : Level := ⟨false, false, true, some 0⟩

/-- Whether an option is known at a level. -/
def knows (level : Level) : Switch → Bool
  | .root | .json | .help => true
  | .depth => level.hasDepth
  | .warnings => level.hasWarnings
  | .version => level.hasVersion

/-- The option of a name. -/
def ofName? (level : Level) (name : String) : Except Refusal Switch :=
  let switch? : Option Switch :=
    if name = "root" then some .root
    else if name = "json" then some .json
    else if name = "depth" then some .depth
    else if name = "warnings" then some .warnings
    else if name = "help" then some .help
    else if name = "version" then some .version
    else none
  match switch?.filter level.knows with
  | some switch => .ok switch
  | none => .error .misuse

/-- The option of a letter. -/
def ofLetter? (level : Level) (letter : Char) : Except Refusal Switch :=
  let switch? : Option Switch :=
    if letter = 'd' then some .depth
    else if letter = 'w' then some .warnings
    else if letter = 'h' then some .help
    else if letter = 'V' then some .version
    else none
  match switch?.filter level.knows with
  | some switch => .ok switch
  | none => .error .misuse

/-- Whether one more operand is too many. -/
def isFull (level : Level) (operands : List String) : Bool :=
  level.capacity == some operands.length

end Level

/-- The options that were given at one level. -/
structure Options where
  /-- The root of the repository. -/
  root : Option String := none
  /-- Whether the output is structured. -/
  json : Bool := false
  /-- The depth. -/
  depth : Option Nat := none
  /-- Whether warnings are asked for. -/
  warnings : Bool := false
deriving DecidableEq, Repr

/-- The number of a depth, which has to fit in 64 bits; a plus sign may stand in front of it. -/
def readDepth? (word : String) : Option Nat :=
  let digits := match word.toList with
    | '+' :: cs => cs
    | cs => cs
  (Decimal.readNat? 10 digits).filter (· < Decimal.wordLimit)

namespace Options

/-- Adds an option without a value, which may be there only once. -/
def mark (o : Options) : Switch → Except Refusal Options
  | .json => if o.json then .error .misuse else .ok { o with json := true }
  | .warnings => if o.warnings then .error .misuse else .ok { o with warnings := true }
  | .help | .version => .error .help
  | .root | .depth => .error .misuse

/-- Adds an option with its value, which may be there only once. -/
def give (o : Options) (switch : Switch) (value : String) : Except Refusal Options :=
  match switch with
  | .root =>
    if o.root.isSome || value.isEmpty then .error .misuse else .ok { o with root := some value }
  | .depth =>
    match readDepth? value with
    | some depth =>
      if o.depth.isSome then .error .misuse else .ok { o with depth := some depth }
    | none => .error .misuse
  | _ => .error .misuse

end Options

/-- Whether a word is an option and no operand. -/
def isOption (word : String) : Bool := word.toList.head? == some '-' && word != "-"

/-- Reads a name behind two dashes; its value may stand behind an equals sign. The second part of
    the answer is the option whose value has to be the next word. -/
def readName (level : Level) (o : Options) (cs : List Char) :
    Except Refusal (Options × Option Switch) := do
  let name := cs.takeWhile (· != '=')
  let switch ← level.ofName? (String.ofList name)
  if name.length < cs.length then
    return (← o.give switch (String.ofList (cs.drop (name.length + 1))), none)
  else if switch.hasValue then return (o, some switch)
  else return (← o.mark switch, none)

/-- Reads letters behind a dash. An option with a value takes the letters behind it, less an equals
    sign, and the next word if there are none. -/
def readLetters (level : Level) (o : Options) :
    List Char → Except Refusal (Options × Option Switch)
  | [] => .ok (o, none)
  | c :: cs => do
    let switch ← level.ofLetter? c
    if switch.hasValue then
      match cs with
      | [] => return (o, some switch)
      | '=' :: value => return (← o.give switch (String.ofList value), none)
      | value => return (← o.give switch (String.ofList value), none)
    else readLetters level (← o.mark switch) cs

/-- Reads a word that is an option. -/
def readOption (level : Level) (o : Options) (word : String) :
    Except Refusal (Options × Option Switch) :=
  match word.toList with
  | '-' :: '-' :: cs => readName level o cs
  | '-' :: cs => readLetters level o cs
  | _ => .error .misuse

/-- Reads the options in front of the name of a command: the options, the name and the words behind
    it. `pending` is the option whose value has to be the next word. -/
def readFront (o : Options) (pending : Option Switch) :
    List String → Except Refusal (Options × String × List String)
  | [] => .error .misuse
  | word :: words =>
    match pending with
    | some switch => do
      if isOption word then throw .misuse
      readFront (← o.give switch word) none words
    | none => do
      if word = "--" then throw .misuse
      if isOption word then
        let (o, pending) ← readOption .front o word
        readFront o pending words
      else return (o, word, words)

/-- Reads the options and the operands behind the name of a command. Two dashes say that all further
    words are operands. `operands` are those so far, in reverse. -/
def readBehind (level : Level) (o : Options) (pending : Option Switch) (closed : Bool)
    (operands : List String) : List String → Except Refusal (Options × List String)
  | [] => if pending.isSome then .error .misuse else .ok (o, operands.reverse)
  | word :: words =>
    match pending with
    | some switch => do
      if isOption word then throw .misuse
      readBehind level (← o.give switch word) none closed operands words
    | none => do
      if !closed && word = "--" then readBehind level o none true operands words
      else if !closed && isOption word then
        let (o, pending) ← readOption level o word
        readBehind level o pending closed operands words
      else if level.isFull operands then throw .misuse
      else readBehind level o none closed (word :: operands) words

/-! ## Commands -/

/-- The names of commands. -/
inductive Verb
  | check
  | targets
  | dependencies
  | projects
  | projectDependencies
  | find
deriving DecidableEq, Repr

namespace Verb

/-- The command of a name; some have a short one. -/
def ofName? (name : String) : Option Verb :=
  if name = "check" ∨ name = "c" then some .check
  else if name = "targets" ∨ name = "t" then some .targets
  else if name = "deps" then some .dependencies
  else if name = "projects" then some .projects
  else if name = "project-deps" then some .projectDependencies
  else if name = "find" ∨ name = "f" then some .find
  else none

/-- What may stand behind the name of a command. -/
def level : Verb → Level
  | .check => ⟨true, true, false, some 1⟩
  | .targets => ⟨false, false, false, none⟩
  | .dependencies => ⟨true, false, false, some 1⟩
  | .projects => ⟨false, false, false, some 0⟩
  | .projectDependencies => ⟨true, false, false, none⟩
  | .find => ⟨true, false, false, some 1⟩

/-- What to do, if the operands that a command needs are there. -/
def action (o : Options) (operands : List String) : Verb → Except Refusal Action
  | .check => .ok (.check (operands.headD "") o.depth o.warnings)
  | .targets => if operands.isEmpty then .error .misuse else .ok (.targets operands)
  | .dependencies =>
    match operands with
    | input :: _ => .ok (.dependencies input o.depth)
    | [] => .error .misuse
  | .projects => .ok .projects
  | .projectDependencies =>
    if operands.isEmpty then .error .misuse else .ok (.projectDependencies operands o.depth)
  | .find => .ok (.find (operands.headD "") o.depth)

end Verb

/-- What comes of asking for help on a command by its name. -/
def helpOn : List String → Refusal
  | [] => .help
  | [name] => if (Verb.ofName? name).isSome ∨ name = "help" then .help else .misuse
  | _ => .misuse

/-- The command of the words of a command line. -/
def Command.ofWords (words : List String) : Except Refusal Command := do
  let (front, name, words) ← readFront {} none words
  if name = "help" then throw (helpOn words)
  match Verb.ofName? name with
  | none => throw .misuse
  | some verb =>
    let (behind, operands) ← readBehind verb.level {} none false [] words
    let action ← verb.action behind operands
    return ⟨behind.root <|> front.root, behind.json || front.json, action⟩

end Monorepo
