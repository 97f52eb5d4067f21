import Monorepo.Command
import Monorepo.Json
import Monorepo.Repository

/-!
# Running commands

A command writes its answer, or fails with a report that goes down from what was to be done to the
last cause. What it writes before it fails stays written.
-/

namespace Monorepo

/-- Why a command failed. -/
structure Failure where
  /-- The words for what could not be done. -/
  message : String
  /-- The words for the causes, the nearest one first. -/
  causes : List String
deriving DecidableEq, Repr

namespace Failure

/-- What could not be done because of an error. -/
def because (message : String) (e : Error) : Failure := ⟨message, e.message :: e.causes⟩

/-- What could not be done for want of a descriptor. -/
def lacking (message : String) (e : DescriptorError) : Failure := because message (.descriptor e)

/-- The text with further lines pushed in by `margin`. -/
def pushIn (margin : String) (text : String) : String :=
  String.ofList (text.toList.flatMap fun c => if c = '\n' then '\n' :: margin.toList else [c])

/-- The number of a cause, at the right end of five columns. -/
def numberText (n : Nat) : String :=
  let digits := toString n
  "".pushn ' ' (5 - digits.length) ++ digits

/-- The lines for causes, with numbers if there are several. -/
def causeLines : List String → List String
  | [cause] => ["    " ++ pushIn "    " cause]
  | causes => causes.mapIdx fun n cause => numberText n ++ ": " ++ pushIn "       " cause

/-- The report of a failure. -/
def report (f : Failure) : String :=
  let causes := if f.causes.isEmpty then [] else "" :: "Caused by:" :: causeLines f.causes
  String.join ((("Error: " ++ f.message) :: causes).map (· ++ "\n"))

end Failure

/-- What a command has written and how it ended. -/
structure Outcome where
  /-- The answer. -/
  output : String
  /-- What was written beside the answer. -/
  notes : String
  /-- Why it failed, if it did. -/
  failure : Option Failure

namespace Outcome

/-- A command that wrote an answer. -/
def success (output : String) : Outcome := ⟨output, "", none⟩

/-- A command that wrote nothing and failed. -/
def failed (failure : Failure) : Outcome := ⟨"", "", some failure⟩

/-- Whether a command succeeded. -/
def isSuccess (o : Outcome) : Bool := o.failure.isNone

/-- The exit code. -/
def code (o : Outcome) : Nat := if o.isSuccess then 0 else 1

/-- What is written beside the answer, the report of a failure last. -/
def errors (o : Outcome) : String := o.notes ++ (o.failure.map Failure.report).getD ""

end Outcome

/-- Lines of text. -/
def lines (texts : List String) : String := String.join (texts.map (· ++ "\n"))

/-- Some texts, one a line or as a list. -/
def answerOf (json : Bool) (texts : List String) : Outcome :=
  .success (if json then lines [(Json.texts texts).render] else lines texts)

/-! ## Structured answers -/

/-- A target as a structured value. -/
def Target.toJson (t : Target) : Json :=
  .object [("kind", .text t.kind), ("id", .text t.id), ("dependencies", .texts t.dependencies),
    ("sources", .texts t.sources)]

/-- A descriptor as a structured value; the warnings are left out if there are none. -/
def Descriptor.toJson (d : Descriptor) : Json :=
  let warnings := d.warnings.map Script.Warning.message
  .object ([("buildpath", .text d.buildpath),
    ("targets", .object (d.targets.map fun (id, target) => (id, target.toJson)))]
    ++ if warnings.isEmpty then [] else [("warnings", .texts warnings)])

/-- A summary as a structured value. -/
def Repository.Summary.toJson (s : Repository.Summary) : Json :=
  .object [("ok", .texts s.parsed),
    ("failed", .object (s.failed.map fun (buildpath, e) => (buildpath, .text e.message)))]

/-! ## Commands -/

namespace Repository

/-- The warnings of a descriptor that was asked for before. -/
def warningsOf (r : Repository) (buildpath : String) : List String :=
  match r.cache.get? buildpath with
  | some (.ok descriptor) => descriptor.warnings.map Script.Warning.message
  | _ => []

/-- Asks for every descriptor below a path and reports failures. -/
def runCheck (r : Repository) (disk : Disk) (path : String) (depth : Nat) (warnings json : Bool) :
    Outcome :=
  match r.findBuildpaths disk path depth with
  | .error e => .failed (.because ("Failed to search '" ++ path ++ "' for descriptors") e)
  | .ok buildpaths =>
    match r.parseAll disk buildpaths with
    | (.error e, _) => .failed ⟨e.message, e.causes⟩
    | (.ok summary, r) =>
      let failed := toString summary.failed.length
      let total := toString summary.total
      let notes := if json || !warnings then [] else
        summary.parsed.flatMap fun buildpath =>
          (r.warningsOf buildpath).map fun warning =>
            "warning: " ++ buildpath ++ ": " ++ warning
      let output := if json then [summary.toJson.render] else
        (summary.failed.map fun (buildpath, e) => "FAILED " ++ buildpath ++ ": " ++ e.message)
          ++ [toString summary.parsed.length ++ " ok, " ++ failed ++ " failed (" ++ total
            ++ " descriptors)"]
      { output := lines output
        notes := lines notes
        failure := if summary.isSuccess then none else
          some ⟨failed ++ " of " ++ total ++ " descriptors failed to parse", []⟩ }

/-- The descriptors of the directories that some texts mean, or the first failure. -/
def descriptorsOf (disk : Disk) : List String → Repository → Except Failure (List Descriptor)
  | [], _ => .ok []
  | input :: inputs, r =>
    match r.parse disk (r.toBuildpath input) with
    | (.error e, _) => .error (.lacking ("Failed to parse descriptor for '" ++ input ++ "'") e)
    | (.ok descriptor, r) => do return descriptor :: (← descriptorsOf disk inputs r)

/-- Lists the targets of some directories. -/
def runTargets (r : Repository) (disk : Disk) (inputs : List String) (json : Bool) : Outcome :=
  match descriptorsOf disk inputs r with
  | .error failure => .failed failure
  | .ok descriptors =>
    if json then .success (lines [(Json.list (descriptors.map Descriptor.toJson)).render])
    else answerOf false (Names.ofList (descriptors.flatMap Descriptor.targetIds))

/-- Lists the directories that a target or a directory depends on. -/
def runDependencies (r : Repository) (disk : Disk) (input : String) (depth : Nat) (json : Bool) :
    Outcome :=
  let buildpath := buildpathOf (r.toBuildpath input)
  match (r.resolve disk [buildpath] depth).1 with
  | .error e => .failed (.because ("Failed to resolve dependencies of '" ++ input ++ "'") e)
  | .ok graph =>
    match graph.failures.lookup buildpath with
    | some e => .failed (.lacking ("Failed to parse '" ++ buildpath ++ "'") e)
    | none => answerOf json graph.dependencyBuildpaths

/-- Lists the projects that some directories depend on. -/
def runProjectDependencies (r : Repository) (disk : Disk) (inputs : List String) (depth : Nat)
    (json : Bool) : Outcome :=
  match (r.projectDependencies disk (inputs.map r.toBuildpath) depth).1 with
  | .error e => .failed (.because "Failed to resolve project dependencies" e)
  | .ok projects => answerOf json projects

/-- Does what a command asks for. -/
def perform (r : Repository) (disk : Disk) (json : Bool) : Action → Outcome
  | .check path depth warnings =>
    r.runCheck disk path (depth.getD r.config.findDepth) warnings json
  | .targets inputs => r.runTargets disk inputs json
  | .dependencies input depth =>
    r.runDependencies disk input (depth.getD r.config.dependencyDepth) json
  | .projects =>
    match r.projects disk with
    | .error e => .failed (.because "Failed to list projects" e)
    | .ok projects => answerOf json projects
  | .projectDependencies inputs depth =>
    r.runProjectDependencies disk inputs (depth.getD r.config.dependencyDepth) json
  | .find path depth =>
    match r.findBuildpaths disk path (depth.getD r.config.findDepth) with
    | .error e => .failed (.because ("Failed to search '" ++ path ++ "' for descriptors") e)
    | .ok buildpaths => answerOf json buildpaths

end Repository

namespace Command

/-- Opens the repository of a command: the one at its root, or the one that the working directory
    lies in. -/
def openRepository (command : Command) (disk : Disk) : Except Failure Repository :=
  match command.root with
  | some root =>
    (Repository.ofPath disk root).mapError
      (.because ("Failed to open repository at " ++ root))
  | none =>
    (Repository.discover disk disk.workingDirectory).mapError
      (.because ("No repository found from " ++ disk.workingDirectory ++ " (use --root)"))

/-- Runs a command on a disk. -/
def run (command : Command) (disk : Disk) (cancelled : Bool) : Outcome :=
  match command.openRepository disk with
  | .error failure => .failed failure
  | .ok r => { r with cancelled := cancelled }.perform disk command.json command.action

end Command

end Monorepo
