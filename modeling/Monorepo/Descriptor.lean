import Monorepo.Names
import Monorepo.Target
import Monorepo.Script.State

/-!
# Descriptors

A descriptor is what the script of one directory declares: its targets by id, with the root target
among them, and what it is warned of. The targets are assembled from the declarations in order: a
later declaration of an id replaces the earlier one, but the id keeps its place.
-/

namespace Monorepo

open Script (Value TargetCall Notice Warning Keywords)

/-- What the script of a directory declares. -/
structure Descriptor where
  /-- The directory. -/
  buildpath : String
  /-- The targets by id, the root target included. -/
  targets : Table Target
  /-- The warnings of the script, and then those of the assembly. -/
  warnings : List Warning

namespace Descriptor

/-- The root target. -/
def root? (d : Descriptor) : Option Target := d.targets.get? d.buildpath

/-- The targets but the root target, in the order in which their ids were first declared. -/
def declared (d : Descriptor) : List Target :=
  match d.root? with
  | some root => root.dependencies.filterMap d.targets.get?
  | none => []

/-- The ids in ascending order. -/
def targetIds (d : Descriptor) : List String := d.targets.keys

end Descriptor

/-- Targets on the way to a descriptor. -/
structure Assembly where
  /-- The targets so far. -/
  targets : Table Target
  /-- The ids, the one declared last first. -/
  reversedIds : List String
  /-- The warnings, the last one first. -/
  warned : List Warning

namespace Assembly

/-- Nothing is declared. -/
def empty : Assembly := ⟨[], [], []⟩

/-- The name of a target: the one that it is given, unless that is falsy; then a number. The first
    of two keywords decides, even when it is falsy and the second is not. -/
def nameOf (count : Nat) (keywords : Keywords) : String :=
  let unnamed := "NO-NAME-" ++ toString count
  match keywords.get? "name" <|> keywords.get? "basename" with
  | some value => if value.isTrue then value.display else unnamed
  | none => unnamed

/-- The leaves of a keyword: its texts, and what is neither a text nor absent. -/
def leavesOf (call : TargetCall) (keyword : String) : List Value :=
  match Keywords.get? call.keywords keyword with
  | some value => value.leaves
  | none => []

/-- The texts among the leaves of a keyword. -/
def textsOf (call : TargetCall) (keyword : String) : List String :=
  (leavesOf call keyword).filterMap Value.text?

/-- The warnings for the leaves of a keyword that are dropped. -/
def droppedFrom (call : TargetCall) (keyword : String) : List Warning :=
  (leavesOf call keyword).filterMap fun leaf =>
    match leaf with
    | .text _ | .none => none
    | other => some ⟨call.line, .droppedEntry other.repr call.kind keyword⟩

/-- A reference as the directory means it: one that begins with a colon is to the directory. -/
def absoluteReference (buildpath reference : String) : String :=
  if reference.toList.head? = some ':' then buildpath ++ reference else reference

/-- A source pattern below a directory; an absolute one, or any in the root, stays as it is. -/
def sourcePath (buildpath path : String) : String :=
  if buildpath.isEmpty || path.toList.head? == some '/' then path
  else if buildpath.toList.getLast? == some '/' then buildpath ++ path
  else buildpath ++ "/" ++ path

/-- Adds a declaration. -/
def record (buildpath : String) (a : Assembly) (call : TargetCall) : Assembly :=
  let id := buildpath ++ ":" ++ nameOf a.targets.length call.keywords
  let dependencies := (textsOf call "dependencies").map (absoluteReference buildpath)
  let sources := (textsOf call "sources").map (sourcePath buildpath)
  let known := a.targets.has id
  let noted := droppedFrom call "dependencies"
    ++ (if dependencies.any String.isEmpty then [⟨call.line, .emptyDependency id⟩] else [])
    ++ droppedFrom call "sources"
    ++ (if known then [⟨call.line, .duplicateTarget id⟩] else [])
  { targets := a.targets.set id ⟨call.kind, id, dependencies, sources⟩
    reversedIds := if known then a.reversedIds else id :: a.reversedIds
    warned := noted.reverse ++ a.warned }

/-- The descriptor, after a script with given warnings. -/
def finish (buildpath : String) (a : Assembly) (warnings : List Warning) : Descriptor where
  buildpath := buildpath
  targets := a.targets.set buildpath (.root buildpath a.reversedIds.reverse)
  warnings := warnings ++ a.warned.reverse

end Assembly

/-- The descriptor of a directory from what its script declared and was warned of. -/
def Descriptor.assemble (buildpath : String) (calls : List TargetCall) (warnings : List Warning) :
    Descriptor :=
  (calls.foldl (Assembly.record buildpath) .empty).finish buildpath warnings

end Monorepo
