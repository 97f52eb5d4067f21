import Monorepo.Text.Pieces

/-!
# Targets and references to them

A target is one declared unit of a directory. Its id is the buildpath of the directory, a colon and
a name; the root target of a directory stands for all its targets and has the bare buildpath for an
id. A reference is an id, and may begin with two slashes for the root of the repository.
-/

namespace Monorepo

/-- A declared unit. -/
structure Target where
  /-- The kind, which is the name of the function that declares it. -/
  kind : String
  /-- The id. -/
  id : String
  /-- References to the targets it depends on, in order. -/
  dependencies : List String
  /-- The patterns of its source files, in order. -/
  sources : List String
deriving DecidableEq, Repr

namespace Target

/-- The text without two slashes at its start, if there are any. -/
def dropRootMark : List Char → List Char
  | '/' :: '/' :: cs => cs
  | cs => cs

/-- The buildpath and the name in a reference: what stands before and behind the first colon. A
    reference without a colon has an empty name. -/
def splitReference (reference : String) : String × String :=
  let cs := dropRootMark reference.toList
  let path := cs.takeWhile (· != ':')
  (String.ofList path, String.ofList (cs.drop (path.length + 1)))

/-- The directory that a reference names. -/
def buildpathOf (reference : String) : String := (splitReference reference).1

/-- The kind of root targets. -/
def rootKind : String := "<root>"

/-- The root target of a directory, which depends on all its targets. -/
def root (buildpath : String) (dependencies : List String) : Target :=
  ⟨rootKind, buildpath, dependencies, []⟩

/-- The name of a target. -/
def name (t : Target) : String := (splitReference t.id).2

/-- The directory of a target. -/
def buildpath (t : Target) : String := buildpathOf t.id

/-- Whether a target is the root target of its directory. -/
def isRoot (t : Target) : Bool := t.kind == rootKind

/-- Whether a target lives outside of directories named `src`. -/
def isTopLevel (t : Target) : Bool := !Text.holds "/src/".toList t.id.toList

end Target

end Monorepo
