import Monorepo.Cache

/-!
# Resolution of dependencies

From some directories on, dependencies are followed in waves: a wave asks for the descriptors of its
directories in ascending order, and the directories that their references name and that no wave has
visited yet make up the next wave. A descriptor that cannot be had is noted as a failure, and a
reference that names no directory is noted as unresolved; neither ends the resolution.
-/

namespace Monorepo

/-- A reference that names no directory. -/
structure UnresolvedReference where
  /-- The reference. -/
  reference : String
  /-- The id of the target that has it. -/
  declaredIn : String
deriving DecidableEq, Repr

/-- The words for an unresolved reference. -/
def UnresolvedReference.message (u : UnresolvedReference) : String :=
  "unresolved dependency reference '" ++ u.reference ++ "' declared in '" ++ u.declaredIn ++ "'"

/-- The outcome of a resolution. -/
structure DependencyGraph where
  /-- The targets of all descriptors, by id. -/
  targets : Table Target
  /-- The directories of every wave. -/
  levels : List Names
  /-- The directories without a descriptor and why, in the order of the visits. -/
  failures : List (String × DescriptorError)
  /-- The unresolved references, none twice. -/
  unresolved : List UnresolvedReference

namespace DependencyGraph

/-- Nothing is visited. -/
def empty : DependencyGraph := ⟨[], [], [], []⟩

/-- The directories that were visited, wave by wave. -/
def visited (g : DependencyGraph) : List String := g.levels.flatten

/-- The directories that the references of all targets name. -/
def dependencyBuildpaths (g : DependencyGraph) : Names :=
  let references := g.targets.values.flatMap Target.dependencies
  .ofList ((references.map Target.buildpathOf).filter (!·.isEmpty))

/-- Notes an unresolved reference, unless it is noted. -/
def noteUnresolved (g : DependencyGraph) (u : UnresolvedReference) : DependencyGraph :=
  if g.unresolved.contains u then g else { g with unresolved := g.unresolved ++ [u] }

end DependencyGraph

/-- A resolution under way. -/
structure Resolution where
  /-- The cache that descriptors are taken from. -/
  cache : Cache
  /-- What came out so far. -/
  graph : DependencyGraph
  /-- The directories that the references of this wave name. -/
  discovered : Names

namespace Resolution

/-- Follows a reference of the target with a given id. -/
def follow (id : String) (r : Resolution) (reference : String) : Resolution :=
  let buildpath := Target.buildpathOf reference
  if buildpath.isEmpty then { r with graph := r.graph.noteUnresolved ⟨reference, id⟩ }
  else { r with discovered := Names.insert buildpath r.discovered }

/-- Adds a target under its id; of two targets with one id the later one stays. -/
def addTarget (r : Resolution) : String × Target → Resolution
  | (id, target) =>
    let r := target.dependencies.foldl (follow id) r
    { r with graph.targets := Table.set id target r.graph.targets }

/-- Visits a directory. -/
def visit (disk : Disk) (r : Resolution) (buildpath : String) : Resolution :=
  match r.cache.parse disk buildpath with
  | (.ok descriptor, cache) => descriptor.targets.foldl addTarget { r with cache := cache }
  | (.error e, cache) =>
    { r with cache := cache, graph.failures := r.graph.failures ++ [(buildpath, e)] }

/-- Visits the directories of a wave. -/
def wave (disk : Disk) (cursor : Names) (r : Resolution) : Resolution :=
  let r := cursor.foldl (visit disk) { r with discovered := [] }
  { r with graph.levels := r.graph.levels ++ [cursor] }

/-- The directories of the next wave. -/
def next (r : Resolution) (visited : List String) : Names :=
  r.discovered.filter (!visited.contains ·)

/-- Visits the directories of a wave and then `depth` waves more, as long as they are not empty.
    `visited` are the directories of the waves before. -/
def expand (disk : Disk) : Nat → List String → Names → Resolution → Resolution
  | _, _, [], r => r
  | 0, _, cursor, r => r.wave disk cursor
  | depth + 1, visited, cursor, r =>
    let visited := cursor ++ visited
    let r := r.wave disk cursor
    expand disk depth visited (r.next visited) r

end Resolution

/-- The targets of some directories and of `depth` waves of dependencies. -/
def Cache.resolve (cache : Cache) (disk : Disk) (starts : List String) (depth : Nat) :
    DependencyGraph × Cache :=
  let r := Resolution.expand disk depth [] (.ofList starts) ⟨cache, .empty, []⟩
  (r.graph, r.cache)

end Monorepo
