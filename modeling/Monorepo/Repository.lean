import Monorepo.Config.Lookup
import Monorepo.Resolution

/-!
# Repositories

A repository is a directory with its configuration and a cache of the descriptors below it. An
operation takes the disk as it is at that moment; one that asks for descriptors also answers the
repository with what it remembers from then on. A repository may be cancelled, and then every
operation that would visit a directory fails.
-/

namespace Monorepo

/-- An open repository. -/
structure Repository where
  /-- The absolute path of its root, in normal form. -/
  root : String
  /-- Its configuration. -/
  config : Config
  /-- What it remembers of its descriptors. -/
  cache : Cache
  /-- Whether it is cancelled. -/
  cancelled : Bool

namespace Repository

/-! ## Opening -/

/-- The absolute path for a path, in normal form. -/
def resolvePath (disk : Disk) (path : String) : Except Error String :=
  if path.isEmpty then .error .emptyPath else .ok (Path.normalize (disk.absolute path))

/-- Opens the repository at a path with a given configuration. -/
def ofConfig (disk : Disk) (path : String) (config : Config) : Except Error Repository := do
  let root ← resolvePath disk path
  unless disk.hasDirectory root do throw (.rootNoDirectory root)
  config.validate.mapError .config
  return ⟨root, config, .new (.ofConfig root config), false⟩

/-- Opens the repository at a path with the configuration that is stored in it. -/
def ofPath (disk : Disk) (path : String) : Except Error Repository := do
  ofConfig disk path (← Config.loadForRoot disk path)

/-- Whether a directory has a root marker. -/
def hasMarker (disk : Disk) (markers : List String) (directory : String) : Bool :=
  markers.any fun marker => disk.hasPath (Path.join directory marker)

/-- The nearest directory with a root marker, at a path or above it. -/
def findRoot (disk : Disk) (start : String) (markers : List String) : Except Error String :=
  match (Path.ancestors start).find? (hasMarker disk markers) with
  | some root => .ok root
  | none => .error (.noRoot start markers)

/-- Opens the repository that a path lies in. The nearest configuration file, which may lie below or
    above the root, says what marks a root. -/
def discover (disk : Disk) (path : String) : Except Error Repository := do
  let start ← resolvePath disk path
  let config ← match Config.find? disk start with
    | some path => Config.load disk path
    | none => pure {}
  ofConfig disk (← findRoot disk start config.rootMarkers) config

/-- Fails if the repository is cancelled. -/
def check (r : Repository) : Except Error Unit := if r.cancelled then .error .cancelled else .ok ()

/-! ## Names of places -/

/-- The absolute path for a path below the root, in normal form. -/
def abspath (r : Repository) (relpath : String) : String :=
  Path.normalize (Path.join r.root relpath)

/-- A path as seen from the root, which is itself a single dot. -/
def relpath (r : Repository) (path : String) : String :=
  Path.relativeTo (Path.join r.root path) r.root

/-- The buildpath that a text means: an absolute path, a path behind two slashes, or a path below
    the root. -/
def toBuildpath (r : Repository) (input : String) : String :=
  match input.toList with
  | '/' :: '/' :: _ => Path.cleanBuildpath input
  | '/' :: _ => Path.cleanBuildpath (r.relpath input)
  | _ => Path.cleanBuildpath input

/-- The buildpath in the reference to a target. -/
def buildpathOf (reference : String) : String := Target.buildpathOf reference

/-- The first directory in the buildpath of a reference. -/
def projectOf (reference : String) : String :=
  String.ofList ((buildpathOf reference).toList.takeWhile (· != '/'))

/-! ## Projects -/

/-- Whether a name can be the name of a project. -/
def isProjectName (r : Repository) (name : String) : Bool :=
  !name.isEmpty && !name.toList.contains '/' && !FileTree.isHidden name
    && !r.config.reservedProjects.contains name

/-- Whether a path leads to a project, which is a directory in the root, neither hidden nor
    reserved. -/
def isProject (r : Repository) (disk : Disk) (path : String) : Bool :=
  let name := if Path.isAbsolute path then r.relpath path else path
  r.isProjectName name && disk.hasDirectory (Path.join r.root name)

/-- The projects. -/
def projects (r : Repository) (disk : Disk) : Except Error Names := do
  let names ← (disk.list r.root).mapError .file
  return .ofList (names.filter (r.isProject disk))

/-! ## Descriptors -/

/-- The directories in which the walk from an absolute path meets a descriptor, at most `depth`
    levels down. -/
def descriptorDirectories (r : Repository) (start : String) (depth : Nat) :
    FileTree → List String
  | .file _ =>
    let name := (Path.ofString start).parts.getLastD ""
    if name = r.config.descriptorName then (Path.parent? start).toList else []
  | .directory entries =>
    (FileTree.holders r.config.descriptorName depth [] entries).map fun trail =>
      Path.join start ("/".intercalate trail.reverse)

/-- The buildpaths with a descriptor at most `depth` levels below a path, in ascending order. -/
def findBuildpaths (r : Repository) (disk : Disk) (path : String) (depth : Nat) :
    Except Error (List String) := do
  r.check
  let start := r.abspath path
  let tree ← (disk.find start).mapError (.search start)
  let directories := r.descriptorDirectories start depth tree
  return sortNames (directories.map fun directory => Path.cleanBuildpath (r.relpath directory))

/-- The descriptor of a directory. -/
def parse (r : Repository) (disk : Disk) (buildpath : String) : Parsed × Repository :=
  let (parsed, cache) := r.cache.parse disk buildpath
  (parsed, { r with cache := cache })

/-- The ids of the targets of a directory, in ascending order. -/
def targetIds (r : Repository) (disk : Disk) (buildpath : String) :
    Except DescriptorError (List String) × Repository :=
  let (parsed, r) := r.parse disk buildpath
  (parsed.map Descriptor.targetIds, r)

/-- The ids of the targets of some directories, except of those that have no descriptor. -/
def targetIdsOf (disk : Disk) : List String → Repository → List String × Repository
  | [], r => ([], r)
  | buildpath :: buildpaths, r =>
    let (parsed, r) := r.parse disk buildpath
    let (ids, r) := targetIdsOf disk buildpaths r
    ((parsed.toOption.map Descriptor.targetIds).getD [] ++ ids, r)

/-- The ids of the targets at most `depth` levels below a path. -/
def findTargets (r : Repository) (disk : Disk) (path : String) (depth : Nat) :
    Except Error (List String) × Repository :=
  match r.findBuildpaths disk path depth with
  | .error e => (.error e, r)
  | .ok buildpaths =>
    let (ids, r) := targetIdsOf disk buildpaths r
    (.ok ids, r)

/-- What became of some descriptors. -/
structure Summary where
  /-- The directories with a descriptor, in the order in which they were asked for. -/
  parsed : List String
  /-- The directories without one and why, in that order. -/
  failed : List (String × DescriptorError)

namespace Summary

/-- How many descriptors were asked for. -/
def total (s : Summary) : Nat := s.parsed.length + s.failed.length

/-- Whether all of them are there. -/
def isSuccess (s : Summary) : Bool := s.failed.isEmpty

/-- The summary with one directory in front. -/
def cons (buildpath : String) (parsed : Parsed) (s : Summary) : Summary :=
  match parsed with
  | .ok _ => { s with parsed := buildpath :: s.parsed }
  | .error e => { s with failed := (buildpath, e) :: s.failed }

end Summary

/-- What becomes of the descriptors of some directories. -/
def summarize (disk : Disk) : List String → Repository → Summary × Repository
  | [], r => (⟨[], []⟩, r)
  | buildpath :: buildpaths, r =>
    let (parsed, r) := r.parse disk buildpath
    let (summary, r) := summarize disk buildpaths r
    (summary.cons buildpath parsed, r)

/-- Asks for the descriptors of some directories; failures do not end it. -/
def parseAll (r : Repository) (disk : Disk) (buildpaths : List String) :
    Except Error Summary × Repository :=
  if r.cancelled && !buildpaths.isEmpty then (.error .cancelled, r)
  else
    let (summary, r) := summarize disk buildpaths r
    (.ok summary, r)

/-- Forgets all descriptors. -/
def flush (r : Repository) : Repository := { r with cache := r.cache.flush }

/-! ## Dependencies -/

/-- The targets of some directories and of `depth` waves of dependencies. -/
def resolve (r : Repository) (disk : Disk) (starts : List String) (depth : Nat) :
    Except Error DependencyGraph × Repository :=
  if r.cancelled && !starts.isEmpty then (.error .cancelled, r)
  else
    let (graph, cache) := r.cache.resolve disk starts depth
    (.ok graph, { r with cache := cache })

/-- The buildpaths that some directories depend on within `depth` waves. -/
def dependencies (r : Repository) (disk : Disk) (starts : List String) (depth : Nat) :
    Except Error Names × Repository :=
  let (graph, r) := r.resolve disk starts depth
  (graph.map DependencyGraph.dependencyBuildpaths, r)

/-- The projects that some directories depend on within `depth` waves. -/
def projectDependencies (r : Repository) (disk : Disk) (starts : List String) (depth : Nat) :
    Except Error Names × Repository :=
  let (buildpaths, r) := r.dependencies disk starts depth
  (buildpaths.map fun buildpaths =>
    .ofList ((buildpaths.map projectOf).filter (r.isProject disk)), r)

end Repository

end Monorepo
