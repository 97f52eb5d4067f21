/-!
# Configuration

What a repository may set for itself. Every field has a default, so that a configuration lists only
what differs.
-/

namespace Monorepo

/-- The name of the file that holds the configuration of a repository. -/
def configFileName : String := ".buildgraph.json"

/-- The configuration of a repository. -/
structure Config where
  /-- The name of descriptor files. -/
  descriptorName : String := "BUILD"
  /-- The names of files and directories that mark the root of a repository. -/
  rootMarkers : List String := ["pants.ini"]
  /-- The names of directories below the root that are no projects. -/
  reservedProjects : List String := ["science"]
  /-- Further kinds of targets. -/
  extraTargetKinds : List String := []
  /-- Further names that are known but not modelled. -/
  extraGlobals : List String := []
  /-- How deep to look for descriptors. -/
  findDepth : Nat := 3
  /-- How far to follow dependencies. -/
  dependencyDepth : Nat := 2
  /-- The version of the language that scripts are told. -/
  interpreterVersion : Int := 20
deriving DecidableEq, Repr

/-- Why a configuration cannot be used. -/
inductive ConfigFault
  /-- The descriptor name is empty or has a slash. -/
  | descriptorName (name : String)
  /-- There is no root marker. -/
  | noRootMarker
  /-- The text is no configuration. -/
  | malformed
deriving DecidableEq, Repr

/-- The words for a fault. -/
def ConfigFault.message : ConfigFault → String
  | .descriptorName name => "descriptor_name must be a plain file name, got '" ++ name ++ "'"
  | .noRootMarker => "root_markers must name at least one file"
  | .malformed => "Failed to parse config: not an object of known settings"

namespace Config

/-- Whether a configuration can be used. -/
def validate (config : Config) : Except ConfigFault Unit :=
  if config.descriptorName.isEmpty || config.descriptorName.toList.contains '/' then
    .error (.descriptorName config.descriptorName)
  else if config.rootMarkers.isEmpty then .error .noRootMarker
  else .ok ()

end Config

end Monorepo
