import Monorepo.Descriptor
import Monorepo.Error
import Monorepo.Sandbox
import Monorepo.Script.Syntax.Grammar

/-!
# Where descriptors come from

The descriptor file of a directory lies in it under a fixed name. Its text is read as a script, the
script is run in the sandbox of the repository, and what it declares is assembled.
-/

namespace Monorepo

/-- Where the descriptors of one repository come from. -/
structure DescriptorSource where
  /-- What their scripts find predefined. -/
  sandbox : Sandbox
  /-- The name of their files. -/
  descriptorName : String

/-- What became of a descriptor. -/
abbrev Parsed := Except DescriptorError Descriptor

namespace DescriptorSource

/-- The descriptors below a root, as a configuration asks for them. -/
def ofConfig (root : String) (config : Config) : DescriptorSource :=
  ⟨.ofConfig root config, config.descriptorName⟩

/-- The root of the repository. -/
def root (source : DescriptorSource) : String := source.sandbox.root

/-- The path of the descriptor file of a directory. -/
def descriptorPath (source : DescriptorSource) (buildpath : String) : String :=
  let directory :=
    if buildpath.isEmpty then source.root else Path.join source.root buildpath
  Path.join directory source.descriptorName

/-- The descriptor of a directory from the text of its file at a path. -/
def parseText (source : DescriptorSource) (buildpath path text : String) : Parsed :=
  match Script.parseScript text with
  | .error e => .error (.failed buildpath (.malformed e))
  | .ok script =>
    match source.sandbox.run path script with
    | .error e _ => .error (.failed buildpath (.stopped e))
    | .ok _ state => .ok (.assemble buildpath state.calls state.warnings)

/-- The descriptor of a directory. -/
def parse (source : DescriptorSource) (disk : Disk) (buildpath : String) : Parsed :=
  let path := source.descriptorPath buildpath
  match disk.read path with
  | .error cause => .error (.unreadable buildpath path cause)
  | .ok text => source.parseText buildpath path text

end DescriptorSource

end Monorepo
