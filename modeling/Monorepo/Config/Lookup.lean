import Monorepo.Config.Text
import Monorepo.Error

/-!
# Configuration files

Where the configuration of a repository is stored: in a file of a fixed name in its root.
-/

namespace Monorepo.Config

/-- The configuration of a text, if it can be used. -/
def ofText (text : String) : Except ConfigFault Config := do
  match decode text with
  | some config =>
    config.validate
    return config
  | none => throw .malformed

/-- The configuration in the file at a path. -/
def load (disk : Disk) (path : String) : Except Error Config := do
  let text ← (disk.read path).mapError .file
  (ofText text).mapError .config

/-- The path of the configuration file in a directory. -/
def pathIn (directory : String) : String := Path.join directory configFileName

/-- The configuration of the repository with a given root: the one in its configuration file, if
    there is such a file. -/
def loadForRoot (disk : Disk) (root : String) : Except Error Config :=
  if disk.hasFile (pathIn root) then load disk (pathIn root) else .ok {}

/-- The path of the nearest configuration file, in a directory or above it. -/
def find? (disk : Disk) (start : String) : Option String :=
  ((Path.ancestors start).map pathIn).find? disk.hasPath

/-- Stores a configuration in the file at a path. -/
def save (disk : Disk) (path : String) (config : Config) : Except Error Disk :=
  (disk.write path config.encode).mapError .file

end Monorepo.Config
