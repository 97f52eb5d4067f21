import Monorepo.Command.Run

/-!
# The program

Reads a command line, looks at the files that the command may need, runs the command on them and
writes what it answers. Of the files above a repository only those count that say where it begins,
and links are left out.
-/

namespace Monorepo

/-- How to call the program. -/
def usage : String := lines
  ["usage: monorepo [--root DIR] [--json] COMMAND",
   "commands:",
   "  check [PATH] [-d N] [-w]     ask for every descriptor and report failures",
   "  targets BUILDPATH...         list the targets of directories",
   "  deps TARGET [-d N]           list the directories that a target depends on",
   "  projects                     list the projects",
   "  project-deps BUILDPATH... [-d N]",
   "                               list the projects that directories depend on",
   "  find [PATH] [-d N]           list the directories with a descriptor"]

/-- What the file at an absolute path holds. -/
def contentAt (path : String) : IO Content := do
  try
    match String.fromUTF8? (← IO.FS.readBinFile path) with
    | some text => return .text text
    | none => return .binary
  catch _ => return .binary

/-- The files below the directory at an absolute path, down to `depth` levels. Only files of a
    wanted name are read. -/
def treeAt (wanted : List String) : Nat → String → IO FileTree
  | 0, _ => return .directory []
  | depth + 1, path => do
    let mut entries : List (String × FileTree) := []
    for entry in ← ((← IO.currentDir) / path).readDir do
      let below := Path.join path entry.fileName
      match (← entry.path.symlinkMetadata).type with
      | .dir =>
        entries := FileTree.setEntry entry.fileName (← treeAt wanted depth below) entries
      | .file =>
        let content ← if wanted.contains entry.fileName then contentAt below else pure (.text "")
        entries := FileTree.setEntry entry.fileName (.file content) entries
      | _ => pure ()
    return .directory entries

/-- Adds what lies at an absolute path to a tree, if anything does; of a directory only itself. -/
def look (tree : FileTree) (path : String) : IO FileTree := do
  let place := (← IO.currentDir) / path
  let names := (Path.ofString (Path.normalize path)).parts
  if ← place.isDir then return tree.makeDirectories names
  else if ← place.pathExists then return FileTree.put (.file (← contentAt path)) names tree
  else return tree

/-- The files that say where the repository of a command begins. -/
def frontTree (command : Command) (here : String) : IO FileTree := do
  let start := Path.normalize (Path.join here (command.root.getD here))
  let places := if command.root.isSome then [start] else Path.ancestors start
  let mut tree ← look (.directory []) start
  for place in places do
    tree ← look tree (Config.pathIn place)
  let disk : Disk := ⟨tree, here⟩
  let config := ((Config.find? disk start).bind fun path =>
    (Config.load disk path).toOption).getD {}
  for place in places do
    for marker in config.rootMarkers do
      tree ← look tree (Path.join place marker)
  return tree

/-- The files that a command may need. -/
def diskFor (command : Command) : IO Disk := do
  let here := (← IO.currentDir).toString
  let front ← frontTree command here
  let disk : Disk := ⟨front, here⟩
  match command.openRepository disk with
  | .error _ => return disk
  | .ok r =>
    let below ← treeAt [r.config.descriptorName, configFileName] 256 r.root
    return { disk with tree := FileTree.put below (Path.ofString r.root).parts front }

end Monorepo

open Monorepo in
/-- Runs the program. -/
def main (words : List String) : IO UInt32 := do
  match Command.ofWords words with
  | .error .help =>
    IO.print usage
    return 0
  | .error .misuse =>
    IO.eprint usage
    return 2
  | .ok command =>
    let outcome := command.run (← diskFor command) false
    IO.print outcome.output
    IO.eprint outcome.errors
    return outcome.code.toUInt32
