import Monorepo.Path

/-!
# File trees

The files of a machine, as a tree without links. A path is followed from the root one part after
another, and unlike in its normal form every directory on the way has to be there, also one that two
dots lead out of again.
-/

namespace Monorepo

/-- What a file holds. -/
inductive Content
  /-- A text. -/
  | text (content : String)
  /-- Bytes that are no text. -/
  | binary
deriving DecidableEq, Repr

/-- A file, or a directory with everything below it. -/
inductive FileTree
  /-- A file. -/
  | file (content : Content)
  /-- A directory; its entries are in ascending order of their names. -/
  | directory (entries : List (String × FileTree))

instance : Inhabited FileTree := ⟨.directory []⟩

/-- Why a file or directory cannot be used. -/
inductive FileError
  | notFound
  | notDirectory
  | isDirectory
  | notText
  | nameTooLong
  | nullInName
deriving DecidableEq, Repr

/-- The words for an error. -/
def FileError.message : FileError → String
  | .notFound => "No such file or directory (os error 2)"
  | .notDirectory => "Not a directory (os error 20)"
  | .isDirectory => "Is a directory (os error 21)"
  | .notText => "stream did not contain valid UTF-8"
  | .nameTooLong => "File name too long (os error 36)"
  | .nullInName => "file name contained an unexpected NUL byte"

namespace FileTree

/-- The entries of a directory; a file has none. -/
def entries : FileTree → List (String × FileTree)
  | .file _ => []
  | .directory entries => entries

/-- What lies at the end of a list of names. -/
def at? (tree : FileTree) : List String → Option FileTree
  | [] => some tree
  | name :: names => (tree.entries.lookup name).bind fun below => below.at? names

/-- Follows the pieces of a path from the place at the end of `trail`, which stands in reverse: the
    names of the place that is reached, again in reverse. -/
def follow (tree : FileTree) (trail : List String) : List String → Except FileError (List String)
  | [] => .ok trail
  | piece :: pieces =>
    match tree.at? trail.reverse with
    | some (.directory entries) =>
      if piece = "" ∨ piece = "." then tree.follow trail pieces
      else if piece = ".." then tree.follow trail.tail pieces
      else if piece.utf8ByteSize > 255 then .error .nameTooLong
      else if (entries.lookup piece).isSome then tree.follow (piece :: trail) pieces
      else .error .notFound
    | some (.file _) => .error .notDirectory
    | none => .error .notFound

/-- The pieces of an absolute path, if it can be one at all. -/
def piecesOf (path : String) : Except FileError (List String) :=
  if path.isEmpty then .error .notFound
  else if path.toList.contains (Char.ofNat 0) then .error .nullInName
  else if path.utf8ByteSize ≥ 4096 then .error .nameTooLong
  else .ok ((slashPieces path.toList).map String.ofList)

/-- The names of the place that an absolute path leads to. -/
def locate (tree : FileTree) (path : String) : Except FileError (List String) := do
  return (← tree.follow [] (← piecesOf path)).reverse

/-- What lies at an absolute path. -/
def find (tree : FileTree) (path : String) : Except FileError FileTree := do
  match tree.at? (← tree.locate path) with
  | some found => return found
  | none => throw .notFound

/-- Whether something lies at an absolute path. -/
def hasPath (tree : FileTree) (path : String) : Bool := (tree.find path).toBool

/-- Whether a file lies at an absolute path. -/
def hasFile (tree : FileTree) (path : String) : Bool :=
  match tree.find path with
  | .ok (.file _) => true
  | _ => false

/-- Whether a directory lies at an absolute path. -/
def hasDirectory (tree : FileTree) (path : String) : Bool :=
  match tree.find path with
  | .ok (.directory _) => true
  | _ => false

/-- The text of the file at an absolute path. -/
def read (tree : FileTree) (path : String) : Except FileError String := do
  match ← tree.find path with
  | .file (.text content) => return content
  | .file .binary => throw .notText
  | .directory _ => throw .isDirectory

/-- The names in the directory at an absolute path. -/
def list (tree : FileTree) (path : String) : Except FileError (List String) := do
  match ← tree.find path with
  | .directory entries => return entries.map (·.1)
  | .file _ => throw .notDirectory

/-! ## Changes -/

/-- Sets an entry, in the ascending order of names. -/
def setEntry (name : String) (node : FileTree) :
    List (String × FileTree) → List (String × FileTree)
  | [] => [(name, node)]
  | (n, below) :: entries =>
    if name < n then (name, node) :: (n, below) :: entries
    else if n = name then (name, node) :: entries
    else (n, below) :: setEntry name node entries

/-- Puts a tree at the end of a list of names, with the directories on the way. -/
def put (node : FileTree) : List String → FileTree → FileTree
  | [], _ => node
  | name :: names, tree =>
    let below := (tree.entries.lookup name).getD (.directory [])
    .directory (setEntry name (put node names below) tree.entries)

/-- Makes the directories on a list of names that are not there. -/
def makeDirectories (tree : FileTree) (names : List String) : FileTree :=
  match tree.at? names with
  | some _ => tree
  | none => put (.directory []) names tree

/-- Removes what lies at the end of a list of names. -/
def remove : List String → FileTree → FileTree
  | [], tree => tree
  | [name], tree => .directory (tree.entries.filter fun (n, _) => n != name)
  | name :: names, tree =>
    match tree.entries.lookup name with
    | some below => .directory (setEntry name (remove names below) tree.entries)
    | none => tree

/-- Writes a text to the file at an absolute path, which may be a new one in a directory. A path
    with a slash at its end, or with dots there, can only mean a directory, whether there is one or
    not. -/
def write (tree : FileTree) (path content : String) : Except FileError FileTree := do
  let pieces ← piecesOf path
  let named := (pieces.reverse.dropWhile (· == "")).reverse
  let trail ← tree.follow [] named.dropLast
  match tree.at? trail.reverse with
  | some (.directory entries) =>
    let name := named.getLastD ""
    if named.length < pieces.length ∨ name = "." ∨ name = ".." then throw .isDirectory
    else if name.utf8ByteSize > 255 then throw .nameTooLong
    else match entries.lookup name with
      | some (.directory _) => throw .isDirectory
      | _ => return put (.file (.text content)) (name :: trail).reverse tree
  | some (.file _) => throw .notDirectory
  | none => throw .notFound

/-! ## Searching -/

/-- Whether a name is hidden. -/
def isHidden (name : String) : Bool := name.toList.head? == some '.'

/-- The directories that hold a file of a name at most `depth` levels down, the file itself counted
    and hidden entries left out. Each is given by its names from `trail` on, in reverse. -/
def holders (wanted : String) :
    Nat → List String → List (String × FileTree) → List (List String)
  | 0, _, _ => []
  | depth + 1, trail, entries =>
    entries.flatMap fun (name, node) =>
      if isHidden name then []
      else match node with
        | .file _ => if name = wanted then [trail] else []
        | .directory below => holders wanted depth (name :: trail) below

end FileTree

/-- A file tree as a process sees it: a relative path is taken from the working directory. -/
structure Disk where
  /-- The files. -/
  tree : FileTree
  /-- The absolute path of the working directory. -/
  workingDirectory : String

namespace Disk

/-- The absolute path for a path; the empty one leads nowhere. -/
def absolute (disk : Disk) (path : String) : String :=
  if path.isEmpty then "" else Path.join disk.workingDirectory path

/-- What lies at a path. -/
def find (disk : Disk) (path : String) : Except FileError FileTree :=
  disk.tree.find (disk.absolute path)

/-- The names in the directory at a path. -/
def list (disk : Disk) (path : String) : Except FileError (List String) :=
  disk.tree.list (disk.absolute path)

/-- Whether something lies at a path. -/
def hasPath (disk : Disk) (path : String) : Bool := disk.tree.hasPath (disk.absolute path)

/-- Whether a file lies at a path. -/
def hasFile (disk : Disk) (path : String) : Bool := disk.tree.hasFile (disk.absolute path)

/-- Whether a directory lies at a path. -/
def hasDirectory (disk : Disk) (path : String) : Bool :=
  disk.tree.hasDirectory (disk.absolute path)

/-- The text of the file at a path. -/
def read (disk : Disk) (path : String) : Except FileError String :=
  disk.tree.read (disk.absolute path)

/-- Writes a text to the file at a path. -/
def write (disk : Disk) (path content : String) : Except FileError Disk :=
  (disk.tree.write (disk.absolute path) content).map fun tree => { disk with tree := tree }

end Disk

end Monorepo
