import Monorepo.Config
import Monorepo.FileTree
import Monorepo.Script.ScriptError

/-!
# Errors

Why a directory has no descriptor, and why an operation on a repository has no result. An error has
its words and the words of its causes, the nearest cause first.
-/

namespace Monorepo

open Script (ScriptError)

/-- Why a directory has no descriptor. -/
inductive DescriptorError
  /-- The descriptor file cannot be read. -/
  | unreadable (buildpath path : String) (cause : FileError)
  /-- The script has no result. -/
  | failed (buildpath : String) (cause : ScriptError)
deriving DecidableEq, Repr

namespace DescriptorError

/-- The directory. -/
def buildpath : DescriptorError → String
  | .unreadable buildpath _ _ => buildpath
  | .failed buildpath _ => buildpath

/-- The words for the cause. -/
def cause : DescriptorError → String
  | .unreadable _ _ cause => cause.message
  | .failed _ cause => cause.message

/-- The words for an error. -/
def message (e : DescriptorError) : String :=
  match e with
  | .unreadable buildpath path _ =>
    "cannot read descriptor for '" ++ buildpath ++ "' (" ++ path ++ "): " ++ e.cause
  | .failed buildpath _ => "descriptor for '" ++ buildpath ++ "' failed: " ++ e.cause

end DescriptorError

/-- Why an operation on a repository has no result. -/
inductive Error
  /-- A directory has no descriptor. -/
  | descriptor (error : DescriptorError)
  /-- Neither a directory nor one above it has a root marker. -/
  | noRoot (start : String) (markers : List String)
  /-- The operation was cancelled. -/
  | cancelled
  /-- The configuration cannot be used. -/
  | config (fault : ConfigFault)
  /-- A file or directory cannot be used. -/
  | file (cause : FileError)
  /-- An empty path leads nowhere. -/
  | emptyPath
  /-- The root of a repository has to be a directory. -/
  | rootNoDirectory (root : String)
  /-- A search cannot start at a path. -/
  | search (path : String) (cause : FileError)
deriving DecidableEq, Repr

namespace Error

/-- The words for the causes, the nearest one first. -/
def causes : Error → List String
  | .descriptor e => [e.cause]
  | .noRoot _ _ | .cancelled | .config _ => []
  | .file cause => [cause.message]
  | .emptyPath => ["cannot make an empty path absolute"]
  | .rootNoDirectory root => ["repository root " ++ root ++ " is not a directory"]
  | .search path cause =>
    ["IO error for operation on " ++ path ++ ": " ++ cause.message, cause.message]

/-- The words for an error. -/
def message (e : Error) : String :=
  let nearest := e.causes.headD ""
  match e with
  | .descriptor e => e.message
  | .noRoot start markers =>
    "no repository root found above " ++ start ++ " (looked for " ++ ", ".intercalate markers
      ++ ")"
  | .cancelled => "operation cancelled"
  | .config fault => "Configuration error: " ++ fault.message
  | .file _ | .emptyPath | .rootNoDirectory _ => "IO error: " ++ nearest
  | .search _ _ => "Filesystem walk error: " ++ nearest

end Error

end Monorepo
