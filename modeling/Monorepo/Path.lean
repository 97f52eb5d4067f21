/-!
# Paths

Paths are texts; what a path means without looking at any file is said here. A path is absolute when
it begins with a slash. Its parts are what stands between slashes, empty parts and single dots left
out. Normalizing a path also takes out every part that is followed by two dots.
-/

namespace Monorepo

/-- The pieces of a text between slashes. -/
def slashPieces : List Char → List (List Char)
  | [] => [[]]
  | c :: cs =>
    if c = '/' then [] :: slashPieces cs
    else match slashPieces cs with
      | piece :: pieces => (c :: piece) :: pieces
      | [] => [[c]]

/-- A path in parts. -/
structure Path where
  /-- Whether it begins at the root of all files. -/
  absolute : Bool
  /-- The names of the directories on the way and of what it leads to. -/
  parts : List String
deriving DecidableEq, Repr

namespace Path

/-- Whether the text of a path begins with a slash. -/
def isAbsolute (path : String) : Bool := path.toList.head? == some '/'

/-- The parts of the text of a path. -/
def ofString (path : String) : Path where
  absolute := isAbsolute path
  parts := ((slashPieces path.toList).map String.ofList).filter fun part =>
    part != "" && part != "."

/-- The text of a path. -/
def render (p : Path) : String :=
  if p.absolute then "/" ++ "/".intercalate p.parts else "/".intercalate p.parts

/-- Goes on from a place, whose parts stand in reverse, by one part. Two dots lead to the directory
    above, and above the root of all files to that root. -/
def step (absolute : Bool) (trail : List String) (part : String) : List String :=
  if part = ".." then
    match trail with
    | [] => if absolute then [] else [".."]
    | last :: rest => if last = ".." then ".." :: last :: rest else rest
  else part :: trail

/-- The path without detours through directories that it leaves again. -/
def normalized (p : Path) : Path where
  absolute := p.absolute
  parts := (p.parts.foldl (step p.absolute) []).reverse

/-- The normal form of the text of a path. -/
def normalize (path : String) : String := (ofString path).normalized.render

/-- The text of `path` seen from `base`; an absolute `path` stays as it is. -/
def join (base path : String) : String :=
  if isAbsolute path || base.isEmpty then path
  else if base.toList.getLast? == some '/' then base ++ path
  else base ++ "/" ++ path

/-- How many parts two lists have in common from the start. -/
def commonLength : List String → List String → Nat
  | a :: as, b :: bs => if a = b then commonLength as bs + 1 else 0
  | _, _ => 0

/-- The way from `base` to `path`, both in normal form: up as far as needed, then down. No way leads
    from a relative place to an absolute one but that from the root of all files. -/
def wayFrom (base path : Path) : Path :=
  if path.absolute = base.absolute then
    let common := commonLength path.parts base.parts
    ⟨false, List.replicate (base.parts.length - common) ".." ++ path.parts.drop common⟩
  else if path.absolute then path
  else ⟨false, List.replicate (base.parts.length + 1) ".." ++ path.parts⟩

/-- The text of `path` as seen from `base`; a single dot if they are the same. -/
def relativeTo (path base : String) : String :=
  let way := wayFrom (ofString base).normalized (ofString path).normalized
  if !way.absolute && way.parts.isEmpty then "." else way.render

/-- The buildpath that a text means: two slashes at the start mark the root of the repository, which
    is itself the empty buildpath. -/
def cleanBuildpath (input : String) : String :=
  match input.toList with
  | '/' :: '/' :: cs => normalize (String.ofList cs)
  | _ => normalize input

/-! ## The directories above -/

/-- Drops slashes and single dots from the end of a text in reverse, but not its first slash. -/
def dropIdle : List Char → List Char
  | '/' :: c :: cs => dropIdle (c :: cs)
  | '.' :: '/' :: cs => dropIdle ('/' :: cs)
  | cs => cs

/-- The text of the directory above the one that a path leads to. -/
def parent? (path : String) : Option String :=
  let trimmed := dropIdle path.toList.reverse
  let name := trimmed.takeWhile (· != '/')
  if name.isEmpty then none
  else some (String.ofList (dropIdle (trimmed.drop name.length)).reverse)

/-- A path and the directories above it, at most `fuel` of them. -/
def ancestorsWithin : Nat → String → List String
  | 0, path => [path]
  | fuel + 1, path =>
    match parent? path with
    | some above => path :: ancestorsWithin fuel above
    | none => [path]

/-- A path and the directories above it, the nearest first. -/
def ancestors (path : String) : List String := ancestorsWithin path.length path

end Path

end Monorepo
