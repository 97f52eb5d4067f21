import Mathlib.Data.List.Nodup
import Monorepo.Proofs.Names
import Monorepo.Proofs.Opening

/-!
# Looking for descriptors

The search for descriptors below a path finds the directories that hold one, each once. What it
lists are the ways from the root of the repository to them, which lead the parser back to the files
that the search has met.
-/

namespace Monorepo

open Monorepo.Path

/-! ## The search in a tree -/

namespace FileTree

/-- The directory at a place holds a file of a name at most `depth` levels below another place, and
    no directory between the two is hidden. -/
def Holds (tree : FileTree) (wanted : String) (start : List String) (depth : Nat)
    (place : List String) : Prop :=
  ∃ way content, place = start ++ way ∧ (∀ name ∈ way, isHidden name = false) ∧
    way.length + 1 ≤ depth ∧ tree.at? (place ++ [wanted]) = some (.file content)

/-- A walk from a place down to at most `depth` levels, which leaves out everything hidden, meets
    the file of a name in the directory at another place. The file may be the start itself. -/
def Meets (tree : FileTree) (wanted : String) (start : List String) (depth : Nat)
    (place : List String) : Prop :=
  ∃ way content, place ++ [wanted] = start ++ way ∧ (∀ name ∈ way, isHidden name = false) ∧
    way.length ≤ depth ∧ tree.at? (place ++ [wanted]) = some (.file content)

variable {tree : FileTree} {wanted : String} {depth : Nat} {trail found : List String}
  {entries : List (String × FileTree)}

end FileTree

/-! ## Names of places -/

namespace Repository

variable {disk : Disk} {r : Repository} {path : String} {names : List String}

theorem cleanBuildpath_of_relative {text : String} (h : isAbsolute text = false) :
    cleanBuildpath text = normalize text := by
  unfold cleanBuildpath
  split
  · rename_i heq
    rw [isAbsolute, heq] at h
    cases h
  · rfl

/-- The repository on that disk, with a name for its descriptors. -/
def namedRepository (descriptorName : String) : Repository :=
  ⟨"/r", { descriptorName := descriptorName },
    .new (.ofConfig "/r" { descriptorName := descriptorName }), false⟩

section Files

variable {directory : List String} {content : Content}

end Files

end Repository

end Monorepo
