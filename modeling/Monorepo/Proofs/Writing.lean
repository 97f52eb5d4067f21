import Mathlib.Data.List.Infix
import Monorepo.Proofs.FileTrees
import Monorepo.Proofs.Names

/-!
# Files that are written

A file is written at a place in a directory, where no directory is. All directories stay where they
are, with at least the entries that they had, so whatever led to a directory still leads there: the
path that the file was written at leads to the file, and the file holds what was written.
-/

namespace Monorepo

namespace FileTree

variable {tree tree' node : FileTree} {place trail pieces front : List String} {name : String}

/-! ## Entries that are put in a tree -/

theorem setEntry_eq_set (name : String) (node : FileTree) (entries : List (String × FileTree)) :
    setEntry name node entries = Table.set name node entries := by
  induction entries with
  | nil => rfl
  | cons entry entries ih =>
    obtain ⟨n, below⟩ := entry
    rw [setEntry, Table.set, ih]
    split
    · rfl
    · split
      · rename_i heq
        rw [heq]
      · rfl

theorem lookup_setEntry (name key : String) (node : FileTree) (entries : List (String × FileTree)) :
    (setEntry name node entries).lookup key =
      if key = name then some node else entries.lookup key := by
  rw [setEntry_eq_set]
  exact Table.get?_set entries name key node

theorem at?_put (node : FileTree) (place : List String) (tree : FileTree) :
    (put node place tree).at? place = some node := by
  induction place generalizing tree with
  | nil => rfl
  | cons name names ih =>
    refine at?_directory.mpr ⟨_, (lookup_setEntry name name _ _).trans (if_pos rfl), ih _⟩

/-- A tree with all the directories of another one, each with at least the same entries. -/
def Extends (tree tree' : FileTree) : Prop :=
  ∀ place entries, tree.at? place = some (.directory entries) →
    ∃ entries', tree'.at? place = some (.directory entries') ∧
      ∀ name, (entries.lookup name).isSome = true → (entries'.lookup name).isSome = true

theorem extends_put (node : FileTree)
    (hplace : ∀ entries, tree.at? place ≠ some (.directory entries)) :
    tree.Extends (put node place tree) := by
  induction place generalizing tree with
  | nil =>
    intro names entries hat
    cases tree with
    | directory own => exact absurd rfl (hplace own)
    | file content => cases names with
      | nil => cases hat
      | cons name names => cases hat
  | cons name names ih =>
    intro reached entries hat
    cases reached with
    | nil =>
      obtain rfl : tree = .directory entries := Option.some.inj hat
      refine ⟨_, rfl, fun key hkey => ?_⟩
      change ((setEntry name _ entries).lookup key).isSome = true
      rw [lookup_setEntry]
      split
      · rfl
      · exact hkey
    | cons key keys =>
      obtain ⟨below, hlookup, hbelow⟩ := Option.bind_eq_some_iff.mp hat
      by_cases hkey : key = name
      · subst hkey
        have hown : ∀ entries, below.at? names ≠ some (.directory entries) := fun entries heq =>
          hplace entries (Option.bind_eq_some_iff.mpr ⟨below, hlookup, heq⟩)
        obtain ⟨entries', hat', hkeeps⟩ := ih hown keys entries hbelow
        refine ⟨entries', at?_directory.mpr ⟨put node names below, ?_, hat'⟩, hkeeps⟩
        rw [lookup_setEntry, if_pos rfl, hlookup]
        rfl
      · refine ⟨entries, at?_directory.mpr ⟨below, ?_, hbelow⟩, fun _ h => h⟩
        rwa [lookup_setEntry, if_neg hkey]

/-- In a larger tree the same pieces lead to the same place. -/
theorem Extends.follow (h : tree.Extends tree') {reached : List String}
    (hfollow : tree.follow trail pieces = .ok reached) :
    tree'.follow trail pieces = .ok reached := by
  induction pieces generalizing trail with
  | nil => exact hfollow
  | cons piece pieces ih =>
    rw [FileTree.follow] at hfollow
    split at hfollow
    · rename_i entries hat
      obtain ⟨entries', hat', hkeeps⟩ := h _ entries hat
      rw [FileTree.follow, hat']
      dsimp only
      split_ifs at hfollow with hskip hup hlong hthere
      · rw [if_pos hskip]
        exact ih hfollow
      · rw [if_neg hskip, if_pos hup]
        exact ih hfollow
      · rw [if_neg hskip, if_neg hup, if_neg hlong, if_pos (hkeeps piece hthere)]
        exact ih hfollow
    · cases hfollow
    · cases hfollow

/-! ## Places to write at -/

/-- A path at which a file can be written: `front` leads to the directory at the end of `trail`,
    which stands in reverse, and there is no directory of that name in it. -/
structure WritesAt (tree : FileTree) (path : String) (front trail : List String) (name : String) :
    Prop where
  pieces : piecesOf path = .ok (front ++ [name])
  nonempty : name ≠ ""
  notDot : name ≠ "."
  notUp : name ≠ ".."
  short : name.utf8ByteSize ≤ 255
  front : tree.follow [] front = .ok trail
  directory : ∃ entries, tree.at? trail.reverse = some (.directory entries) ∧
    ∀ below, entries.lookup name ≠ some (.directory below)

variable {path content : String}

/-- Nothing is dropped from the end of the pieces that a file is written at. -/
theorem dropEmpty_concat (front : List String) (hname : name ≠ "") :
    (((front ++ [name]).reverse.dropWhile (· == "")).reverse) = front ++ [name] := by
  rw [List.reverse_append, List.reverse_singleton, List.singleton_append,
    List.dropWhile_cons_of_neg (by simpa using hname), List.reverse_cons, List.reverse_reverse]

/-- A file is written in the directory that the pieces in front of its name lead to. -/
theorem write_concat (hpieces : piecesOf path = .ok (front ++ [name])) (hname : name ≠ "") :
    tree.write path content = (tree.follow [] front).bind fun trail =>
      match tree.at? trail.reverse with
      | some (.directory entries) =>
        if name = "." ∨ name = ".." then .error .isDirectory
        else if name.utf8ByteSize > 255 then .error .nameTooLong
        else match entries.lookup name with
          | some (.directory _) => .error .isDirectory
          | _ => .ok (put (.file (.text content)) (name :: trail).reverse tree)
      | some (.file _) => .error .notDirectory
      | none => .error .notFound := by
  unfold write
  rw [hpieces]
  simp only [bind, Except.bind, dropEmpty_concat front hname, List.dropLast_concat,
    List.getLastD_concat, Nat.lt_irrefl, false_or]
  rfl

/-- Pieces at which a file is written end with its name. -/
theorem exists_concat_of_write (h : tree.write path content = .ok tree') :
    ∃ front name, piecesOf path = .ok (front ++ [name]) ∧ name ≠ "" := by
  obtain ⟨pieces, hpieces, h⟩ := ok_of_bind h
  obtain ⟨trail, -, h⟩ := ok_of_bind h
  have hkept : ¬ ((pieces.reverse.dropWhile (· == "")).reverse).length < pieces.length := by
    intro hlt
    split at h
    · cases (if_pos (Or.inl hlt)).symm.trans h
    · cases h
    · cases h
  obtain ⟨-, -, -, rfl⟩ := piecesOf_eq_ok_iff.mp hpieces
  have hnonempty : Path.pieces path ≠ [] := by
    rw [Path.pieces, Ne, List.map_eq_nil_iff]
    exact slashPieces_ne_nil _
  obtain ⟨front, name, heq⟩ := (List.eq_nil_or_concat' (Path.pieces path)).resolve_left hnonempty
  refine ⟨front, name, heq ▸ hpieces, fun hname => hkept ?_⟩
  rw [heq, hname, List.reverse_append, List.reverse_singleton, List.singleton_append,
    List.dropWhile_cons_of_pos (by rfl), List.length_reverse, List.length_append]
  have hle := (List.dropWhile_sublist (l := front.reverse) (· == "")).length_le
  rw [List.length_reverse] at hle
  exact Nat.lt_succ_of_le hle

theorem write_eq_ok_iff : tree.write path content = .ok tree' ↔
    ∃ front trail name, tree.WritesAt path front trail name ∧
      tree' = put (.file (.text content)) (name :: trail).reverse tree := by
  constructor
  · intro h
    obtain ⟨front, name, hpieces, hname⟩ := exists_concat_of_write h
    rw [write_concat hpieces hname] at h
    obtain ⟨trail, hfollow, h⟩ := ok_of_bind h
    split at h
    · rename_i entries hat
      split_ifs at h with hdots hlong
      obtain ⟨hnotDot, hnotUp⟩ := not_or.mp hdots
      split at h
      · cases h
      · rename_i hfree
        cases h
        exact ⟨front, trail, name, ⟨hpieces, hname, hnotDot, hnotUp, Nat.not_lt.mp hlong, hfollow,
          entries, hat, hfree⟩, rfl⟩
    · cases h
    · cases h
  · rintro ⟨front, trail, name, h, rfl⟩
    obtain ⟨entries, hat, hfree⟩ := h.directory
    rw [write_concat h.pieces h.nonempty, h.front]
    dsimp only [Except.bind]
    rw [hat]
    dsimp only
    rw [if_neg (not_or.mpr ⟨h.notDot, h.notUp⟩), if_neg (Nat.not_lt.mpr h.short)]
    split
    · rename_i below hbelow
      exact absurd hbelow (hfree below)
    · rfl

/-- Whether a file can be written does not hang on what it is to hold. -/
theorem exists_write (h : tree.write path content = .ok tree') (content' : String) :
    ∃ tree'', tree.write path content' = .ok tree'' := by
  obtain ⟨front, trail, name, hat, -⟩ := write_eq_ok_iff.mp h
  exact ⟨_, write_eq_ok_iff.mpr ⟨front, trail, name, hat, rfl⟩⟩

theorem WritesAt.not_directory (h : tree.WritesAt path front trail name)
    (own : List (String × FileTree)) :
    tree.at? (name :: trail).reverse ≠ some (.directory own) := by
  obtain ⟨entries, hat, hfree⟩ := h.directory
  intro heq
  rw [List.reverse_cons] at heq
  obtain ⟨above, below, habove, hlookup, hbelow⟩ := exists_directory heq
  obtain rfl : above = entries := by
    cases habove.symm.trans hat
    rfl
  obtain rfl : below = .directory own := Option.some.inj hbelow
  exact hfree own hlookup

/-- The path that a file is written at leads to what is put there. -/
theorem WritesAt.follow_put (h : tree.WritesAt path front trail name) (node : FileTree) :
    (put node (name :: trail).reverse tree).follow [] (front ++ [name]) = .ok (name :: trail) := by
  have hextends := extends_put node h.not_directory
  have habove :
      (put node (name :: trail).reverse tree).at? (trail.reverse ++ [name]) = some node := by
    rw [← List.reverse_cons]
    exact at?_put node _ tree
  obtain ⟨entries, below, hat, hlookup, -⟩ := exists_directory habove
  have hskip : ¬ (name = "" ∨ name = ".") := not_or.mpr ⟨h.nonempty, h.notDot⟩
  rw [follow_append, hextends.follow h.front]
  change FileTree.follow _ trail [name] = _
  rw [FileTree.follow, hat]
  dsimp only
  rw [if_neg hskip, if_neg h.notUp, if_neg (Nat.not_lt.mpr h.short), hlookup]
  rfl

/-- **What was written at a path is read there.** -/
theorem read_write (h : tree.write path content = .ok tree') :
    tree'.read path = .ok content := by
  obtain ⟨front, trail, name, hwrites, rfl⟩ := write_eq_ok_iff.mp h
  have hfollow := hwrites.follow_put (.file (.text content))
  have hthere := at?_put (.file (.text content)) (name :: trail).reverse tree
  obtain ⟨hne, hnull, hshort, hpieces⟩ := piecesOf_eq_ok_iff.mp hwrites.pieces
  rw [hpieces] at hfollow
  have hback := (List.reverse_reverse (name :: trail)).symm
  have hfind := find_of_follow hne hnull hshort (hfollow.trans (congrArg _ hback)) hthere
  unfold read
  rw [hfind]
  rfl

end FileTree

namespace Disk

variable {disk disk' : Disk} {path content : String}

/-- A path that some file can be written at. -/
def CanWrite (disk : Disk) (path : String) : Prop :=
  ∃ content disk', disk.write path content = .ok disk'

/-- Where one file can be written any other can. -/
theorem CanWrite.exists_write (h : disk.CanWrite path) (content : String) :
    ∃ disk', disk.write path content = .ok disk' := by
  obtain ⟨some, disk', hwrite⟩ := h
  obtain ⟨tree, htree, -⟩ := ok_of_map hwrite
  obtain ⟨tree', htree'⟩ := FileTree.exists_write htree content
  refine ⟨{ disk with tree := tree' }, ?_⟩
  unfold write
  rw [htree']
  rfl

theorem read_of_write (h : disk.write path content = .ok disk') :
    disk'.read path = .ok content := by
  obtain ⟨tree, htree, rfl⟩ := ok_of_map h
  exact FileTree.read_write htree

end Disk

end Monorepo
