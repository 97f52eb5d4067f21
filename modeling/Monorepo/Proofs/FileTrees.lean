import Monorepo.FileTree
import Monorepo.Proofs.Ancestors
import Monorepo.Proofs.Sorting

/-!
# Following paths in a tree

A tree without links has one entry at every place. A path that leads to an entry leads where its
normal form does, and to an entry there is always the path of its place. The converse fails: a path
may leave directories again that are not there, and then only its normal form leads anywhere.
-/

namespace Monorepo

namespace FileTree

/-- A text that machines allow as the name of an entry. -/
structure IsEntryName (name : String) : Prop extends Path.IsName name where
  noNull : Char.ofNat 0 ∉ name.toList
  short : name.utf8ByteSize ≤ 255

/-- A tree that a machine can have: the entries of a directory have names, and no two the same. -/
structure Sound (tree : FileTree) : Prop where
  names : ∀ place entries, tree.at? place = some (.directory entries) →
    ∀ entry ∈ entries, IsEntryName entry.1
  nodup : ∀ place entries, tree.at? place = some (.directory entries) →
    (entries.map (·.1)).Nodup

instance (name : String) : Decidable (IsEntryName name) :=
  decidable_of_iff (Path.IsName name ∧ Char.ofNat 0 ∉ name.toList ∧ name.utf8ByteSize ≤ 255)
    ⟨fun h => ⟨h.1, h.2.1, h.2.2⟩, fun h => ⟨h.toIsName, h.noNull, h.short⟩⟩

/-- Whether something is a directory. -/
def IsDirectory (tree : FileTree) : Prop := ∃ entries, tree = .directory entries

/-! ## Places -/

variable {tree node : FileTree} {place names trail pieces : List String} {name : String}

theorem at?_append (tree : FileTree) (place names : List String) :
    tree.at? (place ++ names) = (tree.at? place).bind (·.at? names) := by
  induction place generalizing tree with
  | nil => rfl
  | cons name place ih =>
    rw [List.cons_append, at?, at?]
    cases tree.entries.lookup name with
    | none => rfl
    | some below => exact ih below

theorem at?_directory {entries : List (String × FileTree)} :
    (FileTree.directory entries).at? (name :: names) = some node ↔
      ∃ below, entries.lookup name = some below ∧ below.at? names = some node :=
  Option.bind_eq_some_iff

/-- What lies below something lies below a directory. -/
theorem exists_directory (h : tree.at? (place ++ name :: names) = some node) :
    ∃ entries below, tree.at? place = some (.directory entries) ∧
      entries.lookup name = some below ∧ below.at? names = some node := by
  rw [at?_append] at h
  obtain ⟨above, habove, h⟩ := Option.bind_eq_some_iff.mp h
  cases above with
  | file content => cases h
  | directory entries =>
    obtain ⟨below, hlookup, h⟩ := at?_directory.mp h
    exact ⟨entries, below, habove, hlookup, h⟩

theorem mem_of_lookup {entries : List (String × FileTree)} {below : FileTree}
    (h : entries.lookup name = some below) : (name, below) ∈ entries := by
  obtain ⟨before, behind, rfl, -⟩ := List.lookup_eq_some_iff.mp h
  simp

namespace Sound

/-- A file alone is a tree. -/
theorem file (content : Content) : (FileTree.file content).Sound := by
  have hnone : ∀ place entries, (FileTree.file content).at? place ≠ some (.directory entries) := by
    intro place entries h
    cases place with
    | nil => cases h
    | cons name names => cases h
  exact ⟨fun place entries h => absurd h (hnone place entries),
    fun place entries h => absurd h (hnone place entries)⟩

/-- Trees with different names make a directory. -/
theorem directory {entries : List (String × FileTree)}
    (hnames : ∀ entry ∈ entries, IsEntryName entry.1) (hnodup : (entries.map (·.1)).Nodup)
    (hbelow : ∀ entry ∈ entries, entry.2.Sound) : (FileTree.directory entries).Sound := by
  refine ⟨fun place found h => ?_, fun place found h => ?_⟩
  · cases place with
    | nil =>
      cases h
      exact hnames
    | cons name names =>
      obtain ⟨below, hlookup, h⟩ := at?_directory.mp h
      exact (hbelow _ (mem_of_lookup hlookup)).names names found h
  · cases place with
    | nil =>
      cases h
      exact hnodup
    | cons name names =>
      obtain ⟨below, hlookup, h⟩ := at?_directory.mp h
      exact (hbelow _ (mem_of_lookup hlookup)).nodup names found h

theorem below (h : tree.Sound) (hplace : tree.at? place = some node) : node.Sound := by
  have hbelow (names : List String) : node.at? names = tree.at? (place ++ names) := by
    rw [at?_append, hplace]
    rfl
  refine ⟨fun names entries hnames => ?_, fun names entries hnames => ?_⟩
  · rw [hbelow] at hnames
    exact h.names _ entries hnames
  · rw [hbelow] at hnames
    exact h.nodup _ entries hnames

/-- The names on the way to an entry are names of entries. -/
theorem entryName (h : tree.Sound) (hplace : tree.at? place = some node) :
    ∀ name ∈ place, IsEntryName name := by
  intro name hname
  obtain ⟨before, behind, rfl⟩ := List.append_of_mem hname
  obtain ⟨entries, below, habove, hlookup, -⟩ := exists_directory hplace
  exact h.names before entries habove _ (mem_of_lookup hlookup)

theorem isName (h : tree.Sound) (hplace : tree.at? place = some node) :
    ∀ name ∈ place, Path.IsName name :=
  fun name hname => (h.entryName hplace name hname).toIsName

end Sound

/-! ## Following pieces -/

theorem follow_append (tree : FileTree) (trail pieces more : List String) :
    tree.follow trail (pieces ++ more) =
      (tree.follow trail pieces).bind fun trail => tree.follow trail more := by
  induction pieces generalizing trail with
  | nil => rfl
  | cons piece pieces ih =>
    rw [List.cons_append, follow, follow]
    split
    · split
      · exact ih trail
      · split
        · exact ih trail.tail
        · split
          · rfl
          · split
            · exact ih (piece :: trail)
            · rfl
    · rfl
    · rfl

/-- An empty piece leads nowhere else. -/
theorem follow_empty {entries : List (String × FileTree)}
    (h : tree.at? trail.reverse = some (.directory entries)) (pieces : List String) :
    tree.follow trail ("" :: pieces) = tree.follow trail pieces := by
  rw [follow, h]
  simp

/-- The names of entries lead down. -/
theorem follow_names (hnames : ∀ name ∈ names, IsEntryName name)
    (h : tree.at? (trail.reverse ++ names) = some node) :
    tree.follow trail names = .ok (names.reverse ++ trail) := by
  induction names generalizing trail with
  | nil => rfl
  | cons name names ih =>
    obtain ⟨hname, hnames⟩ := List.forall_mem_cons.mp hnames
    obtain ⟨entries, below, habove, hlookup, -⟩ := exists_directory h
    have hskip : ¬ (name = "" ∨ name = ".") := not_or.mpr ⟨hname.nonempty, hname.notDot⟩
    have hshort : ¬ name.utf8ByteSize > 255 := Nat.not_lt.mpr hname.short
    have hthere : (entries.lookup name).isSome = true := by rw [hlookup]; rfl
    rw [follow, habove]
    dsimp only
    rw [if_neg hskip, if_neg hname.notUp, if_neg hshort, if_pos hthere, ih hnames]
    · simp
    · rwa [List.reverse_cons, List.append_assoc]

/-- **Pieces lead where their normal form does**, if they lead anywhere. -/
theorem follow_eq_ok {reached : List String} (h : tree.follow trail pieces = .ok reached)
    (htrail : ∀ name ∈ trail, name ≠ "..") :
    reached = (pieces.filter Path.counts).foldl (Path.step true) trail := by
  induction pieces generalizing trail with
  | nil =>
    cases h
    rfl
  | cons piece pieces ih =>
    rw [follow] at h
    split at h
    · split at h
      · rename_i hskip
        have hcounts : ¬ Path.counts piece = true := by
          rcases hskip with rfl | rfl <;> decide
        rw [List.filter_cons_of_neg hcounts]
        exact ih h htrail
      · rename_i hskip
        have hcounts : Path.counts piece = true := by
          rw [not_or] at hskip
          simp [Path.counts, hskip]
        rw [List.filter_cons_of_pos hcounts, List.foldl_cons]
        split at h
        · rename_i hup
          rw [ih h fun name hname => htrail name (List.mem_of_mem_tail hname), hup]
          cases trail with
          | nil => rfl
          | cons last rest => simp [Path.step, htrail last List.mem_cons_self]
        · rename_i hup
          split at h
          · cases h
          split at h
          · rw [ih h (List.forall_mem_cons.mpr ⟨hup, htrail⟩)]
            exact congrArg (List.foldl _ · _) (if_neg hup).symm
          · cases h
    · cases h
    · cases h

/-! ## Finding entries -/

/-- What a text has to be like to be a path at all. -/
theorem piecesOf_eq_ok_iff {path : String} :
    piecesOf path = .ok pieces ↔ path ≠ "" ∧ Char.ofNat 0 ∉ path.toList ∧
      path.utf8ByteSize < 4096 ∧ pieces = Path.pieces path := by
  unfold piecesOf
  by_cases hempty : path.isEmpty = true
  · rw [if_pos hempty]
    simp at hempty
    simp [hempty]
  by_cases hnull : path.toList.contains (Char.ofNat 0) = true
  · rw [if_neg hempty, if_pos hnull]
    have hmem : Char.ofNat 0 ∈ path.toList := by simpa using hnull
    simp only [reduceCtorEq, false_iff]
    exact fun h => h.2.1 hmem
  rw [if_neg hempty, if_neg hnull]
  have hne : path ≠ "" := by simpa using hempty
  have hmem : Char.ofNat 0 ∉ path.toList := by simpa using hnull
  by_cases hlong : path.utf8ByteSize ≥ 4096
  · rw [if_pos hlong]
    simp only [reduceCtorEq, false_iff]
    exact fun h => Nat.not_le.mpr h.2.2.1 hlong
  · rw [if_neg hlong]
    simp only [Except.ok.injEq]
    exact ⟨fun h => ⟨hne, hmem, Nat.not_le.mp hlong, h.symm⟩, fun h => h.2.2.2.symm⟩

/-- What lies at an absolute path lies at its place, and its pieces lead there. -/
theorem find_eq_ok {path : String} (h : tree.find path = .ok node)
    (habsolute : Path.isAbsolute path = true) :
    tree.follow [] (Path.pieces path) = .ok (Path.place path).reverse ∧
      tree.at? (Path.place path) = some node := by
  obtain ⟨names, hlocate, h⟩ := ok_of_bind h
  obtain ⟨pieces, hpieces, hlocate⟩ := ok_of_bind hlocate
  obtain ⟨reached, hfollow, hnames⟩ := ok_of_bind hlocate
  cases hnames
  obtain ⟨-, -, -, rfl⟩ := piecesOf_eq_ok_iff.mp hpieces
  have hreached := follow_eq_ok hfollow (by simp)
  rw [← Path.parts_ofString] at hreached
  rw [Path.place_eq habsolute, ← hreached, List.reverse_reverse]
  refine ⟨hfollow, ?_⟩
  cases hat : tree.at? reached.reverse with
  | none =>
    rw [hat] at h
    cases h
  | some found =>
    rw [hat] at h
    cases h
    rfl

/-- Where something lies is a path. -/
theorem isPath_of_find {path : String} (h : tree.find path = .ok node) :
    path ≠ "" ∧ Char.ofNat 0 ∉ path.toList ∧ path.utf8ByteSize < 4096 := by
  obtain ⟨names, hlocate, -⟩ := ok_of_bind h
  obtain ⟨pieces, hpieces, -⟩ := ok_of_bind hlocate
  obtain ⟨hne, hnull, hshort, -⟩ := piecesOf_eq_ok_iff.mp hpieces
  exact ⟨hne, hnull, hshort⟩

/-- An entry is found by way of pieces that lead to it. -/
theorem find_of_follow {path : String} (hne : path ≠ "") (hnull : Char.ofNat 0 ∉ path.toList)
    (hshort : path.utf8ByteSize < 4096)
    (hfollow : tree.follow [] (Path.pieces path) = .ok names.reverse)
    (h : tree.at? names = some node) : tree.find path = .ok node := by
  have hlocate : tree.locate path = .ok names := by
    unfold locate
    rw [piecesOf_eq_ok_iff.mpr ⟨hne, hnull, hshort, rfl⟩]
    show (do return (← tree.follow [] (Path.pieces path)).reverse : Except FileError _) = _
    rw [hfollow]
    exact congrArg Except.ok (List.reverse_reverse names)
  unfold find
  rw [hlocate]
  dsimp only [bind, Except.bind]
  rw [h]
  rfl

theorem hasPath_iff {path : String} :
    tree.hasPath path = true ↔ ∃ node, tree.find path = .ok node := by
  unfold hasPath
  cases tree.find path with
  | error e => simp [Except.toBool]
  | ok node => simp [Except.toBool]

theorem hasFile_iff {path : String} :
    tree.hasFile path = true ↔ ∃ content, tree.find path = .ok (.file content) := by
  unfold hasFile
  rcases tree.find path with e | content | entries <;> simp

/-- An absolute path and the names behind the root. -/
theorem pieces_absoluteText (h : ∀ name ∈ names, Path.IsName name) (hne : names ≠ []) :
    Path.pieces (Path.absoluteText names) = "" :: names := by
  have hpieces := Path.pieces_append "" ("/".intercalate names)
  rw [String.empty_append, Path.pieces_intercalate hne fun name hname => (h name hname).noSlash]
    at hpieces
  exact hpieces

theorem absoluteText_ne_empty (names : List String) : Path.absoluteText names ≠ "" := by
  intro h
  have habsolute := Path.isAbsolute_absoluteText names
  rw [h] at habsolute
  cases habsolute

theorem null_not_mem_absoluteText (h : ∀ name ∈ names, IsEntryName name) :
    Char.ofNat 0 ∉ (Path.absoluteText names).toList := by
  intro hmem
  rcases Path.mem_absoluteText hmem with heq | ⟨name, hname, hc⟩
  · exact absurd heq (by decide)
  · exact (h name hname).noNull hc

theorem follow_absoluteText (hsound : tree.Sound) (hroot : tree.IsDirectory)
    (h : tree.at? names = some node) :
    tree.follow [] (Path.pieces (Path.absoluteText names)) = .ok names.reverse := by
  obtain ⟨entries, rfl⟩ := hroot
  by_cases hne : names = []
  · subst hne
    rfl
  · rw [pieces_absoluteText (hsound.isName h) hne, follow_empty rfl,
      follow_names (hsound.entryName h) h, List.append_nil]

/-- An entry is found at the path of its place, unless that path is too long. -/
theorem find_absoluteText (hsound : tree.Sound) (hroot : tree.IsDirectory)
    (h : tree.at? names = some node) (hshort : (Path.absoluteText names).utf8ByteSize < 4096) :
    tree.find (Path.absoluteText names) = .ok node :=
  find_of_follow (absoluteText_ne_empty names) (null_not_mem_absoluteText (hsound.entryName h))
    hshort (follow_absoluteText hsound hroot h) h

/-- What a path leads to its normal form leads to. -/
theorem find_normalize (hsound : tree.Sound) (hroot : tree.IsDirectory) {path : String}
    (habsolute : Path.isAbsolute path = true) (h : tree.find path = .ok node) :
    tree.find (Path.normalize path) = .ok node := by
  obtain ⟨-, hat⟩ := find_eq_ok h habsolute
  obtain ⟨-, -, hshort⟩ := isPath_of_find h
  rw [Path.normalize_eq habsolute]
  exact find_absoluteText hsound hroot hat
    (Nat.lt_of_le_of_lt (Path.utf8ByteSize_absoluteText_le habsolute) hshort)

/-- Where a joined path leads, its first path leads on the way. -/
theorem follow_join {base path : String} (hbase : base ≠ "") (hpath : Path.isAbsolute path = false)
    {reached : List String} (h : tree.follow [] (Path.pieces base) = .ok reached) :
    tree.follow [] (Path.pieces (Path.join base path)) =
      tree.follow reached (Path.pieces path) := by
  rw [Path.join_of_relative hbase hpath]
  by_cases hslash : base.toList.getLast? = some '/'
  · rw [if_pos hslash]
    obtain ⟨front, hfront⟩ := List.getLast?_eq_some_iff.mp hslash
    have hbase : base = String.ofList front ++ "/" ++ "" := by
      rw [← String.toList_inj]
      simp [hfront]
    have hempty : Path.pieces "" = [""] := rfl
    rw [hbase, Path.pieces_append, hempty, follow_append] at h
    rw [hbase, String.append_empty, Path.pieces_append, follow_append]
    obtain ⟨above, habove, h⟩ := ok_of_bind h
    rw [habove]
    -- the slash at the end stands behind a directory, and the piece behind it leads nowhere else
    have hsame : above = reached := by
      rw [follow] at h
      split at h
      · rw [if_pos (Or.inl rfl)] at h
        exact Except.ok.inj h
      · cases h
      · cases h
    rw [← hsame]
    rfl
  · rw [if_neg hslash, Path.pieces_append, follow_append, h]
    rfl

/-- Behind a path that leads somewhere a name leads to the entry of that name. -/
theorem find_join_name {base name : String} (hbase : Path.isAbsolute base = true)
    (hname : IsEntryName name) {above : FileTree} (habove : tree.find base = .ok above)
    (hshort : (Path.join base name).utf8ByteSize < 4096) :
    tree.find (Path.join base name) = .ok node ↔
      tree.at? (Path.place base ++ [name]) = some node := by
  have hplace := Path.place_join_name hbase hname.toIsName
  refine ⟨fun h => ?_, fun h => ?_⟩
  · rw [← hplace]
    exact (find_eq_ok h (Path.isAbsolute_join hbase)).2
  · obtain ⟨hfollow, -⟩ := find_eq_ok habove hbase
    obtain ⟨hne, hnull, -⟩ := isPath_of_find habove
    have hrelative := hname.not_isAbsolute
    have hpieces : Path.pieces name = [name] := Path.pieces_of_noSlash hname.noSlash
    refine find_of_follow ?_ ?_ hshort ?_ h
    · rw [Path.join_of_relative hne hrelative]
      split <;> simp [hne]
    · rw [Path.join_of_relative hne hrelative]
      split <;> simp [hnull, hname.noNull]
    · rw [follow_join hne hrelative hfollow, hpieces, follow_names (by simpa using hname)]
      · simp
      · rwa [List.reverse_reverse]

end FileTree

end Monorepo
