import Mathlib.Algebra.Order.BigOperators.Group.List
import Mathlib.Algebra.Order.Group.Nat
import Monorepo.Path

/-!
# Paths in parts

The text of a path determines its parts, and parts without slashes are read back from the text that
they make. So to join texts is to append parts, and what there is to say about normal forms can be
said about parts. An absolute path in normal form is the list of the names on the way from the root
of all files, here called a place, and the way from one place to another one does lead there.
-/

namespace Monorepo

/-! ## Pieces between slashes -/

theorem slashPieces_ne_nil (cs : List Char) : slashPieces cs ≠ [] := by
  cases cs with
  | nil => simp [slashPieces]
  | cons c cs =>
    unfold slashPieces
    split
    · simp
    · split <;> simp

theorem slashPieces_of_not_mem {cs : List Char} (h : '/' ∉ cs) : slashPieces cs = [cs] := by
  induction cs with
  | nil => rfl
  | cons c cs ih =>
    rw [List.mem_cons, not_or] at h
    simp [slashPieces, Ne.symm h.1, ih h.2]

/-- A slash parts the pieces before it from those behind it. -/
theorem slashPieces_append (cs ds : List Char) :
    slashPieces (cs ++ '/' :: ds) = slashPieces cs ++ slashPieces ds := by
  induction cs with
  | nil => simp [slashPieces]
  | cons c cs ih =>
    by_cases hc : c = '/'
    · simp [slashPieces, hc, ih]
    · obtain ⟨piece, pieces, hpieces⟩ := List.exists_cons_of_ne_nil (slashPieces_ne_nil cs)
      simp [slashPieces, hc, ih, hpieces]

theorem slash_not_mem_of_mem_slashPieces {cs piece : List Char} (h : piece ∈ slashPieces cs) :
    '/' ∉ piece := by
  induction cs generalizing piece with
  | nil =>
    rw [slashPieces, List.mem_singleton] at h
    simp [h]
  | cons c cs ih =>
    by_cases hc : c = '/'
    · rw [slashPieces, if_pos hc] at h
      rcases List.mem_cons.mp h with rfl | h
      · simp
      · exact ih h
    · obtain ⟨first, pieces, hpieces⟩ := List.exists_cons_of_ne_nil (slashPieces_ne_nil cs)
      rw [hpieces] at ih
      simp only [slashPieces, if_neg hc, hpieces] at h
      rcases List.mem_cons.mp h with rfl | h
      · have hfirst := ih List.mem_cons_self
        simp [Ne.symm hc, hfirst]
      · exact ih (List.mem_cons_of_mem _ h)

namespace Path

/-- The pieces of a text between slashes. -/
def pieces (path : String) : List String := (slashPieces path.toList).map String.ofList

/-- A text that can be a part of a path. -/
structure IsPart (part : String) : Prop where
  nonempty : part ≠ ""
  notDot : part ≠ "."
  noSlash : '/' ∉ part.toList

/-- A text that can be the name of an entry in a directory. -/
structure IsName (name : String) : Prop extends IsPart name where
  notUp : name ≠ ".."

instance (part : String) : Decidable (IsPart part) :=
  decidable_of_iff (part ≠ "" ∧ part ≠ "." ∧ '/' ∉ part.toList)
    ⟨fun h => ⟨h.1, h.2.1, h.2.2⟩, fun h => ⟨h.nonempty, h.notDot, h.noSlash⟩⟩

instance (name : String) : Decidable (IsName name) :=
  decidable_of_iff (IsPart name ∧ name ≠ "..") ⟨fun h => ⟨h.1, h.2⟩, fun h => ⟨h.toIsPart, h.notUp⟩⟩

theorem pieces_of_noSlash {part : String} (h : '/' ∉ part.toList) : pieces part = [part] := by
  simp [pieces, slashPieces_of_not_mem h]

theorem pieces_append (before behind : String) :
    pieces (before ++ "/" ++ behind) = pieces before ++ pieces behind := by
  have htext : (before ++ "/" ++ behind).toList = before.toList ++ '/' :: behind.toList := by
    simp
  rw [pieces, htext, slashPieces_append, List.map_append]
  rfl

/-- Parts are the pieces of the text that they make. -/
theorem pieces_intercalate {parts : List String} (hne : parts ≠ [])
    (h : ∀ part ∈ parts, '/' ∉ part.toList) : pieces ("/".intercalate parts) = parts := by
  induction parts with
  | nil => exact absurd rfl hne
  | cons part parts ih =>
    obtain ⟨hpart, hparts⟩ := List.forall_mem_cons.mp h
    cases parts with
    | nil =>
      rw [String.intercalate_singleton]
      exact pieces_of_noSlash hpart
    | cons next parts =>
      rw [String.intercalate_cons_cons, pieces_append, pieces_of_noSlash hpart,
        ih (List.cons_ne_nil _ _) hparts]
      rfl

/-! ## Parts -/

/-- Whether a piece counts as a part. -/
def counts (piece : String) : Bool := piece != "" && piece != "."

theorem parts_ofString (path : String) : (ofString path).parts = (pieces path).filter counts := rfl

theorem IsPart.counts {part : String} (h : IsPart part) : counts part = true := by
  simp [Path.counts, h.nonempty, h.notDot]

theorem filter_counts {parts : List String} (h : ∀ part ∈ parts, IsPart part) :
    parts.filter counts = parts :=
  List.filter_eq_self.mpr fun part hpart => (h part hpart).counts

theorem isPart_of_mem_parts {path part : String} (h : part ∈ (ofString path).parts) :
    IsPart part := by
  rw [parts_ofString, List.mem_filter] at h
  obtain ⟨hmem, hcounts⟩ := h
  simp only [counts, Bool.and_eq_true, bne_iff_ne] at hcounts
  obtain ⟨cs, hcs, rfl⟩ := List.mem_map.mp hmem
  refine ⟨hcounts.1, hcounts.2, ?_⟩
  rw [String.toList_ofList]
  exact slash_not_mem_of_mem_slashPieces hcs

theorem parts_append (before behind : String) :
    (ofString (before ++ "/" ++ behind)).parts =
      (ofString before).parts ++ (ofString behind).parts := by
  simp only [parts_ofString, pieces_append, List.filter_append]

theorem parts_intercalate {parts : List String} (h : ∀ part ∈ parts, IsPart part) :
    (ofString ("/".intercalate parts)).parts = parts := by
  by_cases hne : parts = []
  · subst hne
    rfl
  · rw [parts_ofString, pieces_intercalate hne fun part hpart => (h part hpart).noSlash]
    exact filter_counts h

theorem toList_head?_append {s t : String} (h : s ≠ "") :
    (s ++ t).toList.head? = s.toList.head? := by
  obtain ⟨c, cs, hcs⟩ := List.exists_cons_of_ne_nil (mt String.toList_eq_nil_iff.mp h)
  rw [String.toList_append, hcs]
  rfl

theorem isAbsolute_append {s : String} (h : s ≠ "") (t : String) :
    isAbsolute (s ++ t) = isAbsolute s := by
  rw [isAbsolute, toList_head?_append h]
  rfl

theorem IsPart.not_isAbsolute {part : String} (h : IsPart part) : isAbsolute part = false := by
  rw [isAbsolute, beq_eq_false_iff_ne]
  intro hhead
  exact h.noSlash (List.mem_of_mem_head? hhead)

theorem not_isAbsolute_intercalate {parts : List String} (h : ∀ part ∈ parts, IsPart part) :
    isAbsolute ("/".intercalate parts) = false := by
  cases parts with
  | nil => rfl
  | cons part parts =>
    have hpart := h part List.mem_cons_self
    cases parts with
    | nil =>
      rw [String.intercalate_singleton]
      exact hpart.not_isAbsolute
    | cons next parts =>
      rw [String.intercalate_cons_cons, String.append_assoc, isAbsolute_append hpart.nonempty]
      exact hpart.not_isAbsolute

/-- The parts of a path are read back from its text. -/
theorem ofString_render {p : Path} (h : ∀ part ∈ p.parts, IsPart part) :
    ofString p.render = p := by
  obtain ⟨absolute, parts⟩ := p
  cases absolute with
  | false =>
    change ofString ("/".intercalate parts) = _
    rw [ofString, not_isAbsolute_intercalate h]
    exact congrArg _ (parts_intercalate h)
  | true =>
    change ofString ("/" ++ "/".intercalate parts) = _
    have habsolute : isAbsolute ("/" ++ "/".intercalate parts) = true :=
      isAbsolute_append (by decide) _
    have hparts := parts_append "" ("/".intercalate parts)
    rw [String.empty_append, parts_intercalate h] at hparts
    rw [ofString, habsolute]
    exact congrArg _ hparts

/-! ## Joining -/

/-- To join paths is to append their parts. -/
theorem ofString_join (base path : String) :
    ofString (join base path) = if isAbsolute path then ofString path
      else ⟨isAbsolute base, (ofString base).parts ++ (ofString path).parts⟩ := by
  unfold join
  by_cases habsolute : isAbsolute path = true
  · simp [habsolute]
  · have hrelative : isAbsolute path = false := Bool.eq_false_iff.mpr habsolute
    by_cases hempty : base = ""
    · subst hempty
      simp [ofString, isAbsolute, slashPieces]
    · have hnonempty : base.isEmpty = false := by simpa using hempty
      simp only [hrelative, hnonempty, Bool.or_false, Bool.false_eq_true, if_false]
      split
      · rename_i hlast
        obtain ⟨front, hfront⟩ := List.getLast?_eq_some_iff.mp (beq_iff_eq.mp hlast)
        have hbase : base = String.ofList front ++ "/" := by
          rw [← String.toList_inj]
          simp [hfront]
        have hparts := parts_append (String.ofList front) path
        have hslash := parts_append (String.ofList front) ""
        have hnone : (ofString "").parts = [] := rfl
        rw [← hbase] at hparts hslash
        rw [String.append_empty, hnone, List.append_nil] at hslash
        rw [ofString, isAbsolute_append hempty]
        exact congrArg _ (hparts.trans (by rw [hslash]))
      · rw [ofString, String.append_assoc, isAbsolute_append hempty, ← String.append_assoc]
        exact congrArg _ (parts_append base path)

/-! ## Normal forms -/

section Steps

variable {absolute : Bool} {names trail parts : List String}

/-- Names are gone down one after another. -/
theorem foldl_step_names (h : ∀ name ∈ names, name ≠ "..") (trail : List String) :
    names.foldl (step absolute) trail = names.reverse ++ trail := by
  induction names generalizing trail with
  | nil => rfl
  | cons name names ih =>
    obtain ⟨hname, hnames⟩ := List.forall_mem_cons.mp h
    simp [step, hname, ih hnames]

/-- Two dots lead up, from the root to itself. -/
theorem foldl_step_ups (h : ∀ name ∈ trail, name ≠ "..") (n : Nat) :
    (List.replicate n "..").foldl (step true) trail = trail.drop n := by
  induction n generalizing trail with
  | zero => rfl
  | succ n ih =>
    rw [List.replicate_succ, List.foldl_cons]
    cases trail with
    | nil => simpa [step] using ih h
    | cons last rest =>
      obtain ⟨hlast, hrest⟩ := List.forall_mem_cons.mp h
      simpa [step, hlast] using ih hrest

/-- In a relative path two dots at the front stay. -/
theorem foldl_step_front (n m : Nat) :
    (List.replicate n "..").foldl (step false) (List.replicate m "..") =
      List.replicate (n + m) ".." := by
  induction n generalizing m with
  | zero => rw [Nat.zero_add]; rfl
  | succ n ih =>
    have hstep : step false (List.replicate m "..") ".." = List.replicate (m + 1) ".." := by
      cases m <;> simp [step, List.replicate_succ]
    rw [List.replicate_succ, List.foldl_cons, hstep, ih]
    congr 1
    omega

theorem foldl_step_sublist (parts trail : List String) :
    List.Sublist (parts.foldl (step true) trail).reverse (trail.reverse ++ parts) := by
  induction parts generalizing trail with
  | nil => simp
  | cons part parts ih =>
    have hstep : List.Sublist (step true trail part).reverse (trail.reverse ++ [part]) := by
      unfold step
      split
      · rename_i hpart
        subst hpart
        split
        · simp
        · split
          · simp
          · rw [List.reverse_cons, List.append_assoc]
            exact List.sublist_append_left _ _
      · simp
    rw [List.foldl_cons]
    refine (ih _).trans ?_
    have happend := hstep.append_right parts
    rwa [List.append_assoc] at happend

/-- No two dots are left in an absolute path. -/
theorem foldl_step_ne_up (h : ∀ name ∈ trail, name ≠ "..") :
    ∀ name ∈ parts.foldl (step true) trail, name ≠ ".." := by
  induction parts generalizing trail with
  | nil => exact h
  | cons part parts ih =>
    refine ih ?_
    unfold step
    split
    · split
      · simp
      · obtain ⟨hlast, hrest⟩ := List.forall_mem_cons.mp h
        rw [if_neg hlast]
        exact hrest
    · rename_i hpart
      exact List.forall_mem_cons.mpr ⟨hpart, h⟩

end Steps

/-! ## Places -/

/-- The text of the absolute path to a place. -/
def absoluteText (names : List String) : String := render ⟨true, names⟩

/-- The names on the way to where an absolute path leads. -/
def place (path : String) : List String := (ofString path).normalized.parts

theorem normalized_of_absolute {path : String} (h : isAbsolute path = true) :
    (ofString path).normalized = ⟨true, place path⟩ := by
  change (⟨isAbsolute path, place path⟩ : Path) = _
  rw [h]

theorem place_eq {path : String} (h : isAbsolute path = true) :
    place path = ((ofString path).parts.foldl (step true) []).reverse := by
  rw [place, normalized, show (ofString path).absolute = true from h]

theorem isName_of_mem_place {path : String} (h : isAbsolute path = true) {name : String}
    (hname : name ∈ place path) : IsName name := by
  rw [place_eq h] at hname
  have hpart := (foldl_step_sublist (ofString path).parts []).subset hname
  have hup := foldl_step_ne_up (List.forall_mem_nil _) name (List.mem_reverse.mp hname)
  exact ⟨isPart_of_mem_parts (by simpa using hpart), hup⟩

theorem normalize_eq {path : String} (h : isAbsolute path = true) :
    normalize path = absoluteText (place path) := by
  rw [normalize, normalized_of_absolute h, absoluteText]

@[simp] theorem isAbsolute_absoluteText (names : List String) :
    isAbsolute (absoluteText names) = true :=
  isAbsolute_append (by decide) _

theorem ofString_absoluteText {names : List String} (h : ∀ name ∈ names, IsName name) :
    ofString (absoluteText names) = ⟨true, names⟩ :=
  ofString_render fun name hname => (h name hname).toIsPart

theorem place_absoluteText {names : List String} (h : ∀ name ∈ names, IsName name) :
    place (absoluteText names) = names := by
  rw [place_eq (isAbsolute_absoluteText names), ofString_absoluteText h,
    foldl_step_names fun name hname => (h name hname).notUp]
  simp

theorem normalize_absoluteText {names : List String} (h : ∀ name ∈ names, IsName name) :
    normalize (absoluteText names) = absoluteText names := by
  rw [normalize_eq (isAbsolute_absoluteText names), place_absoluteText h]

/-- Where a path leads that is taken from another one. -/
theorem place_join {base path : String} (hbase : isAbsolute base = true)
    (hpath : isAbsolute path = false) :
    place (join base path) =
      ((ofString path).parts.foldl (step true) (place base).reverse).reverse := by
  have hjoin := ofString_join base path
  rw [if_neg (by simp [hpath]), hbase] at hjoin
  rw [place_eq hbase, List.reverse_reverse, place, hjoin, normalized]
  dsimp only
  rw [List.foldl_append]

theorem place_join_name {base name : String} (hbase : isAbsolute base = true) (h : IsName name) :
    place (join base name) = place base ++ [name] := by
  have hparts : (ofString name).parts = [name] := by
    rw [parts_ofString, pieces_of_noSlash h.noSlash]
    exact filter_counts (by simpa using h.toIsPart)
  have hstep : step true (place base).reverse name = name :: (place base).reverse :=
    if_neg h.notUp
  rw [place_join hbase h.not_isAbsolute, hparts, List.foldl_cons, List.foldl_nil, hstep,
    List.reverse_cons, List.reverse_reverse]

/-! ## Ways between places -/

theorem commonLength_le (names root : List String) :
    commonLength names root ≤ names.length ∧ commonLength names root ≤ root.length := by
  fun_induction commonLength names root with
  | case1 name names root ih =>
    simp only [List.length_cons]
    omega
  | case2 => simp
  | case3 => simp

theorem take_commonLength (names root : List String) :
    names.take (commonLength names root) = root.take (commonLength names root) := by
  fun_induction commonLength names root with
  | case1 name names root ih => simp [ih]
  | case2 => simp
  | case3 => simp

/-- The way from one place to another one: up as far as needed, then down. -/
def way (root names : List String) : List String :=
  List.replicate (root.length - commonLength names root) ".." ++
    names.drop (commonLength names root)

theorem wayFrom_eq (root names : List String) :
    wayFrom ⟨true, root⟩ ⟨true, names⟩ = ⟨false, way root names⟩ := rfl

theorem isPart_up : IsPart ".." := ⟨by decide, by decide, by decide⟩

theorem isPart_of_mem_way {root names : List String} (h : ∀ name ∈ names, IsName name)
    {part : String} (hpart : part ∈ way root names) : IsPart part := by
  rcases List.mem_append.mp hpart with hup | hname
  · rw [List.eq_of_mem_replicate hup]
    exact isPart_up
  · exact (h part (List.mem_of_mem_drop hname)).toIsPart

/-- The way to a place leads there. -/
theorem foldl_step_way {root names : List String} (hroot : ∀ name ∈ root, name ≠ "..")
    (hnames : ∀ name ∈ names, name ≠ "..") :
    (way root names).foldl (step true) root.reverse = names.reverse := by
  have hle := (commonLength_le names root).2
  have hup : (List.replicate (root.length - commonLength names root) "..").foldl (step true)
      root.reverse = (names.take (commonLength names root)).reverse := by
    rw [foldl_step_ups (by simpa using hroot), List.drop_reverse, take_commonLength]
    congr 2
    omega
  rw [way, List.foldl_append, hup,
    foldl_step_names fun name hname => hnames name (List.mem_of_mem_drop hname),
    ← List.reverse_append, List.take_append_drop]

/-- The text of the way from one place to another one; it is empty if they are the same. -/
def wayText (root names : List String) : String := render ⟨false, way root names⟩

/-- An absolute path seen from an absolute base, as a text. -/
theorem relativeTo_of_absolute {path base : String} (hpath : isAbsolute path = true)
    (hbase : isAbsolute base = true) :
    relativeTo path base =
      if (way (place base) (place path)).isEmpty then "."
      else wayText (place base) (place path) := by
  unfold relativeTo
  rw [normalized_of_absolute hpath, normalized_of_absolute hbase, wayFrom_eq]
  rfl

theorem ofString_wayText {root names : List String} (h : ∀ name ∈ names, IsName name) :
    ofString (wayText root names) = ⟨false, way root names⟩ :=
  ofString_render fun _ hpart => isPart_of_mem_way h hpart

theorem mem_intercalate {c : Char} {parts : List String}
    (h : c ∈ ("/".intercalate parts).toList) : c = '/' ∨ ∃ part ∈ parts, c ∈ part.toList := by
  induction parts with
  | nil => cases h
  | cons part parts ih =>
    cases parts with
    | nil =>
      rw [String.intercalate_singleton] at h
      exact Or.inr ⟨part, List.mem_cons_self, h⟩
    | cons next parts =>
      rw [String.intercalate_cons_cons, String.toList_append, String.toList_append,
        List.append_assoc] at h
      rcases List.mem_append.mp h with hpart | h
      · exact Or.inr ⟨part, List.mem_cons_self, hpart⟩
      rcases List.mem_cons.mp h with rfl | hrest
      · exact Or.inl rfl
      · rcases ih hrest with rfl | ⟨other, hother, hc⟩
        · exact Or.inl rfl
        · exact Or.inr ⟨other, List.mem_cons_of_mem _ hother, hc⟩

theorem mem_absoluteText {c : Char} {names : List String} (h : c ∈ (absoluteText names).toList) :
    c = '/' ∨ ∃ name ∈ names, c ∈ name.toList := by
  rw [absoluteText, render, if_pos rfl, String.toList_append] at h
  rcases List.mem_cons.mp h with rfl | h
  · exact Or.inl rfl
  · exact mem_intercalate h

/-- The bytes of some texts, each with a slash. -/
def slashedSize : List String → Nat
  | [] => 0
  | part :: parts => part.utf8ByteSize + 1 + slashedSize parts

theorem slashedSize_intercalate {parts : List String} (h : parts ≠ []) :
    ("/".intercalate parts).utf8ByteSize + 1 = slashedSize parts := by
  induction parts with
  | nil => exact absurd rfl h
  | cons part parts ih =>
    cases parts with
    | nil => simp [slashedSize]
    | cons next parts =>
      have hrest := ih (List.cons_ne_nil _ _)
      have hslash : "/".utf8ByteSize = 1 := by decide
      rw [String.intercalate_cons_cons, String.utf8ByteSize_append, String.utf8ByteSize_append,
        hslash]
      rw [slashedSize]
      omega

theorem slashedSize_le_of_sublist {parts more : List String} (h : List.Sublist parts more) :
    slashedSize parts ≤ slashedSize more := by
  induction h with
  | slnil => exact Nat.le_refl _
  | cons part _ ih => exact Nat.le_add_left_of_le ih
  | cons_cons part _ ih => exact Nat.add_le_add_left ih _

theorem intercalate_slashPieces (cs : List Char) :
    ("/".intercalate ((slashPieces cs).map String.ofList)).toList = cs := by
  induction cs with
  | nil => rfl
  | cons c cs ih =>
    obtain ⟨first, rest, hpieces⟩ := List.exists_cons_of_ne_nil (slashPieces_ne_nil cs)
    rw [hpieces, List.map_cons] at ih
    by_cases hc : c = '/'
    · rw [slashPieces, if_pos hc, hpieces, List.map_cons, List.map_cons,
        String.intercalate_cons_cons, String.toList_append, ih, hc]
      rfl
    · rw [slashPieces, if_neg hc, hpieces]
      dsimp only
      rw [List.map_cons]
      cases rest with
      | nil =>
        rw [List.map_nil, String.intercalate_singleton, String.toList_ofList] at ih ⊢
        rw [ih]
      | cons next rest =>
        rw [List.map_cons, String.intercalate_cons_cons] at ih ⊢
        simp only [String.toList_append, String.toList_ofList, List.cons_append] at ih ⊢
        rw [ih]

/-- A text is made of its pieces. -/
theorem slashedSize_pieces (path : String) :
    slashedSize (pieces path) = path.utf8ByteSize + 1 := by
  have hne : pieces path ≠ [] := mt List.map_eq_nil_iff.mp (slashPieces_ne_nil _)
  have htext : "/".intercalate (pieces path) = path :=
    String.toList_inj.mp (intercalate_slashPieces path.toList)
  rw [← slashedSize_intercalate hne, htext]

/-- The normal form of an absolute path is not longer than the path. -/
theorem utf8ByteSize_absoluteText_le {path : String} (h : isAbsolute path = true) :
    (absoluteText (place path)).utf8ByteSize ≤ path.utf8ByteSize := by
  obtain ⟨cs, hcs⟩ := List.head?_eq_some_iff.mp (beq_iff_eq.mp h)
  have hpath : path = "" ++ "/" ++ String.ofList cs := by
    rw [← String.toList_inj, hcs]
    simp
  have hpieces : pieces path = "" :: pieces (String.ofList cs) := by
    rw [hpath, pieces_append]
    rfl
  have hsize := slashedSize_pieces path
  have hparts : List.Sublist (ofString path).parts (pieces (String.ofList cs)) := by
    rw [parts_ofString, hpieces, List.filter_cons_of_neg (by decide)]
    exact List.filter_sublist
  have hplace : List.Sublist (place path) (ofString path).parts := by
    rw [place_eq h]
    exact foldl_step_sublist _ []
  have hle := slashedSize_le_of_sublist (hplace.trans hparts)
  have hslash : "/".utf8ByteSize = 1 := by decide
  rw [hpieces, slashedSize, String.utf8ByteSize_empty] at hsize
  rw [absoluteText, render, if_pos rfl, String.utf8ByteSize_append, hslash]
  dsimp only
  by_cases hnil : place path = []
  · rw [hnil, String.intercalate_nil, String.utf8ByteSize_empty, hpath, String.utf8ByteSize_append,
      String.utf8ByteSize_append, hslash]
    omega
  · have htext := slashedSize_intercalate hnil
    omega

end Path

end Monorepo
