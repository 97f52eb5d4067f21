import Mathlib.Data.List.Infix
import Mathlib.Data.List.Induction
import Monorepo.Proofs.Paths

/-!
# Paths downward and upward

To join a name to the path of a place gives the path of a place below it, and the directory above
that is the first one again. So the directories above a place are the places of the names on the way
to it, the nearest first.
-/

namespace Monorepo

namespace Path

/-! ## Downward -/

theorem intercalate_concat {parts : List String} (h : parts ≠ []) (part : String) :
    "/".intercalate (parts ++ [part]) = "/".intercalate parts ++ "/" ++ part := by
  induction parts with
  | nil => exact absurd rfl h
  | cons first rest ih =>
    cases rest with
    | nil =>
      rw [List.singleton_append, String.intercalate_cons_cons, String.intercalate_singleton,
        String.intercalate_singleton]
    | cons next rest =>
      have hrest := ih (List.cons_ne_nil _ _)
      rw [List.cons_append] at hrest
      rw [List.cons_append, List.cons_append, String.intercalate_cons_cons, hrest,
        String.intercalate_cons_cons]
      simp only [String.append_assoc]

theorem absoluteText_concat (names : List String) (name : String) :
    absoluteText (names ++ [name]) =
      (if names = [] then "" else absoluteText names) ++ "/" ++ name := by
  by_cases hnames : names = []
  · subst hnames
    rw [if_pos rfl, String.empty_append, List.nil_append, absoluteText, render, if_pos rfl,
      String.intercalate_singleton]
  · rw [if_neg hnames, absoluteText, absoluteText, render, if_pos rfl, render, if_pos rfl,
      intercalate_concat hnames]
    simp only [String.append_assoc]

/-- Only the path to the root of all files ends with a slash. -/
theorem getLast?_absoluteText {names : List String} (h : ∀ name ∈ names, IsPart name) :
    (absoluteText names).toList.getLast? = some '/' ↔ names = [] := by
  refine ⟨fun hlast => ?_, fun hnil => by rw [hnil]; rfl⟩
  rcases List.eq_nil_or_concat names with hnil | ⟨front, name, rfl⟩
  · exact hnil
  · rw [List.concat_eq_append] at hlast h
    have hname := h name (by simp)
    have hne : name.toList ≠ [] := mt String.toList_eq_nil_iff.mp hname.nonempty
    rw [absoluteText_concat, String.toList_append, List.getLast?_append_of_ne_nil _ hne] at hlast
    exact absurd (List.mem_of_getLast? hlast) hname.noSlash

/-- To join a relative path is to write it behind a slash. -/
theorem join_of_relative {base path : String} (hbase : base ≠ "")
    (hpath : isAbsolute path = false) :
    join base path =
      if base.toList.getLast? = some '/' then base ++ path else base ++ "/" ++ path := by
  have hne : base.isEmpty = false := by simpa using hbase
  unfold join
  rw [hpath, hne, Bool.or_false, if_neg Bool.false_ne_true]
  simp only [beq_iff_eq]

theorem isAbsolute_join {base path : String} (hbase : isAbsolute base = true) :
    isAbsolute (join base path) = true := by
  have hne : base ≠ "" := by
    intro hempty
    rw [hempty] at hbase
    cases hbase
  by_cases hpath : isAbsolute path = true
  · have hjoin : join base path = path := by simp [join, hpath]
    rwa [hjoin]
  · rw [Bool.not_eq_true] at hpath
    rw [join_of_relative hne hpath]
    split
    · rwa [isAbsolute_append hne]
    · rwa [String.append_assoc, isAbsolute_append hne]

/-- What is joined to a path may as well be joined to what the path is joined to. -/
theorem join_join {base path more : String} (hbase : base ≠ "") (hpath : path ≠ "")
    (hmore : isAbsolute more = false) :
    join base (join path more) = join (join base path) more := by
  by_cases habsolute : isAbsolute path = true
  · have hjoin : join base path = path := by simp [join, habsolute]
    have hmore' : isAbsolute (join path more) = true := isAbsolute_join habsolute
    rw [hjoin]
    generalize join path more = path' at hmore'
    simp [join, hmore']
  · rw [Bool.not_eq_true] at habsolute
    have hrelative : isAbsolute (join path more) = false := by
      rw [join_of_relative hpath hmore]
      split
      · rwa [isAbsolute_append hpath]
      · rwa [String.append_assoc, isAbsolute_append hpath]
    have hlast (front : String) : (front ++ path).toList.getLast? = path.toList.getLast? := by
      rw [String.toList_append]
      exact List.getLast?_append_of_ne_nil _ (mt String.toList_eq_nil_iff.mp hpath)
    have hne (front : String) : front ++ path ≠ "" := by simp [hpath]
    rw [join_of_relative hbase hrelative, join_of_relative hbase habsolute,
      join_of_relative hpath hmore]
    by_cases hslash : base.toList.getLast? = some '/'
    · rw [if_pos hslash, if_pos hslash, join_of_relative (hne base) hmore, hlast]
      split <;> simp only [String.append_assoc]
    · rw [if_neg hslash, if_neg hslash, join_of_relative (hne _) hmore, hlast]
      split <;> simp only [String.append_assoc]

/-- To join a name to the path of a place is to go down by it. -/
theorem join_absoluteText {names : List String} {name : String}
    (h : ∀ name ∈ names, IsPart name) (hname : IsPart name) :
    join (absoluteText names) name = absoluteText (names ++ [name]) := by
  have hne : absoluteText names ≠ "" := by
    intro hempty
    have habsolute := isAbsolute_absoluteText names
    rw [hempty] at habsolute
    cases habsolute
  rw [join_of_relative hne hname.not_isAbsolute, absoluteText_concat]
  by_cases hnil : names = []
  · subst hnil
    rfl
  · rw [if_neg (mt (getLast?_absoluteText h).mp hnil), if_neg hnil]

/-! ## Upward -/

/-- A name has nothing idle at its end. -/
theorem dropIdle_name {name : String} (h : IsPart name) (cs : List Char) :
    dropIdle (name.toList.reverse ++ cs) = name.toList.reverse ++ cs := by
  have hslash : '/' ∉ name.toList.reverse := by simpa using h.noSlash
  have hdot : name.toList.reverse ≠ ['.'] := by
    intro hdot
    refine h.notDot (String.toList_inj.mp ?_)
    rw [← List.reverse_reverse name.toList, hdot]
    rfl
  have hne : name.toList.reverse ≠ [] := by simpa using h.nonempty
  generalize name.toList.reverse = ds at hslash hdot hne
  cases ds with
  | nil => exact absurd rfl hne
  | cons d ds =>
    rw [List.cons_append]
    unfold dropIdle
    split
    · rename_i heq
      exact absurd (List.mem_cons.mpr (Or.inl (List.cons.inj heq).1.symm)) hslash
    · rename_i c heq
      obtain ⟨hd, heq⟩ := List.cons.inj heq
      cases ds with
      | nil => exact absurd (congrArg (· :: []) hd) hdot
      | cons e es =>
        have he := (List.cons.inj heq).1
        rw [he] at hslash
        simp at hslash
    · rfl

theorem parent?_root : parent? (absoluteText []) = none := by
  decide

theorem parent?_concat {names : List String} {name : String}
    (h : ∀ name ∈ names, IsPart name) (hname : IsPart name) :
    parent? (absoluteText (names ++ [name])) = some (absoluteText names) := by
  have hne : name.toList.reverse ≠ [] := by simpa using hname.nonempty
  have hbefore : ∀ c ∈ name.toList.reverse, (c != '/') = true := by
    intro c hc
    have hslash := hname.noSlash
    rw [bne_iff_ne]
    rintro rfl
    exact hslash (List.mem_reverse.mp hc)
  have habove : dropIdle ('/' :: (if names = [] then "" else absoluteText names).toList.reverse) =
      (absoluteText names).toList.reverse := by
    rcases List.eq_nil_or_concat names with rfl | ⟨front, last, rfl⟩
    · rfl
    · have hlast : IsPart last := h last (by simp)
      rw [List.concat_eq_append, if_neg (by simp), absoluteText_concat, String.toList_append,
        List.reverse_append]
      obtain ⟨c, cs, hcs⟩ := List.exists_cons_of_ne_nil
        (show last.toList.reverse ≠ [] by simpa using hlast.nonempty)
      have hname := dropIdle_name hlast
        ((if front = [] then "" else absoluteText front) ++ "/").toList.reverse
      rw [hcs, List.cons_append] at hname ⊢
      exact hname
  have htext : (absoluteText (names ++ [name])).toList.reverse = name.toList.reverse ++
      '/' :: (if names = [] then "" else absoluteText names).toList.reverse := by
    rw [absoluteText_concat, String.toList_append, String.toList_append, List.reverse_append,
      List.reverse_append]
    rfl
  unfold parent?
  rw [htext, dropIdle_name hname]
  dsimp only
  rw [List.takeWhile_append_of_pos hbefore,
    List.takeWhile_cons_of_neg (by decide), List.append_nil]
  have hsome : name.toList.reverse.isEmpty = false := by simpa using hname.nonempty
  rw [hsome, if_neg Bool.false_ne_true, List.drop_left, habove, List.reverse_reverse,
    String.ofList_toList]

theorem length_absoluteText {names : List String} (h : ∀ name ∈ names, IsPart name) :
    names.length ≤ (absoluteText names).length := by
  induction names using List.reverseRecOn with
  | nil => exact Nat.zero_le _
  | append_singleton names name ih =>
    have hfront := ih fun part hpart => h part (List.mem_append_left _ hpart)
    have hname : name.length ≠ 0 := by simpa using (h name (by simp)).nonempty
    rw [absoluteText_concat, List.length_append, String.length_append, String.length_append]
    by_cases hnil : names = []
    · subst hnil
      simp only [List.length_nil, List.length_singleton]
      omega
    · rw [if_neg hnil]
      simp only [List.length_singleton]
      omega

/-- Above a place are the places of the names before its last one. -/
theorem ancestorsWithin_absoluteText {names : List String} (h : ∀ name ∈ names, IsPart name)
    {fuel : Nat} (hfuel : names.length ≤ fuel) :
    ancestorsWithin fuel (absoluteText names) = names.inits.reverse.map absoluteText := by
  induction names using List.reverseRecOn generalizing fuel with
  | nil =>
    cases fuel with
    | zero => rfl
    | succ fuel => rw [ancestorsWithin, parent?_root]; rfl
  | append_singleton names name ih =>
    have hnames : ∀ part ∈ names, IsPart part :=
      fun part hpart => h part (List.mem_append_left _ hpart)
    rw [List.length_append, List.length_singleton] at hfuel
    obtain ⟨fuel, rfl⟩ := Nat.exists_eq_add_of_le' hfuel
    rw [← Nat.add_assoc, ancestorsWithin, parent?_concat hnames (h name (by simp))]
    dsimp only
    rw [ih hnames (Nat.le_add_left _ _)]
    simp [List.inits_append]

theorem ancestors_absoluteText {names : List String} (h : ∀ name ∈ names, IsPart name) :
    ancestors (absoluteText names) = names.inits.reverse.map absoluteText :=
  ancestorsWithin_absoluteText h (length_absoluteText h)

/-- What is above a place is a place on the way to it. -/
theorem exists_place_of_mem_ancestors {names : List String} (h : ∀ name ∈ names, IsPart name)
    {above : String} (habove : above ∈ ancestors (absoluteText names)) :
    ∃ front, front <+: names ∧ above = absoluteText front := by
  rw [ancestors_absoluteText h] at habove
  obtain ⟨front, hfront, rfl⟩ := List.mem_map.mp habove
  exact ⟨front, (List.mem_inits _ _).mp (List.mem_reverse.mp hfront), rfl⟩

/-- What is above something above a place is what comes behind it. -/
theorem ancestors_of_append {names : List String} (h : ∀ name ∈ names, IsPart name)
    {before behind : List String} {above : String}
    (heq : ancestors (absoluteText names) = before ++ above :: behind) :
    ancestors above = above :: behind := by
  induction names using List.reverseRecOn generalizing before with
  | nil =>
    have hroot : ancestors (absoluteText []) = [absoluteText []] := ancestors_absoluteText h
    rw [hroot] at heq
    cases before with
    | nil =>
      obtain ⟨rfl, rfl⟩ := List.cons.inj heq
      exact hroot
    | cons first before => simp at heq
  | append_singleton names name ih =>
    have hnames : ∀ part ∈ names, IsPart part :=
      fun part hpart => h part (List.mem_append_left _ hpart)
    have hcons : ancestors (absoluteText (names ++ [name])) =
        absoluteText (names ++ [name]) :: ancestors (absoluteText names) := by
      rw [ancestors_absoluteText h, ancestors_absoluteText hnames]
      simp [List.inits_append]
    rw [hcons] at heq
    cases before with
    | nil =>
      obtain ⟨rfl, rfl⟩ := List.cons.inj heq
      exact hcons
    | cons first before => exact ih hnames (List.cons.inj heq).2

end Path

end Monorepo
