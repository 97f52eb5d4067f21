import Monorepo.Proofs.Discovery
import Monorepo.Proofs.NormalForms

/-!
# Buildpaths

What a text means as a buildpath is the normal form of a text, and that one is relative: what stands
behind two slashes, what an absolute path is as seen from the root, or the text itself. Such a
buildpath means itself. Only behind a third slash the normal form is that of an absolute path, and
then it is no buildpath and means another one.
-/

namespace Monorepo

namespace Path

theorem isAbsolute_iff {path : String} : isAbsolute path = true ↔ ['/'] <+: path.toList := by
  rw [isAbsolute, beq_iff_eq]
  cases path.toList with
  | nil => simp
  | cons c cs => simp [List.cons_prefix_cons, eq_comm]

/-- The normal form of an absolute path has one slash in front. -/
theorem not_slashes_normalize {path : String} (h : isAbsolute path = true) :
    ¬ ['/', '/'] <+: (normalize path).toList := by
  have hnames : isAbsolute ("/".intercalate (place path)) = false :=
    not_isAbsolute_intercalate fun _ hname => (isName_of_mem_place h hname).toIsPart
  have htext : (normalize path).toList = '/' :: ("/".intercalate (place path)).toList := by
    rw [normalize_eq h, absoluteText, render, if_pos rfl, String.toList_append]
    rfl
  rw [htext, List.cons_prefix_cons, not_and]
  intro _ hslash
  rw [isAbsolute_iff.mpr hslash] at hnames
  cases hnames

end Path

namespace Repository

open Monorepo.Path

/-- Whether a text is in the form of a buildpath: parts with a slash between them, of which the
    first ones may lead up from the root and the others are names. -/
def IsBuildpath (b : String) : Prop :=
  ∃ ups names, (∀ name ∈ names, IsName name) ∧
    b = "/".intercalate (List.replicate ups ".." ++ names)

variable {r : Repository}

theorem isBuildpath_normalize {path : String} (h : isAbsolute path = false) :
    IsBuildpath (normalize path) := by
  obtain ⟨ups, names, hparts, hnames, -⟩ := isNormal_normalized path
  refine ⟨ups, names, hnames, ?_⟩
  have habsolute : (ofString path).normalized.absolute = false := h
  rw [Path.normalize, render, habsolute, if_neg Bool.false_ne_true, hparts]

theorem IsBuildpath.not_isAbsolute {b : String} (h : IsBuildpath b) : isAbsolute b = false := by
  obtain ⟨ups, names, hnames, rfl⟩ := h
  refine not_isAbsolute_intercalate fun part hpart => ?_
  rcases List.mem_append.mp hpart with hup | hname
  · rw [List.eq_of_mem_replicate hup]
    exact isPart_up
  · exact (hnames part hname).toIsPart

/-- A relative path means its normal form. -/
theorem toBuildpath_of_relative {s : String} (h : isAbsolute s = false) :
    r.toBuildpath s = normalize s := by
  have hslash (cs : List Char) : s.toList ≠ '/' :: cs := by
    intro heq
    rw [isAbsolute, heq] at h
    cases h
  unfold toBuildpath
  split
  · exact cleanBuildpath_of_relative h
  · rename_i cs _ heq
    exact absurd heq (hslash cs)
  · exact cleanBuildpath_of_relative h

/-- What a text means is a normalized text, that of an absolute path only where this stands behind
    two slashes. -/
theorem toBuildpath_eq_normalize (h : isAbsolute r.root = true) (s : String) :
    ∃ text, r.toBuildpath s = normalize text ∧
      (isAbsolute text = true ↔ ['/', '/', '/'] <+: s.toList) := by
  have hfew (hslash : ∀ cs, s.toList = '/' :: '/' :: cs → False) :
      ¬ ['/', '/', '/'] <+: s.toList := by
    rintro ⟨cs, heq⟩
    exact hslash ('/' :: cs) heq.symm
  unfold toBuildpath
  split
  · rename_i cs heq
    have hclean : cleanBuildpath s = normalize (String.ofList cs) := by
      unfold cleanBuildpath
      rw [heq]
      rfl
    refine ⟨String.ofList cs, hclean, ?_⟩
    rw [isAbsolute_iff, String.toList_ofList, heq]
    simp [List.cons_prefix_cons]
  · rename_i hslash heq
    have hrelative : isAbsolute (r.relpath s) = false :=
      not_isAbsolute_relativeTo (isAbsolute_join h) h
    have hslashes : ∀ cs, s.toList = '/' :: '/' :: cs → False :=
      fun cs hcs => hslash cs (List.cons.inj (heq.symm.trans hcs)).2
    refine ⟨r.relpath s, cleanBuildpath_of_relative hrelative, ?_⟩
    simp [hrelative, hfew hslashes]
  · rename_i hslashes hslash
    have hrelative : isAbsolute s = false := by
      rw [← Bool.not_eq_true, isAbsolute_iff]
      rintro ⟨cs, heq⟩
      exact hslash cs heq.symm
    refine ⟨s, cleanBuildpath_of_relative hrelative, ?_⟩
    simp [hrelative, hfew hslashes]

/-- **A buildpath is relative and means itself.** Without three slashes in front of it, what a text
    means is in the form of a buildpath and means itself. With them it is an absolute path, and that
    one means something else. -/
theorem toBuildpath_isBuildpath (h : isAbsolute r.root = true) (s : String) :
    (¬ ['/', '/', '/'] <+: s.toList →
      IsBuildpath (r.toBuildpath s) ∧ r.toBuildpath (r.toBuildpath s) = r.toBuildpath s) ∧
    (['/', '/', '/'] <+: s.toList →
      isAbsolute (r.toBuildpath s) = true ∧
        r.toBuildpath (r.toBuildpath s) ≠ r.toBuildpath s) := by
  obtain ⟨text, hmeans, habsolute⟩ := toBuildpath_eq_normalize h s
  rw [hmeans]
  constructor
  · intro hfew
    have hrelative : isAbsolute text = false := by
      rw [← Bool.not_eq_true, habsolute]
      exact hfew
    refine ⟨isBuildpath_normalize hrelative, ?_⟩
    rw [toBuildpath_of_relative (by rwa [isAbsolute_normalize]), normalize_normalize]
  · intro hslashes
    have htext : isAbsolute (normalize text) = true := by
      rw [isAbsolute_normalize]
      exact habsolute.mpr hslashes
    obtain ⟨again, hagain, hfew⟩ := toBuildpath_eq_normalize h (normalize text)
    -- the one slash in front of the text makes it an absolute path, seen from the root
    have hrelative : isAbsolute again = false := by
      rw [← Bool.not_eq_true, hfew]
      rintro ⟨cs, heq⟩
      exact not_slashes_normalize (habsolute.mpr hslashes) ⟨'/' :: cs, heq⟩
    refine ⟨htext, fun hsame => ?_⟩
    rw [← hsame, hagain, isAbsolute_normalize, hrelative] at htext
    cases htext

/-- Slashes and dots that are left out, and a way above the root. -/
theorem toBuildpath_isBuildpath_slashes :
    isAbsolute (namedRepository "BUILD").root = true ∧
      ¬ ['/', '/', '/'] <+: "//.././/a/../b//./".toList ∧
      (namedRepository "BUILD").toBuildpath "//.././/a/../b//./" = "../b" ∧
      (namedRepository "BUILD").toBuildpath "../b" = "../b" := by
  have hfew : ¬ ['/', '/', '/'] <+: "//.././/a/../b//./".toList := by decide
  have hmeans : (namedRepository "BUILD").toBuildpath "//.././/a/../b//./" = "../b" := rfl
  have hself := ((toBuildpath_isBuildpath (r := namedRepository "BUILD") rfl _).1 hfew).2
  rw [hmeans] at hself
  exact ⟨rfl, hfew, hmeans, hself⟩

/-- Behind three slashes stands an absolute path, which leads out of the repository. -/
theorem toBuildpath_leaves_root :
    isAbsolute (namedRepository "BUILD").root = true ∧
      (namedRepository "BUILD").toBuildpath "///a" = "/a" ∧
      ¬ IsBuildpath ((namedRepository "BUILD").toBuildpath "///a") ∧
      (namedRepository "BUILD").toBuildpath ((namedRepository "BUILD").toBuildpath "///a") ≠
        (namedRepository "BUILD").toBuildpath "///a" ∧
      (namedRepository "BUILD").cache.source.descriptorPath "/a" = "/a/BUILD" := by
  have hmeans : (namedRepository "BUILD").toBuildpath "///a" = "/a" := rfl
  have hagain : (namedRepository "BUILD").toBuildpath "/a" = "../a" := rfl
  refine ⟨rfl, hmeans, fun hform => ?_, ?_, rfl⟩
  · have habsolute := hform.not_isAbsolute
    rw [hmeans] at habsolute
    cases habsolute
  · rw [hmeans, hagain]
    decide

end Repository

end Monorepo
