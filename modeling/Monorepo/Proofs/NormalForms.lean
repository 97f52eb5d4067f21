import Monorepo.Proofs.Ancestors
import Monorepo.Repository

/-!
# Paths in normal form

A path in normal form leads up first, as far as it does at all, and then down by names; an absolute
one only leads down. Going on by one part keeps to such a form, so the parts that are left when a
path is normalized have it, and to go along them once more changes nothing. It follows that it does
not matter when the way from one place to another one is normalized, nor whether a place is named by
its absolute path or as seen from a root.
-/

namespace Monorepo

namespace Path

/-! ## Normal forms -/

/-- Whether a path leads up first, if at all, and then down by names. An absolute one only leads
    down. -/
def IsNormal (p : Path) : Prop :=
  ∃ ups names, p.parts = List.replicate ups ".." ++ names ∧ (∀ name ∈ names, IsName name) ∧
    (p.absolute = true → ups = 0)

namespace IsNormal

theorem isPart_of_mem {p : Path} (h : p.IsNormal) {part : String} (hpart : part ∈ p.parts) :
    IsPart part := by
  obtain ⟨ups, names, hparts, hnames, -⟩ := h
  rw [hparts] at hpart
  rcases List.mem_append.mp hpart with hup | hname
  · rw [List.eq_of_mem_replicate hup]
    exact isPart_up
  · exact (hnames part hname).toIsPart

/-- A step from the end of a path in normal form ends in a normal form again. -/
theorem step {absolute : Bool} {trail : List String} {part : String}
    (h : IsNormal ⟨absolute, trail.reverse⟩) (hpart : IsPart part) :
    IsNormal ⟨absolute, (step absolute trail part).reverse⟩ := by
  obtain ⟨ups, names, hparts, hnames, hups⟩ := h
  have htrail : trail = names.reverse ++ List.replicate ups ".." := by
    rw [← List.reverse_reverse trail, show trail.reverse = _ from hparts, List.reverse_append,
      List.reverse_replicate]
  subst htrail
  by_cases hup : part = ".."
  · subst hup
    -- two dots take away the last name; without a name they are kept, but not at the root
    rcases List.eq_nil_or_concat names with rfl | ⟨front, last, rfl⟩
    · rw [List.reverse_nil, List.nil_append]
      cases ups with
      | zero =>
        cases absolute with
        | true => exact ⟨0, [], rfl, List.forall_mem_nil _, fun _ => rfl⟩
        | false => exact ⟨1, [], rfl, List.forall_mem_nil _, nofun⟩
      | succ ups =>
        have hstep : Path.step absolute (List.replicate (ups + 1) "..") ".." =
            List.replicate (ups + 2) ".." := by
          simp [Path.step, List.replicate_succ]
        refine ⟨ups + 2, [], ?_, List.forall_mem_nil _, fun h => absurd (hups h) (by simp)⟩
        rw [hstep, List.reverse_replicate, List.append_nil]
    · rw [List.concat_eq_append] at hnames ⊢
      have hlast : last ≠ ".." := (hnames last (by simp)).notUp
      refine ⟨ups, front, ?_, fun name hname => hnames name (List.mem_append_left _ hname), hups⟩
      simp [Path.step, hlast]
  · have hnames' : ∀ name ∈ names ++ [part], IsName name := by
      intro name hname
      rcases List.mem_append.mp hname with hname | hname
      · exact hnames name hname
      · rw [List.mem_singleton.mp hname]
        exact ⟨hpart, hup⟩
    refine ⟨ups, names ++ [part], ?_, hnames', hups⟩
    simp [Path.step, hup]

theorem foldl_step {absolute : Bool} {trail parts : List String}
    (h : IsNormal ⟨absolute, trail.reverse⟩) (hparts : ∀ part ∈ parts, IsPart part) :
    IsNormal ⟨absolute, (parts.foldl (Path.step absolute) trail).reverse⟩ := by
  induction parts generalizing trail with
  | nil => exact h
  | cons part parts ih =>
    obtain ⟨hpart, hparts⟩ := List.forall_mem_cons.mp hparts
    exact ih (h.step hpart) hparts

/-- There is nothing to normalize in a normal form. -/
theorem normalized_eq {p : Path} (h : p.IsNormal) : p.normalized = p := by
  obtain ⟨absolute, parts⟩ := p
  obtain ⟨ups, names, rfl, hnames, hups⟩ := h
  have hdown (trail : List String) :
      names.foldl (Path.step absolute) trail = names.reverse ++ trail :=
    foldl_step_names (fun name hname => (hnames name hname).notUp) trail
  have hfront : (List.replicate ups "..").foldl (Path.step absolute) [] =
      List.replicate ups ".." := by
    cases absolute with
    | true =>
      rw [hups rfl]
      rfl
    | false => exact foldl_step_front ups 0
  rw [normalized]
  dsimp only
  rw [List.foldl_append, hfront, hdown, List.reverse_append, List.reverse_reverse,
    List.reverse_replicate]

/-- The text of a normal form is left as it is. -/
theorem normalize_render {p : Path} (h : p.IsNormal) : normalize p.render = p.render := by
  rw [normalize, ofString_render fun _ => h.isPart_of_mem, h.normalized_eq]

end IsNormal

theorem isNormal_normalized (path : String) : (ofString path).normalized.IsNormal := by
  have hstart : IsNormal ⟨isAbsolute path, ([] : List String).reverse⟩ :=
    ⟨0, [], rfl, List.forall_mem_nil _, fun _ => rfl⟩
  exact hstart.foldl_step fun _ hpart => isPart_of_mem_parts hpart

/-- The parts of a normalized text are those that were left. -/
theorem ofString_normalize (path : String) :
    ofString (normalize path) = (ofString path).normalized :=
  ofString_render fun _ => (isNormal_normalized path).isPart_of_mem

/-- Normalizing twice is normalizing once. -/
theorem normalize_normalize (path : String) : normalize (normalize path) = normalize path :=
  (isNormal_normalized path).normalize_render

/-! ## Ways between places -/

theorem isAbsolute_normalize (path : String) : isAbsolute (normalize path) = isAbsolute path :=
  congrArg Path.absolute (ofString_normalize path)

/-- A path seen from a base is the way from the one place to the other one. -/
theorem ofString_relativeTo {path base : String} (hpath : isAbsolute path = true)
    (hbase : isAbsolute base = true) :
    ofString (relativeTo path base) = ⟨false, way (place base) (place path)⟩ := by
  have hnames : ∀ name ∈ place path, IsName name := fun _ hname => isName_of_mem_place hpath hname
  rw [relativeTo_of_absolute hpath hbase]
  by_cases hempty : (way (place base) (place path)).isEmpty = true
  · rw [if_pos hempty, List.isEmpty_iff.mp hempty]
    rfl
  · rw [if_neg hempty, ofString_wayText hnames]

theorem not_isAbsolute_relativeTo {path base : String} (hpath : isAbsolute path = true)
    (hbase : isAbsolute base = true) : isAbsolute (relativeTo path base) = false :=
  congrArg Path.absolute (ofString_relativeTo hpath hbase)

/-- What a base sees somewhere is there. -/
theorem normalize_join_relativeTo {path base : String} (hpath : isAbsolute path = true)
    (hbase : isAbsolute base = true) :
    normalize (join base (relativeTo path base)) = normalize path := by
  have hrelative := not_isAbsolute_relativeTo hpath hbase
  have hnotUp {path : String} (h : isAbsolute path = true) : ∀ name ∈ place path, name ≠ ".." :=
    fun _ hname => (isName_of_mem_place h hname).notUp
  have hplace : place (join base (relativeTo path base)) = place path := by
    rw [place_join hbase hrelative, ofString_relativeTo hpath hbase]
    dsimp only
    rw [foldl_step_way (hnotUp hbase) (hnotUp hpath), List.reverse_reverse]
  rw [normalize_eq (isAbsolute_join hbase), hplace, normalize_eq hpath]

/-- Only the place that a path leads to is seen. -/
theorem relativeTo_normalize (path base : String) :
    relativeTo (normalize path) base = relativeTo path base := by
  unfold relativeTo
  rw [ofString_normalize, (isNormal_normalized path).normalized_eq]

end Path

/-! ## Places in a repository -/

namespace Repository

open Monorepo.Path

variable {r : Repository}

theorem abspath_relpath (h : isAbsolute r.root = true) (s : String) :
    r.abspath (r.relpath s) = r.abspath s :=
  normalize_join_relativeTo (isAbsolute_join h) h

theorem relpath_abspath (h : isAbsolute r.root = true) (s : String) :
    r.relpath (r.abspath s) = r.relpath s := by
  have habsolute : isAbsolute (r.abspath s) = true := by
    rw [abspath, isAbsolute_normalize, isAbsolute_join h]
  have hjoin : join r.root (r.abspath s) = r.abspath s := by simp [join, habsolute]
  rw [relpath, hjoin, abspath, relativeTo_normalize, relpath]

/-- **Paths are what they mean lexically.** A normalized path is in normal form and is not changed
    by normalizing it again. What one absolute path is from another one leads back to it. So an
    absolute path and the one seen from the root of a repository stand for each other. -/
theorem lexical_paths :
    (∀ path, normalize (normalize path) = normalize path ∧
      ∃ p : Path, p.IsNormal ∧ p.absolute = isAbsolute path ∧ normalize path = p.render) ∧
    (∀ path base, isAbsolute path = true → isAbsolute base = true →
      normalize (join base (relativeTo path base)) = normalize path) ∧
    ∀ r : Repository, isAbsolute r.root = true → ∀ s,
      r.abspath (r.relpath s) = r.abspath s ∧ r.relpath (r.abspath s) = r.relpath s := by
  refine ⟨fun path => ⟨normalize_normalize path, ?_⟩,
    fun path base hpath hbase => normalize_join_relativeTo hpath hbase,
    fun r h s => ⟨abspath_relpath h s, relpath_abspath h s⟩⟩
  exact ⟨_, isNormal_normalized path, rfl, rfl⟩

/-- A path above its base, and one that leads above the root of all files. -/
theorem lexical_paths_upward :
    isAbsolute "/r/../x//./y/" = true ∧ isAbsolute "/r/s" = true ∧
      relativeTo "/r/../x//./y/" "/r/s" = "../../x/y" ∧
      normalize (join "/r/s" (relativeTo "/r/../x//./y/" "/r/s")) = "/x/y" ∧
      ∀ r : Repository, r.root = "/r/s" → r.relpath "../../../z/." = "../../z" ∧
        r.abspath (r.relpath "../../../z/.") = "/z" := by
  obtain ⟨-, hways, hrepositories⟩ := lexical_paths
  refine ⟨rfl, rfl, rfl, (hways _ _ rfl rfl).trans rfl, fun r hroot => ?_⟩
  have habsolute : isAbsolute r.root = true := by
    rw [hroot]
    rfl
  have hback := (hrepositories r habsolute "../../../z/.").1
  constructor
  · rw [relpath, hroot]
    rfl
  · rw [hback, abspath, hroot]
    rfl

end Repository

end Monorepo
