import Monorepo.Proofs.Assembly
import Monorepo.Proofs.Depths

/-!
# References that dangle

A resolution reports the references that name no directory. An id names the directory that the
buildpath in front of it names, so a reference to a target of the graph is reported only if the
buildpath of its own directory names none. That is so for the root of the repository, whose
buildpath is empty: every target that is declared there is reported.
-/

namespace Monorepo

/-! ## The directory in an id -/

theorem Target.dropRootMark_append (cs ds : List Char) :
    dropRootMark (cs ++ ':' :: ds) = dropRootMark cs ++ ':' :: ds := by
  match cs with
  | [] => rfl
  | [c] => by_cases hc : c = '/' <;> simp [dropRootMark, hc]
  | c :: c' :: cs =>
    by_cases hc : c = '/'
    · by_cases hc' : c' = '/'
      · subst hc hc'
        rfl
      · simp [dropRootMark, hc']
    · simp [dropRootMark, hc]

/-- An id names what the buildpath in front of its name does. -/
theorem Target.buildpathOf_append (buildpath name : String) :
    buildpathOf (buildpath ++ ":" ++ name) = buildpathOf buildpath := by
  have hchars : (buildpath ++ ":" ++ name).toList = buildpath.toList ++ ':' :: name.toList := by
    simp
  have htake (cs ds : List Char) :
      (cs ++ ':' :: ds).takeWhile (· != ':') = cs.takeWhile (· != ':') := by
    induction cs with
    | nil => simp
    | cons c cs ih => by_cases hc : c = ':' <;> simp [hc, ih]
  unfold buildpathOf splitReference
  rw [hchars, dropRootMark_append]
  dsimp only
  rw [htake]

theorem IdOf.buildpathOf_eq {b id : String} (h : IdOf b id) :
    Target.buildpathOf id = Target.buildpathOf b := by
  rcases h with rfl | ⟨name, rfl⟩
  · rfl
  · exact Target.buildpathOf_append b name

/-! ## The root target of a descriptor -/

/-- The root target of a directory refers to all its other targets. -/
structure Descriptor.Rooted (buildpath : String) (d : Descriptor) : Prop where
  /-- The root target is there. -/
  root : ∃ target, (buildpath, target) ∈ d.targets ∧
    target.dependencies = d.declared.map Target.id
  /-- Besides it there are the declared targets. -/
  keys : ∀ key, key ∈ d.targets.keys ↔ key = buildpath ∨ key ∈ d.declared.map Target.id
  /-- All ids are of the directory. -/
  ids : ∀ key ∈ d.targets.keys, IdOf buildpath key

theorem Descriptor.rooted_assemble (buildpath : String) (calls : List Script.TargetCall)
    (warnings : List Script.Warning) : Rooted buildpath (assemble buildpath calls warnings) := by
  obtain ⟨ids, hreflects⟩ := (Assembly.reflects_empty buildpath).foldl_record calls
  have hgood := good_assemble buildpath calls warnings
  have hdeclared := hreflects.declaredIds_finish warnings
  refine ⟨⟨.root buildpath ids.eraseDups, ?_, hdeclared.symm⟩, fun key => ?_, hgood.ids⟩
  · exact hgood.ascending.get?_eq_some_iff.mp (hreflects.root?_finish warnings)
  · exact (hreflects.keys_finish warnings).mem_iff.trans (by rw [← hdeclared, List.mem_cons]; rfl)

theorem Cache.Reachable.rooted_view {cache : Cache} (h : cache.Reachable) {disk : Disk}
    {b : String} {d : Descriptor} (hview : cache.view disk b = .ok d) : d.Rooted b := by
  obtain ⟨disk', hparse⟩ := h.exists_parse_eq_view disk b
  obtain ⟨calls, warnings, rfl⟩ := DescriptorSource.parse_eq_ok (hparse.trans hview)
  exact Descriptor.rooted_assemble b calls warnings

theorem DescriptorSource.parse_of_read {source : DescriptorSource} {disk : Disk}
    {b path text : String} (hpath : source.descriptorPath b = path)
    (hread : disk.read path = .ok text) : source.parse disk b = source.parseText b path text := by
  unfold parse
  rw [hpath]
  dsimp only
  rw [hread]

theorem Cache.view_new (source : DescriptorSource) (disk : Disk) (b : String) :
    (new source).view disk b = source.parse disk b := by
  have hnew : (new source).get? b = none := rfl
  rw [view, hnew]
  exact Option.getD_none

/-! ## What a resolution collects -/

theorem Table.mem_keys_setAll {α : Type} (rows table : Table α) {key : String} :
    key ∈ (setAll rows table).keys ↔ key ∈ table.keys ∨ key ∈ rows.keys := by
  induction rows generalizing table with
  | nil => simp [setAll]
  | cons row rows ih =>
    refine (ih (table.set row.1 row.2)).trans ?_
    rw [mem_keys_set, keys_cons, List.mem_cons, or_comm (a := key = row.1), or_assoc]

namespace Resolution

variable {look : String → Parsed}

/-- The ids and the unresolved references that a resolution has collected are those of the visited
    directories, whether or not some of them have an id in common. -/
structure Collects (look : String → Parsed) (visited : List String) (g : DependencyGraph) :
    Prop where
  /-- The ids. -/
  mem_keys : ∀ id, id ∈ g.targets.keys ↔
    ∃ b ∈ visited, ∃ d, look b = .ok d ∧ id ∈ d.targets.keys
  /-- The unresolved references. -/
  mem_unresolved : ∀ u, u ∈ g.unresolved ↔ ∃ b ∈ visited, Dangles look b u

variable (look) in
theorem mem_keys_note (r : Resolution) (b id : String) :
    id ∈ (r.note b (look b)).graph.targets.keys ↔
      id ∈ r.graph.targets.keys ∨ ∃ d, look b = .ok d ∧ id ∈ d.targets.keys := by
  cases look b with
  | ok d =>
    rw [note_ok_targets, Table.mem_keys_setAll]
    simp
  | error e => simp [note]

theorem Collects.surveyWave {visited : List String} {r : Resolution}
    (h : Collects look visited r.graph) (cursor : Names) :
    Collects look (visited ++ cursor) (r.surveyWave look cursor).graph where
  mem_keys id := by
    refine (mem_foldl (fun r => r.graph.targets.keys)
      (mem_keys_note look) cursor { r with discovered := [] } id).trans ?_
    simp only [h.mem_keys, List.mem_append, or_and_right, exists_or]
  mem_unresolved u := by
    refine (mem_foldl (fun r => r.graph.unresolved) (mem_unresolved_note look) cursor
      { r with discovered := [] } u).trans ?_
    simp only [h.mem_unresolved, List.mem_append, or_and_right, exists_or]

theorem Collects.survey {r : Resolution} (h : Collects look r.graph.visited r.graph) (depth : Nat)
    (visited : List String) (cursor : Names) :
    let g := (survey look depth visited cursor r).graph
    Collects look g.visited g := by
  have hwave (r : Resolution) (cursor : Names) (h : Collects look r.graph.visited r.graph) :
      Collects look (r.surveyWave look cursor).graph.visited (r.surveyWave look cursor).graph := by
    have hvisited : (r.surveyWave look cursor).graph.visited = r.graph.visited ++ cursor := by
      rw [DependencyGraph.visited, surveyWave_levels, List.flatten_append, List.flatten_singleton]
      rfl
    rw [hvisited]
    exact h.surveyWave cursor
  induction depth generalizing visited cursor r with
  | zero =>
    cases cursor with
    | nil => exact h
    | cons b bs => exact hwave r (b :: bs) h
  | succ depth ih =>
    cases cursor with
    | nil => exact h
    | cons b bs => exact ih (hwave r (b :: bs) h) _ _

end Resolution

namespace Repository

open Resolution (Collects)

variable {r : Repository} {disk : Disk} {starts : List String} {depth : Nat} {g : DependencyGraph}

theorem collects_of_resolve (hg : (r.resolve disk starts depth).1 = .ok g) :
    Collects (r.cache.view disk) g.visited g := by
  unfold resolve at hg
  split at hg
  · cases hg
  · rw [Cache.resolve_eq] at hg
    obtain rfl := Except.ok.inj hg
    refine Collects.survey ⟨?_, ?_⟩ depth [] (.ofList starts)
    · simp [DependencyGraph.empty, DependencyGraph.visited]
    · simp [DependencyGraph.empty, DependencyGraph.visited]

section Collected

variable {b : String} {d : Descriptor} (h : Collects (r.cache.view disk) g.visited g)
  (hrooted : d.Rooted b) (hb : b ∈ g.visited) (hd : r.cache.view disk b = .ok d)
  (hempty : Target.buildpathOf b = "")
include h hrooted hb hd hempty

/-- A target is reported if it is declared in a directory whose buildpath names none. -/
theorem unresolved_of_declared {target : Target} (htarget : target ∈ d.declared) :
    ⟨target.id, b⟩ ∈ g.unresolved ∧ target.id ∈ g.targets.keys := by
  have hid := List.mem_map_of_mem (f := Target.id) htarget
  have hkey : target.id ∈ d.targets.keys := (hrooted.keys target.id).mpr (Or.inr hid)
  have hnone : Target.buildpathOf target.id = "" :=
    (hrooted.ids target.id hkey).buildpathOf_eq.trans hempty
  obtain ⟨root, hroot, hdependencies⟩ := hrooted.root
  refine ⟨(h.mem_unresolved _).mpr ⟨b, hb, hnone, d, hd, root, hroot, ?_⟩,
    (h.mem_keys target.id).mpr ⟨b, hb, d, hd, hkey⟩⟩
  rw [hdependencies]
  exact hid

/-- A reference to the root target of such a directory is reported. -/
theorem unresolved_of_mem_dependencies {p id : String} {d' : Descriptor} {target : Target}
    (hp : p ∈ g.visited) (hd' : r.cache.view disk p = .ok d') (htarget : (id, target) ∈ d'.targets)
    (hmem : b ∈ target.dependencies) : ⟨b, id⟩ ∈ g.unresolved ∧ b ∈ g.targets.keys := by
  have hkey : b ∈ d.targets.keys := (hrooted.keys b).mpr (Or.inl rfl)
  exact ⟨(h.mem_unresolved _).mpr ⟨p, hp, hempty, d', hd', target, htarget, hmem⟩,
    (h.mem_keys b).mpr ⟨b, hb, d, hd, hkey⟩⟩

end Collected

/-- **Which targets of a graph are reported as unresolved.** Whatever the files, the starting
    directories and the depth are, a reference to a target of the graph is reported only if the
    directory of the target is a visited one whose buildpath names no directory, as that of the
    root; and such a directory has a target that is reported as soon as it declares any target, or a
    visited target refers to its root target. -/
theorem resolve_unresolved_iff (r : Repository) (disk : Disk) (starts : List String) (depth : Nat)
    (hcache : r.cache.Reachable) {g : DependencyGraph}
    (hg : (r.resolve disk starts depth).1 = .ok g) :
    (∃ u ∈ g.unresolved, u.reference ∈ g.targets.keys) ↔
      ∃ b ∈ g.visited, Target.buildpathOf b = "" ∧ ∃ d, r.cache.view disk b = .ok d ∧
        (d.declared ≠ [] ∨ ∃ p ∈ g.visited, ∃ d', r.cache.view disk p = .ok d' ∧
          ∃ row ∈ d'.targets, b ∈ row.2.dependencies) := by
  have h := collects_of_resolve hg
  constructor
  · rintro ⟨u, hu, hkey⟩
    obtain ⟨p, hp, hnone, d', hd', target, htarget, href⟩ := (h.mem_unresolved u).mp hu
    obtain ⟨b, hb, d, hd, hid⟩ := (h.mem_keys u.reference).mp hkey
    have hrooted := hcache.rooted_view hd
    refine ⟨b, hb, (hrooted.ids _ hid).buildpathOf_eq.symm.trans hnone, d, hd, ?_⟩
    rcases (hrooted.keys _).mp hid with hroot | hdeclared
    · exact Or.inr ⟨p, hp, d', hd', (u.declaredIn, target), htarget, hroot ▸ href⟩
    · exact Or.inl fun hnil => by rw [hnil] at hdeclared; cases hdeclared
  · rintro ⟨b, hb, hempty, d, hd, hcase⟩
    have hrooted := hcache.rooted_view hd
    rcases hcase with hdeclared | ⟨p, hp, d', hd', ⟨id, target⟩, htarget, hmem⟩
    · obtain ⟨target, htarget⟩ := List.exists_mem_of_ne_nil _ hdeclared
      exact ⟨_, unresolved_of_declared h hrooted hb hd hempty htarget⟩
    · exact ⟨_, unresolved_of_mem_dependencies h hrooted hb hd hempty hp hd' htarget hmem⟩

/-! ## A descriptor in the root -/

/-- A target, and one that refers to it in the same descriptor. -/
def rootBuild : List Char := "target(name='a')\ntarget(name='b', dependencies=[':a'])\n".toList

/-- A disk with this descriptor in the root of a repository. -/
def rootBuildDisk : Disk :=
  ⟨.directory [("r", .directory [("BUILD", .file (.text (.ofList rootBuild)))])], "/r"⟩

/-- The repository on that disk. -/
def rootBuildRepository : Repository := ⟨"/r", {}, .new (.ofConfig "/r" {}), false⟩

theorem declared_rootBuild : ∃ d, rootBuildRepository.cache.view rootBuildDisk "" = .ok d ∧
    d.declared.map Target.id = [":a", ":b"] := by
  have hpath : (DescriptorSource.ofConfig "/r" {}).descriptorPath "" = "/r/BUILD" := rfl
  have hread : rootBuildDisk.read "/r/BUILD" = .ok (.ofList rootBuild) := rfl
  have hview : rootBuildRepository.cache.view rootBuildDisk "" =
      (DescriptorSource.ofConfig "/r" {}).parseText "" "/r/BUILD" (.ofList rootBuild) :=
    (Cache.view_new _ rootBuildDisk "").trans (DescriptorSource.parse_of_read hpath hread)
  have hruns : ((DescriptorSource.ofConfig "/r" {}).parseText "" "/r/BUILD"
      (.ofList rootBuild)).toOption.any (fun d => d.declared.map Target.id == [":a", ":b"]) =
        true := by
    unfold DescriptorSource.parseText
    rw [Script.parseScript_ofList]
    decide +kernel
  rw [hview]
  cases hparse : (DescriptorSource.ofConfig "/r" {}).parseText "" "/r/BUILD"
      (.ofList rootBuild) with
  | error e =>
    rw [hparse] at hruns
    cases hruns
  | ok d =>
    rw [hparse] at hruns
    exact ⟨d, rfl, beq_iff_eq.mp hruns⟩

theorem resolve_rootBuild : ∃ g, (rootBuildRepository.resolve rootBuildDisk [""] 0).1 = .ok g ∧
    "" ∈ g.visited := by
  let look := rootBuildRepository.cache.view rootBuildDisk
  have hgood : ∀ b d, look b = .ok d → d.Good b := fun b d hd =>
    Cache.Reachable.good_view (.new (.ofConfig "/r" {})) hd
  have hsurvey : IsSurvey look [""] 0
      (.survey rootBuildRepository.cache.source look [""] 0) :=
    DependencyGraph.isSurvey_survey _ hgood (by simp) 0
  have hstart : AtDistance look [""] 0 "" := ⟨.start (by simp), fun m hm => by omega⟩
  exact ⟨_, resolve_eq_survey (Or.inl rfl) rfl 0,
    (hsurvey.mem_visited "").mpr ⟨0, Nat.le_refl 0, hstart⟩⟩

theorem resolve_unresolved_iff_rootBuild :
    ∃ g, (rootBuildRepository.resolve rootBuildDisk [""] 0).1 = .ok g ∧
      ∃ u ∈ g.unresolved, u.reference ∈ g.targets.keys := by
  obtain ⟨g, hg, hroot⟩ := resolve_rootBuild
  obtain ⟨d, hd, hids⟩ := declared_rootBuild
  have hdeclared : d.declared ≠ [] := by
    intro hnil
    rw [hnil] at hids
    cases hids
  exact ⟨g, hg, (resolve_unresolved_iff rootBuildRepository rootBuildDisk [""] 0 (.new _) hg).mpr
    ⟨"", hroot, rfl, d, hd, Or.inl hdeclared⟩⟩

/-- A target in the root is reported as one that its root target refers to in vain, and is there. -/
theorem resolve_reports_rootBuild :
    ∃ g, (rootBuildRepository.resolve rootBuildDisk [""] 0).1 = .ok g ∧
      ⟨":a", ""⟩ ∈ g.unresolved ∧ ":a" ∈ g.targets.keys := by
  obtain ⟨g, hg, hroot⟩ := resolve_rootBuild
  obtain ⟨d, hd, hids⟩ := declared_rootBuild
  have hcache : rootBuildRepository.cache.Reachable := .new _
  have hmem : ":a" ∈ d.declared.map Target.id := by
    rw [hids]
    exact List.mem_cons_self
  obtain ⟨target, htarget, hid⟩ := List.mem_map.mp hmem
  have hreported := unresolved_of_declared (collects_of_resolve hg) (hcache.rooted_view hd) hroot
    hd rfl htarget
  rw [hid] at hreported
  exact ⟨g, hg, hreported⟩

end Repository

end Monorepo
