import Monorepo.Proofs.Waves

/-!
# Dependencies by depth

The dependencies of some directories are read off the targets that a resolution has collected, not
off its waves. Both say the same of the graph of references: what a resolution to one depth lists as
dependencies is, apart from the starting directories, what a resolution one wave deeper visits. A
deeper resolution keeps the waves and the dependencies of a shallower one.
-/

namespace Monorepo

theorem Names.Ascending.eq_of_mem_iff {names names' : Names} (h : names.Ascending)
    (h' : names'.Ascending) (hmem : ∀ name, name ∈ names ↔ name ∈ names') : names = names' := by
  have hperm : names.Perm names' := (List.perm_ext_iff_of_nodup h.nodup h'.nodup).mpr hmem
  refine hperm.eq_of_pairwise (fun a b _ _ hab hba => ?_) h h'
  exact absurd (String.lt_trans hab hba) (String.lt_irrefl a)

section Distance

variable {look : String → Parsed} {starts : List String}

/-- One wave further there are the starting directories and what the directories so far refer to. -/
theorem exists_atDistance_succ_iff (depth : Nat) (b : String) :
    (∃ i ≤ depth + 1, AtDistance look starts i b) ↔
      (∃ p, (∃ i ≤ depth, AtDistance look starts i p) ∧ Refers look p b) ∨ b ∈ starts := by
  constructor
  · rintro ⟨i, hi, hat⟩
    cases i with
    | zero =>
      cases hat.1 with
      | start hmem => exact Or.inr hmem
    | succ i =>
      obtain ⟨p, hp, hr⟩ := hat.exists_refers
      exact Or.inl ⟨p, ⟨i, by omega, hp⟩, hr⟩
  · rintro (⟨p, ⟨i, hi, hat⟩, hr⟩ | hmem)
    · obtain ⟨m, hm, hat'⟩ := (Reaches.refer hat.1 hr).exists_atDistance
      exact ⟨m, by omega, hat'⟩
    · have hreach : Reaches look starts 0 b := .start hmem
      obtain ⟨m, hm, hat⟩ := hreach.exists_atDistance
      exact ⟨m, by omega, hat⟩

end Distance

/-- The dependencies that a graph lists are what the visited directories refer to. -/
theorem Accounts.mem_dependencyBuildpaths {look : String → Parsed} {visited : List String}
    {g : DependencyGraph} (h : Accounts look visited g) (b : String) :
    b ∈ g.dependencyBuildpaths ↔ ∃ p ∈ visited, Refers look p b := by
  have hlisted : b ∈ g.dependencyBuildpaths ↔
      b ≠ "" ∧ ∃ row ∈ g.targets, ∃ reference ∈ row.2.dependencies,
        Target.buildpathOf reference = b := by
    unfold DependencyGraph.dependencyBuildpaths Table.values
    rw [Names.mem_ofList, List.mem_filter, List.mem_map, and_comm]
    simp only [List.mem_flatMap, List.mem_map, Bool.not_eq_true', String.isEmpty_eq_false_iff]
    refine and_congr_right fun _ => ?_
    constructor
    · rintro ⟨reference, ⟨target, ⟨row, hrow, rfl⟩, href⟩, hb⟩
      exact ⟨row, hrow, reference, href, hb⟩
    · rintro ⟨row, hrow, reference, href, hb⟩
      exact ⟨reference, ⟨row.2, ⟨row, hrow, rfl⟩, href⟩, hb⟩
  rw [hlisted]
  constructor
  · rintro ⟨hb, row, hrow, reference, href, hq⟩
    obtain ⟨p, hp, d, hd, hmem⟩ := (h.mem_targets row).mp hrow
    exact ⟨p, hp, hb, d, hd, row, hmem, reference, href, hq⟩
  · rintro ⟨p, hp, hb, d, hd, row, hmem, reference, href, hq⟩
    exact ⟨hb, row, (h.mem_targets row).mpr ⟨p, hp, d, hd, hmem⟩, reference, href, hq⟩

namespace IsSurvey

variable {look : String → Parsed} {starts : List String} {depth : Nat} {g near far : DependencyGraph}

theorem mem_visited (h : IsSurvey look starts depth g) (b : String) :
    b ∈ g.visited ↔ ∃ i ≤ depth, AtDistance look starts i b := by
  rw [DependencyGraph.visited, h.layers.mem_flatten]
  constructor
  · rintro ⟨i, hi, hat⟩
    have hlength := h.length_le
    exact ⟨i, by omega, hat⟩
  · rintro ⟨i, hi, hat⟩
    exact ⟨i, (h.lt_length_iff i hi).mpr ⟨b, hat⟩, hat⟩

theorem mem_dependencyBuildpaths (h : IsSurvey look starts depth g) (b : String) :
    b ∈ g.dependencyBuildpaths ↔
      ∃ p, (∃ i ≤ depth, AtDistance look starts i p) ∧ Refers look p b := by
  simp only [h.accounts.mem_dependencyBuildpaths, h.mem_visited]

/-- Dependencies and starting directories are what one more wave visits. -/
theorem mem_visited_succ (hnear : IsSurvey look starts depth near)
    (hfar : IsSurvey look starts (depth + 1) far) (b : String) :
    b ∈ near.dependencyBuildpaths ∨ b ∈ starts ↔ b ∈ far.visited := by
  rw [hnear.mem_dependencyBuildpaths, hfar.mem_visited, exists_atDistance_succ_iff]

theorem dependencyBuildpaths_subset (hnear : IsSurvey look starts depth near)
    (hfar : IsSurvey look starts (depth + 1) far) :
    near.dependencyBuildpaths ⊆ far.dependencyBuildpaths := by
  intro b hb
  obtain ⟨p, ⟨i, hi, hat⟩, hr⟩ := (hnear.mem_dependencyBuildpaths b).mp hb
  exact (hfar.mem_dependencyBuildpaths b).mpr ⟨p, ⟨i, by omega, hat⟩, hr⟩

/-- Both have the layers of one graph, and the nearer one does not have more of them. -/
theorem levels_initial (hnear : IsSurvey look starts depth near)
    (hfar : IsSurvey look starts (depth + 1) far) : near.levels <+: far.levels := by
  refine List.prefix_iff_getElem?.mpr fun i hi => ?_
  have hi' : i < far.levels.length := by
    have hdepth : i ≤ depth := by
      have hlength := hnear.length_le
      omega
    exact (hfar.lt_length_iff i (by omega)).mpr ((hnear.lt_length_iff i hdepth).mp hi)
  have hget := List.getElem?_eq_getElem hi
  have hget' := List.getElem?_eq_getElem hi'
  have heq : near.levels[i] = far.levels[i] := by
    refine (hnear.layers.ascending _ (List.getElem_mem hi)).eq_of_mem_iff
      (hfar.layers.ascending _ (List.getElem_mem hi')) fun b => ?_
    rw [hnear.layers.mem i _ hget, hfar.layers.mem i _ hget']
  rw [hget', heq]

end IsSurvey

/-! ## What a repository answers -/

/-- A survey does not look at the cache that it passes along. -/
theorem DependencyGraph.survey_source (source source' : DescriptorSource)
    (look : String → Parsed) (starts : List String) (depth : Nat) :
    survey source look starts depth = survey source' look starts depth :=
  have hcache := Resolution.survey_withCache look depth [] (.ofList starts)
    ⟨.new source', .empty, []⟩ (.new source)
  (congrArg Resolution.graph hcache).trans rfl

namespace Repository

/-- What is found depends on what the descriptors are, and on nothing else. -/
theorem resolve_eq_survey {r r' : Repository} {disk : Disk} {starts : List String}
    (hrunning : r'.cancelled = false ∨ starts = [])
    (hview : r'.cache.view disk = r.cache.view disk) (depth : Nat) :
    (r'.resolve disk starts depth).1 =
      .ok (.survey r.cache.source (r.cache.view disk) starts depth) := by
  have hgo : (r'.cancelled && !starts.isEmpty) = false := by
    rcases hrunning with h | rfl
    · simp [h]
    · simp
  unfold resolve
  rw [hgo, Cache.resolve_eq, hview]
  exact congrArg Except.ok (DependencyGraph.survey_source _ _ _ _ _)

/-- A resolution on the same disk changes no later answer. -/
theorem view_resolve (r : Repository) (disk : Disk) (starts : List String) (depth : Nat) :
    (r.resolve disk starts depth).2.cache.view disk = r.cache.view disk := by
  unfold resolve
  split
  · rfl
  · rw [Cache.resolve_eq]
    exact Cache.view_askAll r.cache disk _

/-- **One wave deeper.** Take any directories without a colon, any depth and whatever a repository
    remembers. As long as no descriptor changes, the same dependencies, and the same graphs one wave
    apart, are answered at every moment `r'` of the repository: the dependencies together with the
    starting directories are what the deeper resolution visits, they are among the dependencies at
    the next depth, and the waves are the first waves of the deeper resolution. -/
theorem dependencies_by_depth (r : Repository) (disk : Disk) (starts : List String) (depth : Nat)
    (hcache : r.cache.Reachable) (hstarts : ∀ s ∈ starts, ':' ∉ s.toList) :
    ∃ (deps deps' : Names) (near far : DependencyGraph),
      (∀ r' : Repository, r'.cancelled = false ∨ starts = [] →
        r'.cache.view disk = r.cache.view disk →
          (r'.dependencies disk starts depth).1 = .ok deps ∧
          (r'.dependencies disk starts (depth + 1)).1 = .ok deps' ∧
          (r'.resolve disk starts depth).1 = .ok near ∧
          (r'.resolve disk starts (depth + 1)).1 = .ok far) ∧
      (∀ b, b ∈ deps ∨ b ∈ starts ↔ b ∈ far.visited) ∧
      (∀ b ∈ deps, b ∈ deps') ∧ near.levels <+: far.levels := by
  let graph (depth : Nat) : DependencyGraph :=
    .survey r.cache.source (r.cache.view disk) starts depth
  have hsurvey (depth : Nat) : IsSurvey (r.cache.view disk) starts depth (graph depth) :=
    DependencyGraph.isSurvey_survey r.cache.source (fun b d hd => hcache.good_view hd) hstarts depth
  refine ⟨(graph depth).dependencyBuildpaths, (graph (depth + 1)).dependencyBuildpaths,
    graph depth, graph (depth + 1), fun r' hrunning hview => ?_, ?_, ?_, ?_⟩
  · have hresolve (depth : Nat) : (r'.resolve disk starts depth).1 = .ok (graph depth) :=
      resolve_eq_survey hrunning hview depth
    have hdependencies (depth : Nat) :
        (r'.dependencies disk starts depth).1 = .ok (graph depth).dependencyBuildpaths :=
      congrArg (Except.map DependencyGraph.dependencyBuildpaths) (hresolve depth)
    exact ⟨hdependencies depth, hdependencies (depth + 1), hresolve depth, hresolve (depth + 1)⟩
  · exact (hsurvey depth).mem_visited_succ (hsurvey (depth + 1))
  · exact (hsurvey depth).dependencyBuildpaths_subset (hsurvey (depth + 1))
  · exact (hsurvey depth).levels_initial (hsurvey (depth + 1))

/-- Two directories that depend on each other, and a third one that is not there. -/
theorem dependencies_by_depth_cycle :
    let build (text : String) : FileTree := .directory [("BUILD", .file (.text text))]
    let disk : Disk := ⟨.directory [("repo", .directory
      [("a", build "target(name='x', dependencies=['b:y', 'gone:z'])\n"),
        ("b", build "target(name='y', dependencies=['a:x'])\n")])], "/"⟩
    let r : Repository := ⟨"/repo", {}, .new (.ofConfig "/repo" {}), false⟩
    let later := (r.resolve disk ["b"] 3).2
    ∃ (deps deps' : Names) (near far : DependencyGraph),
      ((r.dependencies disk ["a"] 0).1 = .ok deps ∧ (r.resolve disk ["a"] 1).1 = .ok far) ∧
      ((later.dependencies disk ["a"] 1).1 = .ok deps' ∧
        (later.resolve disk ["a"] 0).1 = .ok near) ∧
      (∀ b, b ∈ deps ∨ b ∈ ["a"] ↔ b ∈ far.visited) ∧
      (∀ b ∈ deps, b ∈ deps') ∧ near.levels <+: far.levels := by
  intro build disk r later
  obtain ⟨deps, deps', near, far, hanswers, hmem, hsubset, hinitial⟩ :=
    r.dependencies_by_depth disk ["a"] 0 (.new _) (by simp)
  obtain ⟨hdeps, -, -, hfar⟩ := hanswers r (Or.inl rfl) rfl
  have hlater : later.cache.view disk = r.cache.view disk := r.view_resolve disk ["b"] 3
  obtain ⟨-, hdeps', hnear, -⟩ := hanswers later (Or.inl rfl) hlater
  exact ⟨deps, deps', near, far, ⟨hdeps, hfar⟩, ⟨hdeps', hnear⟩, hmem, hsubset, hinitial⟩

end Repository

end Monorepo
