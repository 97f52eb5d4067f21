import Monorepo.Repository
import Monorepo.Proofs.Survey

/-!
# The waves of a resolution

A directory refers to another one when its descriptor has a target with a reference to it. The waves
of a resolution are the layers of this graph by distance from the starting directories, whatever
cycles and failing directories it has: wave `i` holds the directories at distance `i`, and the
resolution ends with the given depth or in front of the first empty layer. Everything else that a
resolution finds is said of the visited directories one by one.

The walk is a survey (`Resolution.survey`), in which every directory has the descriptor that `look`
says; a cache only decides what that is.
-/

namespace Monorepo

section Distance

variable (look : String → Parsed) (starts : List String)

/-- `p` has a descriptor with a target that refers to the directory `q`. -/
def Refers (p q : String) : Prop :=
  q ≠ "" ∧ ∃ d, look p = .ok d ∧ ∃ row ∈ d.targets, ∃ reference ∈ row.2.dependencies,
    Target.buildpathOf reference = q

/-- A directory to which `n` references lead from a starting one. -/
inductive Reaches : Nat → String → Prop
  /-- A starting directory. -/
  | start {b : String} (h : b ∈ starts) : Reaches 0 b
  /-- One reference further. -/
  | refer {n : Nat} {p q : String} (h : Reaches n p) (hr : Refers look p q) : Reaches (n + 1) q

/-- `n` is the least number of references that lead to a directory. -/
def AtDistance (n : Nat) (b : String) : Prop :=
  Reaches look starts n b ∧ ∀ m < n, ¬ Reaches look starts m b

variable {look starts}

theorem AtDistance.unique {i j : Nat} {b : String} (hi : AtDistance look starts i b)
    (hj : AtDistance look starts j b) : i = j := by
  rcases Nat.lt_trichotomy i j with h | h | h
  · exact absurd hi.1 (hj.2 i h)
  · exact h
  · exact absurd hj.1 (hi.2 j h)

theorem Reaches.exists_atDistance {n : Nat} {b : String} (h : Reaches look starts n b) :
    ∃ m ≤ n, AtDistance look starts m b := by
  induction n using Nat.strongRecOn with
  | _ n ih =>
    by_cases hless : ∃ m < n, Reaches look starts m b
    · obtain ⟨m, hm, hreach⟩ := hless
      obtain ⟨k, hk, hat⟩ := ih m hm hreach
      exact ⟨k, by omega, hat⟩
    · exact ⟨n, Nat.le_refl n, h, fun m hm hreach => hless ⟨m, hm, hreach⟩⟩

/-- A directory is referred to from one step nearer. -/
theorem AtDistance.exists_refers {n : Nat} {q : String} (h : AtDistance look starts (n + 1) q) :
    ∃ p, AtDistance look starts n p ∧ Refers look p q := by
  obtain ⟨hreach, hleast⟩ := h
  cases hreach with
  | refer hp hr =>
    refine ⟨_, ⟨hp, fun m hm hless => ?_⟩, hr⟩
    exact hleast (m + 1) (by omega) (.refer hless hr)

/-- Behind an empty layer there are only empty ones. -/
theorem AtDistance.exists_nearer {n m : Nat} {b : String} (h : AtDistance look starts n b)
    (hm : m ≤ n) : ∃ b, AtDistance look starts m b := by
  induction n generalizing b with
  | zero => exact ⟨b, by rwa [Nat.le_zero.mp hm]⟩
  | succ n ih =>
    rcases Nat.lt_or_eq_of_le hm with hlt | rfl
    · obtain ⟨p, hp, -⟩ := h.exists_refers
      exact ih hp (by omega)
    · exact ⟨b, h⟩

/-- No colon is in a directory that is reached from directories without one. -/
theorem Reaches.colon_not_mem {n : Nat} {b : String} (h : Reaches look starts n b)
    (hstarts : ∀ s ∈ starts, ':' ∉ s.toList) : ':' ∉ b.toList := by
  cases h with
  | start h => exact hstarts b h
  | refer _ hr =>
    obtain ⟨-, d, -, row, -, reference, -, rfl⟩ := hr
    exact Target.colon_not_mem_buildpathOf reference

end Distance

/-! ## What a visit takes down -/

/-- A target of the directory `b` has a reference that names no directory. -/
def Dangles (look : String → Parsed) (b : String) (u : UnresolvedReference) : Prop :=
  Target.buildpathOf u.reference = "" ∧ ∃ d, look b = .ok d ∧ ∃ target,
    (u.declaredIn, target) ∈ d.targets ∧ u.reference ∈ target.dependencies

/-- A directory without a descriptor, and why it has none. -/
def failureOf (look : String → Parsed) (b : String) : Option (String × DescriptorError) :=
  match look b with
  | .ok _ => none
  | .error e => some (b, e)

namespace Resolution

/-- The members of a list to which the steps of a fold only add. -/
theorem mem_foldl {α β : Type} (items : Resolution → List β) {f : Resolution → α → Resolution}
    {Adds : α → β → Prop} (hf : ∀ r a x, x ∈ items (f r a) ↔ x ∈ items r ∨ Adds a x)
    (as : List α) (r : Resolution) (x : β) :
    x ∈ items (as.foldl f r) ↔ x ∈ items r ∨ ∃ a ∈ as, Adds a x := by
  induction as generalizing r with
  | nil => simp
  | cons a as ih =>
    rw [List.foldl_cons, ih, hf, or_assoc]
    simp only [List.mem_cons, exists_eq_or_imp]

theorem mem_discovered_follow (id : String) (r : Resolution) (reference q : String) :
    q ∈ (follow id r reference).discovered ↔
      q ∈ r.discovered ∨ q ≠ "" ∧ Target.buildpathOf reference = q := by
  unfold follow
  dsimp only
  split
  · rename_i hempty
    have hb := String.isEmpty_iff.mp hempty
    constructor
    · exact Or.inl
    · rintro (h | ⟨hq, rfl⟩)
      · exact h
      · exact absurd hb hq
  · rename_i hne
    rw [Names.mem_insert]
    constructor
    · rintro (rfl | h)
      · exact Or.inr ⟨fun h => hne (String.isEmpty_iff.mpr h), rfl⟩
      · exact Or.inl h
    · rintro (h | ⟨-, rfl⟩)
      · exact Or.inr h
      · exact Or.inl rfl

theorem ascending_discovered_note {r : Resolution} (h : r.discovered.Ascending) (b : String)
    (parsed : Parsed) : (r.note b parsed).discovered.Ascending := by
  cases parsed with
  | ok d =>
    refine List.foldlRecOn (motive := fun r => r.discovered.Ascending) d.targets addTarget h
      fun r hr row _ => ?_
    refine List.foldlRecOn (motive := fun r => r.discovered.Ascending) row.2.dependencies
      (follow row.1) hr fun r hr reference _ => ?_
    unfold follow
    dsimp only
    split
    · exact hr
    · exact hr.insert (Target.buildpathOf reference)
  | error e => exact h

theorem mem_noteUnresolved (g : DependencyGraph) (u v : UnresolvedReference) :
    v ∈ (g.noteUnresolved u).unresolved ↔ v ∈ g.unresolved ∨ v = u := by
  unfold DependencyGraph.noteUnresolved
  split
  · rename_i hmem
    constructor
    · exact Or.inl
    · rintro (h | rfl)
      · exact h
      · exact List.contains_iff_mem.mp hmem
  · simp

theorem mem_unresolved_follow (id : String) (r : Resolution) (reference : String)
    (u : UnresolvedReference) :
    u ∈ (follow id r reference).graph.unresolved ↔
      u ∈ r.graph.unresolved ∨ Target.buildpathOf reference = "" ∧ u = ⟨reference, id⟩ := by
  unfold follow
  dsimp only
  split
  · rename_i hempty
    rw [mem_noteUnresolved]
    simp [String.isEmpty_iff.mp hempty]
  · rename_i hne
    have hb : Target.buildpathOf reference ≠ "" := fun h => hne (String.isEmpty_iff.mpr h)
    simp [hb]

theorem mem_discovered_note (look : String → Parsed) (r : Resolution) (b q : String) :
    q ∈ (r.note b (look b)).discovered ↔ q ∈ r.discovered ∨ Refers look b q := by
  have hrow (r : Resolution) (row : String × Target) (q : String) :
      q ∈ (addTarget r row).discovered ↔ q ∈ r.discovered ∨
        ∃ reference ∈ row.2.dependencies, q ≠ "" ∧ Target.buildpathOf reference = q :=
    mem_foldl Resolution.discovered (mem_discovered_follow row.1) row.2.dependencies r q
  unfold Refers
  cases look b with
  | ok d =>
    refine (mem_foldl Resolution.discovered hrow d.targets r q).trans (or_congr_right ?_)
    constructor
    · rintro ⟨row, hmem, reference, href, hq, hb⟩
      exact ⟨hq, d, rfl, row, hmem, reference, href, hb⟩
    · rintro ⟨hq, d', hd, row, hmem, reference, href, hb⟩
      cases hd
      exact ⟨row, hmem, reference, href, hq, hb⟩
  | error e =>
    constructor
    · exact Or.inl
    · rintro (h | ⟨-, d, hd, -⟩)
      · exact h
      · cases hd

theorem mem_unresolved_note (look : String → Parsed) (r : Resolution) (b : String)
    (u : UnresolvedReference) :
    u ∈ (r.note b (look b)).graph.unresolved ↔ u ∈ r.graph.unresolved ∨ Dangles look b u := by
  have hrow (r : Resolution) (row : String × Target) (u : UnresolvedReference) :
      u ∈ (addTarget r row).graph.unresolved ↔ u ∈ r.graph.unresolved ∨
        ∃ reference ∈ row.2.dependencies,
          Target.buildpathOf reference = "" ∧ u = ⟨reference, row.1⟩ :=
    mem_foldl (fun r => r.graph.unresolved) (mem_unresolved_follow row.1)
      row.2.dependencies r u
  unfold Dangles
  cases look b with
  | ok d =>
    refine (mem_foldl (fun r => r.graph.unresolved) hrow d.targets r u).trans
      (or_congr_right ?_)
    constructor
    · rintro ⟨⟨id, target⟩, hmem, reference, href, hb, rfl⟩
      exact ⟨hb, d, rfl, target, hmem, href⟩
    · rintro ⟨hb, d', hd, target, hmem, href⟩
      cases hd
      exact ⟨(u.declaredIn, target), hmem, u.reference, href, hb, rfl⟩
  | error e =>
    constructor
    · exact Or.inl
    · rintro (h | ⟨-, d, hd, -⟩)
      · exact h
      · cases hd

theorem nodup_noteUnresolved {g : DependencyGraph} (h : g.unresolved.Nodup)
    (u : UnresolvedReference) : (g.noteUnresolved u).unresolved.Nodup := by
  unfold DependencyGraph.noteUnresolved
  split
  · exact h
  · rename_i hnew
    refine List.nodup_append.mpr ⟨h, List.pairwise_singleton _ u, ?_⟩
    rintro v hv w hw rfl
    rw [List.mem_singleton.mp hw] at hv
    exact hnew (List.contains_iff_mem.mpr hv)

theorem nodup_unresolved_note {r : Resolution} (h : r.graph.unresolved.Nodup) (b : String)
    (parsed : Parsed) : (r.note b parsed).graph.unresolved.Nodup := by
  cases parsed with
  | ok d =>
    refine List.foldlRecOn (motive := fun r => r.graph.unresolved.Nodup) d.targets addTarget h
      fun r hr row _ => ?_
    refine List.foldlRecOn (motive := fun r => r.graph.unresolved.Nodup) row.2.dependencies
      (follow row.1) hr fun r hr reference _ => ?_
    unfold follow
    dsimp only
    split
    · exact nodup_noteUnresolved hr ⟨reference, row.1⟩
    · exact hr
  | error e => exact h

theorem follow_targets (id : String) (r : Resolution) (reference : String) :
    (follow id r reference).graph.targets = r.graph.targets := by
  unfold follow DependencyGraph.noteUnresolved
  dsimp only
  split
  · split <;> rfl
  · rfl

theorem follow_failures (id : String) (r : Resolution) (reference : String) :
    (follow id r reference).graph.failures = r.graph.failures := by
  unfold follow DependencyGraph.noteUnresolved
  dsimp only
  split
  · split <;> rfl
  · rfl

theorem addTarget_targets (r : Resolution) (row : String × Target) :
    (addTarget r row).graph.targets = Table.set row.1 row.2 r.graph.targets :=
  congrArg (Table.set row.1 row.2)
    (foldl_unchanged (fun r => r.graph.targets) (follow_targets row.1) row.2.dependencies r)

theorem note_ok_targets (r : Resolution) (b : String) (d : Descriptor) :
    (r.note b (.ok d)).graph.targets = Table.setAll d.targets r.graph.targets :=
  (List.foldl_hom (fun r => r.graph.targets) fun r row => (addTarget_targets r row).symm).symm

theorem addTarget_failures (r : Resolution) (row : String × Target) :
    (addTarget r row).graph.failures = r.graph.failures :=
  foldl_unchanged (fun r => r.graph.failures) (follow_failures row.1) row.2.dependencies r

theorem note_failures (look : String → Parsed) (r : Resolution) (b : String) :
    (r.note b (look b)).graph.failures = r.graph.failures ++ (failureOf look b).toList := by
  unfold failureOf
  cases look b with
  | ok d =>
    rw [Option.toList_none, List.append_nil]
    exact foldl_unchanged (fun r => r.graph.failures) addTarget_failures d.targets r
  | error e => rfl

end Resolution

/-! ## What a graph says of the visited directories -/

/-- What a graph says of the directories that were visited, in the order of the visits. -/
structure Accounts (look : String → Parsed) (visited : List String) (g : DependencyGraph) :
    Prop where
  /-- No id has two rows. -/
  targets_ascending : g.targets.Ascending
  /-- The targets are those of all descriptors. -/
  mem_targets : ∀ row, row ∈ g.targets ↔ ∃ b ∈ visited, ∃ d, look b = .ok d ∧ row ∈ d.targets
  /-- Every directory without a descriptor is noted once. -/
  failures : g.failures = visited.filterMap (failureOf look)
  /-- No reference is noted twice. -/
  unresolved_nodup : g.unresolved.Nodup
  /-- The unresolved references are those of all descriptors. -/
  mem_unresolved : ∀ u, u ∈ g.unresolved ↔ ∃ b ∈ visited, Dangles look b u

theorem accounts_empty (look : String → Parsed) : Accounts look [] .empty where
  targets_ascending := List.Pairwise.nil
  mem_targets := by simp [DependencyGraph.empty]
  failures := rfl
  unresolved_nodup := List.Pairwise.nil
  mem_unresolved := by simp [DependencyGraph.empty]

section Visits

variable {look : String → Parsed} {visited : List String} {r : Resolution}
variable (hgood : ∀ b d, look b = .ok d → d.Good b)
include hgood

/-- No target of a new directory has the id of one that is there already. -/
theorem Accounts.key_not_mem (h : Accounts look visited r.graph)
    (hcolon : ∀ b ∈ visited, ':' ∉ b.toList) {b : String} (hnew : b ∉ visited)
    (hb : ':' ∉ b.toList) {d : Descriptor} (hd : look b = .ok d) :
    ∀ id ∈ d.targets.keys, id ∉ r.graph.targets.keys := by
  intro id hid hmem
  obtain ⟨target, hrow⟩ := Table.mem_keys.mp hmem
  obtain ⟨b', hb', d', hd', hrow'⟩ := (h.mem_targets (id, target)).mp hrow
  have hown := (hgood b d hd).ids id hid
  have hown' := (hgood b' d' hd').ids id (Table.mem_keys.mpr ⟨target, hrow'⟩)
  have heq := hown.unique hown' hb (hcolon b' hb')
  exact hnew (heq ▸ hb')

theorem Accounts.note (h : Accounts look visited r.graph)
    (hcolon : ∀ b ∈ visited, ':' ∉ b.toList) {b : String} (hnew : b ∉ visited)
    (hb : ':' ∉ b.toList) : Accounts look (visited ++ [b]) (r.note b (look b)).graph where
  targets_ascending := by
    cases hd : look b with
    | ok d =>
      rw [Resolution.note_ok_targets]
      exact h.targets_ascending.setAll d.targets
    | error e => exact h.targets_ascending
  mem_targets row := by
    simp only [List.mem_append, List.mem_singleton, or_and_right, exists_or, exists_eq_left]
    rw [← h.mem_targets row]
    cases hd : look b with
    | ok d =>
      rw [Resolution.note_ok_targets]
      refine (h.targets_ascending.mem_setAll (hgood b d hd).ascending
        (h.key_not_mem hgood hcolon hnew hb hd)).trans (or_congr_right ?_)
      simp
    | error e => simp [Resolution.note]
  failures := by
    rw [Resolution.note_failures, h.failures, List.filterMap_append, List.filterMap_cons]
    cases failureOf look b <;> rfl
  unresolved_nodup := Resolution.nodup_unresolved_note h.unresolved_nodup b (look b)
  mem_unresolved u := by
    rw [Resolution.mem_unresolved_note, h.mem_unresolved u]
    simp only [List.mem_append, List.mem_singleton, or_and_right, exists_or, exists_eq_left]

theorem Accounts.foldl_note (h : Accounts look visited r.graph) {bs : List String}
    (hcolon : ∀ b ∈ visited ++ bs, ':' ∉ b.toList) (hnodup : (visited ++ bs).Nodup) :
    Accounts look (visited ++ bs) (bs.foldl (fun r b => r.note b (look b)) r).graph := by
  induction bs generalizing visited r with
  | nil => rwa [List.append_nil]
  | cons b bs ih =>
    have hsplit : visited ++ b :: bs = (visited ++ [b]) ++ bs := by simp
    have hnew : b ∉ visited := fun hmem =>
      (List.nodup_append.mp hnodup).2.2 b hmem b List.mem_cons_self rfl
    rw [hsplit] at hcolon hnodup ⊢
    refine ih (h.note hgood (fun b' hb' => hcolon b' (by simp [hb'])) hnew (hcolon b (by simp)))
      hcolon hnodup

end Visits

/-! ## The layers -/

/-- The first so many layers of the graph, in ascending order. -/
structure Layers (look : String → Parsed) (starts : List String) (levels : List Names) : Prop where
  /-- A wave holds the directories at its distance. -/
  mem : ∀ i level, levels[i]? = some level → ∀ b, b ∈ level ↔ AtDistance look starts i b
  /-- A wave is in ascending order. -/
  ascending : ∀ level ∈ levels, level.Ascending
  /-- No wave is empty. -/
  ne_nil : ∀ level ∈ levels, level ≠ []
  /-- No directory is in two waves. -/
  nodup : levels.flatten.Nodup

section Layers

variable {look : String → Parsed} {starts : List String} {levels : List Names}

theorem layers_nil : Layers look starts [] :=
  ⟨by simp, by simp, by simp, List.Pairwise.nil⟩

theorem Layers.mem_flatten (h : Layers look starts levels) (b : String) :
    b ∈ levels.flatten ↔ ∃ i < levels.length, AtDistance look starts i b := by
  rw [List.mem_flatten]
  constructor
  · rintro ⟨level, hlevel, hb⟩
    obtain ⟨i, hi⟩ := List.getElem?_of_mem hlevel
    exact ⟨i, (List.getElem?_eq_some_iff.mp hi).1, (h.mem i level hi b).mp hb⟩
  · rintro ⟨i, hi, hat⟩
    have hget := List.getElem?_eq_getElem hi
    exact ⟨levels[i], List.getElem_mem hi, (h.mem i levels[i] hget b).mpr hat⟩

theorem Layers.snoc (h : Layers look starts levels) {cursor : Names} (hne : cursor ≠ [])
    (hasc : cursor.Ascending) (hcursor : ∀ b, b ∈ cursor ↔ AtDistance look starts levels.length b) :
    Layers look starts (levels ++ [cursor]) where
  mem i level hi b := by
    rcases Nat.lt_trichotomy i levels.length with hlt | rfl | hgt
    · rw [List.getElem?_append_left hlt] at hi
      exact h.mem i level hi b
    · rw [List.getElem?_append_right (Nat.le_refl _), Nat.sub_self] at hi
      cases hi
      exact hcursor b
    · rw [List.getElem?_eq_none (by simp; omega)] at hi
      cases hi
  ascending level hlevel := by
    rcases List.mem_append.mp hlevel with hmem | hmem
    · exact h.ascending level hmem
    · rwa [List.mem_singleton.mp hmem]
  ne_nil level hlevel := by
    rcases List.mem_append.mp hlevel with hmem | hmem
    · exact h.ne_nil level hmem
    · rwa [List.mem_singleton.mp hmem]
  nodup := by
    rw [List.flatten_append, List.flatten_singleton]
    refine List.nodup_append.mpr ⟨h.nodup, hasc.nodup, ?_⟩
    rintro b hb b' hb' rfl
    obtain ⟨i, hi, hat⟩ := (h.mem_flatten b).mp hb
    have := hat.unique ((hcursor b).mp hb')
    omega

end Layers

/-! ## The walk -/

/-- A graph is what a resolution to a given depth has to find: its waves are the layers up to that
    depth, in front of the first empty one, and the rest is said of the visited directories. -/
structure IsSurvey (look : String → Parsed) (starts : List String) (depth : Nat)
    (g : DependencyGraph) : Prop where
  /-- There are at most as many waves as the depth allows. -/
  length_le : g.levels.length ≤ depth + 1
  /-- Within the depth there is a wave for every layer that is not empty. -/
  lt_length_iff : ∀ i ≤ depth, i < g.levels.length ↔ ∃ b, AtDistance look starts i b
  /-- The waves are layers. -/
  layers : Layers look starts g.levels
  /-- The rest is said of the directories of the waves. -/
  accounts : Accounts look g.visited g

namespace Resolution

section Walk

variable {look : String → Parsed} {starts : List String}

theorem mem_discovered_surveyWave (cursor : Names) (r : Resolution) (q : String) :
    q ∈ (r.surveyWave look cursor).discovered ↔ ∃ p ∈ cursor, Refers look p q := by
  refine (mem_foldl Resolution.discovered
    (fun r b q => mem_discovered_note look r b q) cursor { r with discovered := [] } q).trans ?_
  simp

theorem ascending_discovered_surveyWave (cursor : Names) (r : Resolution) :
    (r.surveyWave look cursor).discovered.Ascending :=
  List.foldlRecOn (motive := fun r : Resolution => r.discovered.Ascending) cursor
    (fun (r : Resolution) b => r.note b (look b)) List.Pairwise.nil
    fun _ hr b _ => ascending_discovered_note hr b (look b)

/-- The waves so far are the first layers, and the directories of the next wave make up the next
    layer. -/
structure Underway (look : String → Parsed) (starts : List String) (visited : List String)
    (cursor : Names) (r : Resolution) : Prop where
  /-- The waves so far. -/
  layers : Layers look starts r.graph.levels
  /-- The directories of the waves so far. -/
  accounts : Accounts look r.graph.visited r.graph
  /-- What counts as visited are the directories of the waves so far. -/
  mem_visited : ∀ b, b ∈ visited ↔ b ∈ r.graph.visited
  /-- The next wave is in ascending order. -/
  ascending : cursor.Ascending
  /-- The next wave is the next layer. -/
  mem_cursor : ∀ b, b ∈ cursor ↔ AtDistance look starts r.graph.levels.length b

theorem underway_start (look : String → Parsed) (starts : List String) (cache : Cache) :
    Underway look starts [] (.ofList starts) ⟨cache, .empty, []⟩ where
  layers := layers_nil
  accounts := accounts_empty look
  mem_visited _ := Iff.rfl
  ascending := Names.ascending_ofList starts
  mem_cursor b := by
    rw [Names.mem_ofList]
    constructor
    · exact fun h => ⟨.start h, fun m hm => absurd hm (Nat.not_lt_zero m)⟩
    · rintro ⟨hreach, -⟩
      cases hreach with
      | start h => exact h

variable {visited : List String} {cursor : Names} {r : Resolution}

/-- A layer is what the layer before refers to, less what is visited. -/
theorem Underway.mem_next (h : Underway look starts visited cursor r) (q : String) :
    q ∈ (r.surveyWave look cursor).next (cursor ++ visited) ↔
      AtDistance look starts (r.graph.levels.length + 1) q := by
  have hseen : q ∈ cursor ++ visited ↔
      ∃ i < r.graph.levels.length + 1, AtDistance look starts i q := by
    rw [List.mem_append, h.mem_cursor, h.mem_visited, DependencyGraph.visited,
      h.layers.mem_flatten]
    constructor
    · rintro (hat | ⟨i, hi, hat⟩)
      · exact ⟨_, Nat.lt_succ_self _, hat⟩
      · exact ⟨i, by omega, hat⟩
    · rintro ⟨i, hi, hat⟩
      rcases Nat.lt_or_eq_of_le (Nat.le_of_lt_succ hi) with hlt | rfl
      · exact Or.inr ⟨i, hlt, hat⟩
      · exact Or.inl hat
  have hnext : q ∈ (r.surveyWave look cursor).next (cursor ++ visited) ↔
      (∃ p ∈ cursor, Refers look p q) ∧ q ∉ cursor ++ visited := by
    rw [next, List.mem_filter, mem_discovered_surveyWave]
    simp
  rw [hnext]
  constructor
  · rintro ⟨⟨p, hp, hr⟩, hnew⟩
    refine ⟨.refer ((h.mem_cursor p).mp hp).1 hr, fun m hm hless => hnew ?_⟩
    obtain ⟨i, hi, hat⟩ := hless.exists_atDistance
    exact hseen.mpr ⟨i, by omega, hat⟩
  · intro hat
    obtain ⟨p, hp, hr⟩ := hat.exists_refers
    refine ⟨⟨p, (h.mem_cursor p).mpr hp, hr⟩, fun hmem => ?_⟩
    obtain ⟨i, hi, hat'⟩ := hseen.mp hmem
    have := hat.unique hat'
    omega

section Good

variable (hgood : ∀ b d, look b = .ok d → d.Good b) (hstarts : ∀ s ∈ starts, ':' ∉ s.toList)
include hgood hstarts

theorem Underway.surveyWave (h : Underway look starts visited cursor r) (hne : cursor ≠ []) :
    Underway look starts (cursor ++ visited)
      ((r.surveyWave look cursor).next (cursor ++ visited)) (r.surveyWave look cursor) := by
  have hlayers : Layers look starts (r.graph.levels ++ [cursor]) :=
    h.layers.snoc hne h.ascending h.mem_cursor
  have hvisited : (r.surveyWave look cursor).graph.visited = r.graph.visited ++ cursor := by
    rw [DependencyGraph.visited, surveyWave_levels, List.flatten_append, List.flatten_singleton]
    rfl
  refine ⟨by rwa [surveyWave_levels], ?_, ?_, ?_, ?_⟩
  · -- accounts
    have hnodup : (r.graph.visited ++ cursor).Nodup := by
      have hn := hlayers.nodup
      rwa [List.flatten_append, List.flatten_singleton] at hn
    have hcolon : ∀ b ∈ r.graph.visited ++ cursor, ':' ∉ b.toList := by
      intro b hb
      have hmem : b ∈ (r.graph.levels ++ [cursor]).flatten := by
        rwa [List.flatten_append, List.flatten_singleton]
      obtain ⟨i, -, hat⟩ := (hlayers.mem_flatten b).mp hmem
      exact hat.1.colon_not_mem hstarts
    have hfold := Accounts.foldl_note (r := { r with discovered := [] }) hgood h.accounts hcolon
      hnodup
    rw [hvisited]
    exact ⟨hfold.targets_ascending, hfold.mem_targets, hfold.failures, hfold.unresolved_nodup,
      hfold.mem_unresolved⟩
  · -- visited
    intro b
    rw [hvisited, List.mem_append, List.mem_append, h.mem_visited, or_comm]
  · exact (ascending_discovered_surveyWave cursor r).filter _
  · -- next layer
    intro q
    rw [h.mem_next, surveyWave_levels, List.length_append, List.length_singleton]

/-- A survey goes on for `depth` waves behind the first one, or up to an empty layer. -/
theorem Underway.survey (h : Underway look starts visited cursor r) (depth : Nat) :
    let g := (survey look depth visited cursor r).graph
    Layers look starts g.levels ∧ Accounts look g.visited g ∧
      (g.levels.length = r.graph.levels.length + (depth + 1) ∨
        g.levels.length ≤ r.graph.levels.length + depth ∧
          ∀ b, ¬ AtDistance look starts g.levels.length b) := by
  induction depth generalizing visited cursor r with
  | zero =>
    cases cursor with
    | nil =>
      refine ⟨h.layers, h.accounts, Or.inr ⟨Nat.le_refl _, fun b hat => ?_⟩⟩
      exact absurd ((h.mem_cursor b).mpr hat) List.not_mem_nil
    | cons b bs =>
      have hwave := h.surveyWave hgood hstarts (List.cons_ne_nil b bs)
      refine ⟨hwave.layers, hwave.accounts, Or.inl ?_⟩
      exact (congrArg List.length (surveyWave_levels (b :: bs) r)).trans List.length_append
  | succ depth ih =>
    cases cursor with
    | nil =>
      refine ⟨h.layers, h.accounts, Or.inr ⟨Nat.le_add_right _ _, fun b hat => ?_⟩⟩
      exact absurd ((h.mem_cursor b).mpr hat) List.not_mem_nil
    | cons b bs =>
      have hwave := h.surveyWave hgood hstarts (List.cons_ne_nil b bs)
      obtain ⟨hlayers, haccounts, hlength⟩ := ih hwave
      refine ⟨hlayers, haccounts, ?_⟩
      rw [surveyWave_levels, List.length_append, List.length_singleton] at hlength
      rcases hlength with hlength | ⟨hlength, hempty⟩
      · exact Or.inl (hlength.trans (by omega))
      · exact Or.inr ⟨Nat.le_trans hlength (by omega), hempty⟩

end Good

end Walk

end Resolution

/-- What a survey finds. -/
theorem DependencyGraph.isSurvey_survey (source : DescriptorSource) {look : String → Parsed}
    {starts : List String} (hgood : ∀ b d, look b = .ok d → d.Good b)
    (hstarts : ∀ s ∈ starts, ':' ∉ s.toList) (depth : Nat) :
    IsSurvey look starts depth (.survey source look starts depth) := by
  have hfound := (Resolution.underway_start look starts (.new source)).survey hgood hstarts depth
  unfold DependencyGraph.survey
  generalize (Resolution.survey look depth [] (.ofList starts) ⟨.new source, .empty, []⟩).graph = g
    at hfound ⊢
  obtain ⟨hlayers, haccounts, hlength⟩ := hfound
  change _ = 0 + (depth + 1) ∨ _ ≤ 0 + depth ∧ _ at hlength
  refine ⟨?_, fun i hi => ⟨fun hlt => ?_, fun ⟨b, hat⟩ => ?_⟩, hlayers, haccounts⟩
  · rcases hlength with hlength | ⟨hlength, -⟩
    · exact Nat.le_of_eq (hlength.trans (Nat.zero_add _))
    · exact Nat.le_trans hlength (by omega)
  · obtain ⟨b, hb⟩ := List.exists_mem_of_ne_nil _ (hlayers.ne_nil _ (List.getElem_mem hlt))
    exact ⟨b, (hlayers.mem i _ (List.getElem?_eq_getElem hlt) b).mp hb⟩
  · rcases hlength with hlength | ⟨-, hempty⟩
    · exact Nat.lt_of_le_of_lt hi (by rw [hlength]; omega)
    · refine Nat.lt_of_not_le fun hle => ?_
      obtain ⟨b', hat'⟩ := hat.exists_nearer hle
      exact hempty b' hat'

/-- **Waves are layers.** A repository that is not cancelled resolves any directories without a
    colon to any depth, whatever its cache remembers and whatever is on the disk. -/
theorem Repository.resolve_isSurvey (r : Repository) (disk : Disk) (starts : List String)
    (depth : Nat) (hrunning : r.cancelled = false) (hcache : r.cache.Reachable)
    (hstarts : ∀ s ∈ starts, ':' ∉ s.toList) :
    ∃ g, (r.resolve disk starts depth).1 = .ok g ∧
      IsSurvey (r.cache.view disk) starts depth g := by
  refine ⟨(r.cache.resolve disk starts depth).1, ?_, ?_⟩
  · unfold Repository.resolve
    rw [hrunning]
    rfl
  · rw [Cache.resolve_eq]
    exact DependencyGraph.isSurvey_survey r.cache.source (fun b d hd => hcache.good_view hd)
      hstarts depth

/-- A descriptor that was read, and then removed from the disk, is still what a resolution finds. -/
theorem Repository.resolve_isSurvey_stale :
    let text := "target(name='x', dependencies=['b:y'])\n"
    let disk : Disk := ⟨.directory [("repo", .directory [("a", .directory
      [("BUILD", .file (.text text))])])], "/"⟩
    let cache := ((Cache.new (.ofConfig "/repo" {})).parse disk "a").2
    let r : Repository := ⟨"/repo", {}, cache, false⟩
    ∃ g, (r.resolve ⟨.directory [], "/"⟩ ["a"] 2).1 = .ok g ∧
      IsSurvey (cache.view ⟨.directory [], "/"⟩) ["a"] 2 g := by
  intro text disk cache r
  exact r.resolve_isSurvey ⟨.directory [], "/"⟩ ["a"] 2 rfl (.parse (.new _) disk "a") (by simp)

end Monorepo
