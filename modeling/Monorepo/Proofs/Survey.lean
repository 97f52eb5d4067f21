import Monorepo.Resolution
import Monorepo.Proofs.Cache

/-!
# Resolution without a cache

A resolution asks its cache and so changes it, but no request changes what another one is answered.
A survey is the same walk with the answers fixed in advance: `look` says what becomes of every
directory, and the cache is passed along untouched. The graph of a resolution is the one that a
survey with the view of the cache finds, and the cache afterwards has been asked for the visited
directories, in the order of the visits.
-/

namespace Monorepo

namespace Resolution

/-- A resolution with another cache. -/
def withCache (r : Resolution) (cache : Cache) : Resolution := { r with cache := cache }

@[simp] theorem withCache_cache (r : Resolution) (cache : Cache) :
    (r.withCache cache).cache = cache := rfl

@[simp] theorem withCache_graph (r : Resolution) (cache : Cache) :
    (r.withCache cache).graph = r.graph := rfl

@[simp] theorem withCache_withCache (r : Resolution) (cache cache' : Cache) :
    (r.withCache cache).withCache cache' = r.withCache cache' := rfl

/-- A fold of steps that do not look at the cache does not look at it either. -/
theorem foldl_withCache {α : Type} {f : Resolution → α → Resolution}
    (hf : ∀ r a cache, f (r.withCache cache) a = (f r a).withCache cache) (as : List α)
    (r : Resolution) (cache : Cache) :
    as.foldl f (r.withCache cache) = (as.foldl f r).withCache cache := by
  induction as generalizing r with
  | nil => rfl
  | cons a as ih => rw [List.foldl_cons, List.foldl_cons, hf, ih]

theorem follow_withCache (id : String) (r : Resolution) (reference : String) (cache : Cache) :
    follow id (r.withCache cache) reference = (follow id r reference).withCache cache := by
  unfold follow
  dsimp only
  split <;> rfl

theorem addTarget_withCache (r : Resolution) (row : String × Target) (cache : Cache) :
    addTarget (r.withCache cache) row = (addTarget r row).withCache cache := by
  obtain ⟨id, target⟩ := row
  dsimp only [addTarget]
  rw [foldl_withCache (follow_withCache id)]
  rfl

/-- Takes down what became of a directory. -/
def note (r : Resolution) (buildpath : String) : Parsed → Resolution
  | .ok descriptor => descriptor.targets.foldl addTarget r
  | .error e => { r with graph.failures := r.graph.failures ++ [(buildpath, e)] }

theorem note_withCache (r : Resolution) (buildpath : String) (parsed : Parsed) (cache : Cache) :
    (r.withCache cache).note buildpath parsed = (r.note buildpath parsed).withCache cache := by
  cases parsed with
  | ok descriptor => exact foldl_withCache addTarget_withCache descriptor.targets r cache
  | error e => rfl

theorem visit_eq (disk : Disk) (r : Resolution) (buildpath : String) :
    visit disk r buildpath =
      (r.note buildpath (r.cache.view disk buildpath)).withCache
        (r.cache.parse disk buildpath).2 := by
  unfold visit
  rw [← Cache.parse_fst, ← note_withCache]
  obtain ⟨parsed, cache⟩ := r.cache.parse disk buildpath
  cases parsed <;> rfl

/-! ## What a step leaves alone -/

/-- What no step of a fold changes, the fold does not change. -/
theorem foldl_unchanged {α β : Type} (view : Resolution → β) {f : Resolution → α → Resolution}
    (hf : ∀ r a, view (f r a) = view r) (as : List α) (r : Resolution) :
    view (as.foldl f r) = view r := by
  induction as generalizing r with
  | nil => rfl
  | cons a as ih => rw [List.foldl_cons, ih, hf]

theorem follow_levels (id : String) (r : Resolution) (reference : String) :
    (follow id r reference).graph.levels = r.graph.levels := by
  unfold follow DependencyGraph.noteUnresolved
  dsimp only
  split
  · split <;> rfl
  · rfl

theorem addTarget_levels (r : Resolution) (row : String × Target) :
    (addTarget r row).graph.levels = r.graph.levels :=
  foldl_unchanged (fun r => r.graph.levels) (follow_levels row.1) row.2.dependencies r

theorem note_levels (r : Resolution) (buildpath : String) (parsed : Parsed) :
    (r.note buildpath parsed).graph.levels = r.graph.levels := by
  cases parsed with
  | ok descriptor =>
    exact foldl_unchanged (fun r => r.graph.levels) addTarget_levels descriptor.targets r
  | error e => rfl

/-! ## The walk -/

variable (look : String → Parsed)

/-- Takes down what became of the directories of a wave. -/
def surveyWave (cursor : Names) (r : Resolution) : Resolution :=
  let r := cursor.foldl (fun r b => r.note b (look b)) { r with discovered := [] }
  { r with graph.levels := r.graph.levels ++ [cursor] }

/-- The waves of a resolution in which the directories have the descriptors that `look` says. -/
def survey : Nat → List String → Names → Resolution → Resolution
  | _, _, [], r => r
  | 0, _, cursor, r => r.surveyWave look cursor
  | depth + 1, visited, cursor, r =>
    let visited := cursor ++ visited
    let r := r.surveyWave look cursor
    survey depth visited (r.next visited) r

variable {look}

variable (look) in
theorem foldl_note_withCache (bs : List String) (r : Resolution) (cache : Cache) :
    bs.foldl (fun r b => r.note b (look b)) (r.withCache cache) =
      (bs.foldl (fun r b => r.note b (look b)) r).withCache cache :=
  foldl_withCache (fun r b cache => note_withCache r b (look b) cache) bs r cache

theorem surveyWave_withCache (cursor : Names) (r : Resolution) (cache : Cache) :
    (r.withCache cache).surveyWave look cursor = (r.surveyWave look cursor).withCache cache := by
  have h := foldl_note_withCache look cursor { r with discovered := [] } cache
  unfold surveyWave
  dsimp only [withCache] at h ⊢
  rw [h]

variable (look) in
theorem survey_withCache (depth : Nat) (visited : List String) (cursor : Names) (r : Resolution)
    (cache : Cache) :
    survey look depth visited cursor (r.withCache cache) =
      (survey look depth visited cursor r).withCache cache := by
  induction depth generalizing visited cursor r with
  | zero =>
    cases cursor with
    | nil => rfl
    | cons b bs => exact surveyWave_withCache (b :: bs) r cache
  | succ depth ih =>
    cases cursor with
    | nil => rfl
    | cons b bs =>
      dsimp only [survey]
      rw [surveyWave_withCache, ih]
      rfl

theorem foldl_visit (disk : Disk) (bs : List String) (r : Resolution)
    (hlook : r.cache.view disk = look) :
    bs.foldl (visit disk) r =
      (bs.foldl (fun r b => r.note b (look b)) r).withCache (r.cache.askAll disk bs) := by
  induction bs generalizing r with
  | nil => rfl
  | cons b bs ih =>
    rw [List.foldl_cons, List.foldl_cons, visit_eq, ih, foldl_note_withCache, hlook]
    · rfl
    · rw [withCache_cache, Cache.view_parse, hlook]

theorem wave_eq (disk : Disk) (cursor : Names) (r : Resolution)
    (hlook : r.cache.view disk = look) :
    r.wave disk cursor = (r.surveyWave look cursor).withCache (r.cache.askAll disk cursor) := by
  unfold wave surveyWave
  rw [foldl_visit disk cursor { r with discovered := [] } hlook]
  rfl

theorem surveyWave_levels (cursor : Names) (r : Resolution) :
    (r.surveyWave look cursor).graph.levels = r.graph.levels ++ [cursor] := by
  have h := foldl_unchanged (fun r => r.graph.levels)
    (fun r b => note_levels r b (look b)) cursor { r with discovered := [] }
  exact congrArg (· ++ [cursor]) h

/-- Expanding is surveying with the view of the cache, and asking for the directories of the new
    waves. -/
theorem expand_eq (disk : Disk) (depth : Nat) (visited : List String) (cursor : Names)
    (r : Resolution) (hlook : r.cache.view disk = look) :
    ∃ waves : List Names,
      (survey look depth visited cursor r).graph.levels = r.graph.levels ++ waves ∧
      expand disk depth visited cursor r =
        (survey look depth visited cursor r).withCache (r.cache.askAll disk waves.flatten) := by
  induction depth generalizing visited cursor r with
  | zero =>
    cases cursor with
    | nil => exact ⟨[], (List.append_nil _).symm, rfl⟩
    | cons b bs =>
      refine ⟨[b :: bs], surveyWave_levels (b :: bs) r, ?_⟩
      have h : expand disk 0 visited (b :: bs) r = r.wave disk (b :: bs) := rfl
      rw [h, wave_eq disk (b :: bs) r hlook, List.flatten_singleton]
      rfl
  | succ depth ih =>
    cases cursor with
    | nil => exact ⟨[], (List.append_nil _).symm, rfl⟩
    | cons b bs =>
      have hwave := wave_eq disk (b :: bs) r hlook
      -- what the first wave asked for does not change the view, so the others look the same way
      have hlook' : (r.wave disk (b :: bs)).cache.view disk = look := by
        rw [hwave, withCache_cache, Cache.view_askAll, hlook]
      obtain ⟨waves, hlevels, heq⟩ := ih (b :: bs ++ visited)
        ((r.wave disk (b :: bs)).next (b :: bs ++ visited)) (r.wave disk (b :: bs)) hlook'
      have hsurvey : survey look depth (b :: bs ++ visited)
            ((r.wave disk (b :: bs)).next (b :: bs ++ visited)) (r.wave disk (b :: bs)) =
          (survey look (depth + 1) visited (b :: bs) r).withCache
            (r.cache.askAll disk (b :: bs)) := by
        rw [hwave, survey_withCache]
        rfl
      rw [hsurvey] at hlevels heq
      refine ⟨(b :: bs) :: waves, ?_, ?_⟩
      · rw [withCache_graph, hwave, withCache_graph, surveyWave_levels,
          List.append_assoc] at hlevels
        exact hlevels
      · refine heq.trans ?_
        rw [withCache_withCache, hwave, withCache_cache, List.flatten_cons, Cache.askAll_append]

end Resolution

/-- The graph that a resolution finds when the directories have the descriptors that `look` says.
    The cache that it passes along is the empty one of `source`. -/
def DependencyGraph.survey (source : DescriptorSource) (look : String → Parsed)
    (starts : List String) (depth : Nat) : DependencyGraph :=
  (Resolution.survey look depth [] (.ofList starts) ⟨.new source, .empty, []⟩).graph

/-- A resolution finds what a survey with the view of the cache finds, and leaves the cache asked
    for the visited directories. -/
theorem Cache.resolve_eq (cache : Cache) (disk : Disk) (starts : List String) (depth : Nat) :
    cache.resolve disk starts depth =
      (.survey cache.source (cache.view disk) starts depth,
        cache.askAll disk
          (DependencyGraph.survey cache.source (cache.view disk) starts depth).visited) := by
  obtain ⟨waves, hlevels, heq⟩ := Resolution.expand_eq disk depth [] (.ofList starts)
    ⟨cache, .empty, []⟩ rfl
  have hcache := Resolution.survey_withCache (cache.view disk) depth [] (.ofList starts)
    ⟨cache, .empty, []⟩ (.new cache.source)
  have hgraph : DependencyGraph.survey cache.source (cache.view disk) starts depth =
      (Resolution.survey (cache.view disk) depth [] (.ofList starts) ⟨cache, .empty, []⟩).graph :=
    (congrArg Resolution.graph hcache).trans rfl
  have hvisited : (DependencyGraph.survey cache.source (cache.view disk) starts depth).visited =
      waves.flatten := by
    rw [hgraph, DependencyGraph.visited, hlevels]
    rfl
  unfold resolve
  dsimp only
  rw [heq, hvisited, hgraph]
  rfl

end Monorepo
