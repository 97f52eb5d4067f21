import Monorepo.Cache
import Monorepo.Proofs.Descriptor

/-!
# What a cache answers

A request is answered with the view of the cache, and remembers it; so it changes no later answer on
the same disk. A cache that was only ever used through its operations remembers nothing but answers
of its source.
-/

namespace Monorepo

namespace Cache

theorem parse_fst (cache : Cache) (disk : Disk) (buildpath : String) :
    (cache.parse disk buildpath).1 = cache.view disk buildpath := by
  unfold parse view
  cases cache.get? buildpath <;> rfl

@[simp] theorem source_parse (cache : Cache) (disk : Disk) (buildpath : String) :
    (cache.parse disk buildpath).2.source = cache.source := by
  unfold parse
  cases cache.get? buildpath <;> rfl

theorem get?_parse (cache : Cache) (disk : Disk) (buildpath b : String) :
    (cache.parse disk buildpath).2.get? b =
      if b = buildpath then some (cache.view disk buildpath) else cache.get? b := by
  unfold parse view
  cases h : cache.get? buildpath with
  | some parsed =>
    by_cases hb : b = buildpath
    · subst hb
      simp [h]
    · simp [hb]
  | none => exact Table.get?_set cache.entries buildpath b _

theorem get?_invalidate (cache : Cache) (buildpath b : String) :
    (cache.invalidate buildpath).get? b = if b = buildpath then none else cache.get? b :=
  Table.get?_erase cache.entries buildpath b

/-- A request changes no later answer. -/
@[simp] theorem view_parse (cache : Cache) (disk : Disk) (buildpath : String) :
    (cache.parse disk buildpath).2.view disk = cache.view disk := by
  funext b
  rw [view, get?_parse, source_parse]
  by_cases h : b = buildpath
  · subst h
    simp
  · simp [h, view]

/-- The cache after requests for some directories, one after the other. -/
def askAll (disk : Disk) (cache : Cache) (buildpaths : List String) : Cache :=
  buildpaths.foldl (fun cache b => (cache.parse disk b).2) cache

@[simp] theorem view_askAll (cache : Cache) (disk : Disk) (buildpaths : List String) :
    (cache.askAll disk buildpaths).view disk = cache.view disk := by
  induction buildpaths generalizing cache with
  | nil => rfl
  | cons b buildpaths ih =>
    exact (ih (cache.parse disk b).2).trans (view_parse cache disk b)

theorem askAll_append (cache : Cache) (disk : Disk) (bs bs' : List String) :
    cache.askAll disk (bs ++ bs') = (cache.askAll disk bs).askAll disk bs' :=
  List.foldl_append

/-- The caches that come about by requests, on whatever disks, and by forgetting. -/
inductive Reachable : Cache → Prop
  /-- Nothing is remembered. -/
  | new (source : DescriptorSource) : Reachable (.new source)
  /-- A directory is asked for. -/
  | parse {cache : Cache} (h : Reachable cache) (disk : Disk) (buildpath : String) :
      Reachable (cache.parse disk buildpath).2
  /-- A directory is forgotten. -/
  | invalidate {cache : Cache} (h : Reachable cache) (buildpath : String) :
      Reachable (cache.invalidate buildpath)
  /-- Everything is forgotten. -/
  | flush {cache : Cache} (h : Reachable cache) : Reachable cache.flush

/-- What a cache remembers was on some disk. -/
theorem Reachable.exists_parse {cache : Cache} (h : Reachable cache) {buildpath : String}
    {parsed : Parsed} (hget : cache.get? buildpath = some parsed) :
    ∃ disk, cache.source.parse disk buildpath = parsed := by
  induction h with
  | new source => cases hget
  | @parse cache h disk b ih =>
    rw [get?_parse] at hget
    rw [source_parse]
    split at hget
    · rename_i hb
      subst hb
      unfold view at hget
      cases hold : cache.get? buildpath with
      | some old => exact ih (by rw [hold]; simpa [hold] using hget)
      | none => exact ⟨disk, by simpa [hold] using hget⟩
    · exact ih hget
  | invalidate h b ih =>
    rw [get?_invalidate] at hget
    split at hget
    · cases hget
    · exact ih hget
  | flush h ih => cases hget

/-- What a cache answers was on some disk. -/
theorem Reachable.exists_parse_eq_view {cache : Cache} (h : Reachable cache) (disk : Disk)
    (buildpath : String) : ∃ d, cache.source.parse d buildpath = cache.view disk buildpath := by
  unfold view
  cases hget : cache.get? buildpath with
  | some parsed => exact h.exists_parse hget
  | none => exact ⟨disk, rfl⟩

theorem Reachable.good_view {cache : Cache} (h : Reachable cache) {disk : Disk}
    {buildpath : String} {d : Descriptor} (hview : cache.view disk buildpath = .ok d) :
    d.Good buildpath := by
  obtain ⟨disk', hparse⟩ := h.exists_parse_eq_view disk buildpath
  exact DescriptorSource.good_of_parse (hparse.trans hview)

end Cache

end Monorepo
