import Monorepo.Repository
import Monorepo.Proofs.Survey

/-!
# What a session remembers

A repository is used in any order, while the files below it change. Its history is written down
beside it, newest mark first: which directories were asked for, on which disk, and what was
forgotten. The history alone decides what every operation answers: a directory has the descriptor
that it had at the first request since it was last forgotten. It decides as well which directories
the cache remembers.

An operation is specified by three functions of the descriptors that it is given: what it answers,
what it asks for, and so what it adds to the history. None of them looks at the cache.
-/

namespace Monorepo

/-! ## Histories -/

/-- What happens to a cache. -/
inductive Mark
  /-- A directory is asked for. -/
  | asked (disk : Disk) (buildpath : String)
  /-- A directory is forgotten. -/
  | forgot (buildpath : String)
  /-- Everything is forgotten. -/
  | forgotAll

namespace Mark

/-- Whether a directory is forgotten. -/
def forgets (b : String) : Mark → Bool
  | asked _ _ => false
  | forgot buildpath => b == buildpath
  | forgotAll => true

/-- The disk on which a directory is asked for. -/
def asked? (b : String) : Mark → Option Disk
  | asked disk buildpath => if b = buildpath then some disk else none
  | forgot _ => none
  | forgotAll => none

theorem asked?_isSome {b : String} {m : Mark} (h : (m.asked? b).isSome) :
    ∃ disk, m = asked disk b := by
  cases m with
  | asked disk buildpath =>
    by_cases hb : b = buildpath
    · exact ⟨disk, by rw [hb]⟩
    · simp [asked?, hb] at h
  | forgot buildpath => cases h
  | forgotAll => cases h

end Mark

/-- The cache after a mark. -/
def Cache.after (cache : Cache) : Mark → Cache
  | .asked disk buildpath => (cache.parse disk buildpath).2
  | .forgot buildpath => cache.invalidate buildpath
  | .forgotAll => cache.flush

/-- A history, newest mark first. -/
abbrev History := List Mark

namespace History

/-- The marks since a directory was last forgotten. -/
def since (history : History) (b : String) : History := history.takeWhile fun m => !m.forgets b

/-- The disk at the first request for a directory since it was last forgotten. -/
def firstAsked (history : History) (b : String) : Option Disk :=
  ((history.since b).filterMap (Mark.asked? b)).getLast?

/-- Whether a directory was asked for and not forgotten later. -/
def Remembers (history : History) (b : String) : Prop :=
  ∃ newer disk older, history = newer ++ Mark.asked disk b :: older ∧
    ∀ m ∈ newer, m.forgets b = false

/-- The descriptors that the history says, with those that it does not remember as on a disk. -/
def recalled (history : History) (source : DescriptorSource) (disk : Disk) (b : String) : Parsed :=
  source.parse ((history.firstAsked b).getD disk) b

theorem firstAsked_cons_forgets {m : Mark} {b : String} (h : m.forgets b = true)
    (history : History) : firstAsked (m :: history) b = none := by
  simp [firstAsked, since, h]

theorem firstAsked_cons {m : Mark} {b : String} (h : m.forgets b = false) (history : History) :
    firstAsked (m :: history) b = (history.firstAsked b).or (m.asked? b) := by
  unfold firstAsked since
  rw [List.takeWhile_cons_of_pos (by simp [h]), List.filterMap_cons]
  cases hask : m.asked? b with
  | none => exact Option.or_none.symm
  | some disk =>
    dsimp only
    rw [List.getLast?_cons]
    cases (((List.takeWhile (fun m => !m.forgets b) history).filterMap
      (Mark.asked? b)).getLast?) <;> rfl

theorem remembers_cons {m : Mark} {history : History} {b : String} :
    Remembers (m :: history) b ↔
      (m.asked? b).isSome ∨ m.forgets b = false ∧ history.Remembers b := by
  constructor
  · rintro ⟨newer, disk, older, heq, hnewer⟩
    cases newer with
    | nil =>
      obtain ⟨rfl, -⟩ := List.cons.inj heq
      exact Or.inl (by simp [Mark.asked?])
    | cons m' newer =>
      obtain ⟨rfl, htail⟩ := List.cons.inj heq
      exact Or.inr ⟨hnewer m List.mem_cons_self, newer, disk, older, htail, fun m' hm' =>
        hnewer m' (List.mem_cons_of_mem m hm')⟩
  · rintro (hasked | ⟨hm, newer, disk, older, rfl, hnewer⟩)
    · obtain ⟨disk, rfl⟩ := Mark.asked?_isSome hasked
      exact ⟨[], disk, history, rfl, fun m' hm' => by cases hm'⟩
    · refine ⟨m :: newer, disk, older, rfl, fun m' hm' => ?_⟩
      rcases List.mem_cons.mp hm' with rfl | hm'
      · exact hm
      · exact hnewer m' hm'

theorem remembers_iff {history : History} {b : String} :
    history.Remembers b ↔ (history.firstAsked b).isSome := by
  induction history with
  | nil => simp [Remembers, firstAsked, since]
  | cons m history ih =>
    rw [remembers_cons, ih]
    by_cases hm : m.forgets b = true
    · -- a mark that forgets is no request
      have hasked : (m.asked? b).isSome = false := by cases m <;> first | rfl | cases hm
      simp [firstAsked_cons_forgets hm, hasked, hm]
    · have hm : m.forgets b = false := Bool.eq_false_iff.mpr hm
      rw [firstAsked_cons hm, Option.isSome_or, Bool.or_eq_true]
      simp [hm, or_comm]

end History

/-! ## Caches and their histories -/

namespace Cache

/-- The cache remembers what its history says, and nothing else. -/
def Follows (cache : Cache) (history : History) : Prop :=
  ∀ b, cache.get? b = (history.firstAsked b).map fun disk => cache.source.parse disk b

theorem follows_new (source : DescriptorSource) : (Cache.new source).Follows [] := fun _ => rfl

@[simp] theorem source_after (cache : Cache) (m : Mark) :
    (cache.after m).source = cache.source := by
  cases m with
  | asked disk buildpath => exact source_parse cache disk buildpath
  | forgot buildpath => rfl
  | forgotAll => rfl

theorem source_after_all (cache : Cache) (marks : List Mark) :
    (marks.foldl Cache.after cache).source = cache.source := by
  induction marks generalizing cache with
  | nil => rfl
  | cons m marks ih => exact (ih (cache.after m)).trans (source_after cache m)

theorem Follows.view_eq {cache : Cache} {history : History} (h : cache.Follows history)
    (disk : Disk) : cache.view disk = history.recalled cache.source disk := by
  funext b
  unfold view History.recalled
  rw [h b]
  cases history.firstAsked b <;> rfl

theorem Follows.after {cache : Cache} {history : History} (h : cache.Follows history) (m : Mark) :
    (cache.after m).Follows (m :: history) := by
  intro b
  rw [source_after]
  cases m with
  | asked disk buildpath =>
    rw [History.firstAsked_cons rfl]
    change (cache.parse disk buildpath).2.get? b = _
    rw [get?_parse]
    by_cases hb : b = buildpath
    · subst hb
      rw [if_pos rfl, h.view_eq, History.recalled]
      cases history.firstAsked b <;> simp [Mark.asked?]
    · rw [if_neg hb, h b]
      simp [Mark.asked?, hb]
  | forgot buildpath =>
    change (cache.invalidate buildpath).get? b = _
    rw [get?_invalidate]
    by_cases hb : b = buildpath
    · subst hb
      rw [if_pos rfl, History.firstAsked_cons_forgets (by simp [Mark.forgets])]
      rfl
    · rw [if_neg hb, History.firstAsked_cons (by simp [Mark.forgets, hb]), h b]
      simp [Mark.asked?]
  | forgotAll =>
    rw [History.firstAsked_cons_forgets rfl]
    rfl

theorem Follows.after_all {cache : Cache} {history : History} (h : cache.Follows history)
    (marks : List Mark) : (marks.foldl Cache.after cache).Follows (marks.reverse ++ history) := by
  induction marks generalizing cache history with
  | nil => exact h
  | cons m marks ih =>
    rw [List.foldl_cons, List.reverse_cons, List.append_assoc]
    exact ih (h.after m)

theorem Follows.mem_keys_iff {cache : Cache} {history : History} (h : cache.Follows history)
    (b : String) : b ∈ cache.entries.keys ↔ history.Remembers b := by
  rw [← Table.has_iff, Table.has, History.remembers_iff]
  have hget := h b
  unfold get? at hget
  rw [hget, Option.isSome_map]

theorem askAll_eq (cache : Cache) (disk : Disk) (bs : List String) :
    cache.askAll disk bs = (bs.map (Mark.asked disk)).foldl after cache := by
  rw [List.foldl_map]
  rfl

end Cache

end Monorepo
