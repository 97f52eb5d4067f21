import Monorepo.Descriptor.Source
import Monorepo.Proofs.Names

/-!
# The ids of a descriptor

Every id of a descriptor begins with the buildpath of its directory: it is the buildpath itself or
has a colon behind it. So two directories whose buildpaths hold no colon have no id in common.
-/

namespace Monorepo

/-- An id of the directory with a given buildpath. -/
def IdOf (buildpath id : String) : Prop := id = buildpath ∨ ∃ name, id = buildpath ++ ":" ++ name

/-- The characters in front of the first colon of an id are those of its buildpath. -/
theorem IdOf.takeWhile_eq {buildpath id : String} (h : IdOf buildpath id)
    (hcolon : ':' ∉ buildpath.toList) :
    id.toList.takeWhile (fun c => c != ':') = buildpath.toList := by
  have hall : ∀ c ∈ buildpath.toList, (c != ':') = true := by
    intro c hc
    exact bne_iff_ne.mpr fun he => hcolon (he ▸ hc)
  rcases h with rfl | ⟨name, rfl⟩
  · simpa using @List.takeWhile_append_of_pos _ _ _ [] hall
  · rw [String.toList_append, String.toList_append, List.append_assoc,
      List.takeWhile_append_of_pos hall]
    simp

/-- An id belongs to one directory only. -/
theorem IdOf.unique {b b' id : String} (h : IdOf b id) (h' : IdOf b' id) (hb : ':' ∉ b.toList)
    (hb' : ':' ∉ b'.toList) : b = b' :=
  String.toList_injective ((h.takeWhile_eq hb).symm.trans (h'.takeWhile_eq hb'))

/-- The directory that a reference names has no colon in it. -/
theorem Target.colon_not_mem_buildpathOf (reference : String) :
    ':' ∉ (Target.buildpathOf reference).toList := by
  intro hmem
  unfold Target.buildpathOf Target.splitReference at hmem
  rw [String.toList_ofList] at hmem
  have hall := List.all_eq_true.mp List.all_takeWhile ':' hmem
  simp at hall

namespace Assembly

/-- What holds of the targets on the way to a descriptor. -/
structure Good (buildpath : String) (a : Assembly) : Prop where
  /-- No id has two rows. -/
  ascending : a.targets.Ascending
  /-- The ids are of the directory. -/
  ids : ∀ id ∈ a.targets.keys, IdOf buildpath id

theorem good_empty (buildpath : String) : Good buildpath empty :=
  ⟨List.Pairwise.nil, fun _ h => absurd h List.not_mem_nil⟩

theorem Good.record {buildpath : String} {a : Assembly} (h : Good buildpath a)
    (call : Script.TargetCall) : Good buildpath (record buildpath a call) := by
  refine ⟨h.ascending.set _ _, fun id hid => ?_⟩
  rcases Table.mem_keys_set.mp hid with rfl | hid
  · exact Or.inr ⟨_, rfl⟩
  · exact h.ids id hid

theorem Good.foldl_record {buildpath : String} {a : Assembly} (h : Good buildpath a)
    (calls : List Script.TargetCall) :
    Good buildpath (calls.foldl (Assembly.record buildpath) a) := by
  induction calls generalizing a with
  | nil => exact h
  | cons call calls ih => exact ih (h.record call)

end Assembly

namespace Descriptor

/-- A descriptor that has one row for an id, and ids of its directory only. -/
structure Good (buildpath : String) (d : Descriptor) : Prop where
  /-- No id has two rows. -/
  ascending : d.targets.Ascending
  /-- The ids are of the directory. -/
  ids : ∀ id ∈ d.targets.keys, IdOf buildpath id

theorem good_assemble (buildpath : String) (calls : List Script.TargetCall)
    (warnings : List Script.Warning) : Good buildpath (assemble buildpath calls warnings) := by
  have h := (Assembly.good_empty buildpath).foldl_record calls
  refine ⟨h.ascending.set _ _, fun id hid => ?_⟩
  rcases Table.mem_keys_set.mp hid with rfl | hid
  · exact Or.inl rfl
  · exact h.ids id hid

end Descriptor

namespace DescriptorSource

/-- A directory that has a descriptor has an assembled one. -/
theorem parse_eq_ok {source : DescriptorSource} {disk : Disk} {buildpath : String}
    {d : Descriptor} (h : source.parse disk buildpath = .ok d) :
    ∃ calls warnings, d = .assemble buildpath calls warnings := by
  unfold parse at h
  dsimp only at h
  split at h
  · cases h
  · unfold parseText at h
    split at h
    · cases h
    · split at h
      · cases h
      · cases h
        exact ⟨_, _, rfl⟩

theorem good_of_parse {source : DescriptorSource} {disk : Disk} {buildpath : String}
    {d : Descriptor} (h : source.parse disk buildpath = .ok d) : d.Good buildpath := by
  obtain ⟨calls, warnings, rfl⟩ := parse_eq_ok h
  exact Descriptor.good_assemble buildpath calls warnings

end DescriptorSource

end Monorepo
