import Monorepo.Proofs.Equality

/-!
# Equality as an equivalence relation

Without floating-point numbers, functions and methods, and with different keys in every dictionary,
equality is an equivalence relation. Dictionaries are equal just if the entries of the one can be
put in an order in which they equal those of the other one by one; so no entry is used for two.
-/

namespace Monorepo.Script

namespace Value

/-- Whether a value is of a type on which equality is reflexive and exact. -/
def isGround : Value → Bool
  | .float _ | .function _ | .method .. => false
  | _ => true

/-- A value that is made of the types on which equality is reflexive and exact, and of no dictionary
    that holds two equal keys. -/
structure Ground (v : Value) : Prop where
  types : v.All fun part => part.isGround = true
  proper : v.Proper

theorem Ground.leaf {v : Value} (h : v.isGround = true) (hproper : v.KeysDistinct)
    (hparts : v.parts = []) : v.Ground :=
  ⟨.leaf h hparts, .leaf hproper hparts⟩

theorem Ground.dict {entries : Entries} (hdistinct : entries.Distinct)
    (h : ∀ e ∈ entries, e.1.Ground ∧ e.2.Ground) : (Value.dict entries).Ground where
  types := ⟨rfl, forall_mem_parts_dict.mpr fun e he => ⟨(h e he).1.types, (h e he).2.types⟩⟩
  proper :=
    ⟨hdistinct, forall_mem_parts_dict.mpr fun e he => ⟨(h e he).1.proper, (h e he).2.proper⟩⟩

theorem Ground.exact {v : Value} (h : v.Ground) : v.Exact where
  floatless := h.types.mono fun part hpart x hx => by
    subst hx
    cases hpart
  proper := h.proper

theorem Ground.methodless {v : Value} (h : v.Ground) : v.Methodless :=
  h.types.mono fun part hpart receiver name hmethod => by
    subst hmethod
    cases hpart

/-- Equal entries in any order make equal dictionaries. -/
theorem equals_dict_of_perm {as bs cs : Entries} (hperm : cs.Perm bs)
    (h : List.Forall₂ EntryEquals as cs) : (Value.dict as).equals (.dict bs) = true := by
  refine equals_dict.mpr ⟨h.length_eq.trans hperm.length_eq, fun a ha => ?_⟩
  obtain ⟨c, hc, hac⟩ := exists_mem_of_forall₂ h a ha
  exact ⟨c, hperm.mem_iff.mp hc, hac⟩

/-- The entries of equal exact dictionaries pair off. -/
theorem exists_perm_of_equals_dict {as bs : Entries} (ha : (Value.dict as).Exact)
    (hb : (Value.dict bs).Exact) (h : (Value.dict as).equals (.dict bs) = true) :
    ∃ cs, cs.Perm bs ∧ List.Forall₂ EntryEquals as cs := by
  obtain ⟨hlength, hholds⟩ := equals_dict.mp h
  have hexact {entries : Entries} (h : (Value.dict entries).Exact) :
      ∀ e ∈ entries, e.1.Exact ∧ e.2.Exact :=
    forall_mem_parts_dict.mp fun part hpart => h.part hpart
  have hback : ∀ e ∈ as, ∀ f ∈ bs, EntryEquals e f → EntryEquals f e := by
    intro e he f hf hef
    obtain ⟨hekey, hevalue⟩ := hexact ha e he
    obtain ⟨hfkey, hfvalue⟩ := hexact hb f hf
    exact ⟨equals_symm hekey hfkey hef.1, equals_symm hevalue hfvalue hef.2⟩
  have hfree : ∀ e ∈ as, ∀ f ∈ bs, e.1.Floatless ∧ f.1.Floatless := fun e he f hf =>
    ⟨(hexact ha e he).1.floatless, (hexact hb f hf).1.floatless⟩
  exact exists_perm_of_injective hlength hholds (injective_of_distinct ha.proper.self hfree hback)

/-- On ground values equality is an equivalence relation, and ground dictionaries are equal just if
    they hold the same entries up to equality, in any order. -/
theorem equals_equivalence :
    Equivalence (fun a b : {v : Value // v.Ground} => a.val.equals b.val = true) ∧
    ∀ as bs : Entries, (Value.dict as).Ground → (Value.dict bs).Ground →
      ((Value.dict as).equals (.dict bs) = true ↔
        ∃ cs, cs.Perm bs ∧ List.Forall₂ EntryEquals as cs) := by
  refine ⟨⟨?_, ?_, ?_⟩, fun as bs ha hb => ⟨?_, ?_⟩⟩
  · intro a
    exact equals_self a.property.exact.floatless a.property.methodless
  · intro a b hab
    exact equals_symm a.property.exact b.property.exact hab
  · intro a b c hab hbc
    exact equals_trans a.property.exact.floatless b.property.exact.floatless hab hbc
  · exact exists_perm_of_equals_dict ha.exact hb.exact
  · rintro ⟨cs, hperm, hcs⟩
    exact equals_dict_of_perm hperm hcs

/-- The entries of one dictionary in two orders. -/
theorem equals_equivalence_reordered :
    let as : Entries := [(.int 1, .list []), (.text "a", .none)]
    let bs : Entries := [(.text "a", .none), (.int 1, .list [])]
    (Value.dict as).Ground ∧ (Value.dict bs).Ground ∧
      (Value.dict bs).equals (.dict as) = true ∧
      ∃ cs, cs.Perm bs ∧ List.Forall₂ EntryEquals as cs := by
  intro as bs
  have hfirst : (Value.int 1).Ground ∧ (Value.list []).Ground :=
    ⟨.leaf rfl trivial rfl, .leaf rfl trivial rfl⟩
  have hsecond : (Value.text "a").Ground ∧ Value.none.Ground :=
    ⟨.leaf rfl trivial rfl, .leaf rfl trivial rfl⟩
  have ha : (Value.dict as).Ground := by
    refine .dict (List.pairwise_pair.mpr rfl) ?_
    exact List.forall_mem_cons.mpr ⟨hfirst, List.forall_mem_singleton.mpr hsecond⟩
  have hb : (Value.dict bs).Ground := by
    refine .dict (List.pairwise_pair.mpr rfl) ?_
    exact List.forall_mem_cons.mpr ⟨hsecond, List.forall_mem_singleton.mpr hfirst⟩
  obtain ⟨⟨-, hsymm, -⟩, hperm⟩ := equals_equivalence
  have hequal : (Value.dict as).equals (.dict bs) = true := by decide
  exact ⟨ha, hb, hsymm (x := ⟨_, ha⟩) (y := ⟨_, hb⟩) hequal, (hperm as bs ha hb).mp hequal⟩

end Value

end Monorepo.Script
