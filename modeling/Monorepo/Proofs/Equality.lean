import Mathlib.Data.List.Forall2
import Monorepo.Proofs.Measure

/-!
# Equality of values

Equality compares dictionaries by their lengths and asks only for the entries of the one that the
other has them. So it is symmetric just where no dictionary holds two equal keys: then different
entries are found at different places, and none of the other's is left over. Methods equal nothing,
and numbers are compared across their two types by rounding, which makes three numbers possible the
first two of which equal the third alone. Apart from both, equality is an equivalence relation.
-/

namespace Monorepo.Script

/-- No key equals a later one. -/
def Entries.Distinct (entries : Entries) : Prop :=
  entries.Pairwise fun e f => e.1.equals f.1 = false

namespace Value

/-- What is asked of the dictionaries among the parts of a value. -/
def KeysDistinct : Value → Prop
  | .dict entries => Entries.Distinct entries
  | _ => True

/-- A value without a dictionary that holds two equal keys, however deep. -/
abbrev Proper (v : Value) : Prop := v.All KeysDistinct

/-- A value without floating-point numbers. -/
abbrev Floatless (v : Value) : Prop := v.All fun part => ∀ x, part ≠ .float x

/-- A value without methods. -/
abbrev Methodless (v : Value) : Prop :=
  v.All fun part => ∀ receiver name, part ≠ .method receiver name

/-- A value on which equality can be relied: no number in it is rounded when it is compared, and no
    dictionary in it holds two equal keys. -/
structure Exact (v : Value) : Prop where
  floatless : v.Floatless
  proper : v.Proper

theorem Exact.part {v part : Value} (h : v.Exact) (hpart : part ∈ v.parts) : part.Exact :=
  ⟨h.floatless.parts part hpart, h.proper.parts part hpart⟩

/-! ## Sequences and dictionaries -/

theorem equalItems_iff {as bs : List Value} :
    (as.length == bs.length && equalItems as bs) = true ↔
      List.Forall₂ (fun a b => a.equals b = true) as bs := by
  induction as generalizing bs with
  | nil =>
    cases bs with
    | nil => simp [equalItems]
    | cons b bs => simp
  | cons a as ih =>
    cases bs with
    | nil => simp
    | cons b bs =>
      rw [List.forall₂_cons, ← ih, equalItems]
      simp only [List.length_cons, Bool.and_eq_true, beq_iff_eq, Nat.add_right_cancel_iff]
      exact and_left_comm

theorem equals_list {as bs : List Value} :
    (Value.list as).equals (.list bs) = true ↔
      List.Forall₂ (fun a b => a.equals b = true) as bs := by
  rw [equals]
  exact equalItems_iff

theorem equals_tuple {as bs : List Value} :
    (Value.tuple as).equals (.tuple bs) = true ↔
      List.Forall₂ (fun a b => a.equals b = true) as bs := by
  rw [equals]
  exact equalItems_iff

/-- Two entries have equal keys and equal values. -/
def EntryEquals (a b : Value × Value) : Prop := a.1.equals b.1 = true ∧ a.2.equals b.2 = true

theorem holdsEntries_iff {as bs : Entries} :
    holdsEntries bs as = true ↔ ∀ a ∈ as, ∃ b ∈ bs, EntryEquals a b := by
  induction as with
  | nil => simp [holdsEntries]
  | cons a as ih =>
    rw [List.forall_mem_cons, ← ih, holdsEntries, Bool.and_eq_true, List.any_eq_true]
    simp only [EntryEquals, Bool.and_eq_true]

theorem equals_dict {as bs : Entries} :
    (Value.dict as).equals (.dict bs) = true ↔
      as.length = bs.length ∧ ∀ a ∈ as, ∃ b ∈ bs, EntryEquals a b := by
  rw [equals, Bool.and_eq_true, beq_iff_eq, holdsEntries_iff]

/-- What equals a list is a list, and so on. -/
theorem eq_list_of_equals {as : List Value} {v : Value} (h : (Value.list as).equals v = true) :
    ∃ bs, v = .list bs := by
  cases v with
  | list bs => exact ⟨bs, rfl⟩
  | _ => cases h

theorem eq_tuple_of_equals {as : List Value} {v : Value} (h : (Value.tuple as).equals v = true) :
    ∃ bs, v = .tuple bs := by
  cases v with
  | tuple bs => exact ⟨bs, rfl⟩
  | _ => cases h

theorem eq_dict_of_equals {as : Entries} {v : Value} (h : (Value.dict as).equals v = true) :
    ∃ bs, v = .dict bs := by
  cases v with
  | dict bs => exact ⟨bs, rfl⟩
  | _ => cases h

/-! ## Reflexivity -/

/-- A value without floating-point numbers and methods equals itself. -/
theorem equals_self {v : Value} (hfloat : v.Floatless) (hmethod : v.Methodless) :
    v.equals v = true := by
  induction v using Value.induction_parts with
  | step v ih =>
    have hparts : ∀ part ∈ v.parts, part.equals part = true := fun part hpart =>
      ih part hpart (hfloat.parts part hpart) (hmethod.parts part hpart)
    cases v with
    | list items => exact equals_list.mpr (List.forall₂_same.mpr hparts)
    | tuple items => exact equals_tuple.mpr (List.forall₂_same.mpr hparts)
    | dict entries =>
      have hentries := forall_mem_parts_dict.mp hparts
      exact equals_dict.mpr ⟨rfl, fun e he => ⟨e, he, hentries e he⟩⟩
    | float x => exact absurd rfl (hfloat.self x)
    | method receiver name => exact absurd rfl (hmethod.self receiver name)
    | none => rfl
    | _ => simp [equals]

/-! ## Transitivity -/

theorem forall₂_trans {α : Type} {R : α → α → Prop} {as bs cs : List α}
    (h : ∀ a ∈ as, ∀ b ∈ bs, ∀ c, R a b → R b c → R a c) (hab : List.Forall₂ R as bs)
    (hbc : List.Forall₂ R bs cs) : List.Forall₂ R as cs := by
  induction hab generalizing cs with
  | nil => exact hbc
  | @cons a b as bs hfirst hrest ih =>
    cases hbc with
    | @cons _ c _ cs hfirst' hrest' =>
      refine .cons (h a List.mem_cons_self b List.mem_cons_self c hfirst hfirst') ?_
      exact ih (fun a' ha b' hb => h a' (List.mem_cons_of_mem _ ha) b' (List.mem_cons_of_mem _ hb))
        hrest'

/-- Equality is transitive if the first two values are free of floating-point numbers, whatever the
    third one. -/
theorem equals_trans {a b c : Value} (ha : a.Floatless) (hb : b.Floatless)
    (hab : a.equals b = true) (hbc : b.equals c = true) : a.equals c = true := by
  induction a using Value.induction_parts generalizing b c with
  | step a ih =>
    have hparts : ∀ p ∈ a.parts, ∀ q ∈ b.parts, ∀ r, p.equals q = true → q.equals r = true →
        p.equals r = true := fun p hp q hq r hpq hqr =>
      ih p hp (ha.parts p hp) (hb.parts q hq) hpq hqr
    unfold equals at hab
    split at hab
    case h_1 => exact hbc
    case h_2 | h_3 | h_7 | h_11 | h_13 =>
      rw [beq_iff_eq.mp hab]
      exact hbc
    case h_4 x _ | h_6 x _ => exact absurd rfl (ha.self x)
    case h_5 x => exact absurd rfl (hb.self x)
    case h_8 as bs =>
      obtain ⟨cs, rfl⟩ := eq_list_of_equals hbc
      have hlist := equalItems_iff.mp hab
      exact equals_list.mpr (forall₂_trans hparts hlist (equals_list.mp hbc))
    case h_9 as bs =>
      obtain ⟨cs, rfl⟩ := eq_tuple_of_equals hbc
      have hlist := equalItems_iff.mp hab
      exact equals_tuple.mpr (forall₂_trans hparts hlist (equals_tuple.mp hbc))
    case h_10 as bs =>
      obtain ⟨cs, rfl⟩ := eq_dict_of_equals hbc
      obtain ⟨hlength, hholds⟩ := equals_dict.mp hab
      obtain ⟨hlength', hholds'⟩ := equals_dict.mp hbc
      refine equals_dict.mpr ⟨hlength.trans hlength', fun a ha => ?_⟩
      obtain ⟨b, hb, hkey, hvalue⟩ := hholds a ha
      obtain ⟨c, hc, hkey', hvalue'⟩ := hholds' b hb
      have hfirst := forall_mem_parts_dict.mp hparts a ha
      have hkeys := (forall_mem_parts_dict.mp hfirst.1 b hb).1
      have hvalues := (forall_mem_parts_dict.mp hfirst.2 b hb).2
      exact ⟨c, hc, hkeys _ hkey hkey', hvalues _ hvalue hvalue'⟩
    case h_12 f g => rw [equals_function_congr (beq_iff_eq.mp hab), hbc]
    case h_14 => cases hab

/-! ## Symmetry -/

theorem exists_mem_of_forall₂ {α β : Type} {R : α → β → Prop} {as : List α} {bs : List β}
    (h : List.Forall₂ R as bs) : ∀ a ∈ as, ∃ b ∈ bs, R a b := by
  induction h with
  | nil => exact List.forall_mem_nil _
  | @cons a b as bs hab hrest ih =>
    refine List.forall_mem_cons.mpr ⟨⟨b, List.mem_cons_self, hab⟩, fun a' ha => ?_⟩
    obtain ⟨b', hb, hab⟩ := ih a' ha
    exact ⟨b', List.mem_cons_of_mem b hb, hab⟩

/-- Where as many things are related to others, no two of them to the same one, they pair off with
    the others. -/
theorem exists_perm_of_injective {α β : Type} {R : α → β → Prop} {as : List α} {bs : List β}
    (hlength : as.length = bs.length) (hR : ∀ a ∈ as, ∃ b ∈ bs, R a b)
    (hinjective : as.Pairwise fun a a' => ∀ b ∈ bs, R a b → ¬ R a' b) :
    ∃ cs, cs.Perm bs ∧ List.Forall₂ R as cs := by
  induction as generalizing bs with
  | nil =>
    obtain rfl := List.length_eq_zero_iff.mp hlength.symm
    exact ⟨[], .nil, .nil⟩
  | cons a as ih =>
    obtain ⟨⟨b, hb, hab⟩, hrest⟩ := List.forall_mem_cons.mp hR
    obtain ⟨hfirst, hothers⟩ := List.pairwise_cons.mp hinjective
    obtain ⟨before, behind, rfl⟩ := List.append_of_mem hb
    have hsub : ∀ c ∈ before ++ behind, c ∈ before ++ b :: behind := by
      intro c hc
      simp only [List.mem_append, List.mem_cons] at hc ⊢
      tauto
    have hlength' : as.length = (before ++ behind).length := by
      simp only [List.length_cons, List.length_append] at hlength ⊢
      omega
    -- what the others are related to is not `b`, so it is left when `b` is taken away
    have hrest' : ∀ a' ∈ as, ∃ c ∈ before ++ behind, R a' c := by
      intro a' ha'
      obtain ⟨c, hc, hac⟩ := hrest a' ha'
      have hne : c ≠ b := fun he => hfirst a' ha' b hb hab (he ▸ hac)
      refine ⟨c, ?_, hac⟩
      simp only [List.mem_append, List.mem_cons] at hc ⊢
      tauto
    obtain ⟨cs, hperm, hcs⟩ := ih hlength' hrest' (hothers.imp fun h c hc => h c (hsub c hc))
    exact ⟨b :: cs, (hperm.cons b).trans List.perm_middle.symm, .cons hab hcs⟩

theorem forall₂_symm {α : Type} {R : α → α → Prop} {as bs : List α}
    (h : ∀ a ∈ as, ∀ b ∈ bs, R a b → R b a) (hab : List.Forall₂ R as bs) :
    List.Forall₂ R bs as := by
  induction hab with
  | nil => exact .nil
  | @cons a b as bs hfirst hrest ih =>
    refine .cons (h a List.mem_cons_self b List.mem_cons_self hfirst) (ih fun a' ha b' hb => ?_)
    exact h a' (List.mem_cons_of_mem _ ha) b' (List.mem_cons_of_mem _ hb)

/-- Entries with different keys do not equal the same one. -/
theorem injective_of_distinct {as bs : Entries} (hdistinct : Entries.Distinct as)
    (hfloat : ∀ e ∈ as, ∀ f ∈ bs, e.1.Floatless ∧ f.1.Floatless)
    (hback : ∀ e ∈ as, ∀ f ∈ bs, EntryEquals e f → EntryEquals f e) :
    as.Pairwise fun e e' => ∀ f ∈ bs, EntryEquals e f → ¬ EntryEquals e' f := by
  refine List.Pairwise.imp_of_mem ?_ hdistinct
  intro e e' he he' hne f hf hef hef'
  obtain ⟨hefree, hffree⟩ := hfloat e he f hf
  have hsame := equals_trans hefree hffree hef.1 (hback e' he' f hf hef').1
  exact Bool.false_ne_true (hne.symm.trans hsame)

/-- Equality is symmetric on exact values. -/
theorem equals_symm {a b : Value} (ha : a.Exact) (hb : b.Exact) (h : a.equals b = true) :
    b.equals a = true := by
  induction a using Value.induction_parts generalizing b with
  | step a ih =>
    have hparts : ∀ p ∈ a.parts, ∀ q ∈ b.parts, p.equals q = true → q.equals p = true :=
      fun p hp q hq hpq => ih p hp (ha.part hp) (hb.part hq) hpq
    have hfloat : ∀ p ∈ a.parts, ∀ q ∈ b.parts, p.Floatless ∧ q.Floatless :=
      fun p hp q hq => ⟨(ha.part hp).floatless, (hb.part hq).floatless⟩
    unfold equals at h
    split at h
    case h_1 => rfl
    case h_2 | h_3 | h_7 | h_11 | h_13 =>
      rw [beq_iff_eq.mp h]
      simp [equals]
    case h_4 x _ | h_6 x _ => exact absurd rfl (ha.floatless.self x)
    case h_5 x => exact absurd rfl (hb.floatless.self x)
    case h_8 as bs => exact equals_list.mpr (forall₂_symm hparts (equalItems_iff.mp h))
    case h_9 as bs => exact equals_tuple.mpr (forall₂_symm hparts (equalItems_iff.mp h))
    case h_10 as bs =>
      obtain ⟨hlength, hholds⟩ := equals_dict.mp h
      have hback : ∀ e ∈ as, ∀ f ∈ bs, EntryEquals e f → EntryEquals f e := by
        intro e he f hf hef
        have hfirst := forall_mem_parts_dict.mp hparts e he
        exact ⟨(forall_mem_parts_dict.mp hfirst.1 f hf).1 hef.1,
          (forall_mem_parts_dict.mp hfirst.2 f hf).2 hef.2⟩
      have hfree : ∀ e ∈ as, ∀ f ∈ bs, e.1.Floatless ∧ f.1.Floatless := fun e he f hf =>
        (forall_mem_parts_dict.mp (forall_mem_parts_dict.mp hfloat e he).1 f hf).1
      have hinjective := injective_of_distinct ha.proper.self hfree hback
      obtain ⟨cs, hperm, hcs⟩ := exists_perm_of_injective hlength hholds hinjective
      refine equals_dict.mpr ⟨hlength.symm, fun f hf => ?_⟩
      obtain ⟨e, he, hef⟩ := exists_mem_of_forall₂ hcs.flip f (hperm.mem_iff.mpr hf)
      exact ⟨e, he, hback e he f hf hef⟩
    case h_12 f g =>
      rw [equals_function_congr (beq_iff_eq.mp h).symm]
      simp [equals]
    case h_14 => cases h

/-- Equal exact values equal the same, whatever that is. -/
theorem equals_congr {a b : Value} (ha : a.Exact) (hb : b.Exact) (h : a.equals b = true)
    (c : Value) : a.equals c = b.equals c := by
  rw [Bool.eq_iff_iff]
  constructor
  · intro hac
    exact equals_trans hb.floatless ha.floatless (equals_symm ha hb h) hac
  · intro hbc
    exact equals_trans ha.floatless hb.floatless h hbc

end Value

end Monorepo.Script
