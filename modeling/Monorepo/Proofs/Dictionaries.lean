import Monorepo.Proofs.Equality

/-!
# Dictionaries as maps

A dictionary is a list of entries that is searched from its start, and a new entry is inserted where
the search finds an equal key. This makes a map of it as far as equality allows: what equals the key
of the new entry has to equal the stored key in its place and no other one. Keys without
floating-point numbers do, if no dictionary in them holds two equal keys. No dictionary of a run
does.
-/

namespace Monorepo.Script

namespace Entries

/-! ## Keys -/

theorem keys_insert (entries : Entries) (key value : Value) :
    (entries.insert key value).map (·.1) =
      entries.map (·.1) ++ if entries.has key then [] else [key] := by
  induction entries with
  | nil => rfl
  | cons entry entries ih =>
    obtain ⟨k, v⟩ := entry
    unfold insert
    by_cases hkey : k.equals key = true
    · have hhas : Entries.has ((k, v) :: entries) key = true := by simp [has, hkey]
      rw [if_pos hkey, if_pos hhas, List.append_nil]
      rfl
    · have hhas : Entries.has ((k, v) :: entries) key = has entries key := by simp [has, hkey]
      rw [if_neg hkey, hhas, List.map_cons, ih]
      rfl

theorem distinct_iff {entries : Entries} :
    entries.Distinct ↔ (entries.map (·.1)).Pairwise fun k l => k.equals l = false := by
  rw [List.pairwise_map]
  rfl

/-- An insertion leaves no key equal to a later one. -/
theorem Distinct.insert {entries : Entries} (h : entries.Distinct) (key value : Value) :
    (entries.insert key value).Distinct := by
  rw [distinct_iff, keys_insert]
  have hold := distinct_iff.mp h
  by_cases hhas : entries.has key = true
  · rw [if_pos hhas, List.append_nil]
    exact hold
  · rw [if_neg hhas]
    refine List.pairwise_append.mpr ⟨hold, List.pairwise_singleton _ _, ?_⟩
    intro k hk l hl
    obtain rfl := List.mem_singleton.mp hl
    obtain ⟨e, he, rfl⟩ := List.mem_map.mp hk
    by_contra hequal
    exact hhas (List.any_eq_true.mpr ⟨e, he, by simpa using hequal⟩)

/-! ## Look-ups -/

theorem get?_cons (k v : Value) (entries : Entries) (key : Value) :
    Entries.get? ((k, v) :: entries) key =
      if k.equals key = true then some v else entries.get? key := by
  by_cases hkey : k.equals key = true
  · simp [get?, hkey]
  · simp [get?, hkey]

theorem has_eq_isSome (entries : Entries) (key : Value) :
    entries.has key = (entries.get? key).isSome := by
  induction entries with
  | nil => rfl
  | cons entry entries ih =>
    obtain ⟨k, v⟩ := entry
    rw [get?_cons]
    by_cases hkey : k.equals key = true
    · simp [has, hkey]
    · rw [if_neg hkey, ← ih]
      simp [has, hkey]

section Insert

variable {entries : Entries} {key : Value}
  (hcongr : ∀ e ∈ entries, e.1.equals key = true → ∀ q, e.1.equals q = key.equals q)
include hcongr

/-- The new value is found under what equals the new key, if no other key equals it. -/
theorem get?_insert_of_equals {q : Value} (hq : key.equals q = true)
    (hothers : ∀ e ∈ entries, e.1.equals q = true → e.1.equals key = true) (value : Value) :
    (entries.insert key value).get? q = some value := by
  induction entries with
  | nil =>
    unfold insert
    rw [get?_cons, if_pos hq]
  | cons entry entries ih =>
    obtain ⟨k, v⟩ := entry
    obtain ⟨hfirst, hrest⟩ := List.forall_mem_cons.mp hcongr
    obtain ⟨hother, hothers⟩ := List.forall_mem_cons.mp hothers
    unfold insert
    by_cases hkey : k.equals key = true
    · have hkq : k.equals q = true := (hfirst hkey q).trans hq
      rw [if_pos hkey, get?_cons, if_pos hkq]
    · have hkq : ¬ k.equals q = true := fun h => hkey (hother h)
      rw [if_neg hkey, get?_cons, if_neg hkq]
      exact ih hrest hothers

/-- Under what does not equal the new key is found what was found before. -/
theorem get?_insert_of_ne {q : Value} (hq : key.equals q = false) (value : Value) :
    (entries.insert key value).get? q = entries.get? q := by
  induction entries with
  | nil =>
    unfold insert
    rw [get?_cons, hq]
    rfl
  | cons entry entries ih =>
    obtain ⟨k, v⟩ := entry
    obtain ⟨hfirst, hrest⟩ := List.forall_mem_cons.mp hcongr
    unfold insert
    by_cases hkey : k.equals key = true
    · have hkq : ¬ k.equals q = true := by
        rw [hfirst hkey q, hq]
        exact Bool.false_ne_true
      rw [if_pos hkey, get?_cons, get?_cons, if_neg hkq, if_neg hkq]
    · rw [if_neg hkey, get?_cons, get?_cons, ih hrest]

end Insert

/-- What the ways to look up a key yield. Only the search itself takes a stub for a key; the
    operations of the language make a stub of the whole look-up. -/
structure Finds (entries : Entries) (key : Value) (found : Option Value) : Prop where
  entry : entries.get? key = found
  item : key.isKnown = true → subscript (.dict entries) key =
    found.elim (.error (.keyNotFound key.repr)) .ok
  get : ∀ keywords, anyStub [key] keywords = false →
    callMethod (.dict entries) "get" [key] keywords = .ok (found.getD .none)
  getOr : ∀ default keywords, anyStub [key, default] keywords = false →
    callMethod (.dict entries) "get" [key, default] keywords = .ok (found.getD default)
  within : key.isKnown = true →
    applyComparison .within key (.dict entries) = .ok (.bool found.isSome)
  notWithin : key.isKnown = true →
    applyComparison .notWithin key (.dict entries) = .ok (.bool !found.isSome)

/-- All ways to look up a key are one search. -/
theorem finds_get? (entries : Entries) (key : Value) : entries.Finds key (entries.get? key) where
  entry := rfl
  item h := by
    cases hfound : entries.get? key with
    | none =>
      cases key with
      | stub trace => cases h
      | _ => simp [subscript, hfound]
    | some value =>
      cases key with
      | stub trace => cases h
      | _ => simp [subscript, hfound]
  get keywords h := by
    unfold callMethod
    rw [h]
    rfl
  getOr default keywords h := by
    unfold callMethod
    rw [h]
    rfl
  within h := by
    have hhas := entries.has_eq_isSome key
    cases key with
    | stub trace => cases h
    | _ => rw [← hhas]; rfl
  notWithin h := by
    have hhas := entries.has_eq_isSome key
    cases key with
    | stub trace => cases h
    | _ => rw [← hhas]; rfl

/-! ## Insertions -/

/-- Keys on which equality can be relied. -/
abbrev ExactKeys (entries : Entries) : Prop := ∀ e ∈ entries, e.1.Exact

/-- What the insertion of an entry does to a dictionary, as its look-ups see it. -/
structure Sets (before : Entries) (key value : Value) (after : Entries) : Prop where
  /-- A floating-point number may equal several integers; then the first one counts. -/
  found : ∀ q, key.equals q = true →
    (q.Exact ∨ ∀ e ∈ before, e.1.equals q = true → e.1.equals key = true) →
    after.Finds q (some value)
  own : key.Methodless → after.Finds key (some value)
  others : ∀ q, key.equals q = false → after.Finds q (before.get? q)
  keys : after.map (·.1) = before.map (·.1) ++ if before.has key then [] else [key]

/-- Insertion makes a map of a dictionary with exact keys. -/
theorem insert_sets {entries : Entries} (hentries : entries.ExactKeys) {key : Value}
    (hkey : key.Exact) (value : Value) : entries.Sets key value (entries.insert key value) := by
  have hcongr : ∀ e ∈ entries, e.1.equals key = true → ∀ q, e.1.equals q = key.equals q :=
    fun e he hequal q => Value.equals_congr (hentries e he) hkey hequal q
  have hfound (q : Value) (hq : key.equals q = true)
      (hothers : ∀ e ∈ entries, e.1.equals q = true → e.1.equals key = true) :
      (entries.insert key value).Finds q (some value) := by
    rw [← get?_insert_of_equals hcongr hq hothers value]
    exact finds_get? _ q
  refine ⟨fun q hq hothers => ?_, fun hmethods => ?_, fun q hq => ?_, keys_insert entries key value⟩
  · rcases hothers with hexact | hothers
    · -- what equals `q` equals the key, since `q` does
      have hback := Value.equals_symm hkey hexact hq
      refine hfound q hq fun e he heq => ?_
      exact Value.equals_trans (hentries e he).floatless hexact.floatless heq hback
    · exact hfound q hq hothers
  · have hself := Value.equals_self hkey.floatless hmethods
    exact hfound key hself fun _ _ hequal => hequal
  · rw [← get?_insert_of_ne hcongr hq value]
    exact finds_get? _ q

/-- A dictionary that comes of another one by the insertion of entries, one after another. -/
inductive Grows : Entries → List (Value × Value) → Entries → Prop
  | done (entries : Entries) : Grows entries [] entries
  | step {before middle after : Entries} {key value : Value} {more : List (Value × Value)}
      (first : before.Sets key value middle) (rest : Grows middle more after) :
      Grows before ((key, value) :: more) after

theorem ExactKeys.insert {entries : Entries} (h : entries.ExactKeys) {key : Value}
    (hkey : key.Exact) (value : Value) : (entries.insert key value).ExactKeys :=
  Value.forall_mem_insert h hkey fun _ _ hold => hold

theorem insertAll_grows {entries : Entries} (hentries : entries.ExactKeys)
    {more : List (Value × Value)} (hmore : ExactKeys more) :
    entries.Grows more (entries.insertAll more) := by
  induction more generalizing entries with
  | nil => exact .done entries
  | cons entry more ih =>
    obtain ⟨key, value⟩ := entry
    obtain ⟨hkey, hrest⟩ := List.forall_mem_cons.mp hmore
    have hfirst := insert_sets hentries hkey value
    exact .step hfirst (ih (hentries.insert hkey value) hrest)

end Entries

end Monorepo.Script
