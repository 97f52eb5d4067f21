import Monorepo.Names

/-!
# Sets of names and tables by name

What an insertion does to the members of a set and to the rows of a table. Sets and tables that are
built by insertions are in ascending order, and in that order a key has only one row.
-/

namespace Monorepo

namespace Names

/-- The names stand in ascending order, and so none occurs twice. -/
def Ascending (names : Names) : Prop := names.Pairwise (· < ·)

theorem Ascending.nodup {names : Names} (h : Ascending names) : names.Nodup :=
  List.Pairwise.imp (fun hlt => String.ne_of_lt hlt) h

theorem mem_insert {name n : String} {names : Names} :
    n ∈ insert name names ↔ n = name ∨ n ∈ names := by
  induction names with
  | nil => simp only [insert, List.mem_cons]
  | cons m names ih =>
    unfold insert
    split
    · exact List.mem_cons
    · split
      · rename_i hm
        subst hm
        constructor
        · exact Or.inr
        · rintro (rfl | h)
          · exact List.mem_cons_self
          · exact h
      · rw [List.mem_cons, ih, List.mem_cons]
        exact or_left_comm

theorem Ascending.insert {names : Names} (h : Ascending names) (name : String) :
    Ascending (insert name names) := by
  induction names with
  | nil => exact List.pairwise_singleton _ _
  | cons m names ih =>
    obtain ⟨hm, htail⟩ := List.pairwise_cons.mp h
    unfold Names.insert
    split
    · rename_i hlt
      refine List.pairwise_cons.mpr ⟨fun n hn => ?_, h⟩
      rcases List.mem_cons.mp hn with rfl | hn
      · exact hlt
      · exact String.lt_trans hlt (hm n hn)
    · rename_i hnlt
      split
      · exact h
      · rename_i hne
        refine List.pairwise_cons.mpr ⟨fun n hn => ?_, ih htail⟩
        rcases mem_insert.mp hn with rfl | hn
        · exact Std.lt_of_le_of_ne (String.not_lt.mp hnlt) hne
        · exact hm n hn

theorem mem_foldl_insert {n : String} (names : List String) (set : Names) :
    n ∈ names.foldl (fun set name => insert name set) set ↔ n ∈ set ∨ n ∈ names := by
  induction names generalizing set with
  | nil => simp
  | cons name names ih =>
    rw [List.foldl_cons, ih, mem_insert, List.mem_cons, or_assoc]
    exact or_left_comm

@[simp] theorem mem_ofList {n : String} {names : List String} : n ∈ ofList names ↔ n ∈ names := by
  unfold ofList
  rw [mem_foldl_insert]
  simp

theorem ascending_ofList (names : List String) : Ascending (ofList names) := by
  have h : ∀ (names : List String) (set : Names), Ascending set →
      Ascending (names.foldl (fun set name => insert name set) set) := by
    intro names
    induction names with
    | nil => exact fun _ h => h
    | cons name names ih => exact fun set h => ih _ (h.insert name)
  exact h names [] List.Pairwise.nil

end Names

namespace Table

variable {α : Type}

/-- The keys stand in ascending order, and so none occurs twice. -/
def Ascending (table : Table α) : Prop := Names.Ascending table.keys

@[simp] theorem keys_nil : keys ([] : Table α) = [] := rfl

@[simp] theorem keys_cons (row : String × α) (rows : Table α) :
    keys (row :: rows) = row.1 :: keys rows := rfl

theorem mem_keys {table : Table α} {key : String} :
    key ∈ table.keys ↔ ∃ value, (key, value) ∈ table := by
  simp [keys]

theorem get?_cons (k key : String) (v : α) (rows : Table α) :
    get? ((k, v) :: rows) key = if key = k then some v else get? rows key := by
  unfold get?
  by_cases h : key = k
  · simp [h]
  · have hb : (key == k) = false := beq_eq_false_iff_ne.mpr h
    simp [h, List.lookup_cons, hb]

/-- In an ascending table the row of a key is the only one. -/
theorem Ascending.get?_eq_some_iff {table : Table α} (h : Ascending table) {key : String}
    {value : α} : table.get? key = some value ↔ (key, value) ∈ table := by
  induction table with
  | nil => simp [get?]
  | cons row rows ih =>
    obtain ⟨k, v⟩ := row
    obtain ⟨hk, htail⟩ := List.pairwise_cons.mp h
    rw [get?_cons, List.mem_cons]
    by_cases he : key = k
    · subst he
      have hnot : (key, value) ∉ rows := fun hmem =>
        String.lt_irrefl key (hk key (mem_keys.mpr ⟨value, hmem⟩))
      simp [hnot, eq_comm]
    · simp [he, ih htail]

theorem get?_eq_none_iff {table : Table α} {key : String} :
    table.get? key = none ↔ key ∉ table.keys := by
  induction table with
  | nil => simp [get?]
  | cons row rows ih =>
    rw [get?_cons]
    by_cases he : key = row.1 <;> simp [he, ih]

theorem has_iff {table : Table α} {key : String} : table.has key = true ↔ key ∈ table.keys := by
  unfold has
  rw [Option.isSome_iff_ne_none, Ne, get?_eq_none_iff, Decidable.not_not]

/-! ## Setting a row -/

theorem get?_set (table : Table α) (key k : String) (value : α) :
    get? (set key value table) k = if k = key then some value else table.get? k := by
  induction table with
  | nil => rw [set, get?_cons]
  | cons row rows ih =>
    obtain ⟨k', v'⟩ := row
    unfold set
    split
    · rw [get?_cons]
    · split
      · rename_i he
        subst he
        rw [get?_cons, get?_cons]
        by_cases h : k = k' <;> simp [h]
      · rename_i hne
        rw [get?_cons, get?_cons, ih]
        by_cases h : k = k'
        · subst h
          simp [hne]
        · simp [h]

/-- Setting a row is an insertion of its key. -/
theorem keys_set (table : Table α) (key : String) (value : α) :
    keys (set key value table) = Names.insert key table.keys := by
  induction table with
  | nil => rfl
  | cons row rows ih =>
    unfold set
    rw [keys_cons, Names.insert]
    split
    · rfl
    · split
      · rfl
      · rw [keys_cons, ih]

theorem mem_keys_set {table : Table α} {key k : String} {value : α} :
    k ∈ keys (set key value table) ↔ k = key ∨ k ∈ table.keys := by
  rw [keys_set, Names.mem_insert]

theorem Ascending.set {table : Table α} (h : Ascending table) (key : String) (value : α) :
    Ascending (set key value table) := by
  unfold Ascending
  rw [keys_set]
  exact Names.Ascending.insert h key

theorem Ascending.mem_set {table : Table α} (h : Ascending table) {key k : String} {value v : α} :
    (k, v) ∈ Table.set key value table ↔ (k = key ∧ v = value) ∨ (k ≠ key ∧ (k, v) ∈ table) := by
  rw [← (h.set key value).get?_eq_some_iff, ← h.get?_eq_some_iff, get?_set]
  by_cases he : k = key <;> simp [he, eq_comm]

/-! ## Setting the rows of another table -/

/-- A table with the rows of another one, which replace its own. -/
def setAll (rows table : Table α) : Table α :=
  rows.foldl (fun table row => set row.1 row.2 table) table

theorem Ascending.setAll {table : Table α} (h : Ascending table) (rows : Table α) :
    Ascending (setAll rows table) := by
  induction rows generalizing table with
  | nil => exact h
  | cons row rows ih => exact ih (h.set row.1 row.2)

/-- Nothing is replaced when the tables have no key in common. -/
theorem Ascending.mem_setAll {rows table : Table α} (h : Ascending table) (hrows : Ascending rows)
    (hdisj : ∀ k ∈ rows.keys, k ∉ table.keys) {k : String} {v : α} :
    (k, v) ∈ Table.setAll rows table ↔ (k, v) ∈ table ∨ (k, v) ∈ rows := by
  induction rows generalizing table with
  | nil => simp [Table.setAll]
  | cons row rows ih =>
    obtain ⟨key, value⟩ := row
    obtain ⟨hkey, htail⟩ := List.pairwise_cons.mp hrows
    have hnew : key ∉ table.keys := hdisj key List.mem_cons_self
    have hdisj' : ∀ k ∈ keys rows, k ∉ keys (Table.set key value table) := by
      intro k hk hmem
      rcases mem_keys_set.mp hmem with rfl | hmem
      · exact String.lt_irrefl k (hkey k hk)
      · exact hdisj k (List.mem_cons_of_mem _ hk) hmem
    have hstep : (k, v) ∈ Table.set key value table ↔ (k, v) = (key, value) ∨ (k, v) ∈ table := by
      rw [h.mem_set, Prod.mk.injEq]
      refine or_congr_right ⟨And.right, fun hmem => ⟨?_, hmem⟩⟩
      rintro rfl
      exact hnew (mem_keys.mpr ⟨v, hmem⟩)
    refine (ih (h.set key value) htail hdisj').trans ?_
    rw [hstep, List.mem_cons, or_comm (a := (k, v) = (key, value)), or_assoc]

/-! ## Erasing a row -/

theorem get?_erase (table : Table α) (key k : String) :
    get? (erase table key) k = if k = key then none else table.get? k := by
  induction table with
  | nil => simp [erase, get?]
  | cons row rows ih =>
    obtain ⟨k', v'⟩ := row
    unfold erase at ih ⊢
    rw [List.filter_cons, get?_cons]
    by_cases he : k' = key
    · subst he
      simp only [bne_self_eq_false, Bool.false_eq_true, ↓reduceIte, ih]
      by_cases h : k = k' <;> simp [h]
    · rw [if_pos (bne_iff_ne.mpr he), get?_cons, ih]
      by_cases h : k = k'
      · subst h
        simp [he]
      · simp [h]

end Table

/-! ## Sorted names -/

end Monorepo
