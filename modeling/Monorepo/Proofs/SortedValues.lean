import Monorepo.Script.Builtins
import Monorepo.Proofs.Ordering
import Monorepo.Proofs.SortingByOrder

/-!
# Sorting values

The sorting of values is told that values which do not compare are equal. That is a total preorder
just where no third value tells such two apart, as far as no integer is rounded out of its order;
so it is one where all values compare. By a total preorder every list is sorted or ends in a fault
of the script. Else a list that is too long for insertion alone can abort the program.
-/

namespace Monorepo.Script

/-- An order that has an answer for any two of some values: it turns around with its arguments, and
    what is not greater than something not greater than `c` is not greater than `c`. -/
structure TotalPreorder {α : Type} (order : α → α → Ordering) (items : List α) : Prop where
  swap : ∀ a ∈ items, ∀ b ∈ items, order b a = (order a b).swap
  trans : ∀ a ∈ items, ∀ b ∈ items, ∀ c ∈ items,
    order a b ≠ .gt → order b c ≠ .gt → order a c ≠ .gt

namespace Value

/-! ## Numbers in their order -/

/-- Integers that have the same order after they are rounded. -/
def KeepsOrder (K : Int → Prop) : Prop :=
  ∀ n m, K n → K m → compareFloat (Float.ofInt n) (Float.ofInt m) = some (compare n m)

/-- Values whose numbers are ordered: there are no floating-point numbers among them, or the
    integers have the same order when they are rounded for the comparison with those. -/
def NumbersOrdered (items : List Value) : Prop :=
  (∀ v ∈ items, v.Floatless) ∨
    ∃ K, KeepsOrder K ∧ ∀ v ∈ items, v.All fun part => ∀ n, part = .int n → K n

/-- A number as it is compared with floating-point numbers. -/
def rounded : Value → Float
  | .int n => Float.ofInt n
  | .float x => x
  | _ => 0.0

theorem compare?_eq_rounded {K : Int → Prop} (hK : KeepsOrder K) {a b : Value}
    (han : a.IsNumber) (hbn : b.IsNumber) (ha : ∀ n, a = .int n → K n)
    (hb : ∀ n, b = .int n → K n) : a.compare? b = compareFloat a.rounded b.rounded := by
  cases a with
  | int n =>
    cases b with
    | int m => exact (hK n m (ha n rfl) (hb m rfl)).symm
    | float y => rfl
    | _ => exact hbn.elim
  | float x =>
    cases b with
    | int m => rfl
    | float y => rfl
    | _ => exact hbn.elim
  | _ => exact han.elim

theorem NumbersOrdered.chains {items : List Value} (h : NumbersOrdered items) {a b c : Value}
    (ha : a ∈ items) (hb : b ∈ items) (hc : c ∈ items) :
    Chains (a.compare? b) (b.compare? c) (a.compare? c) := by
  rcases h with hfloat | ⟨K, hK, hints⟩
  · exact (hfloat a ha).chains (hfloat b hb) (hfloat c hc)
  · refine chains_compare? ?_ (hints a ha) (hints b hb) (hints c hc)
    intro a b c han hbn hcn ha hb hc
    rw [compare?_eq_rounded hK han hbn ha hb, compare?_eq_rounded hK hbn hcn hb hc,
      compare?_eq_rounded hK han hcn ha hc]
    exact chains_compareFloat _ _ _

/-! ## The order that the sorting is told -/

theorem sortingOrder_of_compare? {a b : Value} {o : Ordering} (h : a.compare? b = some o) :
    a.sortingOrder b = o := by
  rw [sortingOrder, h]
  rfl

theorem sortingOrder_of_none {a b : Value} (h : a.compare? b = Option.none) :
    a.sortingOrder b = .eq := by
  rw [sortingOrder, h]
  rfl

theorem sortingOrder_swap (a b : Value) : b.sortingOrder a = (a.sortingOrder b).swap := by
  unfold sortingOrder
  rw [compare?_swap a b]
  cases a.compare? b <;> rfl

end Value

namespace TotalPreorder

variable {α : Type} {order : α → α → Ordering} {items : List α}

theorem transCmp (h : TotalPreorder order items) :
    Std.TransCmp fun a b : {v // v ∈ items} => order a.val b.val where
  eq_swap := h.swap _ (Subtype.property _) _ (Subtype.property _)
  isLE_trans hab hbc := Ordering.isLE_iff_ne_gt.mpr <|
    h.trans _ (Subtype.property _) _ (Subtype.property _) _ (Subtype.property _)
      (Ordering.isLE_iff_ne_gt.mp hab) (Ordering.isLE_iff_ne_gt.mp hbc)

/-- Values that count as equal are told apart by no third one. -/
theorem congr (h : TotalPreorder order items) {a b c : α} (ha : a ∈ items) (hb : b ∈ items)
    (hc : c ∈ items) (heq : order a b = .eq) : order a c = order b c := by
  have := h.transCmp
  let cmp := fun a b : {v // v ∈ items} => order a.val b.val
  exact Std.TransCmp.congr_left (show cmp ⟨a, ha⟩ ⟨b, hb⟩ = .eq from heq) (c := ⟨c, hc⟩)

/-- A test that answers by a total preorder. -/
theorem orders (h : TotalPreorder order items) {ε : Type} {before : Sorting.Test α ε}
    (hbefore : ∀ a ∈ items, ∀ b ∈ items, before a b = .ok (order a b == .lt)) :
    Sorting.Orders before (· ∈ items) fun a b => order a b == .lt where
  eq ha hb := hbefore _ ha _ hb
  asymm {a b} ha hb hless := by
    rw [beq_iff_eq] at hless
    rw [h.swap a ha b hb, hless]
    rfl
  trans {a b c} ha hb hc hab hbc := by
    have hle {a b : α} (ha : a ∈ items) (hb : b ∈ items) :
        (order b a == .lt) = false ↔ order a b ≠ .gt := by
      rw [h.swap a ha b hb]
      cases order a b <;> decide
    exact (hle ha hc).mpr (h.trans a ha b hb c hc ((hle ha hb).mp hab) ((hle hb hc).mp hbc))

end TotalPreorder

/-- With ordered numbers the order that the sorting is told is a total preorder just if no third
    value tells two apart that do not compare. -/
theorem totalPreorder_iff {items : List Value} (h : Value.NumbersOrdered items) :
    TotalPreorder Value.sortingOrder items ↔ ∀ a ∈ items, ∀ b ∈ items, a.compare? b = none →
      ∀ c ∈ items, a.sortingOrder c = b.sortingOrder c := by
  constructor
  · intro horder a ha b hb hnone c hc
    exact horder.congr ha hb hc (Value.sortingOrder_of_none hnone)
  · intro hsame
    refine ⟨fun a _ b _ => Value.sortingOrder_swap a b, ?_⟩
    intro a ha b hb c hc hab hbc
    cases hab' : a.compare? b with
    | none =>
      rw [hsame a ha b hb hab' c hc]
      exact hbc
    | some o =>
      cases hbc' : b.compare? c with
      | none =>
        -- as `b` and `c` are told apart by nothing, `a` is ordered with `c` as it is with `b`
        have hba := hsame b hb c hc hbc' a ha
        rw [Value.sortingOrder_swap c a, ← hba, ← Value.sortingOrder_swap b a]
        exact hab
      | some p =>
        rw [Value.sortingOrder_of_compare? hab'] at hab
        rw [Value.sortingOrder_of_compare? hbc'] at hbc
        rw [Value.sortingOrder_of_compare? (h.chains ha hb hc o p hab' hbc' hab hbc)]
        cases o with
        | lt => exact nofun
        | eq => exact hbc
        | gt => exact absurd rfl hab

/-- Ordered numbers and values that all compare. -/
theorem totalPreorder_of_compare? {items : List Value} (h : Value.NumbersOrdered items)
    (hcompare : ∀ a ∈ items, ∀ b ∈ items, a.compare? b ≠ none) :
    TotalPreorder Value.sortingOrder items :=
  (totalPreorder_iff h).mpr fun a ha b hb hnone => absurd hnone (hcompare a ha b hb)

/-! ## Sorting -/

/-- A few values are never in disorder, whatever order is told. -/
theorem sortValues_ne_disorder {items : List Value}
    (h : items.length ≤ Sorting.insertionLimit ∨ TotalPreorder Value.sortingOrder items) :
    sortValues items ≠ .error .disorder := by
  obtain ⟨out, hout⟩ : Sorting.Returns (Sorting.sort .disorder toldBefore items) := by
    rcases h with hshort | horder
    · exact Sorting.returns_sort_of_length_le hshort fun _ _ _ _ => Sorting.returns_ok _
    · exact Sorting.returns_sort (horder.orders fun _ _ _ _ => rfl)
  unfold sortValues
  rw [hout]
  cases Sorting.sort .disorder comesBefore items with
  | error fault => cases fault <;> exact nofun
  | ok out' => exact nofun

/-- Values that all compare, in a total preorder, are sorted. -/
theorem returns_sortValues {items : List Value} (h : TotalPreorder Value.sortingOrder items)
    (hcompare : ∀ a ∈ items, ∀ b ∈ items, a.compare? b ≠ none) :
    Sorting.Returns (sortValues items) := by
  have hstrict : ∀ a ∈ items, ∀ b ∈ items, comesBefore a b = .ok (a.sortingOrder b == .lt) := by
    intro a ha b hb
    obtain ⟨o, ho⟩ := Option.ne_none_iff_exists'.mp (hcompare a ha b hb)
    rw [comesBefore, Value.sortingOrder_of_compare? ho, ho]
  have hlenient : ∀ a ∈ items, ∀ b ∈ items, toldBefore a b = .ok (a.sortingOrder b == .lt) :=
    fun _ _ _ _ => rfl
  refine (Sorting.returns_sort (h.orders hlenient)).bind fun out _ => ?_
  obtain ⟨out', hout'⟩ : Sorting.Returns (Sorting.sort .disorder comesBefore items) :=
    Sorting.returns_sort (h.orders hstrict)
  rw [hout']
  exact Sorting.returns_ok _

section Call

variable {source : Value} {items : List Value} (hitems : source.items? = some items)
include hitems

theorem sorted_ends (h : sortValues items ≠ .error .disorder) (keywords : Keywords) :
    (∃ out, sorted [source] keywords = .ok (.list out)) ∨
      ∃ fault, sorted [source] keywords = .error fault ∧ fault ≠ .aborted := by
  have hiterate : iterate source = .ok items := by rw [iterate, hitems]
  simp only [sorted, hiterate, bind, Except.bind]
  generalize List.find? _ keywords = found
  cases found with
  | some entry => exact Or.inr ⟨_, rfl, nofun⟩
  | none =>
    cases hsort : sortValues items with
    | error fault =>
      cases fault with
      | disorder => exact absurd hsort h
      | incomparable left right => exact Or.inr ⟨_, rfl, nofun⟩
    | ok out => exact Or.inl ⟨_, rfl⟩

theorem returns_sorted {out : List Value} (h : sortValues items = .ok out) {keywords : Keywords}
    (hkeywords : ∀ entry ∈ keywords, entry.1 = "reverse") :
    ∃ out', sorted [source] keywords = .ok (.list out') := by
  have hiterate : iterate source = .ok items := by rw [iterate, hitems]
  have hnone : ∀ entry ∈ keywords, ¬ (entry.1 != "reverse") = true :=
    fun entry hentry => by simp [hkeywords entry hentry]
  simp only [sorted, hiterate, bind, Except.bind]
  rw [List.find?_eq_none.mpr hnone, h]
  exact ⟨_, rfl⟩

end Call

/-- Where the order that the sorting of some values is told is a total preorder of them, or there
    are so few of them that they are sorted by insertion, `sorted` yields a list or ends in a fault
    of the script; it never aborts the program. With ordered numbers that order is a total preorder
    just if no third value tells two apart that do not compare. So it is one where all compare, and
    then `sorted` yields a list. -/
theorem sorted_by_total_preorder {source : Value} {items : List Value}
    (hitems : source.items? = some items) (keywords : Keywords) :
    (items.length ≤ Sorting.insertionLimit ∨ TotalPreorder Value.sortingOrder items →
      (∃ out, sorted [source] keywords = .ok (.list out)) ∨
        ∃ fault, sorted [source] keywords = .error fault ∧ fault ≠ .aborted) ∧
    (Value.NumbersOrdered items →
      (TotalPreorder Value.sortingOrder items ↔ ∀ a ∈ items, ∀ b ∈ items, a.compare? b = none →
        ∀ c ∈ items, a.sortingOrder c = b.sortingOrder c)) ∧
    (Value.NumbersOrdered items → (∀ a ∈ items, ∀ b ∈ items, a.compare? b ≠ none) →
      TotalPreorder Value.sortingOrder items ∧
        ((∀ entry ∈ keywords, entry.1 = "reverse") →
          ∃ out, sorted [source] keywords = .ok (.list out))) := by
  refine ⟨fun h => ?_, totalPreorder_iff, fun hnumbers hcompare => ?_⟩
  · exact sorted_ends hitems (sortValues_ne_disorder h) keywords
  · have horder := totalPreorder_of_compare? hnumbers hcompare
    refine ⟨horder, fun hkeywords => ?_⟩
    obtain ⟨out, hout⟩ := returns_sortValues horder hcompare
    exact returns_sorted hitems hout hkeywords

/-- Two integers that are not rounded and a number between them. -/
theorem sorted_by_total_preorder_numbers :
    let items : List Value := [.int 2, .float 0.5, .int 1]
    let source := Value.tuple items
    source.items? = some items ∧ Value.NumbersOrdered items ∧
      TotalPreorder Value.sortingOrder items ∧ ∃ out, sorted [source] [] = .ok (.list out) := by
  intro items source
  have hnumbers : Value.NumbersOrdered items := by
    refine Or.inr ⟨fun n => n = 1 ∨ n = 2, ?_, ?_⟩
    · rintro n m (rfl | rfl) (rfl | rfl) <;> decide
    · have hleaf (n : Int) (h : n = 1 ∨ n = 2) :
          (Value.int n).All fun part => ∀ m, part = .int m → m = 1 ∨ m = 2 :=
        .leaf (fun m hm => Value.int.inj hm ▸ h) rfl
      simp only [items, List.forall_mem_cons]
      exact ⟨hleaf 2 (Or.inr rfl), .leaf nofun rfl, hleaf 1 (Or.inl rfl), List.forall_mem_nil _⟩
  have hcompare : ∀ a ∈ items, ∀ b ∈ items, a.compare? b ≠ none := by
    decide
  have hitems : source.items? = some items := rfl
  obtain ⟨-, -, hsorted⟩ := sorted_by_total_preorder hitems []
  obtain ⟨horder, hout⟩ := hsorted hnumbers hcompare
  exact ⟨hitems, hnumbers, horder, hout nofun⟩

/-- Integers that descend, with a text as the second value: 21 values. -/
def interruptedDescent : List Value :=
  .int 21 :: .text "a" :: (List.range 19).map fun i : Nat => .int (19 - i)

/-- Three numbers of which the greatest integer is rounded down are no total preorder, and neither
    are descending integers with a text among them; 21 of those abort the program. -/
theorem sorted_aborts_disordered :
    ¬ TotalPreorder Value.sortingOrder
      [.int 9007199254740993, .float 9007199254740992.0, .int 9007199254740992] ∧
    ¬ TotalPreorder Value.sortingOrder interruptedDescent ∧
    sorted [.list interruptedDescent] [] = .error .aborted := by
  refine ⟨fun h => ?_, fun h => ?_, by rfl⟩
  · have hle := h.trans (.int 9007199254740993) (by simp) (.float 9007199254740992.0) (by simp)
      (.int 9007199254740992) (by simp)
    exact hle (by decide) (by decide) (by decide)
  · have hnineteen : Value.int 19 ∈ interruptedDescent :=
      List.mem_cons_of_mem _ (List.mem_cons_of_mem _ (List.mem_map.mpr ⟨0, by decide, rfl⟩))
    have hle := h.trans (.int 21) List.mem_cons_self (.text "a")
      (List.mem_cons_of_mem _ List.mem_cons_self) (.int 19) hnineteen
    exact hle (by decide) (by decide) (by decide)

end Monorepo.Script
