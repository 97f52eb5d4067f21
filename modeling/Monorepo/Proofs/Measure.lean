import Monorepo.Proofs.Contents

/-!
# What a measured value satisfies

The walk that measures a value adds up sizes and stops at the first limit that is passed. It
succeeds just if the value is not too deep, no part of it too long and the whole not too large. All
three limits are passed down to parts, so every part of a measured value can be measured.
-/

namespace Monorepo.Script

namespace Value

/-! ## Induction over parts -/

theorem sizeOf_lt_of_mem_parts {v part : Value} (h : part ∈ v.parts) : sizeOf part < sizeOf v := by
  cases v with
  | list items =>
    have := List.sizeOf_lt_of_mem (show part ∈ items from h)
    simp only [Value.list.sizeOf_spec]
    omega
  | tuple items =>
    have := List.sizeOf_lt_of_mem (show part ∈ items from h)
    simp only [Value.tuple.sizeOf_spec]
    omega
  | dict entries =>
    obtain ⟨⟨key, value⟩, he, hpart⟩ := List.mem_flatMap.mp h
    have := List.sizeOf_lt_of_mem he
    simp only [Prod.mk.sizeOf_spec] at this
    simp only [Value.dict.sizeOf_spec]
    have hpart : part = key ∨ part = value := by simpa using hpart
    rcases hpart with rfl | rfl <;> omega
  | method receiver name =>
    obtain rfl := List.mem_singleton.mp h
    simp only [Value.method.sizeOf_spec]
    omega
  | _ => cases h

/-- What holds of a value as soon as it holds of all its parts holds of every value. -/
theorem induction_parts {M : Value → Prop} (step : ∀ v, (∀ part ∈ v.parts, M part) → M v)
    (v : Value) : M v :=
  step v fun part _ => induction_parts step part
termination_by sizeOf v
decreasing_by exact sizeOf_lt_of_mem_parts ‹_›

/-! ## Weight and height -/

mutual

/-- The sum of the sizes of everything reachable from a value. -/
def weight : Value → Nat
  | .list items => (Value.list items).ownSize + weights items
  | .tuple items => (Value.tuple items).ownSize + weights items
  | .dict entries => (Value.dict entries).ownSize + entryWeights entries
  | .method receiver name => (Value.method receiver name).ownSize + receiver.weight
  | leaf => leaf.ownSize

/-- The weight of several values together. -/
def weights : List Value → Nat
  | [] => 0
  | value :: values => value.weight + weights values

/-- The weight of several entries together. -/
def entryWeights : List (Value × Value) → Nat
  | [] => 0
  | (key, value) :: entries => key.weight + (value.weight + entryWeights entries)

end

mutual

/-- The levels of nesting of a value, its own included. -/
def height : Value → Nat
  | .list items => heights items + 1
  | .tuple items => heights items + 1
  | .dict entries => entryHeights entries + 1
  | .method receiver _ => receiver.height + 1
  | _ => 1

/-- The greatest height of some values. -/
def heights : List Value → Nat
  | [] => 0
  | value :: values => max value.height (heights values)

/-- The greatest height in some entries. -/
def entryHeights : List (Value × Value) → Nat
  | [] => 0
  | (key, value) :: entries => max key.height (max value.height (entryHeights entries))

end

theorem entryWeights_eq (entries : List (Value × Value)) :
    entryWeights entries = weights (Value.dict entries).parts := by
  induction entries with
  | nil => rfl
  | cons entry entries ih =>
    unfold entryWeights
    rw [ih]
    rfl

theorem entryHeights_eq (entries : List (Value × Value)) :
    entryHeights entries = heights (Value.dict entries).parts := by
  induction entries with
  | nil => rfl
  | cons entry entries ih =>
    unfold entryHeights
    rw [ih]
    rfl

theorem weight_eq (v : Value) : v.weight = v.ownSize + weights v.parts := by
  unfold weight
  cases v with
  | list | tuple => rfl
  | dict entries => exact congrArg _ (entryWeights_eq entries)
  | _ => simp [parts, weights]

theorem height_eq (v : Value) : v.height = heights v.parts + 1 := by
  unfold height
  cases v with
  | list | tuple => rfl
  | dict entries => exact congrArg (· + 1) (entryHeights_eq entries)
  | _ => simp [parts, heights]

theorem heights_le_iff {values : List Value} {n : Nat} :
    heights values ≤ n ↔ ∀ v ∈ values, v.height ≤ n := by
  induction values with
  | nil => simp [heights]
  | cons value values ih => rw [heights, Nat.max_le, List.forall_mem_cons, ih]

theorem weight_le_weights {v : Value} {values : List Value} (h : v ∈ values) :
    v.weight ≤ weights values := by
  induction values with
  | nil => cases h
  | cons value values ih =>
    unfold weights
    rcases List.mem_cons.mp h with rfl | h
    · omega
    · have := ih h
      omega

/-! ## The walk -/

theorem addEntrySizes_eq (depth total : Nat) (entries : List (Value × Value)) :
    addEntrySizes depth total entries = addSizes depth total (Value.dict entries).parts := by
  induction entries with
  | nil => rfl
  | cons entry entries ih =>
    obtain ⟨key, value⟩ := entry
    change _ = addSizes depth total (key :: value :: (Value.dict entries).parts)
    unfold addEntrySizes addSizes addSizes
    rw [ih, bind_assoc]

/-- The walk counts the value itself and goes on with its parts. -/
theorem addSize_eq (depth total : Nat) (v : Value) :
    addSize depth total v = addOwnSize depth total v >>= fun total =>
      addSizes (depth + 1) total v.parts := by
  have hleaf (leaf : Value) (h : leaf.parts = []) :
      addOwnSize depth total leaf = addOwnSize depth total leaf >>= fun total =>
        addSizes (depth + 1) total leaf.parts := by
    rw [h]
    cases addOwnSize depth total leaf <;> rfl
  unfold addSize
  cases v with
  | list | tuple => rfl
  | dict entries => simp only [addEntrySizes_eq]
  | method receiver name => rfl
  | _ => exact hleaf _ rfl

theorem addOwnSize_eq_ok {depth total n : Nat} {v : Value} :
    addOwnSize depth total v = .ok n ↔
      depth ≤ maxDepth ∧ v.ownSize ≤ maxSequence + 1 ∧ total + v.ownSize ≤ maxSize ∧
        n = total + v.ownSize := by
  unfold addOwnSize
  dsimp only
  split
  · simp
    omega
  · split
    · simp
      omega
    · split
      · simp
        omega
      · simp only [Except.ok.injEq]
        omega

/-- A value that is short by itself: a container of not too many items, a text of not too many
    bytes. -/
def IsShort (v : Value) : Prop := v.ownSize ≤ maxSequence + 1

/-- That the walk can add a value at a depth to a total. -/
structure FitsAt (depth total : Nat) (v : Value) : Prop where
  height : depth + v.height ≤ maxDepth + 1
  short : v.All IsShort
  weight : total + v.weight ≤ maxSize

theorem fitsAt_iff {depth total : Nat} {v : Value} :
    v.FitsAt depth total ↔
      (depth ≤ maxDepth ∧ v.ownSize ≤ maxSequence + 1 ∧ total + v.ownSize ≤ maxSize) ∧
      (∀ part ∈ v.parts, depth + 1 + part.height ≤ maxDepth + 1) ∧
      (∀ part ∈ v.parts, part.All IsShort) ∧
      total + v.ownSize + weights v.parts ≤ maxSize := by
  have hheights : depth + v.height ≤ maxDepth + 1 ↔
      depth ≤ maxDepth ∧ ∀ part ∈ v.parts, depth + 1 + part.height ≤ maxDepth + 1 := by
    have hle : heights v.parts ≤ maxDepth - depth ↔
        ∀ part ∈ v.parts, part.height ≤ maxDepth - depth := heights_le_iff
    rw [height_eq]
    constructor
    · intro h
      refine ⟨by omega, fun part hpart => ?_⟩
      have := hle.mp (by omega) part hpart
      omega
    · rintro ⟨hdepth, h⟩
      have := hle.mpr fun part hpart => by
        have := h part hpart
        omega
      omega
  constructor
  · rintro ⟨hheight, hshort, hweight⟩
    obtain ⟨hdepth, hparts⟩ := hheights.mp hheight
    rw [weight_eq] at hweight
    exact ⟨⟨hdepth, hshort.self, by omega⟩, hparts, hshort.parts, by omega⟩
  · rintro ⟨⟨hdepth, hself, -⟩, hparts, hshort, hweight⟩
    refine ⟨hheights.mpr ⟨hdepth, hparts⟩, ⟨hself, hshort⟩, ?_⟩
    rw [weight_eq]
    omega

theorem addSizes_eq_ok {values : List Value}
    (h : ∀ v ∈ values, ∀ depth total n,
      addSize depth total v = .ok n ↔ v.FitsAt depth total ∧ n = total + v.weight)
    {depth total n : Nat} (htotal : total ≤ maxSize) :
    addSizes depth total values = .ok n ↔
      ((∀ v ∈ values, depth + v.height ≤ maxDepth + 1) ∧ (∀ v ∈ values, v.All IsShort) ∧
        total + weights values ≤ maxSize) ∧ n = total + weights values := by
  induction values generalizing n with
  | nil =>
    unfold addSizes weights
    simp [htotal, eq_comm]
  | cons value values ih =>
    obtain ⟨hvalue, hvalues⟩ := List.forall_mem_cons.mp h
    have ih {n : Nat} := ih hvalues (n := n)
    unfold addSizes weights
    simp only [List.forall_mem_cons]
    constructor
    · intro hrun
      obtain ⟨m, hm, hrun⟩ := ok_of_bind hrun
      obtain ⟨⟨hheights, hshort, -⟩, rfl⟩ := ih.mp hm
      obtain ⟨⟨hheight, hself, hweight⟩, rfl⟩ := (hvalue depth _ n).mp hrun
      exact ⟨⟨⟨hheight, hheights⟩, ⟨hself, hshort⟩, by omega⟩, by omega⟩
    · rintro ⟨⟨⟨hheight, hheights⟩, ⟨hself, hshort⟩, hweight⟩, rfl⟩
      rw [ih.mpr ⟨⟨hheights, hshort, by omega⟩, rfl⟩]
      exact (hvalue depth _ _).mpr ⟨⟨hheight, hself, by omega⟩, by omega⟩

theorem addSize_eq_ok (v : Value) : ∀ depth total n,
    addSize depth total v = .ok n ↔ v.FitsAt depth total ∧ n = total + v.weight := by
  induction v using induction_parts with
  | step v ih =>
    intro depth total n
    rw [addSize_eq, fitsAt_iff, weight_eq]
    constructor
    · intro hrun
      obtain ⟨m, hm, hrun⟩ := ok_of_bind hrun
      obtain ⟨hdepth, hself, htotal, rfl⟩ := addOwnSize_eq_ok.mp hm
      obtain ⟨hparts, rfl⟩ := (addSizes_eq_ok ih htotal).mp hrun
      exact ⟨⟨⟨hdepth, hself, htotal⟩, hparts⟩, by omega⟩
    · rintro ⟨⟨⟨hdepth, hself, htotal⟩, hparts⟩, rfl⟩
      rw [addOwnSize_eq_ok.mpr ⟨hdepth, hself, htotal, rfl⟩]
      exact (addSizes_eq_ok ih htotal).mpr ⟨hparts, by omega⟩

/-! ## Measured values -/

/-- A value that passes no limit. -/
def IsMeasured (v : Value) : Prop := ∃ n, v.measure = .ok n

/-- A value can be measured just if it is nested at most `maxDepth` levels deep, nothing in it is
    too long and the sum of all sizes is at most `maxSize`. -/
theorem isMeasured_iff {v : Value} :
    v.IsMeasured ↔ v.height ≤ maxDepth ∧ v.All IsShort ∧ v.weight ≤ maxSize := by
  constructor
  · rintro ⟨n, h⟩
    obtain ⟨⟨hheight, hshort, hweight⟩, -⟩ := (addSize_eq_ok v 1 0 n).mp h
    exact ⟨by omega, hshort, by omega⟩
  · rintro ⟨hheight, hshort, hweight⟩
    exact ⟨0 + v.weight, (addSize_eq_ok v 1 0 _).mpr ⟨⟨by omega, hshort, by omega⟩, rfl⟩⟩

theorem IsMeasured.part {v part : Value} (h : v.IsMeasured) (hpart : part ∈ v.parts) :
    part.IsMeasured := by
  obtain ⟨hheight, hshort, hweight⟩ := isMeasured_iff.mp h
  rw [height_eq] at hheight
  rw [weight_eq] at hweight
  have hle := heights_le_iff.mp (Nat.le_refl _) part hpart
  have hsum := weight_le_weights hpart
  exact isMeasured_iff.mpr ⟨by omega, hshort.parts part hpart, by omega⟩

theorem isMeasured_char (c : Char) : (Value.text (String.singleton c)).IsMeasured := by
  have hsize : (Value.text (String.singleton c)).ownSize ≤ 4 := by
    have hbytes := c.utf8Size_le_four
    have hone : (String.singleton c).utf8ByteSize = c.utf8Size := by simp
    change max (String.singleton c).utf8ByteSize 1 ≤ 4
    omega
  have hlimit : maxSize = 1000000 := rfl
  have hsequence : maxSequence = 100000 := rfl
  refine isMeasured_iff.mpr ⟨(by decide : 1 ≤ maxDepth), ⟨?_, List.forall_mem_nil _⟩, ?_⟩
  · unfold IsShort
    omega
  · unfold weight
    omega

theorem isMeasured_of_bounded {v out : Value} (h : v.bounded = .ok out) :
    out = v ∧ v.IsMeasured := by
  obtain ⟨n, hn, rfl⟩ := ok_of_map h
  exact ⟨rfl, n, hn⟩

end Value

end Monorepo.Script
