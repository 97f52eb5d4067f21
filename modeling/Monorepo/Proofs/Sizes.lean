import Mathlib.Algebra.GroupWithZero.Nat
import Monorepo.Proofs.Storage

/-!
# The size of a value

A value is measured by a walk that stops at the first limit passed. Whether it gets through depends
on what is reachable only, not on the order: every container has to be short enough, every text, no
value may lie too deep, and the sizes of all together may not be too large. A text may have one byte
more than a container may have items, since the walk allows both the same size and only a container
counts for one more than it holds.
-/

namespace Monorepo.Script

namespace Value

/-! ## What is reachable -/

/-- The values reachable from a value at a depth, itself among them: each with its own depth, and as
    often as it is reached. -/
def reachable (depth : Nat) (v : Value) : List (Nat × Value) :=
  (depth, v) :: v.parts.attach.flatMap fun ⟨part, _⟩ => part.reachable (depth + 1)
termination_by sizeOf v
decreasing_by exact sizeOf_lt_of_mem_parts ‹_›

theorem reachable_eq (depth : Nat) (v : Value) :
    v.reachable depth = (depth, v) :: v.parts.flatMap (reachable (depth + 1)) := by
  rw [reachable]
  simp

theorem forall_mem_reachable {depth : Nat} {v : Value} {Q : Nat × Value → Prop} :
    (∀ r ∈ v.reachable depth, Q r) ↔
      Q (depth, v) ∧ ∀ part ∈ v.parts, ∀ r ∈ part.reachable (depth + 1), Q r := by
  rw [reachable_eq, List.forall_mem_cons]
  refine and_congr_right fun _ => ⟨fun h part hpart r hr => ?_, fun h r hr => ?_⟩
  · exact h r (List.mem_flatMap.mpr ⟨part, hpart, hr⟩)
  · obtain ⟨part, hpart, hr⟩ := List.mem_flatMap.mp hr
    exact h part hpart r hr

/-- How many bytes a text has, or the trace of a stub. -/
def bytes? : Value → Option Nat
  | .text s => some s.utf8ByteSize
  | .stub trace => some trace.utf8ByteSize
  | _ => Option.none

/-- The size of a value by itself: the bytes of a text, but one at least; the items of a container
    and one more; otherwise one. -/
def share (v : Value) : Nat :=
  match v.count?, v.bytes? with
  | some n, _ => n + 1
  | _, some n => max n 1
  | _, _ => 1

/-- The sizes of everything reachable from a value together. -/
def total (v : Value) : Nat := ((v.reachable 1).map fun r => r.2.share).sum

/-- A value within the limits, when a text may have so many bytes. -/
structure Limited (bytes : Nat) (v : Value) : Prop where
  items : ∀ r ∈ v.reachable 1, ∀ n ∈ r.2.count?, n ≤ maxSequence
  texts : ∀ r ∈ v.reachable 1, ∀ n ∈ r.2.bytes?, n ≤ bytes
  nesting : ∀ r ∈ v.reachable 1, r.1 ≤ maxDepth
  total : v.total ≤ maxSize

/-! ## The limits one by one -/

theorem share_eq (v : Value) : v.share = v.ownSize := by
  cases v <;> rfl

theorem isShort_iff {v : Value} :
    v.IsShort ↔ (∀ n ∈ v.count?, n ≤ maxSequence) ∧ ∀ n ∈ v.bytes?, n ≤ maxSequence + 1 := by
  have hbytes (n : Nat) : max n 1 ≤ maxSequence + 1 ↔ n ≤ maxSequence + 1 := by omega
  unfold IsShort
  cases v <;> simp [ownSize, count?, bytes?, hbytes]

theorem all_iff_reachable {P : Value → Prop} (depth : Nat) (v : Value) :
    v.All P ↔ ∀ r ∈ v.reachable depth, P r.2 := by
  induction v using induction_parts generalizing depth with
  | step v ih =>
    rw [forall_mem_reachable]
    constructor
    · intro h
      exact ⟨h.self, fun part hpart => (ih part hpart (depth + 1)).mp (h.parts part hpart)⟩
    · rintro ⟨hself, hparts⟩
      exact ⟨hself, fun part hpart => (ih part hpart (depth + 1)).mpr (hparts part hpart)⟩

theorem height_le_iff_reachable (limit depth : Nat) (v : Value) :
    depth + v.height ≤ limit + 1 ↔ ∀ r ∈ v.reachable depth, r.1 ≤ limit := by
  induction v using induction_parts generalizing depth with
  | step v ih =>
    rw [forall_mem_reachable, height_eq]
    have hparts : (∀ part ∈ v.parts, ∀ r ∈ part.reachable (depth + 1), r.1 ≤ limit) ↔
        ∀ part ∈ v.parts, depth + 1 + part.height ≤ limit + 1 :=
      forall₂_congr fun part hpart => (ih part hpart (depth + 1)).symm
    rw [hparts]
    constructor
    · intro h
      refine ⟨by omega, fun part hpart => ?_⟩
      have hle := heights_le_iff.mp (Nat.le_refl _) part hpart
      omega
    · rintro ⟨hdepth, h⟩
      change depth ≤ limit at hdepth
      have hle : heights v.parts ≤ limit - depth := heights_le_iff.mpr fun part hpart => by
        have hpart := h part hpart
        omega
      omega

theorem sum_reachable (depth : Nat) (v : Value) :
    ((v.reachable depth).map fun r => r.2.share).sum = v.weight := by
  induction v using induction_parts generalizing depth with
  | step v ih =>
    have hparts (values : List Value) (h : ∀ part ∈ values, ∀ depth,
        ((part.reachable depth).map fun r => r.2.share).sum = part.weight) :
        ((values.flatMap (reachable (depth + 1))).map fun r => r.2.share).sum = weights values := by
      induction values with
      | nil => rfl
      | cons value values ih =>
        obtain ⟨hvalue, hvalues⟩ := List.forall_mem_cons.mp h
        rw [List.flatMap_cons, List.map_append, List.sum_append, hvalue, ih hvalues, weights]
    rw [reachable_eq, weight_eq, List.map_cons, List.sum_cons, share_eq, hparts v.parts ih]

theorem limited_iff {v : Value} :
    v.Limited (maxSequence + 1) ↔ v.FitsAt 1 0 := by
  have hshort : v.All IsShort ↔ (∀ r ∈ v.reachable 1, ∀ n ∈ r.2.count?, n ≤ maxSequence) ∧
      ∀ r ∈ v.reachable 1, ∀ n ∈ r.2.bytes?, n ≤ maxSequence + 1 := by
    rw [all_iff_reachable 1]
    simp only [isShort_iff]
    exact ⟨fun h => ⟨fun r hr => (h r hr).1, fun r hr => (h r hr).2⟩,
      fun h r hr => ⟨h.1 r hr, h.2 r hr⟩⟩
  have hheight := height_le_iff_reachable maxDepth 1 v
  have htotal : v.total = v.weight := sum_reachable 1 v
  constructor
  · intro h
    refine ⟨hheight.mpr h.nesting, hshort.mpr ⟨h.items, h.texts⟩, ?_⟩
    rw [Nat.zero_add, ← htotal]
    exact h.total
  · intro h
    obtain ⟨hitems, htexts⟩ := hshort.mp h.short
    refine ⟨hitems, htexts, hheight.mp h.height, ?_⟩
    rw [htotal, ← Nat.zero_add v.weight]
    exact h.weight

/-! ## Measuring -/

/-- **Measuring asks for the limits only.** A value can be measured just if no container that is
    reachable has too many items, no text or trace too many bytes, nothing lies too deep and all
    sizes together are not too large; and the result is their sum. Where containers may have
    `maxSequence` items, texts may have one byte more. -/
theorem measure_eq_ok_iff (v : Value) (n : Nat) :
    v.measure = .ok n ↔ v.Limited (maxSequence + 1) ∧ n = v.total := by
  have htotal : v.total = v.weight := sum_reachable 1 v
  have hwalk := addSize_eq_ok v 1 0 n
  rw [Nat.zero_add] at hwalk
  rw [limited_iff, htotal]
  exact hwalk

/-- `n` letters. -/
def letters (n : Nat) : Value := .text (String.ofList (List.replicate n 'a'))

theorem utf8ByteSize_replicate (n : Nat) :
    (String.ofList (List.replicate n 'a')).utf8ByteSize = n := by
  induction n with
  | zero => rfl
  | succ n ih =>
    rw [List.replicate_succ', String.ofList_append, String.utf8ByteSize_append, ih]
    rfl

theorem bytes?_letters (n : Nat) : (letters n).bytes? = some n :=
  congrArg some (utf8ByteSize_replicate n)

theorem measure_letters {n : Nat} (hpos : 1 ≤ n) (hn : n ≤ maxSequence + 1) :
    (letters n).measure = .ok n := by
  have hlimit : maxSequence + 1 ≤ maxSize := by decide
  have hsize : (letters n).ownSize = n := by
    have hmax := congrArg (max · 1) (utf8ByteSize_replicate n)
    exact hmax.trans (Nat.max_eq_left hpos)
  have hdepth : 1 ≤ maxDepth := by decide
  have hwalk : (letters n).measure = addOwnSize 1 0 (letters n) := by
    unfold measure letters addSize
    rfl
  rw [hwalk, addOwnSize_eq_ok, hsize]
  omega

theorem not_limited_letters {n bytes : Nat} (h : bytes < n) : ¬ (letters n).Limited bytes := by
  intro hlimited
  have hself := (forall_mem_reachable.mp hlimited.texts).1 n (bytes?_letters n)
  omega

/-- A text of one byte more than the limit is measured all the same. -/
theorem measure_overlong :
    (letters (maxSequence + 1)).measure = .ok (maxSequence + 1) ∧
      (letters (maxSequence + 1)).bytes? = some (maxSequence + 1) ∧
      ¬ (letters (maxSequence + 1)).Limited maxSequence :=
  ⟨measure_letters (by decide) (Nat.le_refl _), bytes?_letters _,
    not_limited_letters (Nat.lt_succ_self _)⟩

end Value

end Monorepo.Script
