import Mathlib.Logic.Function.Iterate
import Monorepo.Script.Operators

/-!
# Rounds of a repetition

A list is repeated in rounds, each of which puts its items once more behind what is there. What is
limited is the length of the result. So a list that has items is repeated in as many rounds at most
as a sequence may have items, and any further request is refused before the first round. An empty
list is no longer after any number of rounds, and the limit lets it pass with every number.
-/

namespace Monorepo.Script

/-- A list while it is repeated. -/
structure Repetition (α : Type) where
  /-- What is put together. -/
  out : List α
  /-- How many rounds were run. -/
  rounds : Nat

namespace Repetition

variable {α : Type}

/-- A round: the items once more. -/
def round (items : List α) (r : Repetition α) : Repetition α := ⟨r.out ++ items, r.rounds + 1⟩

/-- The rounds of a repetition, from the first one on. -/
def run (items : List α) (count : Nat) : Repetition α := (round items)^[count] ⟨[], 0⟩

theorem repeatItems_succ (items : List α) (count : Nat) :
    repeatItems items (count + 1) = repeatItems items count ++ items := by
  unfold repeatItems
  split
  · rename_i hempty
    rw [List.isEmpty_iff.mp hempty]
    rfl
  · rw [List.replicate_succ', List.flatten_append, List.flatten_singleton]

/-- Behind its rounds the items are put together as often. -/
def Holds (items : List α) (r : Repetition α) : Prop := r.out = repeatItems items r.rounds

theorem Holds.round {items : List α} {r : Repetition α} (h : r.Holds items) :
    (r.round items).Holds items := by
  unfold Holds at h ⊢
  rw [Repetition.round, repeatItems_succ, h]

theorem rounds_run (items : List α) (count : Nat) : (run items count).rounds = count := by
  induction count with
  | zero => rfl
  | succ count ih =>
    unfold run at ih ⊢
    rw [Function.iterate_succ_apply']
    exact congrArg (· + 1) ih

theorem holds_run (items : List α) (count : Nat) : (run items count).Holds items := by
  induction count with
  | zero =>
    change [] = repeatItems items 0
    unfold repeatItems
    split <;> rfl
  | succ count ih =>
    unfold run at ih ⊢
    rw [Function.iterate_succ_apply']
    exact ih.round

theorem out_run (items : List α) (count : Nat) :
    (run items count).out = repeatItems items count := by
  have h := holds_run items count
  rwa [Holds, rounds_run] at h

end Repetition

/-! ## Requests -/

theorem repeatCount_eq (unit : Nat) (times : Int) :
    repeatCount unit times =
      if unit * times.toNat ≤ maxSequence then .ok times.toNat else .error .repetitionSize := by
  unfold repeatCount
  by_cases hpos : times ≤ 0
  · have hzero : times.toNat = 0 := Int.toNat_of_nonpos hpos
    rw [if_pos hpos, hzero, Nat.mul_zero, if_pos (Nat.zero_le _)]
  · rw [if_neg hpos]
    by_cases hfits : unit * times.toNat ≤ maxSequence
    · rw [if_neg (Nat.not_lt.mpr hfits), if_pos hfits]
    · rw [if_pos (Nat.lt_of_not_le hfits), if_neg hfits]

/-- What is not empty is repeated at most as often as a sequence may have items. -/
theorem le_of_repeatCount {unit count : Nat} {times : Int} (hunit : unit ≠ 0)
    (h : repeatCount unit times = .ok count) : count ≤ maxSequence := by
  rw [repeatCount_eq] at h
  split at h
  · cases h
    exact Nat.le_trans (Nat.le_mul_of_pos_left _ (Nat.pos_of_ne_zero hunit)) ‹_›
  · cases h

theorem repeatCount_refuses {unit : Nat} {times : Int} (hunit : unit ≠ 0)
    (htimes : (maxSequence : Int) < times) : repeatCount unit times = .error .repetitionSize := by
  have hlarge : maxSequence < unit * times.toNat := by
    have hle : times.toNat ≤ unit * times.toNat :=
      Nat.le_mul_of_pos_left _ (Nat.pos_of_ne_zero hunit)
    omega
  rw [repeatCount_eq, if_neg (Nat.not_le.mpr hlarge)]

/-- The rounds that a list is repeated in, or the fault in place of them. -/
def repetition (items : List Value) (n : Int) : Except EvalFault (Repetition Value) :=
  (repeatCount items.length n).map (Repetition.run items)

theorem repeatList_eq (items : List Value) (n : Int) :
    repeatList items n = (repetition items n).map fun r => .list r.out := by
  unfold repeatList repetition
  cases repeatCount items.length n with
  | error fault => rfl
  | ok count =>
    change Except.ok (Value.list (repeatItems items count)) =
      .ok (.list (Repetition.run items count).out)
    rw [Repetition.out_run]

/-- An empty list passes with every number, and is repeated in as many rounds. -/
theorem repetition_nil (n : Int) : repetition [] n = .ok (.run [] n.toNat) := by
  have h : repeatCount 0 n = .ok n.toNat := by
    rw [repeatCount_eq, Nat.zero_mul, if_pos (Nat.zero_le _)]
  rw [repetition, List.length_nil, h]
  rfl

/-- A list with items is repeated in as many rounds as the integer says, on whichever side that
    stands. They are run just if the result is not too long, and then they are no more than the
    items that a sequence may have. So every greater integer is refused, and not for lists alone. -/
theorem multiply_rounds {items : List Value} (hitems : items ≠ []) (n : Int) {left right : Value}
    (hfactors : (left = .list items ∧ right = .int n) ∨ (left = .int n ∧ right = .list items)) :
    operate .multiply left right = (repetition items n).map (fun r => .list r.out) ∧
    ((∃ r, repetition items n = .ok r) ↔ items.length * n.toNat ≤ maxSequence) ∧
    (∀ r, repetition items n = .ok r → r.rounds = n.toNat ∧ r.rounds ≤ maxSequence) ∧
    (maxSequence < n → (operate .multiply left right).mapError EvalFault.message =
      .error "repetition exceeds the size limit") ∧
    (∀ unit count, unit ≠ 0 → repeatCount unit n = .ok count → count ≤ maxSequence) := by
  have hlength : items.length ≠ 0 := fun h => hitems (List.length_eq_zero_iff.mp h)
  have hoperate : operate .multiply left right = (repetition items n).map fun r => .list r.out := by
    rw [← repeatList_eq]
    rcases hfactors with ⟨rfl, rfl⟩ | ⟨rfl, rfl⟩ <;> rfl
  have hcount : repeatCount items.length n = _ := repeatCount_eq items.length n
  refine ⟨hoperate, ?_, ?_, ?_, fun unit count hunit h => le_of_repeatCount hunit h⟩
  · unfold repetition
    rw [hcount]
    split
    · exact iff_of_true ⟨_, rfl⟩ ‹_›
    · exact iff_of_false (fun ⟨r, hr⟩ => nomatch hr) ‹_›
  · intro r hr
    unfold repetition at hr
    cases hrounds : repeatCount items.length n with
    | error fault =>
      rw [hrounds] at hr
      cases hr
    | ok count =>
      rw [hrounds] at hr
      cases hr
      rw [Repetition.rounds_run]
      refine ⟨?_, le_of_repeatCount hlength hrounds⟩
      rw [hcount] at hrounds
      split at hrounds <;> cases hrounds
      rfl
  · intro hlarge
    rw [hoperate, repetition, repeatCount_refuses hlength hlarge]
    rfl

/-- Two items may be repeated 50,000 times, whichever way round. -/
theorem multiply_rounds_pair :
    let items : List Value := [.int 1, .int 2]
    items ≠ [] ∧ ∃ r, repetition items 50000 = .ok r ∧ r.rounds ≤ maxSequence ∧
      operate .multiply (.int 50000) (.list items) = .ok (.list r.out) := by
  intro items
  have hitems : items ≠ [] := List.cons_ne_nil _ _
  obtain ⟨hoperate, hruns, hrounds, -⟩ := multiply_rounds hitems 50000 (Or.inr ⟨rfl, rfl⟩)
  obtain ⟨r, hr⟩ := hruns.mpr (by decide)
  refine ⟨hitems, r, hr, (hrounds r hr).2, ?_⟩
  rw [hoperate, hr]
  rfl

/-- Of an empty list 100,001 rounds are run. -/
theorem multiply_rounds_empty :
    ∃ r, repetition [] 100001 = .ok r ∧ ¬ r.rounds ≤ maxSequence ∧
      operate .multiply (.list []) (.int 100001) = .ok (.list []) := by
  refine ⟨_, repetition_nil 100001, ?_, rfl⟩
  rw [Repetition.rounds_run]
  decide

end Monorepo.Script
