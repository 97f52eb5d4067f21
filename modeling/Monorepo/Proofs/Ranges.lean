import Monorepo.Proofs.Integers
import Monorepo.Script.Builtins

/-!
# Ranges of integers

A range goes from a number in equal steps and ends before it reaches a bound. Its length is computed
by one division, rounded up, and that is how many multiples of the step lead to numbers before the
bound. All of these lie between the ends, so none is changed when it is cut down to 64 bits.
-/

namespace Monorepo.Script

open Decimal (minInt64 maxInt64)

/-- Whether a number comes before a bound in the direction of a step. -/
def Precedes (step x stop : Int) : Prop := (0 < step ∧ x < stop) ∨ (step < 0 ∧ stop < x)

/-! ## Length -/

/-- How many multiples of an ascending step are less than a distance. -/
theorem lt_quotient_iff {distance step : Int} (hstep : 0 < step) (hdistance : 0 < distance)
    (i : Nat) : i < ((distance - 1) / step + 1).toNat ↔ i * step < distance := by
  have hquotient : 0 ≤ (distance - 1) / step := Int.ediv_nonneg (by omega) (Int.le_of_lt hstep)
  have hle := Int.le_ediv_iff_mul_le (a := i) (b := distance - 1) hstep
  omega

theorem lt_rangeLength_iff {start stop step : Int} (hstep : step ≠ 0) (i : Nat) :
    i < rangeLength start stop step ↔ Precedes step (start + i * step) stop := by
  unfold rangeLength Precedes
  rcases Int.lt_or_gt_of_ne hstep with hneg | hpos
  · have hmul : (i : Int) * -step = -(i * step) := Int.mul_neg ..
    have hsteps : 0 ≤ (i : Int) * -step := Int.mul_nonneg (by omega) (by omega)
    rw [if_neg (by omega)]
    by_cases hfar : stop < start
    · rw [if_pos ⟨hneg, hfar⟩, lt_quotient_iff (by omega) (by omega)]
      omega
    · rw [if_neg (by omega)]
      omega
  · have hsteps : 0 ≤ (i : Int) * step := Int.mul_nonneg (by omega) (by omega)
    by_cases hfar : start < stop
    · rw [if_pos ⟨hpos, hfar⟩, lt_quotient_iff hpos (by omega)]
      omega
    · rw [if_neg (by omega), if_neg (by omega)]
      omega

/-! ## Numbers -/

theorem wrapInt64_eq {n : Int} (h : IsInt64 n) : Decimal.wrapInt64 n = n :=
  Int.bmod_eq_of_le h.1 (Int.lt_add_one_iff.mpr h.2)

/-- What comes before the bound lies between the ends. -/
theorem isInt64_of_precedes {start stop step : Int} (hstart : IsInt64 start) (hstop : IsInt64 stop)
    {i : Nat} (h : Precedes step (start + i * step) stop) : IsInt64 (start + i * step) := by
  unfold IsInt64 at hstart hstop ⊢
  rcases h with ⟨hpos, hlt⟩ | ⟨hneg, hlt⟩
  · have hsteps : 0 ≤ (i : Int) * step := Int.mul_nonneg (by omega) (by omega)
    omega
  · have hmul : (i : Int) * -step = -(i * step) := Int.mul_neg ..
    have hsteps : 0 ≤ (i : Int) * -step := Int.mul_nonneg (by omega) (by omega)
    omega

theorem rangeList_eq {start stop step : Int} (hstart : IsInt64 start) (hstop : IsInt64 stop)
    (hstep : step ≠ 0) :
    rangeList start stop step =
      if rangeLength start stop step ≤ maxSequence then
        .ok (.list ((List.range (rangeLength start stop step)).map fun i : Nat =>
          .int (start + i * step)))
      else .error (.rangeSize (rangeLength start stop step)) := by
  have hnumbers : (List.range (rangeLength start stop step)).map (fun i : Nat =>
      Value.int (Decimal.wrapInt64 (start + i * step))) =
      (List.range (rangeLength start stop step)).map fun i : Nat => .int (start + i * step) := by
    refine List.map_congr_left fun i hi => ?_
    have hprecedes := (lt_rangeLength_iff hstep i).mp (List.mem_range.mp hi)
    rw [wrapInt64_eq (isInt64_of_precedes hstart hstop hprecedes)]
  unfold rangeList
  dsimp only
  rw [if_neg hstep, hnumbers]
  by_cases hfits : rangeLength start stop step ≤ maxSequence
  · rw [if_neg (Nat.not_lt.mpr hfits), if_pos hfits]
  · rw [if_pos (Nat.lt_of_not_le hfits), if_neg hfits]

/-! ## Arguments -/

/-- Where a range starts, where it stops and its step, by its arguments: integers or truth
    values. -/
inductive Spans : List Value → Int → Int → Int → Prop
  /-- The bound alone. -/
  | stop {v : Value} {stop : Int} (hstop : v.number? = some (.int stop)) : Spans [v] 0 stop 1
  /-- Both ends. -/
  | ends {v w : Value} {start stop : Int} (hstart : v.number? = some (.int start))
    (hstop : w.number? = some (.int stop)) : Spans [v, w] start stop 1
  /-- Both ends and the step. -/
  | steps {v w x : Value} {start stop step : Int} (hstart : v.number? = some (.int start))
    (hstop : w.number? = some (.int stop)) (hstep : x.number? = some (.int step)) :
    Spans [v, w, x] start stop step

theorem rangeBound_eq {v : Value} {n : Int} (h : v.number? = some (.int n)) :
    rangeBound v = .ok n := by
  unfold rangeBound
  rw [h]

theorem range_eq {arguments : List Value} {start stop step : Int}
    (h : Spans arguments start stop step) : range arguments = rangeList start stop step := by
  unfold range
  cases h with
  | stop hstop =>
    rw [List.mapM_cons, rangeBound_eq hstop]
    rfl
  | ends hstart hstop =>
    rw [List.mapM_cons, List.mapM_cons, rangeBound_eq hstart, rangeBound_eq hstop]
    rfl
  | steps hstart hstop hstep =>
    rw [List.mapM_cons, List.mapM_cons, List.mapM_cons, rangeBound_eq hstart, rangeBound_eq hstop,
      rangeBound_eq hstep]
    rfl

/-- **A range holds what comes before its bound.** Between ends of 64 bits and with a step that is
    not zero there are as many numbers as multiples of the step that lead from the start to a number
    before the bound. If they are not too many, the range is the list of exactly these numbers, each
    of which fits in 64 bits; otherwise it is refused. A step of zero is always refused. -/
theorem range_precedes {arguments : List Value} {start stop step : Int}
    (h : Spans arguments start stop step) (hstart : IsInt64 start) (hstop : IsInt64 stop) :
    (step = 0 → range arguments = .error .rangeStep) ∧
    (step ≠ 0 → ∃ length : Nat,
      (∀ i : Nat, i < length ↔ Precedes step (start + i * step) stop) ∧
      (∀ i < length, IsInt64 (start + i * step)) ∧
      range arguments =
        if length ≤ maxSequence then
          .ok (.list ((List.range length).map fun i : Nat => .int (start + i * step)))
        else .error (.rangeSize length)) := by
  rw [range_eq h]
  refine ⟨fun hzero => if_pos hzero, fun hstep => ?_⟩
  exact ⟨rangeLength start stop step, lt_rangeLength_iff hstep,
    fun i hi => isInt64_of_precedes hstart hstop ((lt_rangeLength_iff hstep i).mp hi),
    rangeList_eq hstart hstop hstep⟩

/-- The least integer as the bound and as the step: two numbers come before it. -/
theorem range_precedes_least :
    let arguments := [Value.int (maxInt64 - 1), .int minInt64, .int minInt64]
    Spans arguments (maxInt64 - 1) minInt64 minInt64 ∧ IsInt64 (maxInt64 - 1) ∧ IsInt64 minInt64 ∧
    minInt64 ≠ 0 ∧ range arguments = .ok (.list [.int (maxInt64 - 1), .int (-2)]) := by
  intro arguments
  have hspans : Spans arguments (maxInt64 - 1) minInt64 minInt64 := .steps rfl rfl rfl
  have hstart : IsInt64 (maxInt64 - 1) := by decide
  have hstop : IsInt64 minInt64 := by decide
  have hstep : minInt64 ≠ 0 := by decide
  obtain ⟨length, hlength, -, hrange⟩ := (range_precedes hspans hstart hstop).2 hstep
  have htwo : length = 2 := by
    have hone := (hlength 1).mpr (Or.inr (by decide))
    have hthree := mt (hlength 2).mp (by unfold Precedes; decide)
    omega
  subst htwo
  exact ⟨hspans, hstart, hstop, hstep, hrange⟩

end Monorepo.Script
