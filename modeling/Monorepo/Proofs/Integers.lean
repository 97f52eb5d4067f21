import Mathlib.Data.Rat.Floor
import Monorepo.Script.Operators

/-!
# Arithmetic on integers of 64 bits

An operation on integers yields the exact result where that fits in 64 bits. The quotient is rounded
down and the remainder has the sign of the divisor, so the two fit together. The remainder is only
there where the quotient is: it fits in 64 bits always, but that of the least integer by -1 fails
with the quotient.
-/

namespace Monorepo.Script

open Decimal (minInt64 maxInt64)

/-- An integer of 64 bits. -/
def IsInt64 (n : Int) : Prop := minInt64 ≤ n ∧ n ≤ maxInt64

instance (n : Int) : Decidable (IsInt64 n) := inferInstanceAs (Decidable (_ ∧ _))

/-- The exact result of an operation on integers that yields an integer: the floor quotient is the
    quotient rounded down, and the remainder is what it leaves of the dividend. -/
def ArithmeticOp.exact (op : ArithmeticOp) (x y : Int) : Int :=
  match op with
  | .add => x + y
  | .subtract => x - y
  | .multiply => x * y
  | .divide | .floorDivide => ⌊(x / y : ℚ)⌋
  | .modulo => x - ⌊(x / y : ℚ)⌋ * y

/-! ## Floor quotient and remainder -/

theorem floor_div_eq_fdiv (x y : Int) : ⌊(x / y : ℚ)⌋ = x.fdiv y := by
  have hnat (x : Int) (d : Nat) : ⌊(x / (d : Int) : ℚ)⌋ = x.fdiv d := by
    rw [Int.fdiv_eq_ediv_of_nonneg x (Int.natCast_nonneg d)]
    exact_mod_cast Rat.floor_intCast_div_natCast x d
  obtain ⟨d, rfl | rfl⟩ := y.eq_nat_or_neg
  · exact hnat x d
  · have hneg : (x / ((-(d : Int) : Int) : ℚ)) = ((-x : Int) : ℚ) / (d : Int) := by
      push_cast
      rw [div_neg, neg_div]
    have hfdiv : x.fdiv (-(d : Int)) = (-x).fdiv d := by
      have h := Int.neg_fdiv_neg (-x) d
      rw [Int.neg_neg] at h
      exact h
    rw [hneg, hnat, hfdiv]

theorem exact_modulo_eq_fmod (x y : Int) : ArithmeticOp.modulo.exact x y = x.fmod y := by
  have h := Int.fdiv_mul_add_fmod x y
  change x - ⌊(x / y : ℚ)⌋ * y = x.fmod y
  rw [floor_div_eq_fdiv]
  omega

/-- The remainder lies between zero and the divisor. -/
theorem fmod_bounds (x : Int) {y : Int} (hy : y ≠ 0) :
    (0 < y ∧ 0 ≤ x.fmod y ∧ x.fmod y < y) ∨ (y < 0 ∧ y < x.fmod y ∧ x.fmod y ≤ 0) := by
  rcases Int.lt_or_gt_of_ne hy with hneg | hpos
  · have hnonneg := Int.fmod_nonneg_of_pos (-x) (b := -y) (by omega)
    have hlt := Int.fmod_lt_of_pos (-x) (b := -y) (by omega)
    rw [Int.neg_fmod_neg] at hnonneg hlt
    exact Or.inr ⟨hneg, by omega, by omega⟩
  · exact Or.inl ⟨hpos, Int.fmod_nonneg_of_pos x hpos, Int.fmod_lt_of_pos x hpos⟩

/-- The remainder has the sign of the divisor. -/
theorem sign_fmod (x : Int) {y : Int} (hy : y ≠ 0) :
    x.fmod y = 0 ∨ (x.fmod y).sign = y.sign := by
  rcases fmod_bounds x hy with ⟨hpos, hnonneg, -⟩ | ⟨hneg, -, hnonpos⟩
  · rcases hnonneg.eq_or_lt with hzero | hsign
    · exact Or.inl hzero.symm
    · exact Or.inr (by rw [Int.sign_eq_one_of_pos hsign, Int.sign_eq_one_of_pos hpos])
  · rcases hnonpos.eq_or_lt with hzero | hsign
    · exact Or.inl hzero
    · exact Or.inr (by rw [Int.sign_eq_neg_one_of_neg hsign, Int.sign_eq_neg_one_of_neg hneg])

theorem abs_fmod_lt (x : Int) {y : Int} (hy : y ≠ 0) : |x.fmod y| < |y| := by
  rcases fmod_bounds x hy with ⟨hpos, hnonneg, hlt⟩ | ⟨hneg, hlt, hnonpos⟩
  · rw [abs_of_nonneg hnonneg, abs_of_pos hpos]
    exact hlt
  · rw [abs_of_nonpos hnonpos, abs_of_neg hneg]
    omega

section Fits

variable {x y : Int} (hx : IsInt64 x) (hy : IsInt64 y) (hne : y ≠ 0)
include hx hne

/-- The floor quotient fits except for one. -/
theorem isInt64_fdiv_iff : IsInt64 (x.fdiv y) ↔ ¬ (x = minInt64 ∧ y = -1) := by
  have hbound := Int.natAbs_fdiv_le_natAbs x y
  have hsplit := Int.fdiv_mul_add_fmod x y
  have hmod := fmod_bounds x hne
  have hmin : minInt64 = -0x8000000000000000 := rfl
  have hmax : maxInt64 = 0x7FFFFFFFFFFFFFFF := rfl
  unfold IsInt64 at hx ⊢
  constructor
  · rintro hfits ⟨rfl, rfl⟩
    have hlone : minInt64.fdiv (-1) = 0x8000000000000000 := rfl
    omega
  · intro hother
    refine ⟨by omega, ?_⟩
    -- only the quotient just above the greatest integer is in question
    by_contra hlarge
    have hq : x.fdiv y = 0x8000000000000000 := by omega
    rw [hq] at hsplit
    omega

include hy

omit hx in
theorem isInt64_fmod : IsInt64 (x.fmod y) := by
  have hmod := fmod_bounds x hne
  have hmin : minInt64 = -0x8000000000000000 := rfl
  have hmax : maxInt64 = 0x7FFFFFFFFFFFFFFF := rfl
  unfold IsInt64 at hy ⊢
  omega

end Fits

/-! ## Operations -/

theorem checkInt_eq (n : Int) : checkInt n = if IsInt64 n then .ok n else .error .overflow := by
  have hfits : Decimal.int64? n = if IsInt64 n then some n else none := rfl
  unfold checkInt
  rw [hfits]
  by_cases h : IsInt64 n
  · rw [if_pos h, if_pos h]
  · rw [if_neg h, if_neg h]

/-- A result of integers is checked as a whole. -/
theorem map_checkInt (n : Int) (f : Int → Value) :
    (checkInt n).map f = if IsInt64 n then .ok (f n) else .error .overflow := by
  rw [checkInt_eq]
  split <;> rfl

theorem operate_int (op : ArithmeticOp) (x y : Int) :
    operate op (.int x) (.int y) = intArithmetic op x y := by
  cases op <;> rfl

/-- Where nothing is divided by zero, the result has to fit, and for a remainder the quotient. -/
theorem operate_checked (op : ArithmeticOp) (hop : op ≠ .divide) (x : Int) {y : Int}
    (hne : op.divides = true → y ≠ 0) :
    operate op (.int x) (.int y) =
      if IsInt64 (if op = .modulo then x.fdiv y else op.exact x y) then .ok (.int (op.exact x y))
      else .error .overflow := by
  have hzero : ¬ (op.divides && y == 0) = true := by simpa using hne
  rw [operate_int]
  unfold intArithmetic
  rw [if_neg hzero]
  cases op with
  | divide => exact absurd rfl hop
  | add | subtract | multiply => exact map_checkInt _ .int
  | floorDivide =>
    have hexact : ArithmeticOp.floorDivide.exact x y = x.fdiv y := floor_div_eq_fdiv x y
    rw [hexact]
    exact map_checkInt _ .int
  | modulo =>
    rw [exact_modulo_eq_fmod]
    exact map_checkInt _ _

theorem operate_floorDivide (x : Int) {y : Int} (hne : y ≠ 0) :
    operate .floorDivide (.int x) (.int y) =
      if IsInt64 (x.fdiv y) then .ok (.int (x.fdiv y)) else .error .overflow := by
  have hexact : ArithmeticOp.floorDivide.exact x y = x.fdiv y := floor_div_eq_fdiv x y
  rw [operate_checked .floorDivide nofun x fun _ => hne, hexact]
  rfl

theorem operate_modulo (x : Int) {y : Int} (hne : y ≠ 0) :
    operate .modulo (.int x) (.int y) =
      if IsInt64 (x.fdiv y) then .ok (.int (x.fmod y)) else .error .overflow := by
  rw [operate_checked .modulo nofun x fun _ => hne, if_pos rfl, exact_modulo_eq_fmod]

theorem mapError_checked (b : Prop) [Decidable b] (v : Value) :
    (if b then .ok v else .error EvalFault.overflow : Except EvalFault Value).mapError
        EvalFault.message =
      if b then .ok v else .error "integer overflow" := by
  split <;> rfl

/-- **Integers of 64 bits are exact.** `+`, `-`, `*`, `//` and `%` yield the exact result where it
    fits in 64 bits and fail where it does not, and `//` and `%` have a fault of their own for a
    divisor of zero. Only the remainder of the least integer by -1 fails although it fits. So the
    remainder is what the quotient leaves, and it lies between zero and the divisor. -/
theorem operate_integers {x y : Int} (hx : IsInt64 x) (hy : IsInt64 y) :
    (∀ op, op ≠ .divide →
      (operate op (.int x) (.int y)).mapError EvalFault.message =
        if (op = .floorDivide ∨ op = .modulo) ∧ y = 0 then
          .error "integer division or modulo by zero"
        else if IsInt64 (op.exact x y) ∧ ¬ (op = .modulo ∧ x = minInt64 ∧ y = -1) then
          .ok (.int (op.exact x y))
        else .error "integer overflow") ∧
    (y ≠ 0 → ∀ q, operate .floorDivide (.int x) (.int y) = .ok (.int q) →
      ∃ r, operate .modulo (.int x) (.int y) = .ok (.int r) ∧ q * y + r = x) ∧
    (y ≠ 0 → ¬ (x = minInt64 ∧ y = -1) →
      ∃ r, operate .modulo (.int x) (.int y) = .ok (.int r) ∧ (r = 0 ∨ r.sign = y.sign) ∧
        |r| < |y|) := by
  refine ⟨fun op hop => ?_, fun hne q hq => ?_, fun hne hother => ?_⟩
  · by_cases hzero : (op = .floorDivide ∨ op = .modulo) ∧ y = 0
    · rw [if_pos hzero]
      obtain ⟨rfl | rfl, rfl⟩ := hzero <;> rfl
    · have hne : op.divides = true → y ≠ 0 := by
        intro hdivides hy
        cases op <;> simp_all [ArithmeticOp.divides]
      rw [if_neg hzero, operate_checked op hop x hne, mapError_checked]
      congr 1
      by_cases hop' : op = .modulo
      · subst hop'
        have hne := hne rfl
        have hfits := isInt64_fmod (x := x) hy hne
        rw [exact_modulo_eq_fmod, if_pos rfl, isInt64_fdiv_iff hx hne]
        simp [hfits]
      · rw [if_neg hop']
        simp [hop']
  · rw [operate_floorDivide x hne] at hq
    rw [operate_modulo x hne]
    by_cases hfits : IsInt64 (x.fdiv y)
    · rw [if_pos hfits] at hq ⊢
      cases hq
      exact ⟨x.fmod y, rfl, Int.fdiv_mul_add_fmod x y⟩
    · rw [if_neg hfits] at hq
      cases hq
  · refine ⟨x.fmod y, ?_, sign_fmod x hne, abs_fmod_lt x hne⟩
    rw [operate_modulo x hne, if_pos ((isInt64_fdiv_iff hx hne).mpr hother)]

/-- The least integer and 3: `//` and `%` round down. -/
theorem operate_integers_least :
    IsInt64 minInt64 ∧ IsInt64 3 ∧
    operate .floorDivide (.int minInt64) (.int 3) = .ok (.int (-3074457345618258603)) ∧
    ∃ r, operate .modulo (.int minInt64) (.int 3) = .ok (.int r) ∧
      -3074457345618258603 * 3 + r = minInt64 := by
  have hleast : IsInt64 minInt64 := by decide
  have hthree : IsInt64 3 := by decide
  have hquotient : operate .floorDivide (.int minInt64) (.int 3) =
      .ok (.int (-3074457345618258603)) := rfl
  have hintegers := operate_integers hleast hthree
  exact ⟨hleast, hthree, hquotient, hintegers.2.1 (by decide) _ hquotient⟩

/-- The remainder of the least integer by -1 is zero, which fits; but there is none. -/
theorem operate_modulo_least :
    IsInt64 minInt64 ∧ IsInt64 (-1) ∧ ArithmeticOp.modulo.exact minInt64 (-1) = 0 ∧ IsInt64 0 ∧
    (operate .modulo (.int minInt64) (.int (-1))).mapError EvalFault.message =
      .error "integer overflow" := by
  refine ⟨by decide, by decide, ?_, by decide, rfl⟩
  rw [exact_modulo_eq_fmod]
  rfl

end Monorepo.Script
