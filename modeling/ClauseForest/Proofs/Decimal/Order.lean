/-
**The order of numbers**

Floating point numbers are compared by their sign, then by their exponent, then by their mantissa, and
what is not a number is neither less nor greater than anything.  So the comparison is that of a rank in
three parts, as long as only numbers are compared.  The two zeros have the same rank.

Main definitions:

* `Decimal.rank` — the rank of a number.

Main results:

* `Decimal.lt_iff_rank_lt` — **numbers are compared by their ranks**;
* `Decimal.beq_self_iff`, `Decimal.isNaN_of_beq` — a number is equal to itself, and what is not a number is
  equal to nothing.
-/

import Mathlib.Algebra.Order.Ring.Int
import Mathlib.Data.Nat.Cast.Order.Basic
import Mathlib.Data.Prod.Lex
import Mathlib.Order.Compare

set_option relaxedAutoImplicit false
set_option autoImplicit false

namespace ClauseForest.Decimal

open Float.Model

/-- The rank of a number that is taken apart. -/
def rankOf : UnpackedFloat → ℤ ×ₗ ℤ ×ₗ ℤ
  | .infinity .negative => toLex (-2, toLex (0, 0))
  | .infinity .positive => toLex (2, toLex (0, 0))
  | .finite .negative mantissa exponent _ => toLex (-1, toLex (-exponent, -mantissa))
  | .finite .positive mantissa exponent _ => toLex (1, toLex (exponent, mantissa))
  | .zero _ | .notANumber => toLex (0, toLex (0, 0))

/-- The rank of a number. -/
def rank (x : Float) : ℤ ×ₗ ℤ ×ₗ ℤ := rankOf x.toModel.unpack

/-- Magnitudes are compared by their exponent, then by their mantissa. -/
theorem then_eq_lt_iff (exponent exponent' : ℤ) (mantissa mantissa' : ℕ) :
    (compare exponent exponent').then (compare mantissa mantissa') = .lt ↔
      toLex (exponent, (mantissa : ℤ)) < toLex (exponent', (mantissa' : ℤ)) := by
  rw [Ordering.then_eq_lt, compare_lt_iff_lt, compare_lt_iff_lt, compare_eq_iff_eq,
    Prod.Lex.toLex_lt_toLex, Nat.cast_lt]

/-- Below zero the order is the other way round. -/
theorem swap_then_eq_lt_iff (exponent exponent' : ℤ) (mantissa mantissa' : ℕ) :
    ((compare exponent exponent').then (compare mantissa mantissa')).swap = .lt ↔
      toLex (-exponent, -(mantissa : ℤ)) < toLex (-exponent', -(mantissa' : ℤ)) := by
  rw [Ordering.swap_eq_lt, Ordering.then_eq_gt, compare_gt_iff_gt, compare_gt_iff_gt,
    compare_eq_iff_eq, Prod.Lex.toLex_lt_toLex, neg_lt_neg_iff, neg_inj, neg_lt_neg_iff, Nat.cast_lt]

theorem compare_eq_lt_iff {x y : UnpackedFloat} (hx : x.isNaN = false) (hy : y.isNaN = false) :
    x.compare y = some .lt ↔ rankOf x < rankOf y := by
  have hkind : ∀ (kind : ℤ) (rest rest' : ℤ ×ₗ ℤ),
      rest < rest' ↔ toLex (kind, rest) < toLex (kind, rest') := by
    simp [Prod.Lex.toLex_lt_toLex]
  rcases x with (_ | _) | _ | _ | ⟨_ | _, mantissa, exponent, _⟩ <;>
    rcases y with (_ | _) | _ | _ | ⟨_ | _, mantissa', exponent', _⟩ <;>
    try first | exact Bool.noConfusion hx | exact Bool.noConfusion hy
  -- only finite numbers with the same sign need more than the first part of the rank
  case finite.negative.finite.negative =>
    exact (Option.some_inj.trans (swap_then_eq_lt_iff _ _ _ _)).trans (hkind (-1) _ _)
  case finite.positive.finite.positive =>
    exact (Option.some_inj.trans (then_eq_lt_iff _ _ _ _)).trans (hkind 1 _ _)
  case infinity.negative.infinity.positive => decide
  -- in the other cases the numbers are taken apart, and their kinds decide
  all_goals dsimp only [UnpackedFloat.compare, rankOf]
  all_goals simp [Prod.Lex.toLex_lt_toLex]

/-- Numbers are compared by their ranks. -/
theorem lt_iff_rank_lt {x y : Float} (hx : x.isNaN = false) (hy : y.isNaN = false) :
    x < y ↔ rank x < rank y := by
  refine Iff.trans ?_ (compare_eq_lt_iff hx hy)
  show decide ((x.toModel.unpack.compare y.toModel.unpack == some .lt) = true) = true ↔ _
  simp

/-! ### Equality -/

theorem compare_self (x : UnpackedFloat) : x.compare x = if x.isNaN then none else some .eq := by
  cases x with
  | finite sign mantissa exponent _ =>
      have hequal : (compare exponent exponent).then (compare mantissa mantissa) = .eq := by simp
      cases sign with
      | positive => exact congrArg some hequal
      | negative => exact congrArg (fun order => some (Ordering.swap order)) hequal
  | infinity sign => cases sign <;> rfl
  | _ => rfl

/-- A number is equal to itself. -/
theorem beq_self_iff {x : Float} : (x == x) = true ↔ x.isNaN = false := by
  show (x.toModel.unpack.compare x.toModel.unpack == some .eq) = true ↔
    x.toModel.unpack.isNaN = false
  rw [compare_self]
  cases x.toModel.unpack.isNaN <;> simp

/-- What is not a number is equal to nothing. -/
theorem isNaN_of_beq {x y : Float} (h : (x == y) = true) : y.isNaN = false := by
  have hcompare : (x.toModel.unpack.compare y.toModel.unpack == some .eq) = true := h
  show y.toModel.unpack.isNaN = false
  generalize x.toModel.unpack = left, y.toModel.unpack = right at hcompare
  cases right with
  | notANumber => cases left <;> cases hcompare
  | _ => rfl

theorem isNaN_of_isFinite {x : Float} (h : x.isFinite = true) : x.isNaN = false := by
  have hfinite : x.toModel.unpack.isFinite = true := h
  show x.toModel.unpack.isNaN = false
  cases hx : x.toModel.unpack with
  | notANumber =>
      rw [hx] at hfinite
      cases hfinite
  | _ => rfl

end ClauseForest.Decimal
