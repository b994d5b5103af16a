/-
**The search for the fewest digits ends**

On a grid that is finer than the interval of the decimals that read back, one of the two points next to a
number lies in the interval.  The grids are tried from a coarse one on, and the last of them is finer than
the interval for every floating point number.  So a point that reads back is found.  It is not zero, for
the interval around a positive number is positive.

Main definitions:

* `Decimal.Binary.InRange` — the magnitudes of floating point numbers;
* `Decimal.Binary.FinerAt` — a grid that is finer than the interval around a number.

Main results:

* `Decimal.exists_ofFloat`, `Decimal.inRange_of_ofFloat` — a finite number has such a magnitude;
* `Decimal.exists_onGrid?` — **a fine grid has a point that reads back**;
* `Decimal.finerAt_last` — the last grid that is tried is fine;
* `Decimal.onGrid?_shortest` — **the search finds a point that reads back**;
* `Decimal.coefficient_shortest_pos`, `Decimal.coefficient_shortest_le` — so what is found is not zero, and
  near the number.
-/

import ClauseForest.Decimal.Shortest
import Mathlib.Tactic.Ring

set_option relaxedAutoImplicit false
set_option autoImplicit false

namespace ClauseForest.Decimal

variable {x : Binary} {tie : Tie} {grid : Int}

/-! ### Magnitudes -/

/-- The magnitude of a floating point number. -/
structure Binary.InRange (x : Binary) : Prop where
  significand : x.significand < Nat.pow 2 53
  low : -1074 ≤ x.exponent
  high : x.exponent ≤ 971

/-- A finite number has a magnitude in this range. -/
theorem inRange_of_ofFloat {number : Float} {negative : Bool}
    (h : Shape.ofFloat number = .finite negative x) : x.InRange := by
  have hfraction : number.toBits.toNat % Nat.pow 2 52 < Nat.pow 2 52 := Nat.mod_lt _ (by decide)
  have hexponent : number.toBits.toNat / Nat.pow 2 52 % Nat.pow 2 11 < Nat.pow 2 11 :=
    Nat.mod_lt _ (by decide)
  have hpow : Nat.pow 2 53 = Nat.pow 2 52 + Nat.pow 2 52 := by decide
  have hfields : Nat.pow 2 11 = 2048 := by decide
  unfold Shape.ofFloat Shape.ofBits at h
  dsimp only at h
  split at h
  · split at h <;> cases h
  · rename_i hspecial
    cases h
    unfold Binary.ofFields
    split
    · exact ⟨by dsimp only; omega, by simp, by simp⟩
    · exact ⟨by dsimp only; omega, by dsimp only; omega, by dsimp only; omega⟩

theorem toNat_unpackExponent (bits : BitVec Float.Model.Format.binary64.numBits) :
    (Float.Model.UnpackedFloat.unpackExponent bits).toNat =
      bits.toNat / Nat.pow 2 52 % Nat.pow 2 11 := by
  simp [Float.Model.UnpackedFloat.unpackExponent, BitVec.extractLsb, BitVec.extractLsb',
    Nat.shiftRight_eq_div_pow]

/-- A finite number is taken for one. -/
theorem exists_ofFloat {number : Float} (h : number.isFinite = true) :
    ∃ negative x, Shape.ofFloat number = .finite negative x := by
  have hexponent : number.toBits.toNat / Nat.pow 2 52 % Nat.pow 2 11 ≠ 2047 := by
    intro hones
    have hunpack : @Float.Model.UnpackedFloat.unpackExponent Float.Model.Format.binary64
        number.toModel.toBits.toBitVec = -1#_ := by
      refine BitVec.eq_of_toNat_eq ?_
      rw [toNat_unpackExponent]
      exact hones
    have hfinite : (Float.Model.UnpackedFloat.unpack Float.Model.Format.binary64
        number.toModel.toBits.toBitVec).isFinite = true := h
    unfold Float.Model.UnpackedFloat.unpack at hfinite
    rw [if_pos hunpack] at hfinite
    split at hfinite <;> cases hfinite
  have hshape : Shape.ofFloat number = .finite (decide (number.toBits.toNat / Nat.pow 2 63 = 1))
      (.ofFields (number.toBits.toNat / Nat.pow 2 52 % Nat.pow 2 11)
        (number.toBits.toNat % Nat.pow 2 52)) := if_neg hexponent
  exact ⟨_, _, hshape⟩

/-! ### Grids -/

/-- The step of a grid is less than half a unit in the last place of a number. -/
def Binary.FinerAt (x : Binary) (grid : Int) : Prop :=
  Nat.pow 2 (2 - x.exponent).toNat * Nat.pow 10 grid.toNat <
    2 * (Nat.pow 2 (x.exponent - 2).toNat * Nat.pow 10 (-grid).toNat)

theorem Binary.FinerAt.mono {grid' : Int} (h : x.FinerAt grid') (hle : grid ≤ grid') :
    x.FinerAt grid := by
  have hstep : Nat.pow 10 grid.toNat ≤ Nat.pow 10 grid'.toNat :=
    Nat.pow_le_pow_right (by decide) (by omega)
  have hunit : Nat.pow 10 (-grid').toNat ≤ Nat.pow 10 (-grid).toNat :=
    Nat.pow_le_pow_right (by decide) (by omega)
  calc Nat.pow 2 (2 - x.exponent).toNat * Nat.pow 10 grid.toNat
      ≤ Nat.pow 2 (2 - x.exponent).toNat * Nat.pow 10 grid'.toNat := Nat.mul_le_mul_left _ hstep
    _ < 2 * (Nat.pow 2 (x.exponent - 2).toNat * Nat.pow 10 (-grid').toNat) := h
    _ ≤ 2 * (Nat.pow 2 (x.exponent - 2).toNat * Nat.pow 10 (-grid).toNat) :=
        Nat.mul_le_mul_left _ (Nat.mul_le_mul_left _ hunit)

/-- A fine grid has a point that reads back. -/
theorem exists_onGrid? (tie : Tie) (h : x.FinerAt grid) :
    ∃ point, onGrid? tie x grid = some point := by
  unfold Binary.FinerAt at h
  unfold onGrid?
  extract_lets unit step value low high readsBack below
  have hstep : 0 < step := Nat.mul_pos (Nat.pow_pos (by decide)) (Nat.pow_pos (by decide))
  have hlow : low ≤ value := Nat.mul_le_mul_right _ (Nat.sub_le _ _)
  have hhigh : high = value + 2 * unit := Nat.add_mul _ _ _
  have hbelow : below * step ≤ value := Nat.div_mul_le_self value step
  have habove : value < (below + 1) * step := by
    rw [Nat.mul_comm]
    exact Nat.lt_mul_div_succ value hstep
  have hnext : (below + 1) * step = below * step + step := Nat.succ_mul below step
  -- the point above the number is nearer than half a unit
  have hreads : readsBack (below + 1) = true := by
    have hlast : step < 2 * unit := h
    show (if x.significand % 2 = 0 then decide (low ≤ (below + 1) * step ∧ (below + 1) * step ≤ high)
      else decide (low < (below + 1) * step ∧ (below + 1) * step < high)) = true
    split <;> exact decide_eq_true (by omega)
  rw [hreads]
  cases readsBack below <;> exact ⟨_, rfl⟩

theorem choose_eq (tie : Tie) (n : Nat) : tie.choose n = n ∨ tie.choose n = n + 1 := by
  cases tie with
  | up => exact .inr rfl
  | toEven =>
      show (if n % 2 = 0 then n else n + 1) = n ∨ (if n % 2 = 0 then n else n + 1) = n + 1
      split
      · exact .inl rfl
      · exact .inr rfl

/-- A point that reads back lies in the interval around the number. -/
theorem onGrid?_mem {point : Nat} (h : onGrid? tie x grid = some point) :
    (4 * x.significand - if x.narrowBelow then 1 else 2) *
        (Nat.pow 2 (x.exponent - 2).toNat * Nat.pow 10 (-grid).toNat) ≤
      point * (Nat.pow 2 (2 - x.exponent).toNat * Nat.pow 10 grid.toNat) ∧
    point * (Nat.pow 2 (2 - x.exponent).toNat * Nat.pow 10 grid.toNat) ≤
      (4 * x.significand + 2) * (Nat.pow 2 (x.exponent - 2).toNat * Nat.pow 10 (-grid).toNat) := by
  unfold onGrid? at h
  extract_lets unit step value low high readsBack below at h
  have hmem : ∀ point, readsBack point = true → low ≤ point * step ∧ point * step ≤ high := by
    intro point hreads
    have hread : (if x.significand % 2 = 0 then decide (low ≤ point * step ∧ point * step ≤ high)
      else decide (low < point * step ∧ point * step < high)) = true := hreads
    split at hread
    · exact of_decide_eq_true hread
    · obtain ⟨hlow, hhigh⟩ := of_decide_eq_true hread
      exact ⟨hlow.le, hhigh.le⟩
  refine hmem point ?_
  split at h
  · rename_i hdown hup
    rw [← Option.some.inj h]
    split
    · exact hdown
    · split
      · exact hup
      · rcases choose_eq tie below with hchoose | hchoose <;> rw [hchoose] <;> assumption
  · rename_i hdown _
    rwa [← Option.some.inj h]
  · rename_i _ hup
    rwa [← Option.some.inj h]
  · cases h

/-- Zero does not read back as a positive number. -/
theorem onGrid?_pos {point : Nat} (hpos : 0 < x.significand) (h : onGrid? tie x grid = some point) :
    0 < point := by
  have hlow : 0 < (4 * x.significand - if x.narrowBelow then 1 else 2) *
      (Nat.pow 2 (x.exponent - 2).toNat * Nat.pow 10 (-grid).toNat) :=
    Nat.mul_pos (by split <;> omega) (Nat.mul_pos (Nat.pow_pos (by decide)) (Nat.pow_pos (by decide)))
  exact Nat.pos_of_mul_pos_right (hlow.trans_le (onGrid?_mem h).1)

/-! ### The search -/

/-- The last grid that is tried, for a significand of 53 bits. -/
def lastGrid (exponent : Int) : Int := (exponent + 53) * 30103 / 100000 + 1 - 20

theorem finerAt_lastGrid (hx : x.InRange) : x.FinerAt (lastGrid x.exponent) := by
  have hall : ∀ k ∈ List.range 2046,
      Nat.pow 2 (2 - ((k : Int) - 1074)).toNat * Nat.pow 10 (lastGrid ((k : Int) - 1074)).toNat <
        2 * (Nat.pow 2 ((k : Int) - 1074 - 2).toNat *
          Nat.pow 10 (-lastGrid ((k : Int) - 1074)).toNat) := by decide +kernel
  have hlow := hx.low
  have hhigh := hx.high
  obtain ⟨k, hk⟩ := Int.eq_ofNat_of_zero_le (a := x.exponent + 1074) (by omega)
  have hexponent : x.exponent = (k : Int) - 1074 := by omega
  unfold Binary.FinerAt
  rw [hexponent]
  exact hall k (List.mem_range.2 (by omega))

/-- The last grid that is tried is fine. -/
theorem finerAt_last (hx : x.InRange) (hpos : 0 < x.significand) :
    x.FinerAt (coarsestGrid x - 20) := by
  refine (finerAt_lastGrid hx).mono ?_
  have hbits : x.significand.log2 < 53 := (Nat.log2_lt (by omega)).2 hx.significand
  unfold coarsestGrid lastGrid
  omega

/-- The search stops at a point that reads back, if there is one on the last grid. -/
theorem onGrid?_shortestFrom {finer : Nat} (h : ∃ point, onGrid? tie x (grid - finer) = some point) :
    onGrid? tie x (shortestFrom tie x finer grid).exponent =
      some (shortestFrom tie x finer grid).coefficient := by
  induction finer generalizing grid with
  | zero =>
      obtain ⟨point, hpoint⟩ := h
      rw [Nat.cast_zero, Int.sub_zero] at hpoint
      show onGrid? tie x grid = some ((onGrid? tie x grid).getD 0)
      rw [hpoint]
      rfl
  | succ finer ih =>
      rw [shortestFrom]
      cases hgrid : onGrid? tie x grid with
      | some point => exact hgrid
      | none =>
          refine ih ?_
          rwa [show grid - 1 - (finer : Int) = grid - (finer + 1 : Nat) by omega]

/-- What is found reads back. -/
theorem onGrid?_shortest (tie : Tie) (hx : x.InRange) (hpos : 0 < x.significand) :
    onGrid? tie x (shortest tie x).exponent = some (shortest tie x).coefficient :=
  onGrid?_shortestFrom (exists_onGrid? tie (finerAt_last hx hpos))

/-- What is found is not zero. -/
theorem coefficient_shortest_pos (tie : Tie) (hx : x.InRange) (hpos : 0 < x.significand) :
    0 < (shortest tie x).coefficient :=
  onGrid?_pos hpos (onGrid?_shortest tie hx hpos)

/-- What is found exceeds the number by half a unit in the last place at most. -/
theorem coefficient_shortest_le (tie : Tie) (hx : x.InRange) (hpos : 0 < x.significand) :
    (shortest tie x).coefficient * 10 ^ (shortest tie x).exponent.toNat ≤
      (4 * x.significand + 2) * 2 ^ (x.exponent - 2).toNat * 10 ^ (-(shortest tie x).exponent).toNat := by
  have hmem := (onGrid?_mem (onGrid?_shortest tie hx hpos)).2
  rw [Nat.mul_assoc]
  refine (Nat.mul_le_mul_left _ ?_).trans hmem
  exact Nat.le_mul_of_pos_left _ (Nat.pow_pos (by decide))

end ClauseForest.Decimal
