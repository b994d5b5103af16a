/-
**A finite number that is written is read as a number**

The quick way of reading drops the digits that do not fit into 64 bits and multiplies by one power of ten.  It
refuses a literal if the product is infinite.  What is collected never exceeds what is written, so the
product is infinite only if the literal is near the end of the range.  The digits that are written for a
number exceed it by half a unit in the last place at most.  So the only numbers that come near the end are the
nine largest ones; they are read one by one.

Main results:

* `Json.appendDigits_spec` — what is collected, and what is dropped;
* `Json.unsignedFloat?_of_parts` — what is read for the parts of a literal;
* `Json.isSome_unsignedFloat?` — **a literal that is not near the end of the range is not refused**;
* `Json.exists_float?_render` — **a finite number that is written is read as a number**.
-/

import ClauseForest.Proofs.Decimal.Rounding
import ClauseForest.Proofs.Json.Number

set_option relaxedAutoImplicit false
set_option autoImplicit false

namespace ClauseForest.Json

open Decimal

/-! ### The end of the range -/

/-- What can be collected, and all numbers but those with the last exponent, are not near the end of the
range; the powers of ten in the range are those up to 308. -/
theorem safeLimit_bounds : maxCount ≤ safeLimit ∧ 2 ^ 55 * 2 ^ 968 ≤ safeLimit ∧
    safeLimit < 10 ^ (308 + 1) := by decide +kernel

/-! ### Collected digits -/

/-- What is collected fits into 64 bits, and with zeros for the digits that were dropped it does not exceed
what is written. -/
theorem appendDigits_spec {n : Nat} (h : n ≤ maxCount) (digits : List Char) :
    (appendDigits n digits).1 ≤ maxCount ∧ n ≤ (appendDigits n digits).1 ∧
      (appendDigits n digits).2.length ≤ digits.length ∧
      (appendDigits n digits).1 * 10 ^ (appendDigits n digits).2.length ≤
        Nat.ofDigitChars 10 digits n := by
  induction digits generalizing n with
  | nil => exact ⟨h, Nat.le_refl n, Nat.le_refl 0, by simp [appendDigits]⟩
  | cons c digits ih =>
      rw [appendDigits]
      split
      · rename_i hfits
        obtain ⟨hcount, hle, hlength, hvalue⟩ := ih hfits
        rw [Nat.ofDigitChars_cons]
        exact ⟨hcount, by omega, Nat.le_succ_of_le hlength, hvalue⟩
      · refine ⟨h, Nat.le_refl n, Nat.le_refl _, ?_⟩
        rw [Nat.ofDigitChars_eq_ofDigitChars_zero, Nat.mul_comm]
        exact Nat.le_add_right _ _

/-- Digits stand for less than the power of ten of their number. -/
theorem ofDigitChars_lt {digits : List Char} (h : ∀ c ∈ digits, c.isDigit = true) :
    Nat.ofDigitChars 10 digits 0 < 10 ^ digits.length := by
  induction digits with
  | nil => simp
  | cons c digits ih =>
      have hrest := ih fun d hd => h d (List.mem_cons_of_mem c hd)
      have hdigit : 48 ≤ c.toNat ∧ c.toNat ≤ 57 := Char.isDigit_iff_toNat.1 (h c List.mem_cons_self)
      have hc : c.toNat - '0'.toNat ≤ 9 := by
        show c.toNat - 48 ≤ 9
        omega
      have hfirst := Nat.mul_le_mul_left (10 ^ digits.length) hc
      rw [Nat.ofDigitChars_cons, Nat.ofDigitChars_eq_ofDigitChars_zero, Nat.mul_zero, Nat.zero_add,
        List.length_cons, Nat.pow_succ]
      omega

/-! ### Powers of ten -/

/-- A negative power of ten is never refused. -/
theorem isSome_scale?_of_neg {exponent : Int} (h : exponent < 0) (steps : Nat) (x : Float) :
    (scale? steps x exponent).isSome = true := by
  induction steps generalizing x exponent with
  | zero => rfl
  | succ steps ih =>
      unfold scale?
      split
      · simp
      · split
        · rfl
        · exact ih (by omega) _

/-- A number of 64 bits times a power of ten is not refused, if it is not near the end of the range. -/
theorem isSome_scale? {n steps : Nat} {exponent : Int} (hn : n ≤ maxCount)
    (h : 0 ≤ exponent → exponent ≤ 308 ∧ n * 10 ^ exponent.toNat ≤ safeLimit) :
    (scale? (steps + 1) (Float.ofNat n) exponent).isSome = true := by
  by_cases hneg : exponent < 0
  · exact isSome_scale?_of_neg hneg _ _
  · obtain ⟨power, rfl⟩ := Int.eq_ofNat_of_zero_le (Int.not_lt.1 hneg)
    obtain ⟨hpower, hvalue⟩ := h (Int.not_lt.1 hneg)
    rw [Int.toNat_natCast] at hvalue
    have hbits : n < 2 ^ 64 := Nat.lt_of_le_of_lt hn (by decide)
    have hfinite := isInf_mul_power hbits (by omega) hvalue
    unfold scale?
    rw [if_pos (by omega)]
    simp [hneg, hfinite]

/-! ### Literals -/

variable {whole fraction exponent : List Char}

/-- No digit and no point begins an exponent. -/
theorem not_letter {c : Char} (h : c.isDigit = true ∨ c = '.') : (!(c == 'e' || c == 'E')) = true := by
  rcases h with hc | rfl
  · simp only [Bool.not_eq_true', Bool.or_eq_false_iff, beq_eq_false_iff_ne]
    constructor <;> rintro rfl <;> cases hc
  · decide

theorem dropWhile_parts (hwhole : IsWhole whole) (hfraction : IsFraction fraction)
    (hexponent : IsExponent exponent) :
    (whole ++ fraction ++ exponent).dropWhile (fun c => !(c == 'e' || c == 'E')) = exponent := by
  have hbefore : ∀ c ∈ fraction, (!(c == 'e' || c == 'E')) = true := by
    intro c hc
    cases hfraction with
    | none => cases hc
    | point hdigits =>
        rcases List.mem_cons.1 hc with rfl | hc
        · exact not_letter (.inr rfl)
        · exact not_letter (.inl (hdigits.isDigit c hc))
  rw [List.append_assoc, List.dropWhile_append_of_pos fun c hc => not_letter (.inl (hwhole.isDigit c hc)),
    List.dropWhile_append_of_pos hbefore]
  cases exponent with
  | nil => rfl
  | cons c rest => simp [hexponent.head?_eq (c := c) rfl]

theorem fraction_parts (hfraction : IsFraction fraction) (hexponent : IsExponent exponent) :
    (if (fraction ++ exponent).head? = some '.' then
      ((fraction ++ exponent).drop 1).takeWhile Char.isDigit else []) = fraction.drop 1 := by
  cases hfraction with
  | none =>
      rw [List.nil_append, if_neg]
      · rfl
      · intro hpoint
        cases hexponent.head?_eq hpoint
  | point hdigits =>
      exact (if_pos rfl).trans (hdigits.takeWhile_append fun _ => hexponent.isDigit_head?)

/-- A literal is cut into its parts. -/
theorem unsignedFloat?_of_parts (hwhole : IsWhole whole)
    (hcount : Nat.ofDigitChars 10 whole 0 ≤ maxCount) (hfraction : IsFraction fraction)
    (hexponent : IsExponent exponent) :
    unsignedFloat? (whole ++ fraction ++ exponent) =
      scale? 8 (Float.ofNat (appendDigits (Nat.ofDigitChars 10 whole 0) (fraction.drop 1)).1)
        (-((fraction.drop 1).length -
          (appendDigits (Nat.ofDigitChars 10 whole 0) (fraction.drop 1)).2.length : Nat) +
          writtenExponent exponent) := by
  have hrest := isDigit_head?_parts hfraction fun _ => hexponent.isDigit_head?
  unfold unsignedFloat?
  rw [dropWhile_parts hwhole hfraction hexponent, List.append_assoc, hwhole.takeWhile_append hrest,
    hwhole.dropWhile_append hrest]
  dsimp only
  rw [fraction_parts hfraction hexponent, appendDigits_eq hcount]
  simp

/-- A literal that is not near the end of the range is not refused.  Only a literal with a positive exponent may
be near it. -/
theorem isSome_unsignedFloat? (hwhole : IsWhole whole)
    (hcount : Nat.ofDigitChars 10 whole 0 ≤ maxCount) (hfraction : IsFraction fraction)
    (hexponent : IsExponent exponent)
    (h : 0 < writtenExponent exponent → 0 < Nat.ofDigitChars 10 whole 0 ∧
      Nat.ofDigitChars 10 (whole ++ fraction.drop 1) 0 * 10 ^ (writtenExponent exponent).toNat ≤
        safeLimit * 10 ^ (fraction.drop 1).length) :
    (unsignedFloat? (whole ++ fraction ++ exponent)).isSome = true := by
  rw [unsignedFloat?_of_parts hwhole hcount hfraction hexponent]
  rw [Nat.ofDigitChars_append] at h
  obtain ⟨hfits, hle, hlength, hvalue⟩ := appendDigits_spec hcount (fraction.drop 1)
  generalize appendDigits (Nat.ofDigitChars 10 whole 0) (fraction.drop 1) = collected at *
  obtain ⟨n, dropped⟩ := collected
  generalize (fraction.drop 1).length = places at *
  generalize writtenExponent exponent = size at *
  dsimp only at hfits hle hlength hvalue ⊢
  refine isSome_scale? hfits fun hk => ?_
  by_cases hsize : 0 < size
  · obtain ⟨hpos, hbound⟩ := h hsize
    generalize hpower : (-((places - dropped.length : Nat) : Int) + size).toNat = power
    have hplaces : power + places = dropped.length + size.toNat := by omega
    have hscaled : n * 10 ^ power * 10 ^ places ≤ safeLimit * 10 ^ places :=
      calc n * 10 ^ power * 10 ^ places = n * 10 ^ dropped.length * 10 ^ size.toNat := by
            rw [Nat.mul_assoc, ← Nat.pow_add, hplaces, Nat.pow_add, Nat.mul_assoc]
        _ ≤ _ := Nat.mul_le_mul_right _ hvalue
        _ ≤ safeLimit * 10 ^ places := hbound
    have hsafe := Nat.le_of_mul_le_mul_right hscaled (Nat.pow_pos (by decide))
    refine ⟨?_, hsafe⟩
    have hlt : 10 ^ power < 10 ^ (308 + 1) :=
      calc 10 ^ power ≤ n * 10 ^ power := Nat.le_mul_of_pos_left _ (by omega)
        _ ≤ safeLimit := hsafe
        _ < 10 ^ (308 + 1) := safeLimit_bounds.2.2
    have hle := (Nat.pow_lt_pow_iff_right (by decide)).1 hlt
    omega
  · obtain hzero : -((places - dropped.length : Nat) : Int) + size = 0 := by omega
    rw [hzero]
    refine ⟨by decide, ?_⟩
    rw [Int.toNat_zero, Nat.pow_zero, Nat.mul_one]
    exact hfits.trans safeLimit_bounds.1

/-! ### Exponents -/

/-- An exponent is read by its sign and its digits, and cut off if it is too large. -/
theorem writtenExponent_sign_append {sign : List Char}
    (hsign : (sign.all fun c => c == '+' || c == '-') = true) (n : Nat) :
    writtenExponent ('e' :: (sign ++ Nat.toDigits 10 n)) =
      if (sign ++ Nat.toDigits 10 n).head? = some '-' then -((min n (Nat.pow 2 31) : Nat) : Int)
      else (min n (Nat.pow 2 31) : Nat) := by
  have hdrop : (sign ++ Nat.toDigits 10 n).dropWhile (fun c => c == '+' || c == '-') =
      Nat.toDigits 10 n := by
    obtain ⟨c, rest, hdigits⟩ := List.exists_cons_of_ne_nil (areDigits_toDigits n).ne_nil
    have hc : (c == '+' || c == '-') = false := by
      have hdigit := (areDigits_toDigits n).isDigit c (hdigits ▸ List.mem_cons_self)
      simp only [Bool.or_eq_false_iff, beq_eq_false_iff_ne]
      constructor <;> rintro rfl <;> cases hdigit
    rw [List.dropWhile_append_of_pos (List.all_eq_true.1 hsign), hdigits]
    exact List.dropWhile_cons_of_neg (by simp [hc])
  have hvalue : (Nat.toDigits 10 n).foldl (fun n c => 10 * n + digitValue c) 0 = n :=
    Nat.ofDigitChars_ten_toDigits
  unfold writtenExponent
  dsimp only
  rw [hdrop, hvalue]

/-- A written exponent is not read as a larger one, unless it is negative. -/
theorem writtenExponent_exponentText_le (layout : Layout) (size : Int) :
    writtenExponent (layout.exponentText size) ≤ max size 0 := by
  unfold Layout.exponentText
  generalize hcut : Nat.pow 2 31 = cut
  by_cases hneg : size < 0
  · have hhead : (['-'] ++ Nat.toDigits 10 size.natAbs).head? = some '-' := rfl
    rw [if_pos hneg, List.cons_append, writtenExponent_sign_append (by decide), if_pos hhead]
    omega
  · have hsign : ((if layout.signsExponent then ['+'] else []).all fun c => c == '+' || c == '-') =
        true := by
      split <;> decide
    rw [if_neg hneg, List.cons_append, writtenExponent_sign_append hsign, hcut]
    split <;> omega

/-! ### Layouts -/

theorem exists_trimZeros_append (digits : List Char) :
    ∃ zeros, digits = Layout.trimZeros digits ++ List.replicate zeros '0' := by
  have hzeros : ∀ c ∈ digits.reverse.takeWhile (· == '0'), c = '0' :=
    fun c hc => eq_of_beq (List.all_eq_true.1 List.all_takeWhile c hc)
  refine ⟨(digits.reverse.takeWhile (· == '0')).length, ?_⟩
  rw [← List.reverse_replicate, ← List.eq_replicate_of_mem hzeros, Layout.trimZeros, ← List.reverse_append,
    List.takeWhile_append_dropWhile, List.reverse_reverse]

variable {layout : Layout} {digits : List Char}

/-- Digits around a point, with at most 16 of them before it, are not refused. -/
theorem isSome_positional (h : Layout.AreLeading digits) {place : Int} (hplace : place ≤ 16) :
    (unsignedFloat? (layout.positional digits place)).isSome = true := by
  obtain ⟨whole, fraction, hwhole, hfraction, hlength, htext⟩ :=
    @Layout.exists_parts_positional layout digits h place
  have hcount : Nat.ofDigitChars 10 whole 0 ≤ maxCount :=
    calc Nat.ofDigitChars 10 whole 0 ≤ 10 ^ whole.length := (ofDigitChars_lt hwhole.isDigit).le
      _ ≤ 10 ^ 16 := Nat.pow_le_pow_right (by decide) (by omega)
      _ ≤ maxCount := by decide
  have hsome := isSome_unsignedFloat? hwhole hcount hfraction .none (fun hpos => absurd hpos (by decide))
  rwa [List.append_nil, ← htext] at hsome

/-- The digits of a number with an exponent are not refused, if the number is not near the end of the range. -/
theorem isSome_scientific {n : Nat} {grid : Int} (hn : 0 < n)
    (h : n * 10 ^ grid.toNat ≤ safeLimit * 10 ^ (-grid).toNat) :
    (unsignedFloat? (layout.scientific (Layout.trimZeros (Nat.toDigits 10 n))
      (grid + ((Nat.toDigits 10 n).length : Nat) - 1))).isSome = true := by
  have hleading := Layout.areLeading_trimZeros hn
  obtain ⟨zeros, hzeros⟩ := exists_trimZeros_append (Nat.toDigits 10 n)
  have hvalue : Nat.ofDigitChars 10 (Layout.trimZeros (Nat.toDigits 10 n)) 0 * 10 ^ zeros = n := by
    have hall : Nat.ofDigitChars 10 (Nat.toDigits 10 n) 0 = n := Nat.ofDigitChars_ten_toDigits
    rwa [hzeros, Nat.ofDigitChars_append, Nat.ofDigitChars_replicate_zero, Nat.mul_comm] at hall
  have hlength := congrArg List.length hzeros
  rw [List.length_append, List.length_replicate] at hlength
  obtain ⟨c, rest, hdigits⟩ := List.exists_cons_of_ne_nil hleading.ne_nil
  rw [hdigits] at hleading hvalue hlength ⊢
  obtain ⟨fraction, hwhole, hfraction, hrest, htext⟩ := @Layout.exists_parts_scientific layout c rest
    hleading (grid + ((Nat.toDigits 10 n).length : Nat) - 1)
  have hdigit : 48 ≤ c.toNat ∧ c.toNat ≤ 57 :=
    Char.isDigit_iff_toNat.1 (hleading.isDigit c List.mem_cons_self)
  have hfirst : Nat.ofDigitChars 10 [c] 0 = c.toNat - 48 := by simp [Nat.ofDigitChars_cons]
  have hcount : Nat.ofDigitChars 10 [c] 0 ≤ maxCount := by
    rw [hfirst]
    exact Nat.le_trans (by omega) (by decide : 9 ≤ maxCount)
  rw [htext]
  refine isSome_unsignedFloat? hwhole hcount hfraction (Layout.isExponent_exponentText layout _)
    fun hsize => ⟨?_, ?_⟩
  · have hne : c.toNat ≠ '0'.toNat := fun hzero => hleading.head_ne (by rw [Char.toNat_inj.1 hzero]; rfl)
    have hzero : '0'.toNat = 48 := rfl
    omega
  · have hle := writtenExponent_exponentText_le layout (grid + ((Nat.toDigits 10 n).length : Nat) - 1)
    generalize writtenExponent _ = size at hsize hle ⊢
    rw [hrest]
    show Nat.ofDigitChars 10 (c :: rest) 0 * 10 ^ size.toNat ≤ safeLimit * 10 ^ rest.length
    generalize Nat.ofDigitChars 10 (c :: rest) 0 = trimmed at hvalue ⊢
    rw [List.length_cons] at hlength
    have hplaces : size.toNat + (-grid).toNat ≤ zeros + grid.toNat + rest.length := by omega
    refine Nat.le_of_mul_le_mul_right ?_ (Nat.pow_pos (n := (-grid).toNat) (by decide : 0 < 10))
    calc trimmed * 10 ^ size.toNat * 10 ^ (-grid).toNat = trimmed * 10 ^ (size.toNat + (-grid).toNat) := by
          rw [Nat.mul_assoc, ← Nat.pow_add]
      _ ≤ trimmed * 10 ^ (zeros + grid.toNat + rest.length) :=
          Nat.mul_le_mul_left _ (Nat.pow_le_pow_right (by decide) hplaces)
      _ = n * 10 ^ grid.toNat * 10 ^ rest.length := by
          rw [Nat.pow_add, Nat.pow_add, ← hvalue]
          ring
      _ ≤ safeLimit * 10 ^ (-grid).toNat * 10 ^ rest.length := Nat.mul_le_mul_right _ h
      _ = safeLimit * 10 ^ rest.length * 10 ^ (-grid).toNat := Nat.mul_right_comm _ _ _

/-! ### Floating point numbers -/

/-- Only the nine largest numbers are near the end of the range. -/
theorem le_safeLimit {x : Binary} (hx : x.InRange)
    (h : x.exponent = 971 → x.significand ≤ 2 ^ 53 - 10) :
    (4 * x.significand + 2) * 2 ^ (x.exponent - 2).toNat ≤ safeLimit := by
  have hsignificand : x.significand < 2 ^ 53 := hx.significand
  by_cases hlast : x.exponent = 971
  · have hlow := h hlast
    have hsize : (x.exponent - 2).toNat = 969 := by omega
    rw [hsize, safeLimit]
    exact Nat.mul_le_mul_right _ (by omega)
  · have hhigh := hx.high
    have hpow : 2 ^ (x.exponent - 2).toNat ≤ 2 ^ 968 :=
      pow_le_pow_right₀ (by decide) (by omega)
    have hdigits : 4 * x.significand + 2 ≤ 2 ^ 55 := by omega
    exact (Nat.mul_le_mul hdigits hpow).trans safeLimit_bounds.2.1

/-- The nine largest numbers are read, though they are near the end of the range. -/
theorem isSome_magnitude_largest : ∀ j < 9, ∀ narrow : Bool,
    (unsignedFloat? (Layout.json.magnitude ⟨2 ^ 53 - 1 - j, 971, narrow⟩)).isSome = true := by
  decide +kernel

/-- The magnitude of a number is not refused. -/
theorem isSome_magnitude {x : Binary} (hx : x.InRange) :
    (unsignedFloat? (Layout.json.magnitude x)).isSome = true := by
  by_cases hlargest : x.exponent = 971 ∧ 2 ^ 53 - 10 < x.significand
  · obtain ⟨significand, exponent, narrow⟩ := x
    obtain ⟨rfl, hlow⟩ := hlargest
    have hhigh : significand < 2 ^ 53 := hx.significand
    obtain ⟨j, hj, rfl⟩ : ∃ j < 9, significand = 2 ^ 53 - 1 - j :=
      ⟨2 ^ 53 - 1 - significand, by dsimp only at hlow; omega, by omega⟩
    exact isSome_magnitude_largest j hj narrow
  · unfold Layout.magnitude
    split
    · rfl
    · rename_i hzero
      have hpos := Nat.pos_of_ne_zero hzero
      have hcoefficient := coefficient_shortest_pos Layout.json.tie hx hpos
      dsimp only
      split
      · rename_i hplace
        have hplace := (of_decide_eq_true hplace).2
        exact isSome_positional (Layout.areLeading_trimZeros hcoefficient) (by omega)
      · refine isSome_scientific hcoefficient ((coefficient_shortest_le _ hx hpos).trans ?_)
        exact Nat.mul_le_mul_right _ (le_safeLimit hx (by omega))

/-- A finite number that is written is read as a number. -/
theorem exists_float?_render {x : Float} (h : x.isFinite = true) :
    ∃ y, float? (Layout.json.render x).toList = some y := by
  obtain ⟨negative, m, hshape⟩ := exists_ofFloat h
  have hrange := inRange_of_ofFloat hshape
  obtain ⟨y, hy⟩ := Option.isSome_iff_exists.1 (isSome_magnitude hrange)
  unfold Layout.render
  rw [hshape]
  cases negative with
  | true => exact ⟨-y, by simp [float?, hy]⟩
  | false =>
      obtain ⟨whole, fraction, exponent, hwhole, -, -, hparts⟩ :=
        Layout.hasParts_magnitude Layout.json hrange
      refine ⟨y, ?_⟩
      simp only [Bool.false_eq_true, if_false, String.toList_ofList]
      rw [float?]
      · exact hy
      · intro rest heq
        rw [hparts] at heq
        obtain ⟨c, whole', rfl⟩ := List.exists_cons_of_ne_nil hwhole.ne_nil
        obtain ⟨rfl, -⟩ := List.cons.inj heq
        exact absurd (hwhole.isDigit '-' (by simp)) (by decide)

end ClauseForest.Json
