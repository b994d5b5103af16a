/-
**Rounding does not overflow early**

A product of floating point numbers is rounded from the exact product.  Rounding keeps 53 bits of the
mantissa and adds one to them at most, so a rounded number exceeds the exact one by one part in `2 ^ 52` at
most.  A number overflows only if it needs an exponent that is too large.  So the product of a number of
64 bits and a power of ten, each of them rounded, is infinite only near the end of the range: the error of
the three steps is bounded, and what is less than the largest numbers by this error does not overflow.

Only numbers of at least one are followed, since the others do not come near the end.  They are written with
a mantissa of exactly 53 bits, and the size of the number is the place of its first bit.

Main definitions:

* `Decimal.IsNormal` — a positive number with a mantissa of 53 bits and a size;
* `Decimal.AtMost` — a number of at least one that does not exceed a bound;
* `Decimal.safeLimit` — where the end of the range is not near.

Main results:

* `Decimal.IsNormal.unpack_pack` — a packed number is unpacked as it was;
* `Decimal.exists_isNormal_roundWithAccuracy` — **rounding keeps the size of a number**;
* `Decimal.AtMost.mul`, `Decimal.atMost_ofNat`, `Decimal.atMost_power` — bounds of products, of natural
  numbers and of powers of ten;
* `Decimal.isInf_mul_power` — **a number of 64 bits times a power of ten is infinite only near the end of
  the range**.
-/

import Mathlib

set_option relaxedAutoImplicit false
set_option autoImplicit false

namespace ClauseForest.Decimal

open Float.Model Float.Model.UnpackedFloat

/-! ### Packing -/

/-- A positive number with a mantissa of 53 bits, whose first bit counts `2 ^ size`. -/
structure IsNormal (f : UnpackedFloat) (mantissa size : Nat) : Prop where
  eq : ∃ h, f = .finite .positive mantissa (size - 52) h
  low : 2 ^ 52 ≤ mantissa
  high : mantissa < 2 ^ 53
  size_le : size ≤ 1023

variable {f : UnpackedFloat} {mantissa size : Nat}

/-- A packed number is unpacked as it was. -/
theorem IsNormal.unpack_pack (h : IsNormal f mantissa size) :
    UnpackedFloat.unpack Format.binary64 (UnpackedFloat.pack Format.binary64 f) = f := by
  obtain ⟨hpos, rfl⟩ := h.eq
  have hlog : mantissa.log2 = 52 := (Nat.log2_eq_iff (by omega)).2 ⟨h.low, h.high⟩
  have hsize := h.size_le
  have hbiased : ((size : Int) - 52 + (Format.binary64.exponentBias : Nat) +
      (Format.binary64.mantissaBitsWithoutImplicit : Nat)).toNat = size + 1023 := by
    show ((size : Int) - 52 + (1023 : Nat) + (52 : Nat)).toNat = size + 1023
    omega
  have hpack : UnpackedFloat.pack Format.binary64 (.finite .positive mantissa (size - 52) hpos) =
      packComponents Format.binary64 .positive (BitVec.ofNat _ (size + 1023)) (BitVec.ofNat _ mantissa) := by
    unfold UnpackedFloat.pack
    simp only [hbiased, hlog]
    rw [if_neg (by show ¬ 2048 ≤ _; omega), if_pos (by rfl)]
  rw [hpack]
  unfold UnpackedFloat.unpack
  simp only [unpackExponent_packComponents, unpackMantissa_packComponents, unpackSign_packComponents]
  have hexponent : (BitVec.ofNat Format.binary64.exponentBits (size + 1023)).toNat = size + 1023 := by
    rw [BitVec.toNat_ofNat]
    exact Nat.mod_eq_of_lt (by show _ < 2048; omega)
  have hmantissa : (1#1 ++ BitVec.ofNat Format.binary64.mantissaBitsWithoutImplicit mantissa).toNat =
      mantissa := by
    have hlow := h.low
    have hhigh := h.high
    rw [BitVec.toNat_append, ← Nat.shiftLeft_add_eq_or_of_lt (BitVec.isLt _), BitVec.toNat_ofNat]
    show 1 <<< 52 + mantissa % 2 ^ 52 = mantissa
    omega
  rw [if_neg, if_neg]
  · simp only [hexponent, hmantissa]
    have hsame : ∀ exponent : Int, exponent = size - 52 →
        UnpackedFloat.finite (Sign.ofBitVec Sign.positive.toBitVec) mantissa exponent hpos =
          .finite .positive mantissa (size - 52) hpos := by
      rintro _ rfl
      rfl
    refine hsame _ ?_
    show ((size + 1023 : Nat) : Int) - ((1023 : Nat) + (52 : Nat)) = size - 52
    omega
  · intro hzero
    rw [hzero] at hexponent
    have hone : (0 : Nat) = size + 1023 := hexponent
    omega
  · intro hones
    rw [hones] at hexponent
    have hone : (2047 : Nat) = size + 1023 := hexponent
    omega

/-! ### Rounding -/

theorem mantissa_shiftRight (em : ExtendedMantissa) (n : Nat) :
    (em >>> n).mantissa = em.mantissa / 2 ^ n := by
  show (n.repeat ExtendedMantissa.shiftRightOne em).mantissa = _
  induction n with
  | zero => simp [Nat.repeat]
  | succ n ih =>
      rw [Nat.repeat, ExtendedMantissa.shiftRightOne, ih, Nat.div_div_eq_div_mul, ← Nat.pow_succ]

theorem roundedMantissa_eq (em : ExtendedMantissa) :
    em.roundedMantissa = em.mantissa ∨ em.roundedMantissa = em.mantissa + 1 := by
  obtain ⟨mantissa, roundBit, stickyBit⟩ := em
  rcases roundBit with _ | _ <;> rcases stickyBit with _ | _
  · exact .inl rfl
  · exact .inl rfl
  · show mantissa + mantissa % 2 = mantissa ∨ mantissa + mantissa % 2 = mantissa + 1
    omega
  · exact .inr rfl

/-- A mantissa of enough bits is cut to 53 bits. -/
theorem shiftToTargetExponent_eq {mantissa size bits : Nat} (hbits : mantissa.log2 = bits)
    (henough : 52 ≤ bits) :
    shiftToTargetExponent Format.binary64 mantissa (size - bits) .exact =
      ((ExtendedMantissa.mk mantissa false false) >>> (bits - 52), (size - 52 : Int)) := by
  have htarget : Format.binary64.targetExponent (totalExponent mantissa (size - bits)) =
      (size - 52 : Int) := by
    show max ((mantissa.log2 : Int) + 1 + (size - bits) - ((53 : Nat) : Int))
      (3 - 2 ^ (11 - 1) - ((53 : Nat) : Int)) = _
    rw [hbits]
    omega
  unfold shiftToTargetExponent
  dsimp only
  rw [htarget]
  unfold shiftToExponent
  have hshift : ((size - 52 : Int) - (size - bits)).toNat = bits - 52 := by omega
  dsimp only
  rw [hshift]
  refine Prod.ext rfl ?_
  show (size : Int) - bits + ((bits - 52 : Nat) : Int) = size - 52
  omega

/-- Rounding gives the mantissa cut to 53 bits or the next one, which may take one bit more. -/
theorem exists_roundWithAccuracy {mantissa size bits : Nat} (hbits : mantissa.log2 = bits)
    (henough : 52 ≤ bits) (hpos : 0 < mantissa) : ∃ rounded,
      (rounded = mantissa / 2 ^ (bits - 52) ∨ rounded = mantissa / 2 ^ (bits - 52) + 1) ∧
      (rounded < 2 ^ 53 → size ≤ 1023 → IsNormal (roundWithAccuracy Format.binary64 .positive mantissa
        (size - bits) .exact) rounded size) ∧
      (rounded = 2 ^ 53 → size + 1 ≤ 1023 → IsNormal (roundWithAccuracy Format.binary64 .positive
        mantissa (size - bits) .exact) (2 ^ 52) (size + 1)) := by
  obtain ⟨hlow, hhigh⟩ := (Nat.log2_eq_iff (by omega)).1 hbits
  have hpow : 2 ^ bits = 2 ^ 52 * 2 ^ (bits - 52) := by rw [← Nat.pow_add, Nat.add_sub_cancel' henough]
  have hcut : 2 ^ 52 ≤ mantissa / 2 ^ (bits - 52) :=
    (Nat.le_div_iff_mul_le (Nat.two_pow_pos _)).2 (hpow ▸ hlow)
  obtain ⟨em, hem⟩ : ∃ em, em = (ExtendedMantissa.mk mantissa false false) >>> (bits - 52) := ⟨_, rfl⟩
  have hmantissa : em.mantissa = mantissa / 2 ^ (bits - 52) := by rw [hem, mantissa_shiftRight]
  have hround : roundWithAccuracy Format.binary64 .positive mantissa (size - bits) .exact =
      (let (final, exponent) := shiftToTargetExponent Format.binary64 em.roundedMantissa
        (size - 52) .exact
      if h : final.mantissa = 0 then .zero .positive
      else .finite .positive final.mantissa exponent (Nat.pos_of_ne_zero h)) := by
    unfold roundWithAccuracy
    rw [shiftToTargetExponent_eq hbits henough, hem]
  refine ⟨em.roundedMantissa, hmantissa ▸ roundedMantissa_eq em, ?_, ?_⟩
  · intro hfits hsize
    have hlow : 2 ^ 52 ≤ em.roundedMantissa := by
      rcases roundedMantissa_eq em with h | h <;> omega
    have hlog : em.roundedMantissa.log2 = 52 := (Nat.log2_eq_iff (by omega)).2 ⟨hlow, hfits⟩
    refine ⟨⟨by omega, ?_⟩, hlow, hfits, hsize⟩
    have hshift : shiftToTargetExponent Format.binary64 em.roundedMantissa (size - 52) .exact =
        (⟨em.roundedMantissa, false, false⟩, (size - 52 : Int)) :=
      shiftToTargetExponent_eq hlog (Nat.le_refl 52)
    have hne : em.roundedMantissa ≠ 0 := by omega
    rw [hround, hshift]
    exact dif_neg hne
  · intro hfull hsize
    refine ⟨⟨by omega, ?_⟩, by omega, by omega, hsize⟩
    have hlog : em.roundedMantissa.log2 = 53 := by rw [hfull, Nat.log2_two_pow]
    have hshift : shiftToTargetExponent Format.binary64 em.roundedMantissa
          (((size + 1 : Nat) : Int) - (53 : Nat)) .exact =
        ((ExtendedMantissa.mk em.roundedMantissa false false) >>> 1, (((size + 1 : Nat) : Int) - 52)) :=
      shiftToTargetExponent_eq hlog (by omega)
    have hexponent : ((size + 1 : Nat) : Int) - (53 : Nat) = size - 52 := by omega
    have hhalf : ((ExtendedMantissa.mk em.roundedMantissa false false) >>> 1).mantissa = 2 ^ 52 := by
      rw [mantissa_shiftRight, hfull]
      rfl
    rw [hexponent] at hshift
    rw [hround, hshift]
    dsimp only
    simp only [hhalf]
    rfl

/-- The largest number of 53 bits.  What is less than it is not rounded beyond it. -/
def limit : Nat := (2 ^ 53 - 1) * 2 ^ 971

theorem limit_lt : limit < 2 ^ 1024 := by decide +kernel

/-- A number below the limit is not too large. -/
theorem size_le_of_lt_limit {mantissa size bits : Nat} (hlow : 2 ^ bits ≤ mantissa)
    (h : mantissa * 2 ^ size < limit * 2 ^ bits) : size ≤ 1023 := by
  have hlt : 2 ^ (size + bits) < 2 ^ (1024 + bits) := by
    rw [Nat.pow_add, Nat.pow_add]
    calc 2 ^ size * 2 ^ bits ≤ 2 ^ size * mantissa := Nat.mul_le_mul_left _ hlow
      _ = mantissa * 2 ^ size := Nat.mul_comm _ _
      _ < limit * 2 ^ bits := h
      _ ≤ 2 ^ 1024 * 2 ^ bits := Nat.mul_le_mul_right _ (Nat.le_of_lt limit_lt)
  have hexponents := (Nat.pow_lt_pow_iff_right (by decide)).1 hlt
  omega

/-- A number of the largest size below the limit is cut to less than the largest mantissa. -/
theorem div_lt_of_lt_limit {mantissa unit : Nat} (hunit : 0 < unit)
    (h : mantissa * 2 ^ 1023 < limit * (2 ^ 52 * unit)) : mantissa / unit < 2 ^ 53 - 1 := by
  obtain ⟨size, rest, hsize, hrest, hlast⟩ : ∃ size rest, 1023 = size ∧ size = 52 + rest ∧ rest = 971 :=
    ⟨1023, 971, rfl, rfl, rfl⟩
  have hlimit : limit = (2 ^ 53 - 1) * 2 ^ rest := by rw [hlast, limit]
  rw [hsize, hrest, Nat.pow_add, ← Nat.mul_assoc, hlimit] at h
  have hscaled : mantissa * 2 ^ 52 * 2 ^ rest < (2 ^ 53 - 1) * unit * 2 ^ 52 * 2 ^ rest :=
    h.trans_eq (by ring)
  exact (Nat.div_lt_iff_lt_mul hunit).2 (Nat.lt_of_mul_lt_mul_right (Nat.lt_of_mul_lt_mul_right hscaled))

/-- Cutting and adding one makes a number larger by one part in `2 ^ 52` at most. -/
theorem rounded_mul_le {rounded mantissa unit : Nat} (h : rounded ≤ mantissa / unit + 1)
    (hlow : 2 ^ 52 * unit ≤ mantissa) : rounded * (2 ^ 52 * unit) ≤ mantissa * (2 ^ 52 + 1) := by
  have hcut : mantissa / unit * unit ≤ mantissa := Nat.div_mul_le_self _ _
  have hstep : rounded * unit ≤ mantissa + unit :=
    calc rounded * unit ≤ (mantissa / unit + 1) * unit := Nat.mul_le_mul_right _ h
      _ = mantissa / unit * unit + unit := Nat.succ_mul _ _
      _ ≤ mantissa + unit := by omega
  calc rounded * (2 ^ 52 * unit) = rounded * unit * 2 ^ 52 := by ring
    _ ≤ (mantissa + unit) * 2 ^ 52 := Nat.mul_le_mul_right _ hstep
    _ ≤ mantissa * (2 ^ 52 + 1) := by omega

/-- Rounding keeps the size of a number that does not come near the end of the range, and adds one part in
`2 ^ 52` to it at most. -/
theorem exists_isNormal_roundWithAccuracy {mantissa size bits : Nat} (hbits : mantissa.log2 = bits)
    (henough : 52 ≤ bits) (hpos : 0 < mantissa)
    (h : mantissa * 2 ^ size < limit * 2 ^ bits) : ∃ mantissa' size',
      IsNormal (roundWithAccuracy Format.binary64 .positive mantissa (size - bits) .exact)
        mantissa' size' ∧
      mantissa' * 2 ^ size' * 2 ^ bits ≤ mantissa * 2 ^ size * (2 ^ 52 + 1) := by
  obtain ⟨rounded, hrounded, hfits, hfull⟩ :=
    @exists_roundWithAccuracy mantissa size bits hbits henough hpos
  obtain ⟨hlow, hhigh⟩ := (Nat.log2_eq_iff (by omega)).1 hbits
  have hsize := size_le_of_lt_limit hlow h
  obtain ⟨unit, hunit⟩ : ∃ unit, unit = 2 ^ (bits - 52) := ⟨_, rfl⟩
  have hpow : 2 ^ bits = 2 ^ 52 * unit := by
    rw [hunit, ← Nat.pow_add, Nat.add_sub_cancel' henough]
  have hunitPos : 0 < unit := hunit ▸ Nat.two_pow_pos _
  rw [← hunit] at hrounded
  rw [hpow] at hlow h ⊢
  have hvalue : rounded * 2 ^ size * (2 ^ 52 * unit) ≤ mantissa * 2 ^ size * (2 ^ 52 + 1) :=
    calc rounded * 2 ^ size * (2 ^ 52 * unit) = rounded * (2 ^ 52 * unit) * 2 ^ size :=
          Nat.mul_right_comm _ _ _
      _ ≤ mantissa * (2 ^ 52 + 1) * 2 ^ size :=
          Nat.mul_le_mul_right _ (rounded_mul_le (by omega) hlow)
      _ = mantissa * 2 ^ size * (2 ^ 52 + 1) := Nat.mul_right_comm _ _ _
  by_cases hcase : rounded < 2 ^ 53
  · exact ⟨rounded, size, hfits hcase hsize, hvalue⟩
  · -- the mantissa takes one bit more, which the largest size does not leave room for
    have hcut : mantissa / unit < 2 ^ 53 := by
      refine Nat.div_lt_of_lt_mul ?_
      rw [Nat.pow_succ] at hhigh
      omega
    have hrounded : rounded = 2 ^ 53 := by omega
    have hnext : size ≠ 1023 := by
      rintro rfl
      have hlast := div_lt_of_lt_limit hunitPos h
      omega
    refine ⟨2 ^ 52, size + 1, hfull hrounded (by omega), ?_⟩
    have hsame : 2 ^ 52 * 2 ^ (size + 1) = rounded * 2 ^ size := by rw [hrounded, Nat.pow_succ]; ring
    rwa [hsame]

/-! ### Bounds -/

/-- A number of at least one that is at most `bound / 2 ^ 52`. -/
def AtMost (x : Float) (bound : Nat) : Prop :=
  ∃ mantissa size, IsNormal x.toModel.unpack mantissa size ∧ mantissa * 2 ^ size ≤ bound

theorem AtMost.mono {x : Float} {bound bound' : Nat} (h : AtMost x bound) (hle : bound ≤ bound') :
    AtMost x bound' := by
  obtain ⟨mantissa, size, hx, hvalue⟩ := h
  exact ⟨mantissa, size, hx, hvalue.trans hle⟩

theorem AtMost.isInf {x : Float} {bound : Nat} (h : AtMost x bound) : x.isInf = false := by
  obtain ⟨mantissa, size, hx, -⟩ := h
  obtain ⟨hpos, heq⟩ := hx.eq
  show x.toModel.unpack.isInf = false
  rw [heq]
  rfl

theorem atMost_pack {f : UnpackedFloat} {mantissa size bound : Nat} (h : IsNormal f mantissa size)
    (hbound : mantissa * 2 ^ size ≤ bound) : AtMost (.ofModel (.pack f)) bound := by
  refine ⟨mantissa, size, ?_, hbound⟩
  show IsNormal (UnpackedFloat.unpack Format.binary64 (UnpackedFloat.pack Format.binary64 f)) _ _
  rwa [h.unpack_pack]

/-- A rounded number exceeds the exact one by one part in `2 ^ 52` at most. -/
theorem atMost_round {mantissa size bits bound : Nat} (hbits : mantissa.log2 = bits)
    (henough : 52 ≤ bits) (hpos : 0 < mantissa) (h : mantissa * 2 ^ size < limit * 2 ^ bits)
    (hbound : mantissa * 2 ^ size * (2 ^ 52 + 1) ≤ bound * 2 ^ bits) :
    AtMost (.ofModel (.pack (roundWithAccuracy Format.binary64 .positive mantissa (size - bits)
      .exact))) bound := by
  obtain ⟨mantissa', size', hnormal, hvalue⟩ :=
    exists_isNormal_roundWithAccuracy hbits henough hpos h
  exact atMost_pack hnormal (Nat.le_of_mul_le_mul_right (hvalue.trans hbound) (Nat.two_pow_pos bits))

/-- A product that does not come near the limit does not overflow. -/
theorem AtMost.mul {x y : Float} {bound bound' product : Nat} (hx : AtMost x bound)
    (hy : AtMost y bound') (h : bound * bound' < limit * 2 ^ 104)
    (hproduct : bound * bound' * (2 ^ 52 + 1) ≤ product * 2 ^ 104) : AtMost (x * y) product := by
  obtain ⟨mantissa, size, hnormal, hvalue⟩ := hx
  obtain ⟨mantissa', size', hnormal', hvalue'⟩ := hy
  obtain ⟨hpos, heq⟩ := hnormal.eq
  obtain ⟨hpos', heq'⟩ := hnormal'.eq
  have hmul : x * y = .ofModel (.pack (roundWithAccuracy Format.binary64 .positive
      (mantissa * mantissa') (size - 52 + (size' - 52)) .exact)) := by
    show Float.ofModel (.pack (UnpackedFloat.mul Format.binary64 x.toModel.unpack y.toModel.unpack)) = _
    rw [heq, heq']
    rfl
  obtain ⟨bits, hbits⟩ : ∃ bits, bits = (mantissa * mantissa').log2 := ⟨_, rfl⟩
  have hlow : 2 ^ 52 * 2 ^ 52 ≤ mantissa * mantissa' := Nat.mul_le_mul hnormal.low hnormal'.low
  have henough : 104 ≤ bits := hbits ▸ (Nat.le_log2 (by omega)).2 hlow
  obtain ⟨rest, rfl⟩ : ∃ rest, bits = 104 + rest := ⟨bits - 104, by omega⟩
  have hvalues : mantissa * mantissa' * 2 ^ (size + size' + rest) ≤ bound * bound' * 2 ^ rest :=
    calc mantissa * mantissa' * 2 ^ (size + size' + rest)
        = mantissa * 2 ^ size * (mantissa' * 2 ^ size') * 2 ^ rest := by rw [Nat.pow_add, Nat.pow_add]; ring
      _ ≤ bound * bound' * 2 ^ rest := Nat.mul_le_mul_right _ (Nat.mul_le_mul hvalue hvalue')
  have hexponent : ((size : Int) - 52 + (size' - 52)) =
      ((size + size' + rest : Nat) : Int) - ((104 + rest : Nat) : Int) := by omega
  rw [hmul, hexponent]
  refine atMost_round hbits.symm (by omega) (by omega) ?_ ?_
  · calc mantissa * mantissa' * 2 ^ (size + size' + rest) ≤ bound * bound' * 2 ^ rest := hvalues
      _ < limit * 2 ^ 104 * 2 ^ rest := Nat.mul_lt_mul_of_pos_right h (Nat.two_pow_pos rest)
      _ = limit * 2 ^ (104 + rest) := by rw [Nat.pow_add, Nat.mul_assoc]
  · calc mantissa * mantissa' * 2 ^ (size + size' + rest) * (2 ^ 52 + 1)
        ≤ bound * bound' * 2 ^ rest * (2 ^ 52 + 1) := Nat.mul_le_mul_right _ hvalues
      _ = bound * bound' * (2 ^ 52 + 1) * 2 ^ rest := by ring
      _ ≤ product * 2 ^ 104 * 2 ^ rest := Nat.mul_le_mul_right _ hproduct
      _ = product * 2 ^ (104 + rest) := by rw [Nat.pow_add, Nat.mul_assoc]

/-! ### Natural numbers and powers of ten -/

theorem log2_mul_two_pow {n : Nat} (hn : 0 < n) (k : Nat) : (n * 2 ^ k).log2 = n.log2 + k := by
  have hpos : 0 < 2 ^ k := Nat.two_pow_pos k
  obtain ⟨hlow, hhigh⟩ := (Nat.log2_eq_iff (by omega)).1 (rfl : n.log2 = n.log2)
  refine (Nat.log2_eq_iff (Nat.mul_pos hn hpos).ne').2 ⟨?_, ?_⟩
  · rw [Nat.pow_add]
    exact Nat.mul_le_mul_right _ hlow
  · rw [Nat.add_right_comm, Nat.pow_add]
    exact Nat.mul_lt_mul_of_pos_right hhigh hpos

/-- A natural number times a power of ten that is rounded once. -/
theorem atMost_ofModel_ofScientific {n power : Nat} (hn : 0 < n) (hpower : power ≤ 308)
    (h : n * 10 ^ power < limit) :
    AtMost (.ofModel (Float.Model.ofScientific n (power : Nat))) (n * 10 ^ power * (2 ^ 52 + 1)) := by
  have hmodel : UnpackedFloat.ofScientific Format.binary64 n (power : Nat) =
      roundWithAccuracy Format.binary64 .positive (n * 2 ^ 53 * 10 ^ power) (-53 + 0) .exact := by
    unfold UnpackedFloat.ofScientific
    rw [dif_neg (by omega), if_neg, if_neg, if_pos (by omega)]
    · show roundWithAccuracy Format.binary64 .positive (n <<< 53 * 10 ^ (power : Int).toNat) (-53 + 0)
        .exact = _
      rw [Int.toNat_natCast, Nat.shiftLeft_eq]
    · show ¬ (power : Int) < -(2 ^ 11 + (n.log2 : Int))
      omega
    · show ¬ (2 ^ 11 : Int) < power
      omega
  obtain ⟨size, hsize⟩ : ∃ size, size = (n * 10 ^ power).log2 := ⟨_, rfl⟩
  have hpos : 0 < n * 10 ^ power := Nat.mul_pos hn (Nat.pow_pos (by decide))
  have hbits : (n * 2 ^ 53 * 10 ^ power).log2 = size + 53 := by
    rw [hsize, Nat.mul_right_comm, log2_mul_two_pow hpos]
  have hexponent : ((-53 + 0 : Int)) = (size : Int) - ((size + 53 : Nat) : Int) := by omega
  show AtMost (.ofModel (.pack (UnpackedFloat.ofScientific Format.binary64 n (power : Nat)))) _
  rw [hmodel, hexponent]
  have hmantissa : 0 < n * 2 ^ 53 * 10 ^ power := by
    rw [Nat.mul_right_comm]
    exact Nat.mul_pos hpos (Nat.two_pow_pos 53)
  refine atMost_round hbits (by omega) hmantissa ?_ ?_
  · calc n * 2 ^ 53 * 10 ^ power * 2 ^ size = n * 10 ^ power * 2 ^ (size + 53) := by
          rw [Nat.pow_add]; ring
      _ < limit * 2 ^ (size + 53) := Nat.mul_lt_mul_of_pos_right h (Nat.two_pow_pos _)
  · refine Nat.le_of_eq ?_
    rw [Nat.pow_add]
    ring

/-- A natural number that needs no rounding. -/
theorem atMost_toFloat {n : Nat} (hn : 0 < n) (h : n < 2 ^ 53) :
    AtMost n.toUInt64.toFloat (n * (2 ^ 52 + 1)) := by
  obtain ⟨size, hsize⟩ : ∃ size, size = n.log2 := ⟨_, rfl⟩
  have hle : size ≤ 52 := by
    have hlt := (Nat.log2_lt (by omega)).2 h
    omega
  have htoNat : n.toUInt64.toNat = n := by simp; omega
  have hmodel : UnpackedFloat.ofUInt64 Format.binary64 n.toUInt64 =
      roundWithAccuracy Format.binary64 .positive (n * 2 ^ (52 - size)) (size - (52 : Nat)) .exact := by
    have hcompare : compare (n : Int) 0 = .gt := Int.compare_eq_gt.2 (by omega)
    have htarget : Format.binary64.targetExponent (totalExponent n 0) = (size - 52 : Int) := by
      show max ((n.log2 : Int) + 1 + 0 - ((53 : Nat) : Int)) (3 - 2 ^ (11 - 1) - ((53 : Nat) : Int)) = _
      omega
    have hshift : (0 - (size - 52 : Int)).toNat = 52 - size := by omega
    show UnpackedFloat.normalize Format.binary64 ((n.toUInt64.toNat : Nat) : Int) 0 .positive = _
    rw [htoNat]
    unfold UnpackedFloat.normalize
    rw [hcompare]
    dsimp only
    unfold UnpackedFloat.round decreaseExponent
    rw [Int.toNat_natCast, htarget]
    dsimp only
    rw [hshift, Nat.shiftLeft_eq]
    congr 1
    omega
  have hbits : (n * 2 ^ (52 - size)).log2 = 52 := by
    rw [log2_mul_two_pow hn]
    omega
  have hpow : 2 ^ (52 - size) * 2 ^ size = 2 ^ 52 := by rw [← Nat.pow_add, Nat.sub_add_cancel hle]
  show AtMost (.ofModel (.pack (UnpackedFloat.ofUInt64 Format.binary64 n.toUInt64))) _
  rw [hmodel]
  refine atMost_round hbits (Nat.le_refl 52) (Nat.mul_pos hn (Nat.two_pow_pos _)) ?_ ?_
  · rw [Nat.mul_assoc, hpow]
    refine Nat.mul_lt_mul_of_pos_right (h.trans ?_) (Nat.two_pow_pos 52)
    decide +kernel
  · rw [Nat.mul_assoc n, hpow, Nat.mul_right_comm]

theorem atMost_one : AtMost (.ofBits 0x3FF0000000000000) (2 ^ 52) := by
  have hunpack : (Float.ofBits 0x3FF0000000000000).toModel.unpack =
      .finite .positive (2 ^ 52) ((0 : Nat) - 52) (by decide) := by rfl
  exact ⟨2 ^ 52, 0, ⟨⟨by decide, hunpack⟩, by omega, by omega, by omega⟩, by omega⟩

/-- A natural number of 64 bits, which is rounded at most once. -/
theorem atMost_ofNat {n : Nat} (hn : 0 < n) (h : n < 2 ^ 64) : AtMost (.ofNat n) (n * (2 ^ 52 + 3)) := by
  by_cases hsmall : n < 2 ^ 53
  · have hproduct : Float.ofNat n = n.toUInt64.toFloat * 1.0 := by
      show Float.ofScientific n false 0 = _
      unfold Float.ofScientific
      rw [dif_pos ⟨hsmall, by decide⟩]
      rfl
    rw [hproduct]
    have hbelow : n * (2 ^ 52 + 1) < 2 ^ 117 := by omega
    refine (atMost_toFloat hn hsmall).mul atMost_one ?_ (by omega)
    calc n * (2 ^ 52 + 1) * 2 ^ 52 < 2 ^ 117 * 2 ^ 52 := Nat.mul_lt_mul_of_pos_right hbelow (by decide)
      _ ≤ limit * 2 ^ 104 := by decide +kernel
  · have hmodel : Float.ofNat n = .ofModel (Float.Model.ofScientific n (0 : Nat)) := by
      show Float.ofScientific n false 0 = _
      unfold Float.ofScientific
      rw [dif_neg fun h => hsmall h.1]
      rfl
    have hread := @atMost_ofModel_ofScientific n 0 hn (by omega) (by
      rw [Nat.pow_zero, Nat.mul_one]
      exact h.trans (by decide +kernel))
    rw [hmodel]
    exact hread.mono (by omega)

/-- Whether a number is normal, at least one, and at most a bound. -/
def isAtMost (bound : Nat) : UnpackedFloat → Bool
  | .finite .positive mantissa exponent _ =>
    2 ^ 52 ≤ mantissa ∧ mantissa < 2 ^ 53 ∧ -52 ≤ exponent ∧ exponent ≤ 971 ∧
      mantissa * 2 ^ (exponent + 52).toNat ≤ bound
  | _ => false

theorem atMost_of_isAtMost {x : Float} {bound : Nat} (h : isAtMost bound x.toModel.unpack = true) :
    AtMost x bound := by
  unfold isAtMost at h
  split at h
  · rename_i mantissa exponent hpos heq
    obtain ⟨hlow, hhigh, hsmallest, hlargest, hvalue⟩ := of_decide_eq_true h
    refine ⟨mantissa, (exponent + 52).toNat, ⟨⟨hpos, ?_⟩, hlow, hhigh, by omega⟩, hvalue⟩
    rw [heq]
    congr 1
    omega
  · cases h

/-- A power of ten that is a number. -/
theorem atMost_power {power : Nat} (h : power ≤ 308) :
    AtMost (.ofScientific 1 false power) (10 ^ power * (2 ^ 52 + 1)) := by
  by_cases hsmall : power ≤ 22
  · have hall : ∀ power < 23, isAtMost (10 ^ power * (2 ^ 52 + 1))
        (Float.ofScientific 1 false power).toModel.unpack = true := by decide +kernel
    exact atMost_of_isAtMost (hall power (by omega))
  · have hmodel : Float.ofScientific 1 false power =
        .ofModel (Float.Model.ofScientific 1 (power : Nat)) := by
      unfold Float.ofScientific
      rw [dif_neg fun h => hsmall h.2]
      rfl
    have hlimit : 1 * 10 ^ power < limit :=
      calc 1 * 10 ^ power ≤ 1 * 10 ^ 308 := Nat.mul_le_mul_left 1 (Nat.pow_le_pow_right (by decide) h)
        _ < limit := by decide +kernel
    rw [hmodel]
    exact (atMost_ofModel_ofScientific (by omega) h hlimit).mono (by omega)

/-- What is at most this is not near the end of the range: it may be rounded three times. -/
def safeLimit : Nat := (2 ^ 55 - 38) * 2 ^ 969

/-- A number of 64 bits times a power of ten is not infinite, if it is not near the end of the range. -/
theorem isInf_mul_power {n power : Nat} (hn : n < 2 ^ 64) (hpower : power ≤ 308)
    (h : n * 10 ^ power ≤ safeLimit) :
    (Float.ofNat n * Float.ofScientific 1 false power).isInf = false := by
  rcases Nat.eq_zero_or_pos n with rfl | hpos
  · obtain ⟨mantissa, size, hnormal, -⟩ := atMost_power hpower
    obtain ⟨hpos, heq⟩ := hnormal.eq
    have hzero : (Float.ofNat 0).toModel.unpack = .zero .positive := by rfl
    show (UnpackedFloat.unpack Format.binary64 (UnpackedFloat.pack Format.binary64
      (UnpackedFloat.mul Format.binary64 (Float.ofNat 0).toModel.unpack
        (Float.ofScientific 1 false power).toModel.unpack))).isInf = false
    rw [hzero, heq]
    have hmul : UnpackedFloat.mul Format.binary64 (.zero .positive)
        (.finite .positive mantissa (size - 52) hpos) = .zero .positive := rfl
    rw [hmul]
    decide +kernel
  · have hproduct : n * (2 ^ 52 + 3) * (10 ^ power * (2 ^ 52 + 1)) < limit * 2 ^ 104 :=
      calc n * (2 ^ 52 + 3) * (10 ^ power * (2 ^ 52 + 1))
          = n * 10 ^ power * ((2 ^ 52 + 3) * (2 ^ 52 + 1)) := by ring
        _ ≤ safeLimit * ((2 ^ 52 + 3) * (2 ^ 52 + 1)) := Nat.mul_le_mul_right _ h
        _ < limit * 2 ^ 104 := by decide +kernel
    exact ((atMost_ofNat hpos hn).mul (atMost_power hpower) hproduct
      (Nat.le_mul_of_pos_right _ (by decide))).isInf

end ClauseForest.Decimal
