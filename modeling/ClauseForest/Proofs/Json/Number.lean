/-
**Number literals**

A number literal is digits without a leading zero, perhaps a point and digits, and perhaps a letter, a sign
and digits.  It ends where none of these can go on.  A literal of this form is read as it was written,
whatever follows it, if what follows does not go on with the number.

Counts are written by their digits, and finite floating point numbers in a layout that is built from the
fewest digits that read back.  These digits do not begin with a zero, since they stand for a positive
number.  So both are written as literals.

Main definitions:

* `Json.EndsNumber` — a text that does not go on with a number;
* `Json.IsWhole`, `Json.IsFraction`, `Json.IsExponent` — the parts of a literal;
* `Json.IsLiteral` — a text that is read as a number literal;
* `Decimal.Layout.exponentText` — how an exponent is written.

Main results:

* `Json.isLiteral_of_parts` — **parts make a literal**;
* `Json.isLiteral_toDigits`, `Json.count?_toDigits` — a count is written as a literal and read back;
* `Json.isLiteral_render` — **a finite floating point number is written as a literal**.
-/

import ClauseForest.Decimal.Layout
import ClauseForest.Json.Number
import ClauseForest.Json.Reader
import ClauseForest.Proofs.Decimal.Layout
import ClauseForest.Proofs.Decimal.Shortest

set_option relaxedAutoImplicit false
set_option autoImplicit false

namespace ClauseForest

/-! ### Digits of natural numbers -/

/-- The digits of a positive number do not begin with a zero. -/
theorem exists_toDigits {n : Nat} (h : 0 < n) :
    ∃ c rest, Nat.toDigits 10 n = c :: rest ∧ c ≠ '0' := by
  induction n using Nat.strongRecOn with
  | ind n ih =>
      by_cases hsmall : n < 10
      · refine ⟨n.digitChar, [], Nat.toDigits_of_lt_base hsmall, fun hzero => ?_⟩
        have hn := Nat.digitChar_eq_zero.1 hzero
        omega
      · obtain ⟨c, rest, hdigits, hc⟩ := ih (n / 10) (by omega) (by omega)
        refine ⟨c, rest ++ [(n % 10).digitChar], ?_, hc⟩
        rw [Nat.toDigits_of_base_le (by decide) (by omega), hdigits, List.cons_append]

theorem isDigit_of_mem_toDigits {n : Nat} {c : Char} (h : c ∈ Nat.toDigits 10 n) :
    c.isDigit = true := Nat.isDigit_of_mem_toDigits (by decide) (by decide) h

namespace Json

variable {whole fraction exponent rest : List Char}

/-! ### Parts of a literal -/

/-- A text that does not go on with a number. -/
def EndsNumber (rest : List Char) : Prop :=
  ∀ c, rest.head? = some c → c.isDigit = false ∧ c ≠ '.' ∧ c ≠ 'e' ∧ c ≠ 'E'

/-- At least one digit, and nothing else. -/
structure AreDigits (digits : List Char) : Prop where
  ne_nil : digits ≠ []
  isDigit : ∀ c ∈ digits, c.isDigit = true

/-- The digits before the point. -/
structure IsWhole (whole : List Char) : Prop extends AreDigits whole where
  zero : whole.head? = some '0' → whole = ['0']

/-- A point and digits, or nothing. -/
inductive IsFraction : List Char → Prop where
  | none : IsFraction []
  | point {digits : List Char} (h : AreDigits digits) : IsFraction ('.' :: digits)

/-- A letter, perhaps a sign, and digits, or nothing. -/
inductive IsExponent : List Char → Prop where
  | none : IsExponent []
  | unsigned {digits : List Char} (h : AreDigits digits) : IsExponent ('e' :: digits)
  | signed {sign : Char} {digits : List Char} (hsign : sign = '+' ∨ sign = '-')
      (h : AreDigits digits) : IsExponent ('e' :: sign :: digits)

theorem areDigits_zero : AreDigits ['0'] := ⟨List.cons_ne_nil _ _, List.all_eq_true.1 rfl⟩

theorem areDigits_toDigits (n : Nat) : AreDigits (Nat.toDigits 10 n) :=
  ⟨Nat.toDigits_ne_nil, fun _ => isDigit_of_mem_toDigits⟩

theorem AreDigits.takeWhile_append {digits : List Char} (h : AreDigits digits)
    (hrest : ∀ c, rest.head? = some c → c.isDigit = false) :
    (digits ++ rest).takeWhile Char.isDigit = digits := by
  rw [List.takeWhile_append_of_pos h.isDigit]
  cases rest with
  | nil => simp
  | cons c rest => simp [hrest c rfl]

theorem AreDigits.dropWhile_append {digits : List Char} (h : AreDigits digits)
    (hrest : ∀ c, rest.head? = some c → c.isDigit = false) :
    (digits ++ rest).dropWhile Char.isDigit = rest := by
  rw [List.dropWhile_append_of_pos h.isDigit]
  cases rest with
  | nil => rfl
  | cons c rest => simp [hrest c rfl]

theorem AreDigits.readDigits? {digits : List Char} (h : AreDigits digits)
    (hrest : ∀ c, rest.head? = some c → c.isDigit = false) :
    Json.readDigits? (digits ++ rest) = some (digits, rest) := by
  unfold Json.readDigits?
  rw [h.takeWhile_append hrest, h.dropWhile_append hrest]
  simp [h.ne_nil]

/-- What follows the digits before the point begins with the point or with the letter of the exponent. -/
theorem isDigit_head?_parts (hfraction : IsFraction fraction)
    (hexponent : ∀ c, exponent.head? = some c → c.isDigit = false) :
    ∀ c, (fraction ++ exponent).head? = some c → c.isDigit = false := by
  intro c hc
  cases hfraction with
  | none => exact hexponent c hc
  | point _ =>
      obtain rfl : '.' = c := Option.some.inj hc
      decide

theorem IsExponent.head?_eq {c : Char} (h : IsExponent exponent) (hc : exponent.head? = some c) :
    c = 'e' := by
  cases h with
  | none => cases hc
  | unsigned _ | signed _ _ => exact (Option.some.inj hc).symm

theorem IsExponent.isDigit_head? {c : Char} (h : IsExponent exponent) (hc : exponent.head? = some c) :
    c.isDigit = false := by
  rw [h.head?_eq hc]
  decide

theorem IsWhole.readWhole? (h : IsWhole whole)
    (hrest : ∀ c, rest.head? = some c → c.isDigit = false) :
    Json.readWhole? (whole ++ rest) = some (whole, rest) := by
  by_cases hzero : whole.head? = some '0'
  · rw [h.zero hzero]
    rfl
  · rw [Json.readWhole?]
    · exact h.readDigits? hrest
    · intro rest' heq
      obtain ⟨c, whole', rfl⟩ := List.exists_cons_of_ne_nil h.ne_nil
      obtain ⟨rfl, -⟩ := List.cons.inj heq
      exact hzero rfl

theorem IsFraction.readFraction? (h : IsFraction fraction)
    (hrest : ∀ c, rest.head? = some c → c.isDigit = false ∧ c ≠ '.') :
    Json.readFraction? (fraction ++ rest) = some (fraction, rest) := by
  cases h with
  | none =>
      rw [List.nil_append, Json.readFraction?]
      rintro rest' rfl
      exact (hrest '.' rfl).2 rfl
  | point hdigits =>
      rw [List.cons_append, Json.readFraction?, hdigits.readDigits? fun c hc => (hrest c hc).1]
      rfl

theorem IsExponent.readExponent? (h : IsExponent exponent) (hrest : EndsNumber rest) :
    Json.readExponent? (exponent ++ rest) = some (exponent, rest) := by
  have hend : ∀ c, rest.head? = some c → c.isDigit = false := fun c hc => (hrest c hc).1
  cases h with
  | none =>
      cases rest with
      | nil => rfl
      | cons c rest =>
          obtain ⟨-, -, hlower, hupper⟩ := hrest c rfl
          simp [Json.readExponent?, hlower, hupper]
  | @unsigned digits hdigits =>
      obtain ⟨c, digits', rfl⟩ := List.exists_cons_of_ne_nil hdigits.ne_nil
      have hc := hdigits.isDigit c (by simp)
      have hsign : ¬ (c = '+' ∨ c = '-') := by
        rintro (rfl | rfl) <;> cases hc
      have hread := hdigits.readDigits? hend
      rw [List.cons_append] at hread
      simp [Json.readExponent?, hsign, hread]
  | signed hsign hdigits => simp [Json.readExponent?, hsign, hdigits.readDigits? hend]

/-! ### Literals -/

/-- A text that is read as a number literal, if what follows does not go on with it. -/
def IsLiteral (literal : List Char) : Prop :=
  ∀ rest, EndsNumber rest → readNumber? (literal ++ rest) = some (literal, rest)

theorem readUnsigned?_of_parts (hwhole : IsWhole whole) (hfraction : IsFraction fraction)
    (hexponent : IsExponent exponent) (hrest : EndsNumber rest) :
    readUnsigned? (whole ++ fraction ++ exponent ++ rest) =
      some (whole ++ fraction ++ exponent, rest) := by
  have hexp : ∀ c, (exponent ++ rest).head? = some c → c.isDigit = false ∧ c ≠ '.' := by
    intro c hc
    cases hexponent with
    | none => exact ⟨(hrest c hc).1, (hrest c hc).2.1⟩
    | unsigned _ | signed _ _ =>
        obtain rfl : 'e' = c := Option.some.inj hc
        decide
  have hfrac := isDigit_head?_parts hfraction fun c hc => (hexp c hc).1
  rw [List.append_assoc, List.append_assoc, readUnsigned?, hwhole.readWhole? hfrac]
  show (Json.readFraction? (fraction ++ (exponent ++ rest)) >>= _) = _
  rw [hfraction.readFraction? hexp]
  show (Json.readExponent? (exponent ++ rest) >>= _) = _
  rw [hexponent.readExponent? hrest]
  rfl

/-- Parts make a literal, with a sign or without. -/
theorem isLiteral_of_parts (negative : Bool) (hwhole : IsWhole whole)
    (hfraction : IsFraction fraction) (hexponent : IsExponent exponent) :
    IsLiteral (if negative then '-' :: (whole ++ fraction ++ exponent)
      else whole ++ fraction ++ exponent) := by
  intro rest hrest
  have hread := readUnsigned?_of_parts hwhole hfraction hexponent hrest
  cases negative with
  | true =>
      show (readUnsigned? (whole ++ fraction ++ exponent ++ rest)).map _ = _
      rw [hread]
      rfl
  | false =>
      simp only [Bool.false_eq_true, if_false]
      rw [readNumber?]
      · exact hread
      · intro rest' heq
        obtain ⟨c, whole', rfl⟩ := List.exists_cons_of_ne_nil hwhole.ne_nil
        obtain ⟨rfl, -⟩ := List.cons.inj heq
        exact absurd (hwhole.isDigit '-' (by simp)) (by decide)

/-- A literal begins with a sign or a digit. -/
theorem IsLiteral.exists_cons {literal : List Char} (h : IsLiteral literal) :
    ∃ c rest, literal = c :: rest ∧ (c = '-' ∨ c.isDigit = true) := by
  have hread := h [] nofun
  rw [List.append_nil] at hread
  have hdigits : ∀ text out, readUnsigned? text = some out →
      ∃ c rest, text = c :: rest ∧ c.isDigit = true := by
    intro text out hout
    obtain ⟨cut, hcut, -⟩ := Option.bind_eq_some_iff.1 hout
    unfold Json.readWhole? at hcut
    split at hcut
    · exact ⟨'0', _, rfl, by decide⟩
    · unfold Json.readDigits? at hcut
      cases text with
      | nil => cases hcut
      | cons c text =>
          refine ⟨c, text, rfl, ?_⟩
          by_contra hc
          simp [hc] at hcut
  unfold readNumber? at hread
  split at hread
  · exact ⟨'-', _, rfl, .inl rfl⟩
  · obtain ⟨c, rest, heq, hc⟩ := hdigits _ _ hread
    exact ⟨c, rest, heq, .inr hc⟩

/-! ### Counts -/

theorem isWhole_toDigits (n : Nat) : IsWhole (Nat.toDigits 10 n) where
  toAreDigits := areDigits_toDigits n
  zero := by
    intro hzero
    rcases Nat.eq_zero_or_pos n with rfl | hpos
    · rfl
    · obtain ⟨c, rest, hdigits, hc⟩ := exists_toDigits hpos
      rw [hdigits] at hzero
      exact absurd (Option.some.inj hzero) hc

/-- A count is written as a literal. -/
theorem isLiteral_toDigits (n : Nat) : IsLiteral (Nat.toDigits 10 n) := by
  have h := isLiteral_of_parts false (isWhole_toDigits n) .none .none
  simpa using h

theorem le_ofDigitChars (n : Nat) (digits : List Char) : n ≤ Nat.ofDigitChars 10 digits n := by
  induction digits generalizing n with
  | nil => exact Nat.le_refl n
  | cons c digits ih =>
      rw [Nat.ofDigitChars_cons]
      have hrest := ih (10 * n + (c.toNat - '0'.toNat))
      omega

/-- Digits of a number that fits are all appended. -/
theorem appendDigits_eq {n : Nat} {digits : List Char}
    (h : Nat.ofDigitChars 10 digits n ≤ maxCount) :
    appendDigits n digits = (Nat.ofDigitChars 10 digits n, []) := by
  induction digits generalizing n with
  | nil => rfl
  | cons c digits ih =>
      rw [Nat.ofDigitChars_cons] at h ⊢
      have hnext := le_ofDigitChars (10 * n + (c.toNat - '0'.toNat)) digits
      rw [appendDigits]
      exact (if_pos (Nat.le_trans hnext h)).trans (ih h)

/-- A count is read back. -/
theorem count?_toDigits {n : Nat} (h : n ≤ maxCount) : count? (Nat.toDigits 10 n) = some n := by
  have hvalue : Nat.ofDigitChars 10 (Nat.toDigits 10 n) 0 = n := Nat.ofDigitChars_ten_toDigits
  have hdigits : (Nat.toDigits 10 n).all Char.isDigit = true :=
    List.all_eq_true.2 fun c hc => isDigit_of_mem_toDigits hc
  unfold count?
  rw [if_pos hdigits, appendDigits_eq (by rwa [hvalue]), hvalue]

end Json

/-! ### Floating point numbers -/

namespace Decimal.Layout

open Json

theorem trimZeros_cons {c : Char} (h : c ≠ '0') (digits : List Char) :
    trimZeros (c :: digits) = c :: trimZeros digits := by
  have hc : [c].dropWhile (· == '0') = [c] := List.dropWhile_cons_of_neg (by simpa using h)
  unfold trimZeros
  rw [List.reverse_cons, List.dropWhile_append, hc]
  split
  · rename_i hempty
    rw [List.isEmpty_iff.1 hempty]
    rfl
  · simp

/-- A text in the parts of a literal. -/
def HasParts (text : List Char) : Prop :=
  ∃ whole fraction exponent, IsWhole whole ∧ IsFraction fraction ∧ IsExponent exponent ∧
    text = whole ++ fraction ++ exponent

/-- Digits that do not begin with a zero. -/
structure AreLeading (digits : List Char) : Prop extends AreDigits digits where
  head_ne : digits.head? ≠ some '0'

theorem AreLeading.isWhole {digits : List Char} (h : AreLeading digits) : IsWhole digits :=
  ⟨h.toAreDigits, fun hzero => absurd hzero h.head_ne⟩

theorem areDigits_replicate_append {digits : List Char} (h : AreDigits digits) (zeros : Nat) :
    AreDigits (List.replicate zeros '0' ++ digits) where
  ne_nil := by simp [h.ne_nil]
  isDigit := by
    intro c hc
    rcases List.mem_append.1 hc with hc | hc
    · rw [(List.mem_replicate.1 hc).2]
      decide
    · exact h.isDigit c hc

theorem areLeading_trimZeros {n : Nat} (h : 0 < n) : AreLeading (trimZeros (Nat.toDigits 10 n)) := by
  obtain ⟨c, rest, hdigits, hc⟩ := exists_toDigits h
  have htrim : trimZeros (Nat.toDigits 10 n) = c :: trimZeros rest := by
    rw [hdigits, trimZeros_cons hc]
  refine ⟨⟨by simp [htrim], fun d hd => isDigit_of_mem_toDigits (mem_of_mem_trimZeros hd)⟩, ?_⟩
  rw [htrim]
  exact fun hzero => hc (Option.some.inj hzero)

variable {layout : Layout} {digits : List Char}

/-- The point that is kept in a whole number. -/
theorem isFraction_kept (layout : Layout) :
    IsFraction (if layout.keepsPoint then ['.', '0'] else []) := by
  split
  · exact .point areDigits_zero
  · exact .none

/-- Digits around a point are written in the parts of a literal, with at most `place` of them before the
point. -/
theorem exists_parts_positional (h : AreLeading digits) (place : Int) : ∃ whole fraction,
    IsWhole whole ∧ IsFraction fraction ∧ whole.length ≤ max 1 place.toNat ∧
      layout.positional digits place = whole ++ fraction := by
  unfold positional
  split
  · exact ⟨['0'], _, ⟨areDigits_zero, fun _ => rfl⟩,
      .point (areDigits_replicate_append h.toAreDigits (-place).toNat), by simp, by simp⟩
  · rename_i hplace
    obtain ⟨c, rest, rfl⟩ := List.exists_cons_of_ne_nil h.ne_nil
    split
    · rename_i hinside
      -- there are digits on both sides of the point
      obtain ⟨before, hbefore⟩ : ∃ before, place.toNat = before + 1 := ⟨place.toNat - 1, by omega⟩
      rw [hbefore, List.take_succ_cons, List.drop_succ_cons]
      have hwhole : AreLeading (c :: rest.take before) := by
        refine ⟨⟨by simp, fun d hd => ?_⟩, h.head_ne⟩
        rw [← List.take_succ_cons] at hd
        exact h.isDigit d (List.mem_of_mem_take hd)
      have hfraction : AreDigits (rest.drop before) := by
        refine ⟨fun hnil => ?_, fun d hd => ?_⟩
        · have hlength := List.drop_eq_nil_iff.1 hnil
          simp only [List.length_cons] at hinside
          omega
        · exact h.isDigit d (List.mem_cons_of_mem c (List.mem_of_mem_drop hd))
      exact ⟨_, _, hwhole.isWhole, .point hfraction, by simp, rfl⟩
    · rename_i houtside
      have hwhole : AreLeading (c :: rest ++ List.replicate (place.toNat - (c :: rest).length) '0') := by
        refine ⟨⟨by simp, fun d hd => ?_⟩, h.head_ne⟩
        rcases List.mem_append.1 hd with hd | hd
        · exact h.isDigit d hd
        · rw [(List.mem_replicate.1 hd).2]
          decide
      have hlength : (c :: rest ++ List.replicate (place.toNat - (c :: rest).length) '0').length ≤
          max 1 place.toNat := by
        rw [List.length_append, List.length_replicate]
        omega
      exact ⟨_, _, hwhole.isWhole, isFraction_kept layout, hlength, rfl⟩

theorem hasParts_positional (h : AreLeading digits) (place : Int) :
    HasParts (layout.positional digits place) := by
  obtain ⟨whole, fraction, hwhole, hfraction, -, htext⟩ := @exists_parts_positional layout digits h place
  exact ⟨whole, fraction, [], hwhole, hfraction, .none, by rw [htext, List.append_nil]⟩

/-- How an exponent is written. -/
def exponentText (layout : Layout) (exponent : Int) : List Char :=
  'e' :: (if exponent < 0 then ['-'] else if layout.signsExponent then ['+'] else []) ++
    Nat.toDigits 10 exponent.natAbs

theorem isExponent_exponentText (layout : Layout) (exponent : Int) :
    IsExponent (layout.exponentText exponent) := by
  unfold exponentText
  split
  · exact .signed (.inr rfl) (areDigits_toDigits _)
  · split
    · exact .signed (.inl rfl) (areDigits_toDigits _)
    · exact .unsigned (areDigits_toDigits _)

/-- Digits with an exponent are written in the parts of a literal, with one digit before the point. -/
theorem exists_parts_scientific {c : Char} {rest : List Char} (h : AreLeading (c :: rest))
    (exponent : Int) : ∃ fraction, IsWhole [c] ∧ IsFraction fraction ∧ fraction.drop 1 = rest ∧
      layout.scientific (c :: rest) exponent = [c] ++ fraction ++ layout.exponentText exponent := by
  have hwhole : AreLeading [c] :=
    ⟨⟨by simp, fun d hd => h.isDigit d (by simp_all)⟩, h.head_ne⟩
  refine ⟨if rest.isEmpty then [] else '.' :: rest, hwhole.isWhole, ?_, ?_,
    by simp [scientific, exponentText]⟩
  · split
    · exact .none
    · rename_i hempty
      exact .point ⟨by simpa using hempty, fun d hd => h.isDigit d (List.mem_cons_of_mem c hd)⟩
  · cases rest <;> rfl

theorem hasParts_scientific (h : AreLeading digits) (exponent : Int) :
    HasParts (layout.scientific digits exponent) := by
  obtain ⟨c, rest, rfl⟩ := List.exists_cons_of_ne_nil h.ne_nil
  obtain ⟨fraction, hwhole, hfraction, -, htext⟩ := @exists_parts_scientific layout c rest h exponent
  exact ⟨[c], fraction, _, hwhole, hfraction, isExponent_exponentText layout exponent, htext⟩

/-- The magnitude of a floating point number is written in the parts of a literal. -/
theorem hasParts_magnitude (layout : Layout) {x : Binary} (hx : x.InRange) : HasParts (layout.magnitude x) := by
  unfold magnitude
  split
  · exact ⟨['0'], _, [], ⟨areDigits_zero, fun _ => rfl⟩, isFraction_kept layout, .none, by simp⟩
  · rename_i hzero
    have hleading := areLeading_trimZeros
      (coefficient_shortest_pos layout.tie hx (Nat.pos_of_ne_zero hzero))
    dsimp only
    split
    · exact hasParts_positional hleading _
    · exact hasParts_scientific hleading _

end Decimal.Layout

/-- A finite floating point number is written as a literal. -/
theorem Json.isLiteral_render (layout : Decimal.Layout) {x : Float} (h : x.isFinite = true) :
    IsLiteral (layout.render x).toList := by
  obtain ⟨negative, m, hshape⟩ := Decimal.exists_ofFloat h
  obtain ⟨whole, fraction, exponent, hwhole, hfraction, hexponent, hparts⟩ :=
    Decimal.Layout.hasParts_magnitude layout (Decimal.inRange_of_ofFloat hshape)
  have hliteral := isLiteral_of_parts negative hwhole hfraction hexponent
  rw [← hparts] at hliteral
  unfold Decimal.Layout.render
  rw [hshape]
  simpa using hliteral

end ClauseForest
