/-
**What written numbers are made of**

Whatever the layout, a number is written with digits, a point, signs and the letter of the exponent, or
as one of three words.  None of these characters is blank, so a number can stand at the end of a record,
after a space.

Main definitions:

* `Decimal.isMark` — the characters of written numbers;
* `Decimal.ReadsBack` — a number whose written form in leaf records is read as this number.

Main results:

* `Decimal.Layout.isMark_of_mem_render` — **a written number is made of marks**;
* `Decimal.Layout.isBlank_of_mem_render` — none of its characters is blank.
-/

import ClauseForest.Decimal.Layout
import ClauseForest.Decimal.Reader
import ClauseForest.Text.Blank

set_option relaxedAutoImplicit false
set_option autoImplicit false

namespace ClauseForest.Decimal

/-- Whether a character may stand in a written number. -/
def isMark (c : Char) : Bool := c.isDigit || c ∈ ".+-eNaNinf".toList

theorem isMark_of_isDigit {c : Char} (h : c.isDigit = true) : isMark c = true := by
  simp [isMark, h]

/-- No mark is blank. -/
theorem isBlank_of_isMark {c : Char} (h : isMark c = true) : Text.isBlank c = false := by
  rcases Bool.or_eq_true_iff.1 h with hdigit | hmark
  · have hrange : 48 ≤ c.toNat ∧ c.toNat ≤ 57 := Char.isDigit_iff_toNat.1 hdigit
    exact Text.isBlank_of_toNat (by omega)
  · have hall : (".+-eNaNinf".toList.all fun mark => Text.isBlank mark == false) = true := by decide
    exact eq_of_beq (List.all_eq_true.1 hall c (of_decide_eq_true hmark))

namespace Layout

variable {layout : Layout} {c : Char} {digits : List Char}

theorem mem_of_mem_trimZeros (h : c ∈ trimZeros digits) : c ∈ digits := by
  rw [trimZeros, List.mem_reverse] at h
  exact List.mem_reverse.1 ((List.dropWhile_sublist _).subset h)

theorem isMark_of_mem_positional (hdigits : ∀ c ∈ digits, isMark c = true) {place : Int}
    (h : c ∈ layout.positional digits place) : isMark c = true := by
  have hzero : ∀ count, ∀ c ∈ List.replicate count '0', isMark c = true := by
    intro count c hc
    rw [(List.mem_replicate.1 hc).2]
    decide
  unfold positional at h
  split at h
  · simp only [List.mem_append, List.mem_cons] at h
    rcases h with (rfl | rfl | h) | h
    · decide
    · decide
    · exact hzero _ c h
    · exact hdigits c h
  · split at h
    · rcases List.mem_append.1 h with h | h
      · exact hdigits c (List.mem_of_mem_take h)
      · rcases List.mem_cons.1 h with rfl | h
        · decide
        · exact hdigits c (List.mem_of_mem_drop h)
    · simp only [List.mem_append] at h
      rcases h with (h | h) | h
      · exact hdigits c h
      · exact hzero _ c h
      · split at h
        · have hpoint : ['.', '0'].all isMark = true := by decide
          exact List.all_eq_true.1 hpoint c h
        · cases h

theorem isMark_of_mem_scientific (hdigits : ∀ c ∈ digits, isMark c = true) {exponent : Int}
    (h : c ∈ layout.scientific digits exponent) : isMark c = true := by
  unfold scientific at h
  simp only [List.mem_append, List.mem_cons] at h
  rcases h with ((h | h) | rfl | h) | h
  · exact hdigits c (List.mem_of_mem_take h)
  · split at h
    · cases h
    · rcases List.mem_cons.1 h with rfl | h
      · decide
      · exact hdigits c (List.mem_of_mem_drop h)
  · decide
  · split at h
    · obtain rfl := List.mem_singleton.1 h
      decide
    · split at h
      · obtain rfl := List.mem_singleton.1 h
        decide
      · cases h
  · exact isMark_of_isDigit (Nat.isDigit_of_mem_toDigits (by omega) (by omega) h)

theorem isMark_of_mem_magnitude {x : Binary} (h : c ∈ layout.magnitude x) : isMark c = true := by
  unfold magnitude at h
  split at h
  · rcases List.mem_cons.1 h with rfl | h
    · decide
    · split at h
      · have hpoint : ['.', '0'].all isMark = true := by decide
        exact List.all_eq_true.1 hpoint c h
      · cases h
  · have hdigits : ∀ c ∈ trimZeros (Nat.toDigits 10 (shortest layout.tie x).coefficient),
        isMark c = true := by
      intro c hc
      exact isMark_of_isDigit
        (Nat.isDigit_of_mem_toDigits (by omega) (by omega) (mem_of_mem_trimZeros hc))
    dsimp only at h
    split at h
    · exact isMark_of_mem_positional hdigits h
    · exact isMark_of_mem_scientific hdigits h

/-- A written number is made of marks. -/
theorem isMark_of_mem_render {x : Float} (h : c ∈ (layout.render x).toList) : isMark c = true := by
  have hwords : ∀ word ∈ ["NaN", "-inf", "inf"], word.toList.all isMark = true := by decide
  unfold render at h
  split at h
  · exact List.all_eq_true.1 (hwords "NaN" (by simp)) c h
  · split at h
    · exact List.all_eq_true.1 (hwords "-inf" (by simp)) c h
    · exact List.all_eq_true.1 (hwords "inf" (by simp)) c h
  · rw [String.toList_ofList] at h
    split at h
    · rcases List.mem_cons.1 h with rfl | h
      · decide
      · exact isMark_of_mem_magnitude h
    · exact isMark_of_mem_magnitude h

/-- No character of a written number is blank. -/
theorem isBlank_of_mem_render {x : Float} (h : c ∈ (layout.render x).toList) :
    Text.isBlank c = false :=
  isBlank_of_isMark (isMark_of_mem_render h)

end Layout

/-- A number whose written form in leaf records is read as this number. -/
def ReadsBack (x : Float) : Prop := read? (Layout.record.render x).toList = some x

instance (x : Float) : Decidable (ReadsBack x) := by
  unfold ReadsBack
  infer_instance

end ClauseForest.Decimal
