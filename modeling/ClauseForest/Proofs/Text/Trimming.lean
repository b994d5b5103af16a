/-
**Trimmed texts**

Trimming takes away blanks and nothing else, and it stops at the first character from either end that is
no blank.  So a text is what trimming leaves of it with blanks around it, and whatever neither starts nor
ends with a blank is left when blanks are put around it.

Main results:

* `Text.exists_eq_trimEnd_append`, `Text.exists_eq_append_trim` — what is taken away is blank;
* `Text.trimEnd_append_of_isBlank`, `Text.trim_append_of_isBlank`, `Text.trim_append_append` — **blanks
  around a text are taken away**;
* `Text.trim_append` — a text that ends with a visible piece is trimmed at its start only.
-/

import ClauseForest.Text.Blank
import Mathlib.Data.List.DropRight
import Mathlib.Data.List.TakeWhile

set_option relaxedAutoImplicit false
set_option autoImplicit false

namespace ClauseForest.Text

variable {text front back before after core : List Char}

/-! ### At the end -/

/-- What is taken away at the end is blank. -/
theorem exists_eq_trimEnd_append (text : List Char) :
    ∃ after, text = trimEnd text ++ after ∧ ∀ c ∈ after, isBlank c = true :=
  ⟨text.rtakeWhile isBlank, List.rdropWhile_append_rtakeWhile.symm, fun _ => List.mem_rtakeWhile_imp⟩

/-- Blanks at the end are taken away. -/
theorem trimEnd_append_of_isBlank (text : List Char) (h : ∀ c ∈ after, isBlank c = true) :
    trimEnd (text ++ after) = trimEnd text := by
  have hafter : ∀ c ∈ after.reverse, isBlank c = true := fun c hc => h c (List.mem_reverse.1 hc)
  rw [trimEnd, List.reverse_append, List.dropWhile_append_of_pos hafter, trimEnd]

/-- A text that does not end with a blank stays as it is. -/
theorem trimEnd_of_getLast? (h : ∀ c ∈ text.getLast?, isBlank c = false) : trimEnd text = text := by
  refine List.rdropWhile_eq_self_iff.2 fun hne => ?_
  rw [h _ (List.getLast?_eq_some_getLast hne)]
  exact Bool.false_ne_true

theorem trimEnd_append (hne : back ≠ []) (h : ∀ c ∈ back, isBlank c = false) :
    trimEnd (front ++ back) = front ++ back := by
  refine trimEnd_of_getLast? fun c hc => h c (List.mem_of_getLast? ?_)
  rwa [Option.mem_def, List.getLast?_append_of_ne_nil _ hne] at hc

/-! ### At both ends -/

/-- What is taken away at both ends is blank. -/
theorem exists_eq_append_trim (text : List Char) : ∃ before after,
    text = before ++ trim text ++ after ∧ (∀ c ∈ before, isBlank c = true) ∧
      ∀ c ∈ after, isBlank c = true := by
  obtain ⟨after, hafter, hblank⟩ := exists_eq_trimEnd_append (text.dropWhile isBlank)
  refine ⟨text.takeWhile isBlank, after, ?_, fun _ => List.mem_takeWhile_imp, hblank⟩
  rw [List.append_assoc, trim, ← hafter, List.takeWhile_append_dropWhile]

/-- Blanks at the end make no difference. -/
theorem trim_append_of_isBlank (text : List Char) (h : ∀ c ∈ after, isBlank c = true) :
    trim (text ++ after) = trim text := by
  rw [trim, List.dropWhile_append, trim]
  split
  · rename_i hempty
    rw [List.isEmpty_iff.1 hempty, List.dropWhile_eq_nil_iff.2 h]
  · exact trimEnd_append_of_isBlank _ h

/-- Blanks around a text that neither starts nor ends with one are taken away. -/
theorem trim_append_append (hbefore : ∀ c ∈ before, isBlank c = true)
    (hafter : ∀ c ∈ after, isBlank c = true) (hstart : ∀ c ∈ core.head?, isBlank c = false)
    (hstop : ∀ c ∈ core.getLast?, isBlank c = false) : trim (before ++ core ++ after) = core := by
  rw [trim, List.append_assoc, List.dropWhile_append_of_pos hbefore]
  cases core with
  | nil => rw [List.nil_append, List.dropWhile_eq_nil_iff.2 hafter, trimEnd_of_getLast? hstop]
  | cons c core =>
      rw [List.cons_append, List.dropWhile_cons_of_neg (by simp [hstart c rfl]), ← List.cons_append,
        trimEnd_append_of_isBlank _ hafter, trimEnd_of_getLast? hstop]

/-- A text that does not end with a blank is trimmed at its start only. -/
theorem trim_append (hne : back ≠ []) (h : ∀ c ∈ back, isBlank c = false) :
    trim (front ++ back) = front.dropWhile isBlank ++ back := by
  have hback : back.dropWhile isBlank = back := by
    cases back with
    | nil => exact absurd rfl hne
    | cons c back => simp [h c (by simp)]
  have hdrop : (front ++ back).dropWhile isBlank = front.dropWhile isBlank ++ back := by
    rw [List.dropWhile_append, hback]
    split
    · rename_i hempty
      rw [List.isEmpty_iff.1 hempty, List.nil_append]
    · rfl
  rw [trim, hdrop, trimEnd_append hne h]

end ClauseForest.Text
