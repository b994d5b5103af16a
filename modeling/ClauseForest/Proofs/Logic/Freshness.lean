/-
**New names**

The enumeration of names has no repetition, because a position is told from its letter and its
number.  So of the first `n + 1` names at most `n` are taken by a list of `n` names, and the first
name that is not taken is found among them.  All names have the form that the learner asks for.

Main results:

* `variableName_injective` — no name is enumerated twice;
* `isClauseVariable_variableName` — the learner takes all of them for variables;
* `exists_freshName_eq` — **a new name is the first of the enumeration that is not taken**;
* `isAlphanum_of_mem_freshNames`, `nodup_freshNames` — what new names are made of, and that they are
  different.
-/

import ClauseForest.Logic.Variable
import Mathlib.Data.List.Nodup
import Mathlib.Data.List.Perm.Subperm

set_option relaxedAutoImplicit false
set_option autoImplicit false

namespace ClauseForest

/-! ### Names of the learner -/

theorem isAlphanum_of_isClauseVariable {token : String} (h : isClauseVariable token = true)
    {c : Char} (hc : c ∈ token.toList) : c.isAlphanum = true := by
  unfold isClauseVariable at h
  cases htoken : token.toList with
  | nil => simp [htoken] at hc
  | cons first rest =>
      simp only [htoken, Bool.and_eq_true, List.all_eq_true] at h
      rw [htoken] at hc
      rcases List.mem_cons.1 hc with rfl | hc
      · have halpha : c.isAlpha = true := Bool.or_eq_true_iff.2 (.inl h.1)
        exact Bool.or_eq_true_iff.2 (.inl halpha)
      · exact h.2 c hc

/-! ### The enumeration -/

theorem toDigits_injective : Function.Injective (Nat.toDigits 10) := by
  intro m n h
  calc
    m = Nat.ofDigitChars 10 (Nat.toDigits 10 m) 0 := Nat.ofDigitChars_ten_toDigits.symm
    _ = Nat.ofDigitChars 10 (Nat.toDigits 10 n) 0 := by rw [h]
    _ = n := Nat.ofDigitChars_ten_toDigits

theorem letter_injective {i j : Nat} (hi : i < 26) (hj : j < 26)
    (h : Char.ofNat ('A'.toNat + i) = Char.ofNat ('A'.toNat + j)) : i = j := by
  have hletters : ∀ i < 26, ∀ j < 26,
      Char.ofNat ('A'.toNat + i) = Char.ofNat ('A'.toNat + j) → i = j := by decide
  exact hletters i hi j hj h

/-- A name tells its round by its number; the names of the first round have none. -/
theorem rounds_injective {m n : Nat} (h : (if m < 26 then [] else Nat.toDigits 10 (m / 26)) =
    if n < 26 then [] else Nat.toDigits 10 (n / 26)) : m / 26 = n / 26 := by
  split at h
  · split at h
    · omega
    · exact absurd h.symm Nat.toDigits_ne_nil
  · split at h
    · exact absurd h Nat.toDigits_ne_nil
    · exact toDigits_injective h

/-- No name is enumerated twice. -/
theorem variableName_injective : Function.Injective variableName := by
  intro m n h
  unfold variableName at h
  obtain ⟨hletter, hround⟩ := List.cons.inj (String.ofList_injective h)
  have hmod : m % 26 = n % 26 :=
    letter_injective (Nat.mod_lt m (by omega)) (Nat.mod_lt n (by omega)) hletter
  have hdiv := rounds_injective hround
  omega

theorem isClauseVariable_variableName (n : Nat) : isClauseVariable (variableName n) = true := by
  have hletter : ∀ k < 26, (Char.ofNat ('A'.toNat + k)).isUpper = true := by decide
  unfold isClauseVariable variableName
  rw [String.toList_ofList]
  simp only [Bool.and_eq_true, List.all_eq_true]
  refine ⟨hletter _ (Nat.mod_lt n (by omega)), fun c hc => ?_⟩
  split at hc
  · cases hc
  · have hdigit := Nat.isDigit_of_mem_toDigits (by omega) (by omega) hc
    simp [Char.isAlphanum, hdigit]

/-! ### The first name that is not taken -/

/-- One name more than are taken are not all taken. -/
theorem exists_variableName_not_mem (taken : List String) :
    ∃ n ≤ taken.length, variableName n ∉ taken := by
  by_contra! hnone
  have hnodup : ((List.range (taken.length + 1)).map variableName).Nodup :=
    List.nodup_range.map variableName_injective
  have hsub : (List.range (taken.length + 1)).map variableName ⊆ taken := by
    intro name hname
    obtain ⟨n, hn, rfl⟩ := List.mem_map.1 hname
    exact hnone n (Nat.le_of_lt_succ (List.mem_range.1 hn))
  have hlength := (List.subperm_of_subset hnodup hsub).length_le
  rw [List.length_map, List.length_range] at hlength
  omega

/-- A new name is the first of the enumeration that is not taken. -/
theorem exists_freshName_eq (taken : List String) :
    ∃ n, freshName taken = variableName n ∧ variableName n ∉ taken ∧
      ∀ m < n, variableName m ∈ taken := by
  unfold freshName
  rw [List.find?_map]
  cases hfind : (List.range (taken.length + 1)).find? ((· ∉ taken) ∘ variableName) with
  | none =>
      obtain ⟨n, hn, hmem⟩ := exists_variableName_not_mem taken
      have hall := List.find?_eq_none.1 hfind n (List.mem_range.2 (Nat.lt_succ_of_le hn))
      simp [hmem] at hall
  | some n =>
      obtain ⟨hn, -, hfirst⟩ := List.find?_range_eq_some.1 hfind
      refine ⟨n, rfl, by simpa using hn, fun m hm => by simpa using hfirst m hm⟩

theorem freshName_not_mem (taken : List String) : freshName taken ∉ taken := by
  obtain ⟨n, hname, hmem, -⟩ := exists_freshName_eq taken
  rwa [hname]

theorem isClauseVariable_freshName (taken : List String) :
    isClauseVariable (freshName taken) = true := by
  obtain ⟨n, hname, -⟩ := exists_freshName_eq taken
  rw [hname]
  exact isClauseVariable_variableName n

/-! ### Several new names -/

theorem isClauseVariable_of_mem_freshNames {taken : List String} {count : Nat} {name : String}
    (h : name ∈ freshNames taken count) : isClauseVariable name = true := by
  induction count generalizing taken with
  | zero => cases h
  | succ count ih =>
      rcases List.mem_cons.1 h with rfl | h
      · exact isClauseVariable_freshName taken
      · exact ih h

theorem isAlphanum_of_mem_freshNames {taken : List String} {count : Nat} {name : String}
    (h : name ∈ freshNames taken count) {c : Char} (hc : c ∈ name.toList) :
    c.isAlphanum = true := isAlphanum_of_isClauseVariable (isClauseVariable_of_mem_freshNames h) hc

theorem not_mem_of_mem_freshNames {taken : List String} {count : Nat} {name : String}
    (h : name ∈ freshNames taken count) : name ∉ taken := by
  induction count generalizing taken with
  | zero => cases h
  | succ count ih =>
      rcases List.mem_cons.1 h with rfl | h
      · exact freshName_not_mem taken
      · exact fun hmem => ih h (List.mem_append_left _ hmem)

/-- New names are different ones. -/
theorem nodup_freshNames (taken : List String) (count : Nat) : (freshNames taken count).Nodup := by
  induction count generalizing taken with
  | zero => exact .nil
  | succ count ih =>
      refine List.nodup_cons.2 ⟨fun hmem => ?_, ih _⟩
      exact not_mem_of_mem_freshNames hmem (List.mem_append_right _ (by simp))

theorem length_freshNames (taken : List String) (count : Nat) :
    (freshNames taken count).length = count := by
  induction count generalizing taken with
  | zero => rfl
  | succ count ih => simp [freshNames, ih]

end ClauseForest
