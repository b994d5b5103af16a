/-
**The search for a new name**

New names are looked for round by round.  The names of the first round are the letters `A` to `Z`, and
those of a later round are the same letters with the number of the round behind them.  No round is the
last one, so the search as such has no bound: it would go on forever if all names of all rounds were
taken.  But one after another the rounds give the enumeration of names, which has no repetition, and only
finitely many names are taken.  So the search ends, with the first name of the enumeration that is not
taken.

Main definitions:

* `roundNames` — the names of a round;
* `searchRound`, `searchName` — the search in one round, and in all of them;
* `mintNames` — several searches, each of which takes the name that it found.

Main results:

* `flatMap_roundNames` — the rounds, one after another, are the enumeration;
* `searchName_congr` — only which names are taken counts;
* `searchName_eq` — **the search ends with the new name**;
* `mintNames_eq` — so do several searches in a row;
* `freshNames_nil` — when nothing is taken, the first names of the enumeration are found.
-/

import ClauseForest.Proofs.Logic.Freshness
import ClauseForest.Prover.Repetition

set_option relaxedAutoImplicit false
set_option autoImplicit false

namespace ClauseForest

/-! ### Rounds -/

/-- The letters with which names begin, in order. -/
def nameLetters : List Char := "ABCDEFGHIJKLMNOPQRSTUVWXYZ".toList

/-- The name with a letter in a round: the letter alone in the first round, and the letter with the number
of the round behind it in the others. -/
def nameIn (round : Nat) (letter : Char) : String :=
  if round = 0 then letter.toString else letter.toString ++ toString round

/-- The names of a round, in order. -/
def roundNames (round : Nat) : List String := nameLetters.map (nameIn round)

theorem nameIn_ofNat (round : Nat) {i : Nat} (hi : i < 26) :
    nameIn round (Char.ofNat ('A'.toNat + i)) = variableName (26 * round + i) := by
  have hmod : (26 * round + i) % 26 = i := by omega
  have hdiv : (26 * round + i) / 26 = round := by omega
  unfold nameIn variableName
  rw [hmod, hdiv]
  by_cases hround : round = 0
  · rw [if_pos hround, if_pos (by omega)]
    rfl
  · rw [if_neg hround, if_neg (by omega)]
    show String.singleton _ ++ String.ofList (Nat.toDigits 10 round) = _
    rw [String.singleton_eq_ofList, ← String.ofList_append, List.singleton_append]

/-- A round is a stretch of the enumeration. -/
theorem roundNames_eq (round : Nat) :
    roundNames round = (List.range 26).map fun i => variableName (26 * round + i) := by
  have hletters : nameLetters = (List.range 26).map fun i => Char.ofNat ('A'.toNat + i) := by decide
  unfold roundNames
  rw [hletters, List.map_map]
  exact List.map_congr_left fun i hi => nameIn_ofNat round (List.mem_range.1 hi)

/-- The rounds, one after another, are the enumeration. -/
theorem flatMap_roundNames (rounds : Nat) :
    (List.range rounds).flatMap roundNames = (List.range (26 * rounds)).map variableName := by
  induction rounds with
  | zero => rfl
  | succ rounds ih =>
      rw [List.range_succ, List.flatMap_append, ih, List.flatMap_singleton, roundNames_eq,
        Nat.mul_succ, List.range_add, List.map_append, List.map_map]
      rfl

/-! ### The search -/

/-- Looks through a round: the first of its names that is not taken is found, or the next round has to be
looked through. -/
def searchRound (taken : List String) (round : Nat) : Nat ⊕ String :=
  match (roundNames round).find? (· ∉ taken) with
  | some name => .inr name
  | none => .inl (round + 1)

/-- Looks through one round after another. -/
def searchName (taken : List String) : Option String := Repetition.run? (searchRound taken) 0

/-- It does not matter in which order, or how often, names were taken. -/
theorem searchName_congr {taken taken' : List String} (h : ∀ name, name ∈ taken ↔ name ∈ taken') :
    searchName taken = searchName taken' := by
  have hround : searchRound taken = searchRound taken' := by
    funext round
    simp only [searchRound, h]
  rw [searchName, hround, searchName]

/-- What is found within some rounds is the first of all their names that is not taken. -/
theorem within_searchRound (taken : List String) (count round : Nat) :
    Repetition.within (searchRound taken) count round =
      ((List.range' round count).flatMap roundNames).find? (· ∉ taken) := by
  induction count generalizing round with
  | zero => rfl
  | succ count ih =>
      rw [Repetition.within, searchRound, List.range'_succ, List.flatMap_cons, List.find?_append]
      cases (roundNames round).find? (· ∉ taken) with
      | none => exact ih (round + 1)
      | some name => rfl

/-- The search ends with the new name. -/
theorem searchName_eq (taken : List String) : searchName taken = some (freshName taken) := by
  obtain ⟨n, hname, hfree, hfirst⟩ := exists_freshName_eq taken
  have hround : n < 26 * (n / 26 + 1) := by omega
  refine Repetition.run?_eq_some_iff.2 ⟨n / 26 + 1, ?_⟩
  rw [within_searchRound, ← List.range_eq_range', flatMap_roundNames, List.find?_map, hname,
    Option.map_eq_some_iff]
  refine ⟨n, List.find?_range_eq_some.2 ⟨by simpa using hfree, List.mem_range.2 hround, ?_⟩, rfl⟩
  intro m hm
  simpa using hfirst m hm

example : searchName ["A", "C"] = some "B" :=
  (searchName_eq _).trans (by decide)

/-! ### Several names -/

/-- Looks for one name after another, each taken once it is found. -/
def mintNames (taken : List String) : Nat → Option (List String)
  | 0 => some []
  | count + 1 => do
    let name ← searchName taken
    let names ← mintNames (taken ++ [name]) count
    return name :: names

/-- All of the searches end, with the new names. -/
theorem mintNames_eq (taken : List String) (count : Nat) :
    mintNames taken count = some (freshNames taken count) := by
  induction count generalizing taken with
  | zero => rfl
  | succ count ih => simp [mintNames, freshNames, searchName_eq, ih]

/-- When a beginning of the enumeration is taken, its next name is found. -/
theorem freshName_map_range (n : Nat) :
    freshName ((List.range n).map variableName) = variableName n := by
  have htaken : ∀ k, variableName k ∈ (List.range n).map variableName ↔ k < n := fun k =>
    (List.mem_map_of_injective variableName_injective).trans List.mem_range
  obtain ⟨k, hname, hfree, hfirst⟩ := exists_freshName_eq ((List.range n).map variableName)
  rw [htaken] at hfree
  have hle : k ≤ n := Nat.le_of_not_lt fun hlt => Nat.lt_irrefl n ((htaken n).1 (hfirst n hlt))
  rw [hname, Nat.le_antisymm hle (Nat.not_lt.1 hfree)]

theorem freshNames_map_range (n count : Nat) :
    freshNames ((List.range n).map variableName) count =
      (List.range' n count).map variableName := by
  induction count generalizing n with
  | zero => rfl
  | succ count ih =>
      have hnext : (List.range n).map variableName ++ [variableName n] =
          (List.range (n + 1)).map variableName := by
        rw [List.range_succ, List.map_append, List.map_singleton]
      rw [freshNames, freshName_map_range, hnext, ih, List.range'_succ, List.map_cons]

/-- When nothing is taken, the first names of the enumeration are found. -/
theorem freshNames_nil (count : Nat) :
    freshNames [] count = (List.range count).map variableName := by
  rw [List.range_eq_range']
  exact freshNames_map_range 0 count

end ClauseForest
