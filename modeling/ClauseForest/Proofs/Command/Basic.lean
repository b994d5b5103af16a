/-
**Values on a command line**

A count on a command line is a number of 64 bits, like every count of a saved model.  So the counts among the
parameters of a boosting run fit into a model, whether they are given or not.

Main results:

* `Command.countsFit_of_parse` — **the counts of a run fit into a model**.
-/

import ClauseForest.Command.Basic
import ClauseForest.Proofs.Model.Saving

set_option relaxedAutoImplicit false
set_option autoImplicit false

namespace ClauseForest.Command

variable {α : Type} {given : List Given} {name : String}

/-- A value that is given is read from some word. -/
theorem exists_of_given? {read : String → Option α} {value : Option α}
    (h : given? read given name = .ok value) :
    ∀ found, value = some found → ∃ text, read text = some found := by
  rintro found rfl
  unfold given? at h
  cases hvalue : Given.value? given name with
  | none =>
      rw [hvalue] at h
      cases h
  | some text =>
      rw [hvalue] at h
      refine ⟨text, ?_⟩
      obtain ⟨found', hread, heq⟩ := map_eq_ok_iff.1 h
      cases heq
      unfold readAs at hread
      split at hread
      · rename_i value hvalue
        cases hread
        exact hvalue
      · cases hread

theorem le_of_readCount? {text : String} {n : Nat} (h : readCount? text = some n) :
    n ≤ Json.maxCount := by
  unfold readCount? at h
  extract_lets digits count at h
  split at h
  · cases h
  · rename_i hfits
    rw [← Option.some.inj h]
    simp only [Bool.or_eq_true, decide_eq_true_eq, not_or, Nat.not_le] at hfits
    exact Nat.le_sub_one_of_lt hfits.2

/-- A count is given or has a default, and fits either way. -/
theorem getD_le_of_given? {value : Option Nat} {default : Nat}
    (h : given? readCount? given name = .ok value) (hdefault : default ≤ Json.maxCount) :
    value.getD default ≤ Json.maxCount := by
  cases value with
  | none => exact hdefault
  | some n =>
      obtain ⟨text, htext⟩ := exists_of_given? h n rfl
      exact le_of_readCount? htext

/-- The counts of a run fit, whether they are given or not. -/
theorem countsFit_of_learnOf {command : LearnCommand} (h : learnOf given = .ok command) :
    command.config.CountsFit := by
  unfold learnOf at h
  obtain ⟨delta, -, h⟩ := bind_eq_ok_iff.1 h
  obtain ⟨depth, hdepth, h⟩ := bind_eq_ok_iff.1 h
  obtain ⟨limit, hlimit, h⟩ := bind_eq_ok_iff.1 h
  obtain ⟨loss, -, h⟩ := bind_eq_ok_iff.1 h
  obtain ⟨targets, -, h⟩ := bind_eq_ok_iff.1 h
  obtain ⟨train, -, h⟩ := bind_eq_ok_iff.1 h
  obtain ⟨test, -, h⟩ := bind_eq_ok_iff.1 h
  obtain ⟨trees, htrees, h⟩ := bind_eq_ok_iff.1 h
  obtain ⟨models, -, h⟩ := bind_eq_ok_iff.1 h
  cases h
  refine ⟨getD_le_of_given? htrees (by decide), getD_le_of_given? hdepth (by decide), ?_⟩
  intro n hn
  obtain ⟨text, htext⟩ := exists_of_given? hlimit n hn
  exact le_of_readCount? htext

/-- A command with its options is help, or it is read from them. -/
theorem exists_of_readCommand {before : List Given} {specs : List OptionSpec} {topic : Topic}
    {read : List Given → Except UsageError Command} {words : List String} {command : Command}
    (h : readCommand before specs topic read words = .ok command) :
    command = .help topic ∨ ∃ given, read given = .ok command := by
  unfold readCommand at h
  obtain ⟨⟨given, stop⟩, -, h⟩ := bind_eq_ok_iff.1 h
  dsimp only at h
  have hread (h : (do checkLogging given; checkLogging before; read given) = .ok command) :
      ∃ given, read given = .ok command := by
    obtain ⟨-, -, h⟩ := bind_eq_ok_iff.1 h
    obtain ⟨-, -, h⟩ := bind_eq_ok_iff.1 h
    exact ⟨given, h⟩
  split at h
  · exact .inl (Except.ok.inj h).symm
  · exact .inr (hread h)
  · exact .inr (hread h)
  · cases h
  · cases h

/-- The counts of a run fit into a model. -/
theorem countsFit_of_parse {words : List String} {command : LearnCommand}
    (h : parse words = .ok (.learn command)) : command.config.CountsFit := by
  unfold parse at h
  obtain ⟨⟨given, stop⟩, -, h⟩ := bind_eq_ok_iff.1 h
  dsimp only at h
  split at h
  · cases h
  · cases h
  · cases h
  · rcases exists_of_readCommand h with heq | ⟨options, hread⟩
    · cases heq
    · obtain ⟨command', hcommand, heq⟩ := map_eq_ok_iff.1 hread
      cases heq
      exact countsFit_of_learnOf hcommand
  · rcases exists_of_readCommand h with heq | ⟨options, hread⟩
    · cases heq
    · obtain ⟨command', -, heq⟩ := map_eq_ok_iff.1 hread
      cases heq
  · obtain ⟨topic, -, h⟩ := bind_eq_ok_iff.1 h
    cases h
  · cases h

end ClauseForest.Command
