/-
**Asking for help**

Words are read one after another, so the options at the front of a command line do not depend on what
follows them.  An option that asks for help ends the reading.  So help is shown wherever it is asked for
behind options that are understood, with whatever follows and although options may be missing, and nothing
else is done.

Main results:

* `readOptions_append` — options are read one after another;
* `runCommand_help` — **help is shown where it is asked for**.
-/

import ClauseForest.Command.Run
import ClauseForest.Proofs.Outcome

set_option relaxedAutoImplicit false
set_option autoImplicit false

namespace ClauseForest

variable {specs : List OptionSpec} {given : List Given} {stop : Stop}

/-! ### Reading on -/

theorem prepend_nil (result : Except UsageError (List Given × Stop)) : prepend [] result = result := by
  cases result <;> rfl

theorem prepend_prepend (first second : List Given) (result : Except UsageError (List Given × Stop)) :
    prepend first (prepend second result) = prepend (first ++ second) result := by
  cases result with
  | error e => rfl
  | ok read =>
      obtain ⟨others, stop⟩ := read
      show Except.ok (first ++ (second ++ others), stop) = .ok (first ++ second ++ others, stop)
      rw [List.append_assoc]

theorem prepend_eq_ok_iff {first : List Given} {result : Except UsageError (List Given × Stop)} :
    prepend first result = .ok (given, stop) ↔
      ∃ others, result = .ok (others, stop) ∧ first ++ others = given := by
  refine map_eq_ok_iff.trans ⟨?_, ?_⟩
  · rintro ⟨⟨others, stop⟩, hresult, heq⟩
    cases heq
    exact ⟨others, hresult, rfl⟩
  · rintro ⟨others, hresult, rfl⟩
    exact ⟨(others, stop), hresult, rfl⟩

/-- Where the rest is read one after another, the options before it are read first. -/
theorem prepend_readOptions_append {first : List Given} {rest words : List String}
    (ih : ∀ {given}, readOptions specs rest = .ok (given, .words []) →
      readOptions specs (rest ++ words) = prepend given (readOptions specs words))
    (h : prepend first (readOptions specs rest) = .ok (given, .words [])) :
    prepend first (readOptions specs (rest ++ words)) = prepend given (readOptions specs words) := by
  obtain ⟨others, hrest, rfl⟩ := prepend_eq_ok_iff.1 h
  rw [ih hrest, prepend_prepend]

/-- Options are read one after another. -/
theorem readOptions_append {front : List String} (h : readOptions specs front = .ok (given, .words []))
    (words : List String) : readOptions specs (front ++ words) = prepend given (readOptions specs words) := by
  fun_induction readOptions specs front generalizing given with
  | case1 =>
      cases h
      exact (prepend_nil _).symm
  | case4 word rest letters hword ih =>
      -- letters, of which none may ask for a text
      obtain ⟨⟨first, _ | name⟩, hcluster, h⟩ := bind_eq_ok_iff.1 h
      · rw [List.cons_append, readOptions]
        simp only [hword, hcluster]
        exact prepend_readOptions_append ih h
      · cases h
  | case7 word rest name spec hspec repeats huse hword ih =>
      rw [List.cons_append, readOptions]
      simp only [hword, hspec, huse]
      exact prepend_readOptions_append ih h
  | case10 word rest name spec hspec repeats accepts value huse hword ih =>
      -- the value follows an equals sign
      obtain ⟨option, haccept, h⟩ := bind_eq_ok_iff.1 h
      rw [List.cons_append, readOptions]
      simp only [hword, hspec, huse, haccept]
      exact prepend_readOptions_append ih h
  | case12 word name spec hspec repeats accepts huse value rest hvalue hword ih =>
      -- the value is the next word, and stands before what follows
      obtain ⟨option, haccept, h⟩ := bind_eq_ok_iff.1 h
      rw [List.cons_append, List.cons_append, readOptions]
      simp only [hword, hspec, huse, if_pos hvalue, haccept]
      exact prepend_readOptions_append ih h
  | _ => cases h

/-! ### What ends the options -/

namespace Command

theorem readGiven_append {front words : List String}
    (hfront : readGiven specs front = .ok (given, .words []))
    (hwords : readOptions specs words = .ok ([], stop)) :
    readGiven specs (front ++ words) = .ok (given, stop) := by
  obtain ⟨⟨read, _⟩, hread, h⟩ := bind_eq_ok_iff.1 hfront
  obtain ⟨⟨⟩, hrepeats, heq⟩ := bind_eq_ok_iff.1 h
  cases heq
  refine bind_eq_ok_iff.2 ⟨(given, stop), ?_, bind_eq_ok_iff.2 ⟨(), hrepeats, rfl⟩⟩
  rw [readOptions_append hread, hwords]
  show Except.ok (given ++ [], stop) = _
  rw [List.append_nil]

/-- Help for a command is asked for behind its options. -/
theorem readCommand_help {before : List Given} {topic : Topic}
    {read : List Given → Except UsageError Command} {options words : List String} {name : String}
    (hoptions : readGiven specs options = .ok (given, .words []))
    (hwords : readOptions specs words = .ok ([], .shown name)) :
    readCommand before specs topic read (options ++ words) = .ok (.help topic) :=
  bind_eq_ok_iff.2 ⟨_, readGiven_append hoptions hwords, rfl⟩

end Command

/-! ### Help -/

theorem runCommand_of_help {words : List String} {topic : Topic}
    (h : Command.parse words = .ok (.help topic)) (files : FileTree) :
    runCommand files words = ⟨0, topic.text, none, files⟩ := by
  unfold runCommand
  rw [h]
  show (⟨0, "" ++ topic.text, none, files⟩ : Outcome) = _
  rw [String.empty_append]

open Command in
/-- **Help is shown where it is asked for**, on the program or on a command, behind options that are
understood and whatever follows, and nothing else is done. -/
theorem runCommand_help {front : List String}
    (hfront : readGiven programSpecs front = .ok (given, .words [])) (files : FileTree)
    (rest : List String) :
    runCommand files (front ++ "--help" :: rest) = ⟨0, Topic.program.text, none, files⟩ ∧
    (∀ options found, readGiven learnSpecs options = .ok (found, .words []) →
      runCommand files (front ++ "learn" :: (options ++ "--help" :: rest)) =
        ⟨0, Topic.learn.text, none, files⟩) ∧
    ∀ options found, readGiven inferSpecs options = .ok (found, .words []) →
      runCommand files (front ++ "infer" :: (options ++ "--help" :: rest)) =
        ⟨0, Topic.infer.text, none, files⟩ := by
  refine ⟨?_, fun options found hoptions => ?_, fun options found hoptions => ?_⟩
  · have hprogram : readGiven programSpecs (front ++ "--help" :: rest) = .ok (given, .shown "help") :=
      readGiven_append hfront rfl
    exact runCommand_of_help (bind_eq_ok_iff.2 ⟨_, hprogram, rfl⟩) files
  · have hprogram : readGiven programSpecs (front ++ "learn" :: (options ++ "--help" :: rest)) =
        .ok (given, .words ("learn" :: (options ++ "--help" :: rest))) := readGiven_append hfront rfl
    exact runCommand_of_help (bind_eq_ok_iff.2 ⟨_, hprogram, readCommand_help hoptions rfl⟩) files
  · have hprogram : readGiven programSpecs (front ++ "infer" :: (options ++ "--help" :: rest)) =
        .ok (given, .words ("infer" :: (options ++ "--help" :: rest))) := readGiven_append hfront rfl
    exact runCommand_of_help (bind_eq_ok_iff.2 ⟨_, hprogram, readCommand_help hoptions rfl⟩) files

end ClauseForest
