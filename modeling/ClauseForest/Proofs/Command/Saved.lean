/-
**What is learned and what is loaded predict the same**

In a run of `learn` a target is learned from the training data, its trees are printed, its model is saved, and
its predictions for the test data are printed.  In a run of `infer` the model is loaded and the predictions are
printed.  A learned tree is read back from its leaf records, and the rest of the model from its document; so the
loaded model has the same trees, and the same parameters but for the loss, on which predictions do not depend.

Other targets may follow before the first run ends, and their models are saved in the same directory, which
may be one of those with the data.  The name of a target begins the name of its file, so the file of another
target is another file, and no file of data.  The same target once more is learned from the same data, and so
with the same trees.  So the saved model and the data stand until the second run.

Main definitions:

* `LearnCommand.Stands` — what is found in the files once the model of a target was saved and evaluated.

Main results:

* `Action.run_bind`, `Action.run_forM_cons` — runs step by step;
* `LearnCommand.run_runTarget` — what is done for a target;
* `LearnCommand.Stands.runTarget`, `LearnCommand.Stands.forM` — **it stands while other targets are learned**;
* `infer_of_learn` — **what is learned and printed survives saving**.
-/

import ClauseForest.Command.Run
import ClauseForest.Proofs.Boosting.StepLimit
import ClauseForest.Proofs.Command.Basic
import ClauseForest.Proofs.Dataset.Load
import ClauseForest.Proofs.Model.Learned

set_option relaxedAutoImplicit false
set_option autoImplicit false

namespace ClauseForest

/-! ### Runs -/

namespace Action

variable {α β : Type}

/-- A step is made after another one, unless that fails. -/
theorem run_bind (x : Action α) (f : α → Action β) (console : Console) :
    (x >>= f).run console =
      match x.run console with
      | (.ok a, console) => (f a).run console
      | (.error failure, console) => (.error failure, console) := by
  show (match x.run console with
    | (result, console) => ExceptT.bindCont f result console) = _
  rcases x.run console with ⟨_ | _, _⟩ <;> rfl

theorem run_ofExcept (result : Except Failure α) (console : Console) :
    (ofExcept result).run console = (result, console) := rfl

theorem run_print (text : String) (console : Console) :
    (print text).run console = (.ok (), { console with output := console.output ++ text }) := rfl

theorem run_get (console : Console) :
    (get : Action Console).run console = (.ok console, console) := rfl

theorem run_pure (a : α) (console : Console) :
    (pure a : Action α).run console = (.ok a, console) := rfl

/-- Steps for a list are made one after another, up to the first that fails. -/
theorem run_forM_cons (f : α → Action Unit) (a : α) (as : List α) (console : Console) :
    ((a :: as).forM f).run console =
      match (f a).run console with
      | (.ok _, console) => (as.forM f).run console
      | (.error failure, console) => (.error failure, console) := by
  rw [List.forM_eq_forM, List.forM_cons, run_bind]
  rcases (f a).run console with ⟨_ | _, _⟩ <;> rfl

/-- Steps for a list that are all made are followed by those for the rest. -/
theorem run_forM_append {f : α → Action Unit} {before after : List α} {console later : Console}
    (h : (before.forM f).run console = (.ok (), later)) :
    ((before ++ after).forM f).run console = (after.forM f).run later := by
  induction before generalizing console with
  | nil =>
      cases h
      rfl
  | cons a before ih =>
      rw [run_forM_cons] at h
      rw [List.cons_append, run_forM_cons]
      rcases hstep : (f a).run console with ⟨_ | _, next⟩
      · rw [hstep] at h
        cases h
      · rw [hstep] at h
        exact ih h

end Action

theorem run_saveModel (m : Model) (path : String) (console : Console) :
    (saveModel m path).run console =
      match m.save console.files path with
      | (files, some e) =>
        (.error (.because ("failed to save model to " ++ path) e.message e.cause), { console with files })
      | (files, none) => (.ok (), { console with files }) := by
  unfold saveModel
  rw [Action.run_bind, Action.run_get]
  dsimp only
  rcases m.save console.files path with ⟨files, _ | e⟩ <;> rfl

/-- Predictions are made again where the data are kept. -/
theorem evaluate_of_keepsData {files files' : FileTree} {dir block : String} {params : ModelParams}
    {trees : List LearnedTree} (h : Dataset.KeepsData files files' dir)
    (hevaluate : evaluate files dir params trees = .ok block) :
    evaluate files' dir params trees = .ok block := by
  obtain ⟨d, hread, hevaluate⟩ := bind_eq_ok_iff.1 hevaluate
  refine bind_eq_ok_iff.2 ⟨d, mapError_eq_ok_iff.2 ?_, hevaluate⟩
  exact Dataset.readTest_of_keepsData h (mapError_eq_ok_iff.1 hread)

namespace LearnCommand

variable {command : LearnCommand} {models test target : String} {console : Console}

/-- The model of a target with learned trees. -/
def model (command : LearnCommand) (target : String) (trees : List LearnedTree) : Model :=
  ⟨⟨target, command.options, command.config⟩, trees⟩

/-- What is done for a target: its trees are learned and printed, its model is saved, and its predictions are
printed, up to the first of these steps that fails. -/
theorem run_runTarget (hmodels : command.models = some models) (htest : command.test = some test)
    (target : String) (console : Console) : (command.runTarget target).run console =
      match command.learnTarget console.files target with
      | .error failure => (.error failure, console)
      | .ok trees =>
        let m := command.model target trees
        let output := console.output ++ renderTrees target trees
        match m.save console.files (modelPath models target) with
        | (files, some e) => (.error (.because ("failed to save model to " ++ modelPath models target)
            e.message e.cause), ⟨files, output⟩)
        | (files, none) =>
          match evaluate files test m.params trees with
          | .error failure => (.error failure, ⟨files, output⟩)
          | .ok block => (.ok (), ⟨files, output ++ block⟩) := by
  unfold runTarget
  rw [hmodels, htest, Action.run_bind, Action.run_get]
  dsimp only
  rw [Action.run_bind, Action.run_ofExcept]
  cases command.learnTarget console.files target with
  | error failure => rfl
  | ok trees =>
      dsimp only
      rw [Action.run_bind, Action.run_print]
      dsimp only
      rw [Action.run_bind, run_saveModel,
        show (⟨⟨target, command.options, command.config⟩, trees⟩ : Model) =
          command.model target trees from rfl]
      dsimp only
      rcases (command.model target trees).save console.files (modelPath models target) with
        ⟨files, _ | e⟩
      · dsimp only
        rw [Action.run_bind, Action.run_get]
        dsimp only
        rw [Action.run_bind, Action.run_ofExcept,
          show (⟨target, command.options, command.config⟩ : ModelParams) =
            (command.model target trees).params from rfl]
        cases evaluate files test (command.model target trees).params trees with
        | error failure => rfl
        | ok block => rfl
      · rfl

/-! ### What a run leaves alone -/

variable {files files' : FileTree} {trees : List LearnedTree} {block : String}

/-- A target is learned again where its data are kept. -/
theorem learnTarget_of_keepsData (h : Dataset.KeepsData files files' command.train)
    (hlearn : command.learnTarget files target = .ok trees) :
    command.learnTarget files' target = .ok trees := by
  obtain ⟨d, hread, hlearn⟩ := bind_eq_ok_iff.1 hlearn
  refine bind_eq_ok_iff.2 ⟨d, mapError_eq_ok_iff.2 ?_, hlearn⟩
  exact Dataset.readTraining_of_keepsData h (mapError_eq_ok_iff.1 hread)

/-- What is learned has a name, and its trees are learned from a declared background. -/
theorem exists_of_learnTarget (h : command.learnTarget files target = .ok trees) :
    isName target = true ∧
      ∃ d : Dataset, d.HasBackground ∧ (d.learn command.config).1 = .ok trees := by
  obtain ⟨d, hread, hlearn⟩ := bind_eq_ok_iff.1 h
  have hread := mapError_eq_ok_iff.1 hread
  exact ⟨Dataset.isName_of_readTraining hread, d, Dataset.hasBackground_of_readTraining hread,
    mapError_eq_ok_iff.1 hlearn⟩

/-- Data are kept when the model of what was learned is saved, whether this succeeds or not. -/
theorem keepsData_save (h : command.learnTarget files target = .ok trees) (models dir : String) :
    Dataset.KeepsData files
      ((command.model target trees).save files (modelPath models target)).1 dir := by
  rw [Model.save_fst]
  exact FileTree.keepsData_write files dir models (exists_of_learnTarget h).1 _

/-- What is found in the files once the model of a target was saved and evaluated. -/
structure Stands (command : LearnCommand) (models test target : String) (trees : List LearnedTree)
    (block : String) (files : FileTree) : Prop where
  learned : command.learnTarget files target = .ok trees
  saved : files.readBytes (modelPath models target) = .ok (command.model target trees).bytes
  evaluated : evaluate files test (command.model target trees).params trees = .ok block

namespace Stands

/-- It is still found when the model of any target is saved, whether this succeeds or not. -/
theorem save (h : command.Stands models test target trees block files) {other : String}
    {otherTrees : List LearnedTree} (hother : command.learnTarget files other = .ok otherTrees) :
    command.Stands models test target trees block
      ((command.model other otherTrees).save files (modelPath models other)).1 := by
  have hkeeps := keepsData_save hother models
  refine ⟨learnTarget_of_keepsData (hkeeps _) h.learned, ?_, evaluate_of_keepsData (hkeeps _) h.evaluated⟩
  rw [Model.save_fst]
  by_cases heq : other = target
  · -- the same target is learned again with the same trees
    subst heq
    obtain rfl : otherTrees = trees := Except.ok.inj (hother.symm.trans h.learned)
    exact FileTree.readBytes_write_same h.saved
  · exact FileTree.readBytes_write_of_ne (isName_modelFile (exists_of_learnTarget h.learned).1)
      (isName_modelFile (exists_of_learnTarget hother).1)
      (fun hfile => heq (modelFile_injective hfile).symm) h.saved

/-- It is still found after any target, and what was printed before stays printed. -/
theorem runTarget (h : command.Stands models test target trees block console.files)
    (hmodels : command.models = some models) (htest : command.test = some test) (other : String) :
    command.Stands models test target trees block ((command.runTarget other).run console).2.files ∧
      ∃ more, ((command.runTarget other).run console).2.output = console.output ++ more := by
  rw [run_runTarget hmodels htest]
  cases hlearn : command.learnTarget console.files other with
  | error failure => exact ⟨h, "", by simp⟩
  | ok otherTrees =>
      have hsave := h.save hlearn
      dsimp only
      rcases heq : (command.model other otherTrees).save console.files (modelPath models other) with
        ⟨files, _ | e⟩
      · rw [heq] at hsave
        dsimp only at hsave ⊢
        cases evaluate files test (command.model other otherTrees).params otherTrees with
        | error failure => exact ⟨hsave, _, rfl⟩
        | ok more =>
            exact ⟨hsave, renderTrees other otherTrees ++ more, String.append_assoc⟩
      · rw [heq] at hsave
        exact ⟨hsave, _, rfl⟩

/-- It is still found after more targets, up to the first that fails. -/
theorem forM (h : command.Stands models test target trees block console.files)
    (hmodels : command.models = some models) (htest : command.test = some test)
    (others : List String) :
    command.Stands models test target trees block
        ((others.forM command.runTarget).run console).2.files ∧
      ∃ more, ((others.forM command.runTarget).run console).2.output = console.output ++ more := by
  induction others generalizing console with
  | nil => exact ⟨h, "", by simp [Action.run_pure]⟩
  | cons other others ih =>
      rw [Action.run_forM_cons]
      have hstep := h.runTarget hmodels htest other
      rcases heq : (command.runTarget other).run console with ⟨_ | _, next⟩
      · rw [heq] at hstep
        exact hstep
      · rw [heq] at hstep
        obtain ⟨hnext, first, hfirst⟩ := hstep
        obtain ⟨hlast, more, hmore⟩ := ih hnext
        refine ⟨hlast, first ++ more, ?_⟩
        dsimp only at hfirst hmore ⊢
        rw [hmore, hfirst, String.append_assoc]

end Stands

end LearnCommand

/-! ### Command lines -/

/-- What comes of a command line that is understood. -/
theorem runCommand_eq {files : FileTree} {words : List String} {command : Command}
    (h : Command.parse words = .ok command) :
    runCommand files words =
      match command.run.run ⟨files, ""⟩ with
      | (.ok _, console) => ⟨0, console.output, none, console.files⟩
      | (.error failure, console) => ⟨1, console.output, some failure.report, console.files⟩ := by
  unfold runCommand
  rw [h]
  dsimp only
  rcases command.run.run ⟨files, ""⟩ with ⟨_ | _, _⟩ <;> rfl

/-- What a command printed and the files that it leaves behind do not depend on how it ends. -/
theorem runCommand_console {files : FileTree} {words : List String} {command : Command}
    (h : Command.parse words = .ok command) :
    (runCommand files words).output = (command.run.run ⟨files, ""⟩).2.output ∧
      (runCommand files words).files = (command.run.run ⟨files, ""⟩).2.files := by
  rw [runCommand_eq h]
  rcases command.run.run ⟨files, ""⟩ with ⟨_ | _, _⟩ <;> exact ⟨rfl, rfl⟩

/-- What comes of a command that evaluates one model that can be loaded. -/
theorem runCommand_infer {files : FileTree} {words : List String} {path test : String} {m : Model}
    (hwords : Command.parse words = .ok (.infer ⟨[path], test⟩)) (hload : Model.load files path = .ok m) :
    runCommand files words =
      match evaluate files test m.params m.trees with
      | .ok block => ⟨0, block, none, files⟩
      | .error failure => ⟨1, "", some failure.report, files⟩ := by
  have hrun : (Command.infer ⟨[path], test⟩).run.run ⟨files, ""⟩ =
      match evaluate files test m.params m.trees with
      | .ok block => (.ok (), ⟨files, block⟩)
      | .error failure => (.error failure, ⟨files, ""⟩) := by
    show ([path].forM (InferCommand.runModel ⟨[path], test⟩)).run ⟨files, ""⟩ = _
    rw [Action.run_forM_cons]
    unfold InferCommand.runModel
    rw [Action.run_bind, Action.run_get]
    dsimp only
    rw [Action.run_bind, Action.run_ofExcept, hload]
    dsimp only [Except.mapError]
    rw [Action.run_bind, Action.run_ofExcept]
    cases evaluate files test m.params m.trees <;> rfl
  rw [runCommand_eq hwords, hrun]
  cases evaluate files test m.params m.trees <;> rfl

/-! ### Learning, then loading -/

/-- **What is learned and printed survives saving.**  In a run of `learn` with a directory for models and one
for test data, let the model of a target be saved, and let its loss have a finite bound.  Then a run of `infer`
on that model and the same test data, on the files that the first run leaves behind, prints exactly what was
printed about the predictions after the target was learned, whatever the first run did after that; and if
the predictions failed there, they fail for the same reason.  The values of the leaves must be read back from
their written form. -/
theorem infer_of_learn {files saved : FileTree} {words words' before after : List String}
    {command : LearnCommand} {models test target : String} {console : Console}
    {trees : List LearnedTree}
    (hwords : Command.parse words = .ok (.learn command))
    (hmodels : command.models = some models) (htest : command.test = some test)
    (htargets : command.targets = before ++ target :: after)
    (hbefore : (before.forM command.runTarget).run ⟨files, ""⟩ = (.ok (), console))
    (hlearn : command.learnTarget console.files target = .ok trees)
    (hsave : (command.model target trees).save console.files (modelPath models target) =
      (saved, none))
    (hbound : ∀ delta, command.config.loss = .huber delta → delta.isFinite = true)
    (hreads : ∀ tree ∈ trees, ∀ leaf ∈ tree.leaves, Decimal.ReadsBack leaf.value)
    (hwords' : Command.parse words' = .ok (.infer ⟨[modelPath models target], test⟩)) :
    (∃ block rest,
      (runCommand files words).output =
        console.output ++ renderTrees target trees ++ block ++ rest ∧
      evaluate saved test (command.model target trees).params trees = .ok block ∧
      runCommand (runCommand files words).files words' =
        ⟨0, block, none, (runCommand files words).files⟩) ∨
    ∃ failure,
      runCommand files words =
        ⟨1, console.output ++ renderTrees target trees, some failure.report, saved⟩ ∧
      evaluate saved test (command.model target trees).params trees = .error failure ∧
      runCommand saved words' = ⟨1, "", some failure.report, saved⟩ := by
  obtain ⟨hname, d, hbackground, htrees⟩ := LearnCommand.exists_of_learnTarget hlearn
  have hcounts := Command.countsFit_of_parse hwords
  have hrecords := Dataset.parse_records_of_learn hbackground htrees hreads
  obtain ⟨loss, hloss⟩ := Loss.exists_reread? hbound
  have hload : ∀ files : FileTree, files.readBytes (modelPath models target) =
      .ok (command.model target trees).bytes → Model.load files (modelPath models target) =
        .ok ⟨(command.model target trees).params.withLoss loss, trees⟩ :=
    fun files hfile => Model.load_of_saved hfile hcounts hloss hrecords
  -- predictions do not depend on the loss
  have hinfer : ∀ files : FileTree, files.readBytes (modelPath models target) =
      .ok (command.model target trees).bytes → runCommand files words' =
        match evaluate files test (command.model target trees).params trees with
        | .ok block => ⟨0, block, none, files⟩
        | .error failure => ⟨1, "", some failure.report, files⟩ := by
    intro files hfile
    rw [runCommand_infer hwords' (hload files hfile)]
    rfl
  have hfile := Model.readBytes_of_save hsave
  have hrun : (Command.learn command).run.run ⟨files, ""⟩ =
      match (command.runTarget target).run console with
      | (.ok _, console) => (after.forM command.runTarget).run console
      | (.error failure, console) => (.error failure, console) := by
    show (command.targets.forM command.runTarget).run ⟨files, ""⟩ = _
    rw [htargets, Action.run_forM_append hbefore, Action.run_forM_cons]
  rw [LearnCommand.run_runTarget hmodels htest, hlearn] at hrun
  dsimp only at hrun
  rw [hsave] at hrun
  dsimp only at hrun
  cases heval : evaluate saved test (command.model target trees).params trees with
  | error failure =>
      rw [heval] at hrun
      refine .inr ⟨failure, ?_, rfl, ?_⟩
      · rw [runCommand_eq hwords, hrun]
      · rw [hinfer saved hfile, heval]
  | ok block =>
      rw [heval] at hrun
      have hkeeps := LearnCommand.keepsData_save hlearn models command.train
      rw [hsave] at hkeeps
      have hstands : command.Stands models test target trees block saved :=
        ⟨LearnCommand.learnTarget_of_keepsData hkeeps hlearn, hfile, heval⟩
      obtain ⟨hlast, rest, hrest⟩ := @LearnCommand.Stands.forM command models test target
        ⟨saved, console.output ++ renderTrees target trees ++ block⟩ trees block hstands hmodels htest
        after
      obtain ⟨houtput, hfiles⟩ := runCommand_console hwords
      rw [hrun] at houtput hfiles
      refine .inl ⟨block, rest, houtput.trans hrest, rfl, ?_⟩
      rw [hfiles, hinfer _ hlast.saved, hlast.evaluated]

/-! ### A small run -/

/-- The files of a regression problem: data to learn from, and others to test on, whose values are not those
that are predicted. -/
def sizeFiles : FileTree := .directory [("data", .directory
  [("facts.txt", .file "tall(ann)\n".toUTF8),
    ("examples.txt", .file "size(ann) 2.0\nsize(bob) 1.0\n".toUTF8),
    ("bk.txt", .file "tall(+person)\nsize(+person)\n".toUTF8)]),
  ("other", .directory
    [("facts.txt", .file "tall(dan)\ntall(eve)\n".toUTF8),
      ("examples.txt", .file "size(cid) 7.5\nsize(dan) 4.0\nsize(eve) -3.0\n".toUTF8)])]

/-- One tree is to be learned for it, and one for a target that is not declared. -/
def sizeLearn : LearnCommand :=
  ⟨["size", "weight"], "data", some "other", ⟨true, false⟩, Dataset.sizeConfig.withLimit (some 20),
    some "models"⟩

/-- The words for this. -/
def sizeWords : List String :=
  ["learn", "--target", "size", "--target", "weight", "--regression", "--trees", "1", "--step-limit",
    "20", "--train", "data", "--test", "other", "--models", "models"]

/-- What is printed about the predictions. -/
def sizeBlock : String := "% predictions for size\nsize(cid) 1\nsize(dan) 2\nsize(eve) 2\n"

theorem readTraining_sizeFiles :
    Dataset.readTraining sizeFiles "data" "size" ⟨true, false⟩ = .ok Dataset.sizeData := by
  have hfacts : Dataset.readLines sizeFiles "data" "facts.txt" = .ok ["tall(ann)"] := by decide +kernel
  have hexamples : Dataset.readLines sizeFiles "data" "examples.txt" =
      .ok ["size(ann) 2.0", "size(bob) 1.0"] := by decide +kernel
  have hbackground : Dataset.readLines sizeFiles "data" "bk.txt" =
      .ok ["tall(+person)", "size(+person)"] := by decide +kernel
  have htest : Dataset.readTest sizeFiles "data" "size" ⟨true, false⟩ =
      .ok (((Dataset.empty ⟨true, false⟩).setFacts ["tall(ann)"]).addExamples "size"
        ["size(ann) 2.0", "size(bob) 1.0"]).1 := by
    refine bind_eq_ok_iff.2 ⟨_, hfacts, bind_eq_ok_iff.2 ⟨[.fact ⟨"tall", ["ann"]⟩], ?_, ?_⟩⟩
    · decide +kernel
    · exact bind_eq_ok_iff.2 ⟨_, hexamples, rfl⟩
  refine bind_eq_ok_iff.2 ⟨_, htest, bind_eq_ok_iff.2 ⟨_, hbackground, bind_eq_ok_iff.2
    ⟨[⟨"tall", [.typed (some .input) "person"]⟩, ⟨"size", [.typed (some .input) "person"]⟩], ?_, ?_⟩⟩⟩
  · decide +kernel
  · exact bind_eq_ok_iff.2 ⟨Dataset.sizeData, rfl, rfl⟩

theorem learnTarget_sizeFiles : sizeLearn.learnTarget sizeFiles "size" = .ok [Dataset.sizeTree] := by
  obtain ⟨d, hlearn⟩ := Dataset.exists_learn_sizeData
  exact bind_eq_ok_iff.2 ⟨Dataset.sizeData, mapError_eq_ok_iff.2 readTraining_sizeFiles,
    mapError_eq_ok_iff.2 (congrArg Prod.fst hlearn)⟩

/-- The theorem at this run, in which a target without a declaration follows: the second run prints the
predictions that the first one printed for its first target. -/
theorem infer_of_learn_sizes :
    Command.parse sizeWords = .ok (.learn sizeLearn) ∧
      sizeLearn.learnTarget sizeFiles "size" = .ok [Dataset.sizeTree] ∧
      (∃ rest, (runCommand sizeFiles sizeWords).output =
        renderTrees "size" [Dataset.sizeTree] ++ sizeBlock ++ rest) ∧
      runCommand (runCommand sizeFiles sizeWords).files
          ["infer", "--model", "models/size.json", "--test=other"] =
        ⟨0, sizeBlock, none, (runCommand sizeFiles sizeWords).files⟩ := by
  obtain ⟨saved, hsave⟩ : ∃ saved, (sizeLearn.model "size" [Dataset.sizeTree]).save sizeFiles
      (modelPath "models" "size") = (saved, none) := ⟨_, rfl⟩
  have hevaluate : evaluate ((sizeLearn.model "size" [Dataset.sizeTree]).save sizeFiles
      (modelPath "models" "size")).1 "other" (sizeLearn.model "size" [Dataset.sizeTree]).params
      [Dataset.sizeTree] = .ok sizeBlock := by decide +kernel
  rw [hsave] at hevaluate
  have hwords : Command.parse sizeWords = .ok (.learn sizeLearn) := rfl
  have hwords' : Command.parse ["infer", "--model", "models/size.json", "--test=other"] =
      .ok (.infer ⟨[modelPath "models" "size"], "other"⟩) := rfl
  rcases @infer_of_learn sizeFiles saved sizeWords _ [] ["weight"] sizeLearn "models" "other" "size"
      ⟨sizeFiles, ""⟩ [Dataset.sizeTree] hwords rfl rfl rfl rfl learnTarget_sizeFiles hsave nofun
      (by decide +kernel) hwords'
    with ⟨block, rest, houtput, hblock, hinfer⟩ | ⟨failure, -, hfailure, -⟩
  · obtain rfl : block = sizeBlock := Except.ok.inj (hblock.symm.trans hevaluate)
    exact ⟨hwords, learnTarget_sizeFiles, ⟨rest, by rw [houtput, String.empty_append]⟩, hinfer⟩
  · rw [hevaluate] at hfailure
    cases hfailure

end ClauseForest
