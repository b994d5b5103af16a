/-
**Running commands**

A command works on a tree of files and prints text.  What it prints before it fails stays printed, and
what it saves before it fails stays saved.

Main definitions:

* `Console`, `Action` — what a running command changes, and a step of it that may fail;
* `evaluate` — the text about the predictions of a model for test data;
* `LearnCommand.run`, `InferCommand.run` — the commands;
* `Command.inputs`, `Command.outputs` — the files that a command may read and write;
* `Outcome`, `runCommand` — what a command line leads to.
-/

import ClauseForest.Command.Basic
import ClauseForest.Command.Report
import ClauseForest.Dataset.Load
import ClauseForest.Decimal.Places
import ClauseForest.Model.Reader

set_option relaxedAutoImplicit false
set_option autoImplicit false

namespace ClauseForest

/-! ### Actions -/

/-- What a running command changes. -/
structure Console where
  files : FileTree
  /-- The text printed so far. -/
  output : String

/-- A step of a running command, which may fail. -/
abbrev Action (α : Type) := ExceptT Failure (StateM Console) α

namespace Action

/-- Prints a text. -/
def print (text : String) : Action Unit :=
  modify fun console => { console with output := console.output ++ text }

/-- Goes on with a result, or fails. -/
def ofExcept {α : Type} (result : Except Failure α) : Action α := ExceptT.mk (pure result)

end Action

/-- The failure of a step, with the message of an error and what lies behind it as its causes. -/
def Failure.because (message cause : String) (deeper : Option String) : Failure :=
  ⟨message, cause :: deeper.toList⟩

/-! ### Evaluation -/

/-- The lines about the predictions of probabilities, and the line about their accuracy. -/
def renderProbabilities (d : Dataset) (predictions : List (String × Float)) : String :=
  let correct := predictions.filter fun (text, p) => (p > 0.5 : Bool) == d.isPositive text
  String.join (predictions.map fun (text, p) =>
      text ++ (if d.isPositive text then " pos " else " neg ") ++ Decimal.renderPlaces 4 p ++ "\n") ++
    "% accuracy " ++ toString correct.length ++ "/" ++ toString predictions.length ++
    " at threshold 0.5\n"

/-- The lines about the predictions of values. -/
def renderValues (predictions : List (String × Float)) : String :=
  String.join (predictions.map fun (text, x) =>
    text ++ " " ++ Decimal.Layout.plain.render x ++ "\n")

/-- The text about the predictions of trees for the test data of a directory. -/
def evaluate (files : FileTree) (dir : String) (params : ModelParams) (trees : List LearnedTree) :
    Except Failure String := do
  let d ← (Dataset.readTest files dir params.target params.options).mapError fun e =>
    .because ("failed to load test data for " ++ params.target) e.message e.cause
  let (predictions, d) ← (d.infer trees params.config.tree.stepLimit).mapError fun e =>
    .because ("inference failed for " ++ params.target) e.message none
  if predictions.isEmpty then
    throw ⟨"no test examples for " ++ params.target ++ " in " ++ dir, []⟩
  return "% predictions for " ++ params.target ++ "\n" ++
    if params.options.regression then renderValues predictions
    else renderProbabilities d predictions

/-! ### The commands -/

/-- The text about learned trees. -/
def renderTrees (target : String) (trees : List LearnedTree) : String :=
  String.join (trees.zipIdx.map fun (tree, i) =>
    "% tree " ++ toString (i + 1) ++ " for " ++ target ++ "\n" ++ tree.render)

/-- The file of the model of a target in a directory. -/
def modelPath (dir target : String) : String := Path.join dir (target ++ ".json")

/-- Saves a model. -/
def saveModel (m : Model) (path : String) : Action Unit := do
  let (files, fault) := m.save (← get).files path
  modify fun console => { console with files }
  if let some e := fault then
    throw (.because ("failed to save model to " ++ path) e.message e.cause)

namespace LearnCommand

/-- The trees learned for a target. -/
def learnTarget (command : LearnCommand) (files : FileTree) (target : String) :
    Except Failure (List LearnedTree) := do
  let d ← (Dataset.readTraining files command.train target command.options).mapError fun e =>
    .because ("failed to load training data for " ++ target) e.message e.cause
  (d.learn command.config).1.mapError fun e =>
    .because ("failed to learn trees for " ++ target) e.message none

/-- Learns, prints, saves and evaluates the model of a target. -/
def runTarget (command : LearnCommand) (target : String) : Action Unit := do
  -- The trees are shown before anything is saved, so a failure to save does not hide them.
  let trees ← Action.ofExcept (command.learnTarget (← get).files target)
  Action.print (renderTrees target trees)
  let params : ModelParams := ⟨target, command.options, command.config⟩
  if let some dir := command.models then saveModel ⟨params, trees⟩ (modelPath dir target)
  if let some dir := command.test then
    Action.print (← Action.ofExcept (evaluate (← get).files dir params trees))

/-- Learns a model for each target, in order. -/
def run (command : LearnCommand) : Action Unit := command.targets.forM command.runTarget

end LearnCommand

namespace InferCommand

/-- Evaluates a saved model. -/
def runModel (command : InferCommand) (path : String) : Action Unit := do
  let files := (← get).files
  let m ← Action.ofExcept <| (Model.load files path).mapError fun e =>
    .because ("failed to load model from " ++ path) e.message e.cause
  Action.print (← Action.ofExcept (evaluate files command.test m.params m.trees))

/-- Evaluates each saved model, in order. -/
def run (command : InferCommand) : Action Unit := command.models.forM command.runModel

end InferCommand

/-- Runs a command. -/
def Command.run : Command → Action Unit
  | .learn command => command.run
  | .infer command => command.run
  | .help topic => Action.print topic.text
  | .version => Action.print Command.versionText

/-- The files that a command may read. -/
def Command.inputs : Command → List String
  | .learn command =>
    (command.train :: command.test.toList).flatMap fun dir =>
      Dataset.fileNames.map (Path.join dir)
  | .infer command => command.models ++ Dataset.fileNames.map (Path.join command.test)
  | .help _ | .version => []

/-- The files that a command may write. -/
def Command.outputs : Command → List String
  | .learn command => command.models.toList.flatMap fun dir => command.targets.map (modelPath dir)
  | .infer _ | .help _ | .version => []

/-! ### Command lines -/

/-- What a command line leads to. -/
structure Outcome where
  /-- Zero for success, one for a failure, two for a command line that cannot be understood. -/
  exit : Nat
  output : String
  /-- What is said about a failure. -/
  report : Option String
  files : FileTree

/-- Runs the command on a command line. -/
def runCommand (files : FileTree) (words : List String) : Outcome :=
  match Command.parse words with
  | .error e => ⟨2, "", some ("error: " ++ e.message ++ "\n"), files⟩
  | .ok command =>
    match command.run.run ⟨files, ""⟩ with
    | (.ok (), console) => ⟨0, console.output, none, console.files⟩
    | (.error failure, console) => ⟨1, console.output, some failure.report, console.files⟩

end ClauseForest
