/-
**Commands**

There are two commands: `learn` learns a model for each of several targets, saves it if a directory for
models is given, and evaluates it if test data are given; `infer` evaluates saved models.  How much is
logged can be set before and after the name of the command.  Help on the program and on each command can
be asked for by an option or by the command `help`, and the version of the program by an option.

Main definitions:

* `LearnCommand`, `InferCommand`, `Topic`, `Command` — what is to be done;
* `Command.parse` — the command on a command line;
* `Topic.text`, `Command.versionText` — the texts that are shown.
-/

import ClauseForest.Boosting.Training
import ClauseForest.Command.Options

set_option relaxedAutoImplicit false
set_option autoImplicit false

namespace ClauseForest

/-- Learn a model for each target. -/
structure LearnCommand where
  /-- The target predicates, in order. -/
  targets : List String
  /-- The directory of the training data. -/
  train : String
  /-- The directory of the test data. -/
  test : Option String
  options : DataOptions
  config : BoostConfig
  /-- The directory for the learned models. -/
  models : Option String

/-- Evaluate saved models. -/
structure InferCommand where
  /-- The files of the models, in order. -/
  models : List String
  /-- The directory of the test data. -/
  test : String

/-- What help can be asked for. -/
inductive Topic where
  | program
  | learn
  | infer
  | help
deriving DecidableEq, Repr

/-- What is to be done. -/
inductive Command where
  | learn (command : LearnCommand)
  | infer (command : InferCommand)
  | help (topic : Topic)
  | version

namespace Command

/-! ### Values -/

/-- A count of at most 64 bits, perhaps with a plus sign. -/
def readCount? (text : String) : Option Nat :=
  let digits := match text.toList with
    | '+' :: rest => rest
    | digits => digits
  let count := Decimal.natOfDigits digits
  if digits.isEmpty || !digits.all Char.isDigit || Nat.pow 2 64 ≤ count then none else some count

/-- A path, which is not empty. -/
def readPath? (text : String) : Option String := if text.isEmpty then none else some text

/-- A number. -/
def readNumber? (text : String) : Option Float := Decimal.read? text.toList

/-- The name of a loss; the threshold is only used by one of them. -/
def readLoss? (delta : Float) : String → Option Loss
  | "ls" => some .leastSquares
  | "lad" => some .leastAbsoluteDeviation
  | "huber" => some (.huber delta)
  | _ => none

/-- A value read for an option. -/
def readAs {α : Type} (read : String → Option α) (name text : String) : Except UsageError α :=
  match read text with
  | some value => .ok value
  | none => .error (.invalidValue name text)

/-- The value given for an option, if it is given. -/
def given? {α : Type} (read : String → Option α) (given : List Given) (name : String) :
    Except UsageError (Option α) :=
  (Given.value? given name).mapM (readAs read name)

/-- The values given for an option, of which there must be one. -/
def givenSome {α : Type} (read : String → Option α) (given : List Given) (name : String) :
    Except UsageError (List α) :=
  match Given.values given name with
  | [] => .error (.missingOption name)
  | values => values.mapM (readAs read name)

/-! ### The options -/

/-- How an option with one value is used. -/
def single {α : Type} (read : String → Option α) : OptionUse :=
  .valued false fun text => (read text).isSome

/-- How an option with any number of values is used. -/
def several {α : Type} (read : String → Option α) : OptionUse :=
  .valued true fun text => (read text).isSome

/-- How an option without a value is used. -/
def flag : OptionUse := .bare false

/-- The options that stand before the name of a command or after it. -/
def commonSpecs : List OptionSpec :=
  [⟨"verbose", some 'v', .bare true⟩, ⟨"quiet", some 'q', flag⟩, ⟨"help", some 'h', .shows⟩]

/-- The options before the name of a command. -/
def programSpecs : List OptionSpec := commonSpecs ++ [⟨"version", some 'V', .shows⟩]

/-- The options of `learn`. -/
def learnSpecs : List OptionSpec :=
  commonSpecs ++ [⟨"target", none, several some⟩, ⟨"train", none, single readPath?⟩,
    ⟨"test", none, single readPath?⟩, ⟨"trees", none, single readCount?⟩,
    ⟨"max-depth", none, single readCount?⟩, ⟨"regression", none, flag⟩, ⟨"advice", none, flag⟩,
    ⟨"loss", none, single (readLoss? 1.0)⟩, ⟨"delta", none, single readNumber?⟩,
    ⟨"parallel", none, flag⟩, ⟨"step-limit", none, single readCount?⟩,
    ⟨"models", none, single readPath?⟩]

/-- The options of `infer`. -/
def inferSpecs : List OptionSpec :=
  commonSpecs ++ [⟨"model", none, several readPath?⟩, ⟨"test", none, single readPath?⟩]

/-- Refuses to log both more and less. -/
def checkLogging (given : List Given) : Except UsageError Unit :=
  if Given.flag given "quiet" && Given.flag given "verbose" then .error (.conflict "quiet" "verbose")
  else .ok ()

/-! ### Command lines -/

/-- The command `learn` with the given options. -/
def learnOf (given : List Given) : Except UsageError LearnCommand := do
  let delta := (← given? readNumber? given "delta").getD 1.0
  let tree : TreeConfig := ⟨(← given? readCount? given "max-depth").getD 2,
    Given.flag given "parallel", ← given? readCount? given "step-limit"⟩
  let loss := (← given? (readLoss? delta) given "loss").getD .leastSquares
  return ⟨← givenSome some given "target", (← given? readPath? given "train").getD "train",
    ← given? readPath? given "test", ⟨Given.flag given "regression", Given.flag given "advice"⟩,
    ⟨(← given? readCount? given "trees").getD 10, loss, tree⟩, ← given? readPath? given "models"⟩

/-- The command `infer` with the given options. -/
def inferOf (given : List Given) : Except UsageError InferCommand := do
  return ⟨← givenSome readPath? given "model", (← given? readPath? given "test").getD "test"⟩

/-- The options at the front of a command line, none of them too often, and what ends them. -/
def readGiven (specs : List OptionSpec) (words : List String) :
    Except UsageError (List Given × Stop) := do
  let (given, stop) ← readOptions specs words
  specs.forM (checkRepeats given)
  return (given, stop)

/-- A command with its options, after which nothing may follow, or the help for it.  The options given
before its name are checked apart from its own: they may contradict each other. -/
def readCommand (before : List Given) (specs : List OptionSpec) (topic : Topic)
    (read : List Given → Except UsageError Command) (words : List String) :
    Except UsageError Command := do
  let (given, stop) ← readGiven specs words
  match stop with
  | .shown _ => return .help topic
  | .words [] | .words ["--"] =>
    checkLogging given
    checkLogging before
    read given
  | .words ("--" :: word :: _) | .words (word :: _) => throw (.unexpectedWord word)

/-- What the words after `help` ask for. -/
def readTopic : List String → Except UsageError Topic
  | [] => .ok .program
  | ["learn"] => .ok .learn
  | ["infer"] => .ok .infer
  | ["help"] => .ok .help
  | "learn" :: word :: _ | "infer" :: word :: _ | "help" :: word :: _ | word :: _ =>
    .error (.unexpectedWord word)

/-- The command on a command line. -/
def parse (words : List String) : Except UsageError Command := do
  let (given, stop) ← readGiven programSpecs words
  match stop with
  | .shown "version" => return .version
  | .shown _ => return .help .program
  | .words [] => throw .missingCommand
  | .words ("learn" :: words) =>
    readCommand given learnSpecs .learn (fun options => .learn <$> learnOf options) words
  | .words ("infer" :: words) =>
    readCommand given inferSpecs .infer (fun options => .infer <$> inferOf options) words
  | .words ("help" :: words) => return .help (← readTopic words)
  | .words (word :: _) => throw (.unexpectedWord word)

/-! ### Texts -/

/-- The line about an option in a text of help. -/
def usageLine (spec : OptionSpec) : String :=
  (match spec.letter with
    | some letter => "  -" ++ String.singleton letter ++ ", --"
    | none => "      --") ++ spec.name ++
  (match spec.use with
    | .valued _ _ => " <VALUE>"
    | .bare _ | .shows => "") ++ (if spec.use.mayRepeat then "..." else "") ++ "\n"

/-- A text of help: how the words follow each other, and the options among them. -/
def usage (synopsis : String) (specs : List OptionSpec) : String :=
  "Usage: " ++ synopsis ++ "\n\nOptions:\n" ++ String.join (specs.map usageLine)

end Command

/-- The text of the help for a topic. -/
def Topic.text : Topic → String
  | .program => Command.usage "relboost [OPTIONS] <learn | infer | help>" Command.programSpecs
  | .learn => Command.usage "relboost learn [OPTIONS]" Command.learnSpecs
  | .infer => Command.usage "relboost infer [OPTIONS]" Command.inferSpecs
  | .help => "Usage: relboost help [COMMAND]\n"

/-- The text that says which version this is. -/
def Command.versionText : String := "relboost 0.1.0\n"

end ClauseForest
