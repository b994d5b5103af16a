/-
**Reading data sets from files**

A directory holds the data of a learning problem:

| file           | contents                                            |
|----------------|-----------------------------------------------------|
| `facts.txt`    | a fact or a rule on each line                       |
| `pos.txt`      | a positive example on each line (classification)    |
| `neg.txt`      | a negative example on each line (classification)    |
| `examples.txt` | an example and its true value on each line (regression) |
| `bk.txt`       | a declaration on each line (only to learn)          |
| `advice.txt`   | a clause and two lists of targets on each line (only to learn with advice) |

The files are looked at in this order, and the first fault found is the one returned.

Main definitions:

* `Dataset.readTest` — facts and examples;
* `Dataset.readTraining` — facts, examples, declarations and advice.
-/

import ClauseForest.Dataset.Basic
import ClauseForest.Dataset.Lines

set_option relaxedAutoImplicit false
set_option autoImplicit false

namespace ClauseForest.Dataset

/-- The items on the lines of a file of a directory. -/
def readLines (files : FileTree) (dir name : String) : Except DataError (List String) :=
  let path := Path.join dir name
  (cleanLines <$> files.readText path).mapError (.unreadable path)

/-- The fault of an update that may fail. -/
def orFault (result : Dataset × Option DataError) : Except DataError Dataset :=
  match result with
  | (d, none) => .ok d
  | (_, some e) => .error e

/-- Refuses an example that is no term. -/
def checkExample (text : String) : Except DataError Unit :=
  match Term.parse text with
  | .ok _ => .ok ()
  | .error _ => .error (.example_ text)

/-- Reads a declaration line. -/
def readDecl (line : String) : Except DataError ModeDecl :=
  (ModeDecl.parse line).mapError (.declaration line)

/-- Reads the facts and the examples of a target. -/
def readTest (files : FileTree) (dir target : String) (options : DataOptions) :
    Except DataError Dataset := do
  let facts ← readLines files dir "facts.txt"
  let _ ← (facts.mapM Rule.parse).mapError .malformed
  let d := (empty options).setFacts facts
  if options.regression then
    orFault (d.addExamples target (← readLines files dir "examples.txt"))
  else
    let positives ← readLines files dir "pos.txt"
    let negatives ← readLines files dir "neg.txt"
    let _ ← (positives ++ negatives).mapM checkExample
    return (d.addPositives target positives).addNegatives target negatives

/-- Reads everything that is needed to learn a target. -/
def readTraining (files : FileTree) (dir target : String) (options : DataOptions) :
    Except DataError Dataset := do
  let d ← readTest files dir target options
  let background ← (← readLines files dir "bk.txt").mapM readDecl
  let d ← orFault (d.setBackground target background)
  if options.advice then
    let advice ← (← readLines files dir "advice.txt").mapM Advice.parse
    return advice.foldl addAdvice d
  else
    return d

/-- The files that may be read from a directory. -/
def fileNames : List String :=
  ["facts.txt", "pos.txt", "neg.txt", "examples.txt", "bk.txt", "advice.txt"]

end ClauseForest.Dataset
