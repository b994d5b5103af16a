/-
**Data sets**

A data set describes one learning problem: facts to prove against, the term that is to be learned, the
declarations of the literals that may be tested, and examples.  A classification problem has positive
and negative examples, a regression problem examples with true values.  Every example also has a
*current* value, which is what a single tree is fitted to.

An example may be both positive and negative; it is then listed twice, and its value is that of the
positive one.

Main definitions:

* `DataError` — why data could not be taken in;
* `Advice` — a clause and what an expert says about the examples that satisfy it;
* `Dataset` — one learning problem;
* `Dataset.addPositives`, `Dataset.addNegatives`, `Dataset.addExamples` — taking in examples;
* `Dataset.setBackground` — taking in declarations, from which the target term is built;
* `Dataset.examples`, `Dataset.value`, `Dataset.setValue` — the examples and their current values;
* `Dataset.mean`, `Dataset.variance` — statistics of the current values.
-/

import ClauseForest.Dataset.ValueTable
import ClauseForest.Decimal.Reader
import ClauseForest.Files.FileTree
import ClauseForest.Logic.Rule
import ClauseForest.Mode.Reader
import ClauseForest.Refinement.VariableTypes
import ClauseForest.Text.Blank

set_option relaxedAutoImplicit false
set_option autoImplicit false

namespace ClauseForest

/-! ### Faults -/

/-- Why data could not be taken in. -/
inductive DataError where
  /-- A file could not be read. -/
  | unreadable (path : String) (cause : FileError)
  /-- A term or a rule is malformed. -/
  | malformed (error : SyntaxError)
  /-- A line holds no declaration. -/
  | declaration (line : String) (cause : ReadError)
  /-- No declaration names the target. -/
  | undeclaredTarget (target : String)
  /-- A line holds no example. -/
  | example_ (line : String)
  /-- A line holds no advice. -/
  | advice (line : String)
deriving DecidableEq, Repr

/-- The message for data that could not be taken in. -/
def DataError.message : DataError → String
  | .unreadable path _ => "failed to read " ++ path
  | .malformed error => error.message
  | .declaration line _ => "invalid mode declaration " ++ Text.quote line
  | .undeclaredTarget target => "no declaration found for target " ++ Text.quote target
  | .example_ line => "invalid example " ++ Text.quote line
  | .advice line => "invalid advice " ++ Text.quote line

/-- What lies behind a fault, where there is more to say. -/
def DataError.cause : DataError → Option String
  | .unreadable _ cause => some cause.message
  | .declaration _ cause => some cause.message
  | _ => none

/-! ### Advice -/

/-- An expert's hint about the examples that satisfy a clause. -/
structure Advice where
  /-- The clause, as a text. -/
  clause : String
  /-- The targets that such examples should be labelled with. -/
  preferred : List String
  /-- The targets that such examples should not be labelled with. -/
  nonPreferred : List String
deriving DecidableEq, Repr

namespace Advice

/-- The items of a list `[a,b,…]`.  Empty items are skipped. -/
def readList? (text : List Char) : Option (List String) :=
  match text with
  | '[' :: rest =>
    if rest.getLast? = some ']' then
      some (((Text.pieces ',' rest.dropLast).filter fun item => !item.isEmpty).map String.ofList)
    else none
  | _ => none

/-- Reads `clause [preferred,…] [nonPreferred,…]`.  The clause is looked at first. -/
def parse (line : String) : Except DataError Advice :=
  match Text.words line.toList with
  | [clause, preferred, nonPreferred] => do
    let clause := String.ofList clause
    let _ ← (Rule.parse clause).mapError .malformed
    match readList? preferred, readList? nonPreferred with
    | some preferred, some nonPreferred => return ⟨clause, preferred, nonPreferred⟩
    | _, _ => .error (.advice line)
  | _ => .error (.advice line)

end Advice

/-! ### Data sets -/

/-- What kind of learning problem a data set describes. -/
structure DataOptions where
  /-- Examples have true values instead of labels. -/
  regression : Bool
  /-- Advice adds to the gradients. -/
  advice : Bool
deriving DecidableEq, Repr

/-- A classification problem without advice. -/
def DataOptions.default : DataOptions := ⟨false, false⟩

/-- One learning problem. -/
structure Dataset where
  options : DataOptions
  /-- The facts, as texts. -/
  facts : List String
  /-- Positive examples and their current values. -/
  positives : ValueTable
  /-- Negative examples and their current values. -/
  negatives : ValueTable
  /-- Regression examples and their current values. -/
  estimates : ValueTable
  /-- Regression examples and their true values. -/
  trueValues : ValueTable
  /-- The advice, in order. -/
  advice : List Advice
  /-- The term to be learned, with a variable for each argument, as a text. -/
  target : String
  /-- The declarations of the literals that may be tested. -/
  literals : List ModeDecl
  /-- The types of the variables of the target. -/
  variableTypes : VariableTypes

namespace Dataset

/-- The data set without anything in it. -/
def empty (options : DataOptions) : Dataset :=
  ⟨options, [], .empty, .empty, .empty, .empty, [], "", [], .empty⟩

/-- The current value of a positive example at first: one minus the prior probability. -/
def initialPositive : Float := 0.5

/-- The current value of a negative example at first: zero minus the prior probability. -/
def initialNegative : Float := -0.5

/-- The predicate of an example text: what stands before its first opening parenthesis. -/
def predicateOf (text : List Char) : String := String.ofList (text.takeWhile (· ≠ '('))

/-! ### Taking in data -/

/-- Replaces the facts. -/
def setFacts (d : Dataset) (facts : List String) : Dataset := { d with facts }

/-- A table after the examples of a predicate were given a value.  Those of another predicate are
passed over. -/
def label (table : ValueTable) (predicate : String) (value : Float) (texts : List String) :
    ValueTable :=
  (texts.filter fun text => predicateOf text.toList = predicate).foldl
    (fun table text => table.put text value) table

/-- Adds positive examples.  Those of another predicate are passed over. -/
def addPositives (d : Dataset) (target : String) (texts : List String) : Dataset :=
  { d with positives := label d.positives target initialPositive texts }

/-- Adds negative examples.  Those of another predicate are passed over. -/
def addNegatives (d : Dataset) (target : String) (texts : List String) : Dataset :=
  { d with negatives := label d.negatives target initialNegative texts }

/-- The parts of a text before and after its first blank. -/
def splitBlank? (text : List Char) : Option (List Char × List Char) :=
  match text.dropWhile fun c => !Text.isBlank c with
  | [] => none
  | _ :: rest => some (text.takeWhile fun c => !Text.isBlank c, rest)

/-- The example and the value on a line `example value`. -/
def readExample? (line : String) : Option (List Char × Float) := do
  let (text, value) ← splitBlank? line.toList
  return (text, ← Decimal.read? (Text.trim value))

/-- Adds a regression example, whose current value is its true value at first.  One of another
predicate is passed over. -/
def addExample (d : Dataset) (target line : String) : Except DataError Dataset :=
  match readExample? line with
  | none => .error (.example_ line)
  | some (text, value) =>
    if predicateOf text = target then
      let key := String.ofList text
      .ok { d with trueValues := d.trueValues.put key value, estimates := d.estimates.put key value }
    else .ok d

/-- Adds regression examples up to the first line that holds none, which is returned as the fault. -/
def addExamples (d : Dataset) (target : String) : List String → Dataset × Option DataError
  | [] => (d, none)
  | line :: lines =>
    match d.addExample target line with
    | .ok d => d.addExamples target lines
    | .error e => (d, some e)

/-- The target term of a declaration, with a new variable for each argument. -/
def targetTerm (decl : ModeDecl) : Term := ⟨decl.name, freshNames [] decl.arity⟩

/-- The types of the variables of a target term. -/
def targetTypes (decl : ModeDecl) : VariableTypes :=
  ((targetTerm decl).args.zip decl.args).foldl (fun types (var, spec) =>
    match spec.type? with
    | some type => types.insert var type
    | none => types) .empty

/-- Takes in declarations.  The target is built from the first declaration that names it; the literals
that may be tested are the others that are literals, since a test on the target would make a clause
recursive.  The literals are taken in even if the target is not declared. -/
def setBackground (d : Dataset) (target : String) (background : List ModeDecl) :
    Dataset × Option DataError :=
  let d := { d with literals := background.filter fun decl => decl.isLiteral ∧ decl.name ≠ target }
  match background.find? (·.name = target) with
  | none => (d, some (.undeclaredTarget target))
  | some decl =>
    ({ d with target := (targetTerm decl).render, variableTypes := targetTypes decl }, none)

/-- Adds a piece of advice. -/
def addAdvice (d : Dataset) (advice : Advice) : Dataset := { d with advice := d.advice ++ [advice] }

/-! ### Examples and values -/

/-- Whether examples have true values instead of labels. -/
def isRegression (d : Dataset) : Bool := d.options.regression

/-- Whether advice adds to the gradients. -/
def usesAdvice (d : Dataset) : Bool := d.options.advice && !d.options.regression

/-- The examples, in order. -/
def examples (d : Dataset) : List String :=
  if d.isRegression then d.estimates.keys else d.positives.keys ++ d.negatives.keys

/-- Whether an example is positive. -/
def isPositive (d : Dataset) (text : String) : Bool := d.positives.contains text

/-- The true value of a regression example. -/
def trueValue (d : Dataset) (text : String) : Option Float := d.trueValues.get? text

/-- The current value of an example, if it is one. -/
def value? (d : Dataset) (text : String) : Option Float :=
  if d.isRegression then d.estimates.get? text
  else d.positives.get? text <|> d.negatives.get? text

/-- The current value of an example; zero for a text that is none. -/
def value (d : Dataset) (text : String) : Float := (d.value? text).getD 0.0

/-- Overwrites the current value of an example.  A text that is none is passed over. -/
def setValue (d : Dataset) (text : String) (value : Float) : Dataset :=
  if d.isRegression then
    if d.estimates.contains text then { d with estimates := d.estimates.put text value } else d
  else if d.positives.contains text then { d with positives := d.positives.put text value }
  else if d.negatives.contains text then { d with negatives := d.negatives.put text value }
  else d

/-- Overwrites the current values of several examples, in order. -/
def setValues (d : Dataset) (values : List (String × Float)) : Dataset :=
  values.foldl (fun d (text, value) => d.setValue text value) d

/-! ### Statistics -/

/-- The sum of numbers from the first to the last.  It starts from negative zero, the neutral element of
floating point addition. -/
def total (values : List Float) : Float := values.foldl (· + ·) (-0.0)

/-- The mean of the current values of examples; zero for no examples. -/
def mean (d : Dataset) (texts : List String) : Float :=
  if texts.isEmpty then 0.0 else total (texts.map d.value) / Float.ofNat texts.length

/-- The population variance of the current values of examples; zero for no examples. -/
def variance (d : Dataset) (texts : List String) : Float :=
  if texts.isEmpty then 0.0
  else
    let mean := d.mean texts
    total (texts.map fun text => (d.value text - mean) * (d.value text - mean)) /
      Float.ofNat texts.length

end Dataset

end ClauseForest
