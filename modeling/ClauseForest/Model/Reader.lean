/-
**Reading models**

A record of a saved model is an object with a value for each of its fields, or an array of these values
in the order of the fields.  Fields with a default may be missing, in an array only from the end; an
object may hold other fields besides, but no field twice, and an array no more values than there are
fields.

The loss is read as a whole before its kind is known.  So, unlike in other places of a model, nothing in
it may be out of range, without content, or nested too deeply, even where it is ignored.

Main definitions:

* `ModelError` — why a model could not be read or written;
* `Json.fields?` — the values of the fields of a record;
* `Model.ofJson?`, `Model.parse` — a model from JSON, and from a text.
-/

import ClauseForest.Json.Number
import ClauseForest.Json.Reader
import ClauseForest.Model.Basic

set_option relaxedAutoImplicit false
set_option autoImplicit false

namespace ClauseForest

/-! ### Records -/

namespace Json

/-- The values of the fields of a record, in the order of the fields. -/
def fields? (names : List String) : Json → Option (List (Option Json))
  | .array items =>
    if items.length ≤ names.length then some ((List.range names.length).map fun i => items[i]?)
    else none
  | .object members => do
    let named ← members.mapM fun (name, value) => do return (← name, value)
    if names.all fun name => (named.filter fun member => member.1 = name).length ≤ 1 then
      return names.map fun name => named.lookup name
    else none
  | _ => none

/-- A field that must be there. -/
def required {α : Type} (read : Json → Option α) (field : Option Json) : Option α := field.bind read

/-- A field that may be missing. -/
def optional {α : Type} (read : Json → Option α) (default : α) : Option Json → Option α
  | none => some default
  | some value => read value

/-- A truth value. -/
def asBool? : Json → Option Bool
  | .bool b => some b
  | _ => none

/-- A text. -/
def asString? : Json → Option String
  | .string content => content
  | _ => none

/-- A count. -/
def asCount? : Json → Option Nat
  | .number literal => count? literal
  | _ => none

/-- A floating point number. -/
def asFloat? : Json → Option Float
  | .number literal => float? literal
  | _ => none

/-- A count, or nothing. -/
def asLimit? : Json → Option (Option Nat)
  | .null => some none
  | value => some <$> value.asCount?

/-- A list. -/
def asList? {α : Type} (read : Json → Option α) : Json → Option (List α)
  | .array items => items.mapM read
  | _ => none

mutual

/-- Whether every number is in range and every text has content. -/
def isSound : Json → Bool
  | .number literal => (float? literal).isSome
  | .string content => content.isSome
  | .array items => areSoundItems items
  | .object members => areSoundMembers members
  | _ => true

/-- Whether all items of an array are sound. -/
def areSoundItems : List Json → Bool
  | [] => true
  | item :: items => item.isSound && areSoundItems items

/-- Whether all members of an object are sound. -/
def areSoundMembers : List (Option String × Json) → Bool
  | [] => true
  | (name, value) :: members => name.isSome && value.isSound && areSoundMembers members

end

end Json

/-! ### Models from JSON -/

open Json

/-- The options of a data set. -/
def DataOptions.ofJson? (value : Json) : Option DataOptions := do
  match ← value.fields? ["regression", "advice"] with
  | [regression, advice] => return ⟨← required asBool? regression, ← required asBool? advice⟩
  | _ => none

/-- The value of the only member of an object with a name. -/
def Json.onlyMember? (name : String) (members : List (Option String × Json)) : Option Json :=
  match members.filter fun member => member.1 = some name with
  | [member] => some member.2
  | _ => none

/-- A loss, by its kind and the rest of its record. -/
def Loss.ofJson? (value : Json) : Option Loss :=
  match value with
  | .array (.string (some kind) :: rest) =>
    match kind, rest with
    | "least_squares", [] => some .leastSquares
    | "least_absolute_deviation", [] => some .leastAbsoluteDeviation
    | "huber", [delta] => .huber <$> delta.asFloat?
    | _, _ => none
  | .object members => do
    match ← (← onlyMember? "kind" members).asString? with
    | "least_squares" => return .leastSquares
    | "least_absolute_deviation" => return .leastAbsoluteDeviation
    | "huber" => return .huber (← (← onlyMember? "delta" members).asFloat?)
    | _ => none
  | _ => none

/-- How deeply arrays and objects of a model may be nested. -/
def maxDepth : Nat := 127

/-- A loss whose record is sound.  It stands three levels deep in a model. -/
def Loss.ofSoundJson? (value : Json) : Option Loss :=
  if value.isSound && value.depth + 3 ≤ maxDepth then Loss.ofJson? value else none

/-- The parameters of a tree. -/
def TreeConfig.ofJson? (value : Json) : Option TreeConfig := do
  match ← value.fields? ["max_depth", "parallel", "step_limit"] with
  | [maxDepth, parallel, stepLimit] =>
    return ⟨← optional asCount? TreeConfig.default.maxDepth maxDepth,
      ← optional asBool? TreeConfig.default.parallel parallel,
      ← optional asLimit? TreeConfig.default.stepLimit stepLimit⟩
  | _ => none

/-- The parameters of a boosting run. -/
def BoostConfig.ofJson? (value : Json) : Option BoostConfig := do
  match ← value.fields? ["trees", "loss", "tree"] with
  | [trees, loss, tree] =>
    return ⟨← optional asCount? BoostConfig.default.trees trees,
      ← optional Loss.ofSoundJson? BoostConfig.default.loss loss,
      ← optional TreeConfig.ofJson? BoostConfig.default.tree tree⟩
  | _ => none

/-- The parameters of a model. -/
def ModelParams.ofJson? (value : Json) : Option ModelParams := do
  match ← value.fields? ["target", "options", "config"] with
  | [target, options, config] =>
    return ⟨← required asString? target, ← optional DataOptions.ofJson? .default options,
      ← optional BoostConfig.ofJson? .default config⟩
  | _ => none

/-- A tree, from its leaf records. -/
def LearnedTree.ofJson? (value : Json) : Option LearnedTree := do
  (LearnedTree.parse (← asList? asString? value)).toOption

/-- A model. -/
def Model.ofJson? (value : Json) : Option Model := do
  match ← value.fields? ["params", "trees"] with
  | [params, trees] =>
    return ⟨← required ModelParams.ofJson? params,
      ← required (asList? LearnedTree.ofJson?) trees⟩
  | _ => none

/-! ### Models from texts and files -/

/-- Why a model could not be read or written. -/
inductive ModelError where
  /-- Its file could not be read or written. -/
  | inaccessible (path : String) (cause : FileError)
  /-- Its text is no model.  More is said about a text that ends before anything is in it. -/
  | malformed (detail : Option String)
deriving DecidableEq, Repr

/-- The message for a model that could not be read or written. -/
def ModelError.message : ModelError → String
  | .inaccessible path _ => "failed to access model file " ++ path
  | .malformed _ => "malformed model file"

/-- What lies behind a fault, where there is more to say. -/
def ModelError.cause : ModelError → Option String
  | .inaccessible _ cause => some cause.message
  | .malformed detail => detail

/-- What is said about a text of blanks: where it ends. -/
def ModelError.endOf (text : List Char) : ModelError :=
  let lines := Text.pieces '\n' text
  .malformed <| some <| "EOF while parsing a value at line " ++ toString lines.length ++
    " column " ++ toString (lines.getLast?.getD []).length

/-- Reads a model. -/
def Model.parse (text : String) : Except ModelError Model :=
  match (Json.parse text).bind Model.ofJson? with
  | some m => .ok m
  | none =>
    if (skipBlanks text.toList).isEmpty then .error (.endOf text.toList)
    else .error (.malformed none)

namespace Model

/-- Reads a model from a file. -/
def load (files : FileTree) (path : String) : Except ModelError Model := do
  parse (← (files.readText path).mapError (.inaccessible path))

/-- The files after a model was written to one of them, and what went wrong. -/
def save (m : Model) (files : FileTree) (path : String) : FileTree × Option ModelError :=
  let (files, fault) := files.write path m.render.toUTF8
  (files, fault.map (.inaccessible path))

end Model

end ClauseForest
