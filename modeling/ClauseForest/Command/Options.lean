/-
**Options on a command line**

A command line is a list of words.  Options begin with dashes: two of them before a name, one before a
cluster of letters.  The value of an option follows an equals sign, or is the next word, which then may
not look like an option itself.  Two dashes alone end the options.

A value is looked at as soon as it is read.  An option that asks for a text to be shown, such as `--help`,
ends the reading: nothing that follows it matters, and nothing that is missing.

Main definitions:

* `OptionSpec` — the name of an option, its letter, and how it is used;
* `UsageError` — why a command line cannot be understood;
* `Stop`, `readOptions` — the options at the front of a command line, and what ends them;
* `Given.value?`, `Given.values`, `Given.flag` — what was given for an option.
-/

import ClauseForest.Text.Pieces
import ClauseForest.Text.Quoted

set_option relaxedAutoImplicit false
set_option autoImplicit false

namespace ClauseForest

/-- How an option is used. -/
inductive OptionUse where
  /-- Without a value, perhaps more than once. -/
  | bare (repeats : Bool)
  /-- With a value that is accepted, perhaps more than once. -/
  | valued (repeats : Bool) (accepts : String → Bool)
  /-- Without a value; it asks for a text to be shown. -/
  | shows

/-- Whether an option may be given any number of times. -/
def OptionUse.mayRepeat : OptionUse → Bool
  | .bare repeats | .valued repeats _ => repeats
  | .shows => false

/-- An option. -/
structure OptionSpec where
  name : String
  letter : Option Char
  use : OptionUse

/-- Why a command line cannot be understood. -/
inductive UsageError where
  | unknownOption (word : String)
  | missingValue (name : String)
  | unexpectedValue (name : String)
  | invalidValue (name value : String)
  | repeated (name : String)
  | conflict (name other : String)
  | missingOption (name : String)
  | unexpectedWord (word : String)
  | missingCommand
deriving DecidableEq, Repr

/-- The message for a command line that cannot be understood. -/
def UsageError.message : UsageError → String
  | .unknownOption word => "unknown option " ++ Text.quote word
  | .missingValue name => "option --" ++ name ++ " needs a value"
  | .unexpectedValue name => "option --" ++ name ++ " takes no value"
  | .invalidValue name value => "invalid value " ++ Text.quote value ++ " for option --" ++ name
  | .repeated name => "option --" ++ name ++ " may be given only once"
  | .conflict name other => "option --" ++ name ++ " cannot be used with --" ++ other
  | .missingOption name => "option --" ++ name ++ " is required"
  | .unexpectedWord word => "unexpected argument " ++ Text.quote word
  | .missingCommand => "a command is required: learn, infer or help"

/-- An option that was given, with its value if it has one. -/
abbrev Given := String × String

/-- A word of a command line. -/
inductive Word where
  /-- Two dashes and a name, perhaps with a value after an equals sign. -/
  | long (name : String) (value : Option String)
  /-- A dash and letters. -/
  | cluster (letters : List Char)
  /-- Two dashes alone. -/
  | endOfOptions
  /-- Anything else, a dash alone included. -/
  | plain
deriving DecidableEq, Repr

/-- What a word of a command line is. -/
def Word.ofText (word : String) : Word :=
  match word.toList with
  | ['-', '-'] => .endOfOptions
  | '-' :: '-' :: rest =>
    .long (String.ofList (rest.takeWhile (· ≠ '=')))
      (match rest.dropWhile (· ≠ '=') with
      | [] => none
      | _ :: value => some (String.ofList value))
  | '-' :: letter :: letters => .cluster (letter :: letters)
  | _ => .plain

/-- What ends the options at the front of a command line. -/
inductive Stop where
  /-- The words from the first on that is no option. -/
  | words (rest : List String)
  /-- An option that asks for a text to be shown. -/
  | shown (name : String)
deriving DecidableEq, Repr

/-- The options named by the letters of a cluster, up to one that asks for a text. -/
def readCluster (specs : List OptionSpec) (word : String) :
    List Char → Except UsageError (List Given × Option String)
  | [] => .ok ([], none)
  | letter :: letters =>
    match specs.find? fun spec => spec.letter = some letter with
    | none => .error (.unknownOption word)
    | some spec =>
      match spec.use with
      | .shows => .ok ([], some spec.name)
      | _ => do
        let (others, shown) ← readCluster specs word letters
        return ((spec.name, "") :: others, shown)

/-- An option with its value, which must be accepted. -/
def acceptValue (accepts : String → Bool) (name value : String) : Except UsageError Given :=
  if accepts value then .ok (name, value) else .error (.invalidValue name value)

/-- Options, and those that are read after them. -/
def prepend (first : List Given) (result : Except UsageError (List Given × Stop)) :
    Except UsageError (List Given × Stop) :=
  (fun (others, stop) => (first ++ others, stop)) <$> result

/-- The options at the front of a command line, and what ends them. -/
def readOptions (specs : List OptionSpec) : List String → Except UsageError (List Given × Stop)
  | [] => .ok ([], .words [])
  | word :: words =>
    match Word.ofText word with
    | .endOfOptions | .plain => .ok ([], .words (word :: words))
    | .cluster letters => do
      match ← readCluster specs word letters with
      | (first, some name) => return (first, .shown name)
      | (first, none) => prepend first (readOptions specs words)
    | .long name value =>
      match specs.find? (·.name = name) with
      | none => .error (.unknownOption word)
      | some spec =>
        match spec.use, value with
        | .shows, none => .ok ([], .shown name)
        | .bare _, none => prepend [(name, "")] (readOptions specs words)
        | .shows, some _ | .bare _, some _ => .error (.unexpectedValue name)
        | .valued _ accepts, some value => do
          prepend [← acceptValue accepts name value] (readOptions specs words)
        | .valued _ accepts, none =>
          match words with
          | [] => .error (.missingValue name)
          | next :: words =>
            if Word.ofText next = .plain then do
              prepend [← acceptValue accepts name next] (readOptions specs words)
            else .error (.missingValue name)

/-- Refuses an option that is given more often than it may be. -/
def checkRepeats (given : List Given) (spec : OptionSpec) : Except UsageError Unit :=
  if spec.use.mayRepeat || (given.filter (·.1 = spec.name)).length ≤ 1 then .ok ()
  else .error (.repeated spec.name)

namespace Given

/-- Whether an option was given. -/
def flag (given : List Given) (name : String) : Bool := given.any (·.1 = name)

/-- The values that were given for an option, in order. -/
def values (given : List Given) (name : String) : List String :=
  (given.filter (·.1 = name)).map Prod.snd

/-- The value that was given for an option. -/
def value? (given : List Given) (name : String) : Option String := given.lookup name

end Given

end ClauseForest
