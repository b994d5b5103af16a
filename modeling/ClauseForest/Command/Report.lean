/-
**Reports of failures**

A failure is reported with what lies behind it: the step that failed first, then each cause on lines of
its own, numbered if there are several.

Main definitions:

* `Failure` — a message and its causes;
* `Failure.report` — the written report.
-/

import ClauseForest.Text.Pieces

set_option relaxedAutoImplicit false
set_option autoImplicit false

namespace ClauseForest

/-- What failed, and why. -/
structure Failure where
  message : String
  /-- The causes, from the nearest to the deepest. -/
  causes : List String
deriving DecidableEq, Repr

namespace Failure

/-- A text whose lines after the first are indented. -/
def indent (width : Nat) (text : String) : String :=
  ("\n" ++ String.ofList (List.replicate width ' ')).intercalate
    ((Text.pieces '\n' text.toList).map String.ofList)

/-- The lines of the causes. -/
def causeLines : List String → List String
  | [cause] => ["    " ++ indent 4 cause]
  | causes => causes.zipIdx.map fun (cause, i) =>
    let number := toString i
    String.ofList (List.replicate (5 - number.length) ' ') ++ number ++ ": " ++ indent 7 cause

/-- The written report. -/
def report (f : Failure) : String :=
  "Error: " ++ f.message ++
    (if f.causes.isEmpty then ""
    else "\n\nCaused by:" ++ String.join ((causeLines f.causes).map fun line => "\n" ++ line)) ++ "\n"

end Failure

end ClauseForest
