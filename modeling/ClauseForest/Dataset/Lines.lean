/-
**Lines of data files**

Data files hold one item on each line.  Blanks around it and one period behind it carry no meaning, and
lines that hold nothing else are skipped.

Main definitions:

* `cleanLine` — a line without blanks around it and a period behind it;
* `cleanLines` — the items of a text.
-/

import ClauseForest.Text.Blank

set_option relaxedAutoImplicit false
set_option autoImplicit false

namespace ClauseForest

/-- A text without a period at its end. -/
def dropPeriod (text : List Char) : List Char :=
  if text.getLast? = some '.' then text.dropLast else text

/-- A line without blanks around it and a period behind it. -/
def cleanLine (line : List Char) : List Char := Text.trimEnd (dropPeriod (Text.trim line))

/-- The items on the lines of a text. -/
def cleanLines (text : String) : List String :=
  (((Text.pieces '\n' text.toList).map cleanLine).filter fun line => !line.isEmpty).map String.ofList

end ClauseForest
