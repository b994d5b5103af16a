/-
**Quoted texts**

Messages show an offending text in double quotes, so that its ends are plain to see.  The quote and
the backslash are marked by a backslash, tab, line ends and the null character have letters of their
own, and every other character without a visible form is given by its code point.

Main definitions:

* `Text.quoteChar` — how one character is written between the quotes;
* `Text.quote` — a whole text in quotes.
-/

import ClauseForest.Text.Hidden

set_option relaxedAutoImplicit false
set_option autoImplicit false

namespace ClauseForest.Text

/-- A character as it is written between double quotes. -/
def quoteChar (c : Char) : List Char :=
  if c = '"' ∨ c = '\\' then ['\\', c]
  else if c = '\t' then ['\\', 't']
  else if c = '\r' then ['\\', 'r']
  else if c = '\n' then ['\\', 'n']
  else if c = '\x00' then ['\\', '0']
  else if isHidden c then '\\' :: 'u' :: '\x7b' :: Nat.toDigits 16 c.toNat ++ ['\x7d']
  else [c]

/-- A text in double quotes. -/
def quote (text : String) : String :=
  String.ofList ('"' :: text.toList.flatMap quoteChar ++ ['"'])

end ClauseForest.Text
