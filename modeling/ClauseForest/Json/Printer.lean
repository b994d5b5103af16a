/-
**Printing JSON**

Values are printed over several lines, each level of nesting indented by two spaces; an array or an
object without content stays on its line.

Main definitions:

* `Json.escape` — a text as it is written between quotes;
* `Json.render` — a value over several lines.
-/

import ClauseForest.Json.Value

set_option relaxedAutoImplicit false
set_option autoImplicit false

namespace ClauseForest.Json

/-- A character as it is written between quotes. -/
def escapeChar (c : Char) : List Char :=
  if c = '"' ∨ c = '\\' then ['\\', c]
  else if c = '\x08' then ['\\', 'b']
  else if c = '\x0c' then ['\\', 'f']
  else if c = '\n' then ['\\', 'n']
  else if c = '\r' then ['\\', 'r']
  else if c = '\t' then ['\\', 't']
  else if c.toNat < 0x20 then
    ['\\', 'u', '0', '0', Nat.digitChar (c.toNat / 16), Nat.digitChar (c.toNat % 16)]
  else [c]

/-- A text in quotes. -/
def escape (text : String) : List Char := '"' :: text.toList.flatMap escapeChar ++ ['"']

/-- The beginning of a line at a level of nesting. -/
def newline (level : Nat) : List Char := '\n' :: List.replicate (2 * level) ' '

mutual

/-- A value printed at a level of nesting. -/
def renderAt (level : Nat) : Json → List Char
  | .null => ['n', 'u', 'l', 'l']
  | .bool true => ['t', 'r', 'u', 'e']
  | .bool false => ['f', 'a', 'l', 's', 'e']
  | .number literal => literal
  | .string content => escape (content.getD "")
  | .array [] => ['[', ']']
  | .array (item :: items) =>
    '[' :: newline (level + 1) ++ renderAt (level + 1) item ++ renderItems (level + 1) items ++
      newline level ++ [']']
  | .object [] => ['\x7b', '\x7d']
  | .object ((name, value) :: members) =>
    '\x7b' :: newline (level + 1) ++ escape (name.getD "") ++ ':' :: ' ' ::
      renderAt (level + 1) value ++ renderMembers (level + 1) members ++ newline level ++ ['\x7d']

/-- The items after the first, each on a line of its own. -/
def renderItems (level : Nat) : List Json → List Char
  | [] => []
  | item :: items => ',' :: newline level ++ renderAt level item ++ renderItems level items

/-- The members after the first, each on a line of its own. -/
def renderMembers (level : Nat) : List (Option String × Json) → List Char
  | [] => []
  | (name, value) :: members =>
    ',' :: newline level ++ escape (name.getD "") ++ ':' :: ' ' :: renderAt level value ++
      renderMembers level members

end

/-- A value printed over several lines. -/
def render (value : Json) : String := String.ofList (renderAt 0 value)

end ClauseForest.Json
