/-
**JSON values**

A value keeps what was written where its meaning hangs on what is expected: a number is kept as its
literal.  A text in which a surrogate has no partner is well formed but has no content.

Main definitions:

* `Json` — JSON values;
* `Json.depth` — how deeply arrays and objects are nested.
-/

set_option relaxedAutoImplicit false
set_option autoImplicit false

namespace ClauseForest

/-- A JSON value. -/
inductive Json where
  | null
  | bool (b : Bool)
  /-- A number, as it is written. -/
  | number (literal : List Char)
  /-- A text; `none` for one in which a surrogate has no partner. -/
  | string (content : Option String)
  | array (items : List Json)
  /-- An object: names and values in the order in which they are written, repetitions included. -/
  | object (members : List (Option String × Json))
deriving Inhabited

namespace Json

/-- A text with content. -/
def ofString (s : String) : Json := .string (some s)

/-- A natural number. -/
def ofNat (n : Nat) : Json := .number (Nat.toDigits 10 n)

/-- An object whose names have content. -/
def ofMembers (members : List (String × Json)) : Json :=
  .object (members.map fun (name, value) => (some name, value))

mutual

/-- The number of arrays and objects around the innermost value, the outermost included. -/
def depth : Json → Nat
  | .array items => depthOfItems items + 1
  | .object members => depthOfMembers members + 1
  | _ => 0

/-- The greatest depth of the items of an array. -/
def depthOfItems : List Json → Nat
  | [] => 0
  | item :: items => max item.depth (depthOfItems items)

/-- The greatest depth of the values of an object. -/
def depthOfMembers : List (Option String × Json) → Nat
  | [] => 0
  | (_, value) :: members => max value.depth (depthOfMembers members)

end

end Json

end ClauseForest
