/-
**Paths**

A path names a place by the names on the way to it, separated by slashes.  A single dot stays where it
is and two dots lead back.  An empty name, as at the end of a path with a slash behind it, means the
same as a dot.  An absolute path begins with the name `/`, which is that of the root.

Main definitions:

* `Path.join` — a path followed by another;
* `Path.parts`, `Path.ofParts` — the texts between the slashes of a path;
* `Path.parentParts` — those of the directory that a path lies in;
* `Path.names` — the names on the way to a path;
* `Path.enter` — the way after one more name;
* `Path.trail` — the ways that lead to a path one after another.
-/

import ClauseForest.Text.Pieces

set_option relaxedAutoImplicit false
set_option autoImplicit false

namespace ClauseForest.Path

/-- Whether a path starts at the root of all files. -/
def isAbsolute (path : String) : Bool := path.toList.head? == some '/'

/-- A path followed by another.  An absolute path is not led anywhere else. -/
def join (dir path : String) : String :=
  if isAbsolute path || dir.isEmpty then path
  else if dir.toList.getLast? = some '/' then dir ++ path
  else dir ++ "/" ++ path

/-! ### The parts of a path -/

/-- The texts between the slashes of a path. -/
def parts (path : String) : List (List Char) := Text.pieces '/' path.toList

/-- The path with given texts between its slashes. -/
def ofParts (parts : List (List Char)) : String := String.ofList (Text.joinWith '/' parts)

/-- **Nothing is lost** between the slashes of a path. -/
@[simp] theorem ofParts_parts (path : String) : ofParts (parts path) = path := by
  simp [ofParts, parts, Text.joinWith_pieces]

/-- Whether a part of a path stays where it is. -/
def isHere (part : List Char) : Bool := part.isEmpty || part == ['.']

/-- The parts of the directory that a path lies in, the last one first. -/
def parentParts (path : String) : List (List Char) :=
  ((parts path).reverse.dropWhile isHere).drop 1

/-! ### The way along a path -/

/-- The name that a part of a path gives. -/
def nameOf (part : List Char) : String := if part.isEmpty then "." else String.ofList part

/-- The names on the way to a path. -/
def names (path : String) : List String :=
  match path.toList with
  | '/' :: rest => "/" :: (Text.pieces '/' rest).map nameOf
  | text => (Text.pieces '/' text).map nameOf

/-- The way after one more name: one name less after two dots, unless there is no name left that they
could lead back from.  There is nothing above the root. -/
def enter (way : List String) (name : String) : List String :=
  if name = "." then way
  else if name = ".." then
    if way = ["/"] then way else if way.all (· = "..") then way ++ [".."] else way.dropLast
  else way ++ [name]

/-- The path that a way leads along. -/
def ofWay (way : List String) : String := way.foldl join ""

/-- The ways that lead to a path one after another, whatever there is on them. -/
def trail (path : String) : List (List String) :=
  (names path).foldl (fun ways name => ways ++ [enter (ways.getLast?.getD []) name]) []

end ClauseForest.Path
