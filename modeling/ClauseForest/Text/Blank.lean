/-
**Blank characters, trimming and words**

A character is *blank* when Unicode gives it the property `White_Space`.  Trimming removes the blanks
at the ends of a text and nothing else; the words of a text are its non-empty pieces between blanks.

Main definitions:

* `Text.isBlank` — the property `White_Space`;
* `Text.trimEnd`, `Text.trim` — a text without the blanks at its end, at both ends;
* `Text.words` — the non-empty pieces between blanks.
-/

import ClauseForest.Text.Pieces

set_option relaxedAutoImplicit false
set_option autoImplicit false

namespace ClauseForest.Text

/-- Whether a character has the Unicode property `White_Space`. -/
def isBlank (c : Char) : Bool :=
  let code := c.toNat
  (0x9 ≤ code && code ≤ 0xd) || code == 0x20 || code == 0x85 || code == 0xa0 || code == 0x1680 ||
    (0x2000 ≤ code && code ≤ 0x200a) || code == 0x2028 || code == 0x2029 || code == 0x202f ||
    code == 0x205f || code == 0x3000

/-- No visible ASCII character is blank. -/
theorem isBlank_of_toNat {c : Char} (h : 33 ≤ c.toNat ∧ c.toNat ≤ 126) : isBlank c = false := by
  unfold isBlank
  simp only [Bool.or_eq_false_iff, Bool.and_eq_false_iff, decide_eq_false_iff_not,
    beq_eq_false_iff_ne]
  omega

/-- A text without the blanks at its end. -/
def trimEnd (text : List Char) : List Char := (text.reverse.dropWhile isBlank).reverse

/-- A text without the blanks at both ends. -/
def trim (text : List Char) : List Char := trimEnd (text.dropWhile isBlank)

/-- The non-empty pieces of a text between its blanks. -/
def words (text : List Char) : List (List Char) :=
  (piecesBy isBlank text).filter fun piece => !piece.isEmpty

end ClauseForest.Text
