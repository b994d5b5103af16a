/-
**Tokens of mode declarations**

A declaration text is cut into the longest possible tokens: eleven kinds, of which names are the only
ones longer than a character.  Gaps between tokens carry no meaning.  A character that starts no token
is a token of its own, so that cutting never fails and the reader can point at it.

Positions count the bytes of the text in UTF-8.

Main definitions:

* `Token` — the kinds of tokens;
* `Lexeme` — a token and the range of bytes that it covers;
* `Lexeme.ofText` — the tokens of a text.
-/

set_option relaxedAutoImplicit false
set_option autoImplicit false

namespace ClauseForest

/-- A token of a declaration text. -/
inductive Token where
  | period
  | comma
  | semicolon
  | openParen
  | closeParen
  | openBracket
  | closeBracket
  | plus
  | minus
  | hash
  /-- A predicate name, a type name or a constant. -/
  | name (text : String)
  /-- A character that starts no token. -/
  | unknown (c : Char)
deriving DecidableEq, Repr

/-- The name of a kind of token in messages. -/
def Token.label : Token → String
  | .period => "Period"
  | .comma => "Comma"
  | .semicolon => "Semicolon"
  | .openParen => "LParen"
  | .closeParen => "RParen"
  | .openBracket => "LBracket"
  | .closeBracket => "RBracket"
  | .plus => "Plus"
  | .minus => "Minus"
  | .hash => "Hash"
  | .name _ => "Name"
  | .unknown c => String.singleton c

/-- The token of a character that is no part of a name. -/
def Token.ofChar : Char → Token
  | '.' => .period
  | ',' => .comma
  | ';' => .semicolon
  | '(' => .openParen
  | ')' => .closeParen
  | '[' => .openBracket
  | ']' => .closeBracket
  | '+' => .plus
  | '-' => .minus
  | '#' => .hash
  | c => .unknown c

/-- A token and the bytes that it covers, from `start` up to but without `stop`. -/
structure Lexeme where
  token : Token
  start : Nat
  stop : Nat
deriving DecidableEq, Repr

namespace Lexeme

/-- Whether a character separates tokens and means nothing else. -/
def isGap (c : Char) : Bool :=
  c == ' ' || c == '\t' || c == '\r' || c == '\n' || c == '\x0c'

/-- Whether a name may start with a character. -/
def startsName (c : Char) : Bool := c.isAlphanum || c == '_'

/-- Whether a name may go on with a character. -/
def continuesName (c : Char) : Bool := startsName c || c == '\''

/-- The number of bytes of a text. -/
def byteLength (text : List Char) : Nat := text.foldl (fun n c => n + c.utf8Size) 0

theorem length_dropWhile_le (p : Char → Bool) (text : List Char) :
    (text.dropWhile p).length ≤ text.length := by
  induction text with
  | nil => simp
  | cons c rest ih =>
    rw [List.dropWhile_cons]
    split
    · exact Nat.le_succ_of_le ih
    · exact Nat.le_refl _

/-- The tokens of the rest of a text that begins at a byte position. -/
def ofChars (start : Nat) (text : List Char) : List Lexeme :=
  match text with
  | [] => []
  | c :: rest =>
    if isGap c then ofChars (start + c.utf8Size) rest
    else if startsName c then
      let name := c :: rest.takeWhile continuesName
      let stop := start + byteLength name
      ⟨.name (String.ofList name), start, stop⟩ :: ofChars stop (rest.dropWhile continuesName)
    else
      ⟨.ofChar c, start, start + c.utf8Size⟩ :: ofChars (start + c.utf8Size) rest
termination_by text.length
decreasing_by
  · simp
  · exact Nat.lt_succ_of_le (length_dropWhile_le _ _)
  · simp

/-- The tokens of a text. -/
def ofText (text : String) : List Lexeme := ofChars 0 text.toList

end Lexeme

end ClauseForest
