/-
**Reading mode declarations**

The grammar of declarations is regular:

```
declaration   ::= name '(' argument (',' argument)* ')' '.'?
argument      ::= ('+' | '-' | '#')? name | '[' name (';' name)* ']'
```

so it is read by a machine that takes one token at a time and whose state is the declaration read so
far.  A token is refused exactly when no declaration goes on with it, and the error points at the first
token that is refused, or at the end of the text when the text stops inside a declaration.
`ClauseForest.Mode.Descent` reads the same with a function for every kind of phrase.

Main definitions:

* `ReadError` — a fault and the bytes at which it was found;
* `ArgState`, `DeclState` — a partly read argument and declaration;
* `ModeDecl.parse`, `ModeDecl.parseAll`, `ArgSpec.parse` — reading one declaration, any number of them,
  and a single argument.
-/

import ClauseForest.Mode.Decl
import ClauseForest.Mode.Token

set_option relaxedAutoImplicit false
set_option autoImplicit false

namespace ClauseForest

/-! ### Faults -/

/-- What is wrong with a declaration text. -/
inductive ReadFault where
  /-- The text stops where a token must follow. -/
  | unexpectedEnd
  /-- A token that does not belong there. -/
  | unexpectedToken (token : Token)
  /-- A character that starts no token. -/
  | unrecognized
  /-- A token after the text should have ended. -/
  | expectedEnd
deriving DecidableEq, Repr

/-- A fault and the bytes at which it was found. -/
structure ReadError where
  fault : ReadFault
  start : Nat
  stop : Nat
deriving DecidableEq, Repr

/-- The wording of a fault. -/
def ReadFault.message : ReadFault → String
  | .unexpectedEnd => "unexpected end of input"
  | .unexpectedToken token => "unexpected token " ++ token.label
  | .unrecognized => "unrecognized token"
  | .expectedEnd => "expected end of input"

/-- The message for a malformed declaration text. -/
def ReadError.message (e : ReadError) : String :=
  e.fault.message ++ " at " ++ toString e.start ++ ".." ++ toString e.stop

/-- The error for a token that is refused. -/
def ReadError.refusing (l : Lexeme) : ReadError :=
  match l.token with
  | .unknown _ => ⟨.unrecognized, l.start, l.stop⟩
  | token => ⟨.unexpectedToken token, l.start, l.stop⟩

/-- The error for a text that stops too early. -/
def ReadError.atEnd (size : Nat) : ReadError := ⟨.unexpectedEnd, size, size⟩

/-! ### The machine -/

/-- What a token makes of a partly read thing. -/
inductive Reading (σ α : Type) where
  /-- More tokens must follow. -/
  | more (state : σ)
  /-- The thing is complete. -/
  | done (value : α)
  /-- The token does not belong there. -/
  | refused

/-- A partly read argument. -/
inductive ArgState where
  /-- Nothing was read yet. -/
  | fresh
  /-- A sign was read; the type must follow. -/
  | signed (mode : Mode)
  /-- A constant must follow those read before. -/
  | listing (constants : List String)
  /-- A constant was read; a separator or the end of the list must follow. -/
  | listed (constants : List String)
deriving DecidableEq, Repr

/-- Reads one token of an argument. -/
def ArgState.read : ArgState → Token → Reading ArgState ArgSpec
  | .fresh, .plus => .more (.signed .input)
  | .fresh, .minus => .more (.signed .output)
  | .fresh, .hash => .more (.signed .ground)
  | .fresh, .openBracket => .more (.listing [])
  | .fresh, .name type => .done (.typed none type)
  | .signed mode, .name type => .done (.typed (some mode) type)
  | .listing constants, .name constant => .more (.listed (constants ++ [constant]))
  | .listed constants, .semicolon => .more (.listing constants)
  | .listed constants, .closeBracket => .done (.oneOf constants)
  | _, _ => .refused

/-- A partly read declaration. -/
inductive DeclState where
  /-- Nothing was read yet. -/
  | fresh
  /-- The name was read; the argument list must be opened. -/
  | named (name : String)
  /-- An argument is being read. -/
  | inArg (name : String) (args : List ArgSpec) (state : ArgState)
  /-- An argument was read; another one or the end of the list must follow. -/
  | afterArg (name : String) (args : List ArgSpec)
deriving DecidableEq, Repr

/-- Reads one token of a declaration. -/
def DeclState.read : DeclState → Token → Reading DeclState ModeDecl
  | .fresh, .name name => .more (.named name)
  | .named name, .openParen => .more (.inArg name [] .fresh)
  | .inArg name args state, token =>
    match state.read token with
    | .more state => .more (.inArg name args state)
    | .done arg => .more (.afterArg name (args ++ [arg]))
    | .refused => .refused
  | .afterArg name args, .comma => .more (.inArg name args .fresh)
  | .afterArg name args, .closeParen => .done ⟨name, args⟩
  | _, _ => .refused

/-- Feeds tokens to a machine until the thing is complete, and returns it with the tokens left. -/
def readTokens {σ α : Type} (read : σ → Token → Reading σ α) (size : Nat) :
    σ → List Lexeme → Except ReadError (α × List Lexeme)
  | _, [] => .error (.atEnd size)
  | state, l :: rest =>
    match read state l.token with
    | .more state => readTokens read size state rest
    | .done value => .ok (value, rest)
    | .refused => .error (.refusing l)

/-- Reading uses up at least one token. -/
theorem length_of_readTokens {σ α : Type} {read : σ → Token → Reading σ α} {size : Nat} {state : σ}
    {tokens rest : List Lexeme} {value : α}
    (h : readTokens read size state tokens = .ok (value, rest)) : rest.length < tokens.length := by
  induction tokens generalizing state with
  | nil => exact absurd h (by simp [readTokens])
  | cons l tokens ih =>
    rw [readTokens] at h
    split at h
    · exact Nat.lt_succ_of_lt (ih h)
    · cases h
      exact Nat.lt_succ_self _
    · exact absurd h (by simp)

/-- The tokens after an optional period. -/
def skipPeriod : List Lexeme → List Lexeme
  | [] => []
  | l :: rest => if l.token = .period then rest else l :: rest

theorem length_skipPeriod_le (tokens : List Lexeme) :
    (skipPeriod tokens).length ≤ tokens.length := by
  cases tokens with
  | nil => exact Nat.le_refl _
  | cons l rest =>
    rw [skipPeriod]
    split
    · exact Nat.le_succ _
    · exact Nat.le_refl _

/-! ### Texts -/

/-- Refuses any token that is left. -/
def expectEnd : List Lexeme → Except ReadError Unit
  | [] => .ok ()
  | l :: _ => .error ⟨.expectedEnd, l.start, l.stop⟩

/-- Reads a single argument. -/
def ArgSpec.parse (text : String) : Except ReadError ArgSpec := do
  let (arg, rest) ← readTokens ArgState.read text.utf8ByteSize .fresh (Lexeme.ofText text)
  expectEnd rest
  return arg

namespace ModeDecl

/-- Reads exactly one declaration, which may end with a period. -/
def parse (text : String) : Except ReadError ModeDecl := do
  let (decl, rest) ← readTokens DeclState.read text.utf8ByteSize .fresh (Lexeme.ofText text)
  expectEnd (skipPeriod rest)
  return decl

/-- Reads declarations from tokens until none is left. -/
def readAll (size : Nat) (tokens : List Lexeme) : Except ReadError (List ModeDecl) :=
  match tokens with
  | [] => .ok []
  | l :: tokens =>
    match _h : readTokens DeclState.read size .fresh (l :: tokens) with
    | .error e => .error e
    | .ok (decl, rest) => (decl :: ·) <$> readAll size (skipPeriod rest)
termination_by tokens.length
decreasing_by
  exact Nat.lt_of_le_of_lt (length_skipPeriod_le rest) (length_of_readTokens _h)

/-- Reads any number of declarations, each of which may end with a period. -/
def parseAll (text : String) : Except ReadError (List ModeDecl) :=
  readAll text.utf8ByteSize (Lexeme.ofText text)

end ModeDecl

end ClauseForest
