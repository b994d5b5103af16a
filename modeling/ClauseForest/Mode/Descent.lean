/-
**Reading mode declarations by descent**

The machine of `ClauseForest.Mode.Reader` keeps in its state what was read so far.  Here every kind of
phrase has a reader of its own instead, which looks at the token in front, takes it if it belongs there,
and calls the readers of the phrases inside.  Lists of constants and of arguments are read in a loop that
takes a separator and one more phrase, or the token that closes the list.

A reader that succeeds has taken at least one token, which is why the loops come to an end.

Main definitions:

* `PhraseReader` — a reader for a kind of phrase;
* `PhraseReader.list` — the reader for a list of phrases;
* `PhraseReader.argument`, `PhraseReader.declaration` — the readers for arguments and declarations;
* `Descent.parse`, `Descent.parseAll`, `Descent.parseArg` — reading one declaration, any number of them,
  and a single argument.
-/

import ClauseForest.Mode.Reader

set_option relaxedAutoImplicit false
set_option autoImplicit false

namespace ClauseForest

/-- A reader for a kind of phrase: it takes a phrase from the front of the tokens and leaves the rest. -/
structure PhraseReader (α : Type) where
  read : List Lexeme → Except ReadError (α × List Lexeme)
  length_lt : ∀ {tokens rest : List Lexeme} {value : α}, read tokens = .ok (value, rest) →
    rest.length < tokens.length

namespace PhraseReader

variable {α β : Type}

/-- A reader that goes on with another one has taken a token if the first one has. -/
theorem length_lt_bind {first : PhraseReader α}
    {next : α × List Lexeme → Except ReadError (β × List Lexeme)}
    (hnext : ∀ a tokens b rest, next (a, tokens) = .ok (b, rest) → rest.length ≤ tokens.length)
    {tokens rest : List Lexeme} {b : β} (h : first.read tokens >>= next = .ok (b, rest)) :
    rest.length < tokens.length := by
  cases hfirst : first.read tokens with
  | error e =>
    rw [hfirst] at h
    cases h
  | ok read =>
    rw [hfirst] at h
    exact Nat.lt_of_le_of_lt (hnext _ _ _ _ h) (first.length_lt hfirst)

/-- Reads a phrase and makes something of it. -/
def map (f : α → β) (reader : PhraseReader α) : PhraseReader β where
  read tokens := do
    let (value, rest) ← reader.read tokens
    return (f value, rest)
  length_lt := by
    refine length_lt_bind ?_
    rintro value tokens _ _ ⟨⟩
    exact Nat.le_refl _

/-! ### Single tokens -/

/-- The kind of the token in front. -/
def peek (tokens : List Lexeme) : Option Token := tokens.head?.map Lexeme.token

/-- The error for what stands in front and does not belong there. -/
def unexpected (size : Nat) : List Lexeme → ReadError
  | [] => .atEnd size
  | l :: _ => .refusing l

/-- Reads one token, of which something is kept if it belongs there. -/
def token (size : Nat) (keep : Token → Option α) : PhraseReader α where
  read
    | [] => .error (unexpected size [])
    | l :: rest =>
      match keep l.token with
      | some value => .ok (value, rest)
      | none => .error (unexpected size (l :: rest))
  length_lt := by
    intro tokens rest value h
    split at h
    · cases h
    · split at h <;> cases h
      exact Nat.lt_succ_self _

/-- Reads a token of a certain kind. -/
def expect (size : Nat) (expected : Token) : PhraseReader Unit :=
  token size fun t => if t = expected then some () else none

/-- Reads a name. -/
def name (size : Nat) : PhraseReader String :=
  token size fun
    | .name text => some text
    | _ => none

/-! ### Lists -/

/-- Reads on in a list of phrases of which some were found. -/
def readMore (size : Nat) (item : PhraseReader α) (separator closing : Token) (found : List α)
    (tokens : List Lexeme) : Except ReadError (List α × List Lexeme) :=
  if peek tokens = some separator then
    match _h : item.read tokens.tail with
    | .error e => .error e
    | .ok (value, rest) => readMore size item separator closing (found ++ [value]) rest
  else if peek tokens = some closing then .ok (found, tokens.tail)
  else .error (unexpected size tokens)
termination_by tokens.length
decreasing_by
  exact Nat.lt_of_lt_of_le (item.length_lt _h) (List.tail_sublist _).length_le

theorem length_le_of_readMore {size : Nat} {item : PhraseReader α} {separator closing : Token}
    {found values : List α} {tokens rest : List Lexeme}
    (h : readMore size item separator closing found tokens = .ok (values, rest)) :
    rest.length ≤ tokens.length := by
  have htail (tokens : List Lexeme) : tokens.tail.length ≤ tokens.length :=
    (List.tail_sublist _).length_le
  fun_induction readMore size item separator closing found tokens with
  | case1 => cases h
  | case2 found tokens _ value next hitem ih =>
    exact Nat.le_trans (ih h) (Nat.le_trans (Nat.le_of_lt (item.length_lt hitem)) (htail _))
  | case3 found tokens =>
    cases h
    exact htail _
  | case4 => cases h

/-- Reads one phrase or more, with separators between them, and the token that closes the list. -/
def list (size : Nat) (item : PhraseReader α) (separator closing : Token) :
    PhraseReader (List α) where
  read tokens := do
    let (value, rest) ← item.read tokens
    readMore size item separator closing [value] rest
  length_lt := length_lt_bind fun _ _ _ _ => length_le_of_readMore

/-! ### Arguments and declarations -/

/-- The sign of an argument, if the token in front is one. -/
def peekSign (tokens : List Lexeme) : Option Mode :=
  match peek tokens with
  | some .plus => some .input
  | some .minus => some .output
  | some .hash => some .ground
  | _ => none

/-- Reads an argument. -/
def argument (size : Nat) : PhraseReader ArgSpec where
  read tokens :=
    if peek tokens = some .openBracket then
      ((list size (name size) .semicolon .closeBracket).map .oneOf).read tokens.tail
    else
      let mode := peekSign tokens
      ((name size).map (.typed mode)).read (if mode.isSome then tokens.tail else tokens)
  length_lt := by
    intro tokens rest arg h
    have htail : tokens.tail.length ≤ tokens.length := (List.tail_sublist _).length_le
    dsimp only at h
    split at h
    · exact Nat.lt_of_lt_of_le (length_lt _ h) htail
    · refine Nat.lt_of_lt_of_le (length_lt _ h) ?_
      split
      · exact htail
      · exact Nat.le_refl _

/-- Reads a declaration, and the period that may end it. -/
def declaration (size : Nat) : PhraseReader ModeDecl where
  read tokens := do
    let (predicate, rest) ← (name size).read tokens
    let (_, rest) ← (expect size .openParen).read rest
    let (args, rest) ← (list size (argument size) .comma .closeParen).read rest
    return (⟨predicate, args⟩, skipPeriod rest)
  length_lt := by
    refine length_lt_bind fun predicate _ _ _ h => Nat.le_of_lt (length_lt_bind ?_ h)
    refine fun _ _ _ _ h => Nat.le_of_lt (length_lt_bind ?_ h)
    rintro args tokens _ _ ⟨⟩
    exact length_skipPeriod_le tokens

end PhraseReader

/-! ### Texts -/

namespace Descent

/-- Reads exactly one declaration. -/
def parse (text : String) : Except ReadError ModeDecl := do
  let (decl, rest) ← (PhraseReader.declaration text.utf8ByteSize).read (Lexeme.ofText text)
  expectEnd rest
  return decl

/-- Reads on until no token is left. -/
def readAll (size : Nat) (found : List ModeDecl) (tokens : List Lexeme) :
    Except ReadError (List ModeDecl) :=
  if (PhraseReader.peek tokens).isSome then
    match _h : (PhraseReader.declaration size).read tokens with
    | .error e => .error e
    | .ok (decl, rest) => readAll size (found ++ [decl]) rest
  else .ok found
termination_by tokens.length
decreasing_by
  exact (PhraseReader.declaration size).length_lt _h

/-- Reads any number of declarations. -/
def parseAll (text : String) : Except ReadError (List ModeDecl) :=
  readAll text.utf8ByteSize [] (Lexeme.ofText text)

/-- Reads a single argument. -/
def parseArg (text : String) : Except ReadError ArgSpec := do
  let (arg, rest) ← (PhraseReader.argument text.utf8ByteSize).read (Lexeme.ofText text)
  expectEnd rest
  return arg

end Descent

end ClauseForest
