/-
**The descent and the machine**

Reading by descent gives the same declarations as the machine, and the same errors.  The readers for the
phrases are found again in the machine: a list is read between the states after each of its phrases, and
the machine for declarations holds that for arguments within it.

Main results:

* `PhraseReader.readTokens_eq_list` — a loop in the machine is a list read in a loop;
* `PhraseReader.readTokens_eq_argument`, `PhraseReader.declaration_read_eq` — arguments and declarations;
* `Descent.parse_eq`, `Descent.parseAll_eq`, `Descent.parseArg_eq` — **the descent reads what the machine
  reads**.
-/

import ClauseForest.Mode.Descent

set_option relaxedAutoImplicit false
set_option autoImplicit false

namespace ClauseForest

namespace PhraseReader

variable {size : Nat}

theorem exists_cons_of_peek {tokens : List Lexeme} {t : Token} (h : peek tokens = some t) :
    ∃ l rest, tokens = l :: rest ∧ l.token = t := by
  cases tokens with
  | nil => cases h
  | cons l rest => exact ⟨l, rest, rfl, Option.some.inj h⟩

/-! ### Lists -/

section

variable {σ α β : Type} {read : σ → Token → Reading σ β} {item : PhraseReader α}
  (before after : List α → σ) {finish : List α → β} {separator closing : Token}

/-- A machine reads on in a list as the loop does, if it reads a phrase of the list as its reader does,
and then takes a separator or the token that closes the list. -/
theorem readTokens_eq_readMore
    (hread : ∀ found t, read (after found) t =
      if t = separator then .more (before found)
      else if t = closing then .done (finish found) else .refused)
    (hitem : ∀ found tokens, readTokens read size (before found) tokens = do
      let (value, rest) ← item.read tokens
      readTokens read size (after (found ++ [value])) rest)
    (found : List α) (tokens : List Lexeme) :
    readTokens read size (after found) tokens = do
      let (values, rest) ← readMore size item separator closing found tokens
      return (finish values, rest) := by
  fun_induction readMore size item separator closing found tokens with
  | case1 found tokens hpeek e herror =>
      obtain ⟨l, rest, rfl, hseparator⟩ := exists_cons_of_peek hpeek
      rw [readTokens, hread, if_pos hseparator]
      dsimp only [List.tail_cons] at herror ⊢
      rw [hitem, herror]
      rfl
  | case2 found tokens hpeek value next hvalue ih =>
      obtain ⟨l, rest, rfl, hseparator⟩ := exists_cons_of_peek hpeek
      rw [readTokens, hread, if_pos hseparator]
      dsimp only [List.tail_cons] at hvalue ⊢
      rw [hitem, hvalue]
      exact ih
  | case3 found tokens hpeek hclosing =>
      obtain ⟨l, rest, rfl, htoken⟩ := exists_cons_of_peek hclosing
      have hseparator : l.token ≠ separator := fun heq => hpeek (congrArg some heq)
      rw [readTokens, hread, if_neg hseparator, if_pos htoken]
      rfl
  | case4 found tokens hpeek hclosing =>
      cases tokens with
      | nil => rfl
      | cons l rest =>
          have hseparator : l.token ≠ separator := fun heq => hpeek (congrArg some heq)
          have htoken : l.token ≠ closing := fun heq => hclosing (congrArg some heq)
          rw [readTokens, hread, if_neg hseparator, if_neg htoken]
          rfl

/-- A machine that reads phrases one after another reads a list. -/
theorem readTokens_eq_list
    (hread : ∀ found t, read (after found) t =
      if t = separator then .more (before found)
      else if t = closing then .done (finish found) else .refused)
    (hitem : ∀ found tokens, readTokens read size (before found) tokens = do
      let (value, rest) ← item.read tokens
      readTokens read size (after (found ++ [value])) rest) (tokens : List Lexeme) :
    readTokens read size (before []) tokens =
      ((list size item separator closing).map finish).read tokens := by
  rw [hitem]
  show _ = item.read tokens >>= _ >>= _
  rw [bind_assoc]
  exact bind_congr fun (value, rest) => readTokens_eq_readMore before after hread hitem [value] rest

end

/-! ### Arguments -/

theorem readTokens_listing (constants : List String) (tokens : List Lexeme) :
    readTokens ArgState.read size (.listing constants) tokens = (do
      let (constant, rest) ← (name size).read tokens
      readTokens ArgState.read size (.listed (constants ++ [constant])) rest) := by
  cases tokens with
  | nil => rfl
  | cons l rest =>
      obtain ⟨t, start, stop⟩ := l
      cases t <;> rfl

theorem readTokens_signed (mode : Mode) (tokens : List Lexeme) :
    readTokens ArgState.read size (.signed mode) tokens =
      ((name size).map (.typed (some mode))).read tokens := by
  cases tokens with
  | nil => rfl
  | cons l rest =>
      obtain ⟨t, start, stop⟩ := l
      cases t <;> rfl

/-- The machine reads an argument. -/
theorem readTokens_eq_argument (tokens : List Lexeme) :
    readTokens ArgState.read size .fresh tokens = (argument size).read tokens := by
  have hlist (rest : List Lexeme) : readTokens ArgState.read size (.listing []) rest =
      ((list size (name size) .semicolon .closeBracket).map .oneOf).read rest := by
    refine readTokens_eq_list ArgState.listing ArgState.listed ?_ readTokens_listing rest
    intro found t
    cases t <;> rfl
  cases tokens with
  | nil => rfl
  | cons l rest =>
      obtain ⟨t, start, stop⟩ := l
      cases t with
      | openBracket => exact hlist rest
      | plus => exact readTokens_signed .input rest
      | minus => exact readTokens_signed .output rest
      | hash => exact readTokens_signed .ground rest
      | _ => rfl

/-! ### Declarations -/

/-- The machine for declarations holds the machine for arguments. -/
theorem readTokens_inArg (name : String) (args : List ArgSpec) (state : ArgState)
    (tokens : List Lexeme) :
    readTokens DeclState.read size (.inArg name args state) tokens = (do
      let (arg, rest) ← readTokens ArgState.read size state tokens
      readTokens DeclState.read size (.afterArg name (args ++ [arg])) rest) := by
  induction tokens generalizing state with
  | nil => rfl
  | cons l rest ih =>
      rw [readTokens, readTokens, DeclState.read]
      cases state.read l.token with
      | more state => exact ih state
      | done arg => rfl
      | refused => rfl

/-- The machine reads the arguments of a declaration and closes it. -/
theorem readTokens_eq_arguments (name : String) (tokens : List Lexeme) :
    readTokens DeclState.read size (.inArg name [] .fresh) tokens =
      ((list size (argument size) .comma .closeParen).map (ModeDecl.mk name)).read tokens := by
  refine readTokens_eq_list (DeclState.inArg name · .fresh) (DeclState.afterArg name) ?_ ?_ tokens
  · intro found t
    cases t <;> rfl
  · intro found tokens
    rw [readTokens_inArg, readTokens_eq_argument]

/-- The machine reads a declaration up to the period that may end it. -/
theorem declaration_read_eq (tokens : List Lexeme) :
    (declaration size).read tokens = (do
      let (decl, rest) ← readTokens DeclState.read size .fresh tokens
      return (decl, skipPeriod rest)) := by
  -- the name and the parenthesis after it are single tokens
  cases tokens with
  | nil => rfl
  | cons l tokens =>
      obtain ⟨t, start, stop⟩ := l
      cases t with
      | name predicate =>
          cases tokens with
          | nil => rfl
          | cons l rest =>
              obtain ⟨t, start, stop⟩ := l
              cases t with
              | openParen =>
                  show _ = readTokens DeclState.read size (.inArg predicate [] .fresh) rest >>= _
                  rw [readTokens_eq_arguments]
                  show _ = ((list size (argument size) .comma .closeParen).read rest >>= _) >>= _
                  rw [bind_assoc]
                  rfl
              | _ => rfl
      | _ => rfl

end PhraseReader

/-! ### Texts -/

namespace Descent

/-- The descent reads one declaration as the machine does. -/
theorem parse_eq (text : String) : parse text = ModeDecl.parse text := by
  unfold parse ModeDecl.parse
  rw [PhraseReader.declaration_read_eq, bind_assoc]
  rfl

/-- While tokens are left, the machine reads the declaration that the descent reads. -/
theorem readAll_cons (size : Nat) (l : Lexeme) (tokens : List Lexeme) :
    ModeDecl.readAll size (l :: tokens) = (do
      let (decl, rest) ← (PhraseReader.declaration size).read (l :: tokens)
      (decl :: ·) <$> ModeDecl.readAll size rest) := by
  rw [ModeDecl.readAll, PhraseReader.declaration_read_eq, bind_assoc]
  split <;> (next heq => rw [heq]; rfl)

theorem readAll_eq (size : Nat) (found : List ModeDecl) (tokens : List Lexeme) :
    readAll size found tokens = (found ++ ·) <$> ModeDecl.readAll size tokens := by
  fun_induction readAll size found tokens with
  | case1 found tokens hpeek e herror =>
      cases tokens with
      | nil => cases hpeek
      | cons l tokens =>
          rw [readAll_cons, herror]
          rfl
  | case2 found tokens hpeek decl rest hread ih =>
      cases tokens with
      | nil => cases hpeek
      | cons l tokens =>
          have hfound : (found ++ [decl] ++ ·) = (found ++ ·) ∘ (decl :: ·) := by
            funext decls
            rw [List.append_assoc]
            rfl
          rw [ih, readAll_cons, hread, hfound]
          exact comp_map _ _ _
  | case3 found tokens hpeek =>
      cases tokens with
      | nil =>
          rw [ModeDecl.readAll]
          exact congrArg Except.ok (List.append_nil found).symm
      | cons l tokens => exact absurd rfl hpeek

/-- The descent reads any number of declarations as the machine does. -/
theorem parseAll_eq (text : String) : parseAll text = ModeDecl.parseAll text := by
  unfold parseAll ModeDecl.parseAll
  rw [readAll_eq]
  exact id_map _

/-- The descent reads a single argument as the machine does. -/
theorem parseArg_eq (text : String) : parseArg text = ArgSpec.parse text := by
  unfold parseArg ArgSpec.parse
  rw [PhraseReader.readTokens_eq_argument]

end Descent

end ClauseForest
