/-
**The grammar of mode declarations**

The grammar is stated on its own, as the token sequences that phrases and sentences consist of:

```
declaration   ::= name '(' argument (',' argument)* ')' '.'?
argument      ::= ('+' | '-' | '#')? name | '[' name (';' name)* ']'
```

The machine is compared with it through the language that is left at each of its states: the sequences
that complete what was read, the derivatives of the grammar.  It is enough that a token takes the
language of a state to that of the next one.  What a run makes of any number of tokens then follows for
every machine with such languages, the token that it refuses included: a state from which nothing can be
completed is never reached.

Main definitions:

* `Tail`, `Separated` — things with separators between them;
* `ArgSpec.Phrase`, `ModeDecl.Phrase`, `ModeDecl.Sentence`, `ModeDecl.Sentences` — **the grammar**;
* `Residuals` — a language for every state that follows the machine;
* `ArgState.Finishes`, `DeclState.Finishes` — these languages for arguments and declarations;
* `ModeDecl.Language` — a language of which every sequence begins with a declaration.

Main results:

* `Residuals.readTokens_eq_ok_iff`, `Residuals.readTokens_eq_error` — what a run reads, and what it
  refuses;
* `Residuals.unique` — no reading is the beginning of another one;
* `DeclState.residuals` — the machine of declarations follows the grammar;
* `ModeDecl.sentences_append_iff` — a declaration at the beginning of a sequence is the first one, and
  a period after it belongs to it;
* `ModeDecl.Sentences.tight` — a sequence of declarations holds no two names in a row.
-/

import ClauseForest.Proofs.Mode.Lexing
import Mathlib.Tactic.MkIffOfInductiveProp

set_option relaxedAutoImplicit false
set_option autoImplicit false

namespace ClauseForest

/-! ### Sequences with separators -/

section Separated

variable {α : Type} (sep : Token) (R : List Token → α → Prop)

/-- Any number of things, each after a separator. -/
inductive Tail : List Token → List α → Prop
  | nil : Tail [] []
  | cons {tokens rest : List Token} {a : α} {as : List α} (h : R tokens a) (hrest : Tail rest as) :
      Tail (sep :: (tokens ++ rest)) (a :: as)

/-- One or more things with separators between them. -/
@[mk_iff]
inductive Separated : List Token → List α → Prop
  | mk {tokens rest : List Token} {a : α} {as : List α} (h : R tokens a) (hrest : Tail sep R rest as) :
      Separated (tokens ++ rest) (a :: as)

variable {sep R}

theorem tail_nil_iff {as : List α} : Tail sep R [] as ↔ as = [] := by
  constructor
  · intro h
    cases h
    rfl
  · rintro rfl
    exact .nil

theorem tail_cons_iff {t : Token} {tokens : List Token} {as : List α} :
    Tail sep R (t :: tokens) as ↔ t = sep ∧ Separated sep R tokens as := by
  constructor
  · intro h
    cases h with
    | cons h hrest => exact ⟨rfl, .mk h hrest⟩
  · rintro ⟨rfl, h⟩
    cases h with
    | mk h hrest => exact .cons h hrest

end Separated

/-! ### Phrases and sentences -/

/-- The sign of a mode as a token. -/
def Mode.token : Mode → Token
  | .input => .plus
  | .output => .minus
  | .ground => .hash

/-- A constant is a name. -/
def ConstantPhrase (tokens : List Token) (constant : String) : Prop := tokens = [.name constant]

/-- The tokens of an argument specification. -/
inductive ArgSpec.Phrase : List Token → ArgSpec → Prop
  | plain (type : String) : Phrase [.name type] (.typed none type)
  | signed (mode : Mode) (type : String) : Phrase [mode.token, .name type] (.typed (some mode) type)
  | oneOf {tokens : List Token} {constants : List String}
      (h : Separated .semicolon ConstantPhrase tokens constants) :
      Phrase (.openBracket :: (tokens ++ [.closeBracket])) (.oneOf constants)

namespace ModeDecl

/-- The tokens of a declaration without its period. -/
inductive Phrase : List Token → ModeDecl → Prop
  | mk (name : String) {tokens : List Token} {args : List ArgSpec}
      (h : Separated .comma ArgSpec.Phrase tokens args) :
      Phrase (.name name :: .openParen :: (tokens ++ [.closeParen])) ⟨name, args⟩

/-- The tokens of a declaration, which may end with a period. -/
inductive Sentence : List Token → ModeDecl → Prop
  | plain {tokens : List Token} {decl : ModeDecl} (h : Phrase tokens decl) : Sentence tokens decl
  | closed {tokens : List Token} {decl : ModeDecl} (h : Phrase tokens decl) :
      Sentence (tokens ++ [.period]) decl

/-- The tokens of declarations one after another. -/
inductive Sentences : List Token → List ModeDecl → Prop
  | nil : Sentences [] []
  | cons {tokens rest : List Token} {decl : ModeDecl} {decls : List ModeDecl}
      (h : Sentence tokens decl) (hrest : Sentences rest decls) :
      Sentences (tokens ++ rest) (decl :: decls)

theorem Sentence.exists_phrase {tokens : List Token} {decl : ModeDecl} (h : Sentence tokens decl) :
    ∃ body closing, tokens = body ++ closing ∧ Phrase body decl ∧
      (closing = [] ∨ closing = [.period]) := by
  cases h with
  | plain h => exact ⟨tokens, [], by simp, h, .inl rfl⟩
  | closed h => exact ⟨_, _, rfl, h, .inr rfl⟩

theorem Phrase.sentence {body closing : List Token} {decl : ModeDecl} (h : Phrase body decl)
    (hclosing : closing = [] ∨ closing = [.period]) : Sentence (body ++ closing) decl := by
  rcases hclosing with rfl | rfl
  · rw [List.append_nil]
    exact .plain h
  · exact .closed h

end ModeDecl

/-! ### Languages of states -/

section Machine

variable {σ α : Type}

/-- What must follow a token, by a language for every state. -/
def Reading.Ends (L : σ → List Token → α → Prop) (tokens : List Token) (value : α) :
    Reading σ α → Prop
  | .more state => L state tokens value
  | .done found => tokens = [] ∧ value = found
  | .refused => False

/-- A language for every state of a machine: the sequences of tokens that complete what was read, with
what they make of it.  A token takes the language of a state to that of the next one, and every state
can be completed. -/
structure Residuals (read : σ → Token → Reading σ α) (L : σ → List Token → α → Prop) : Prop where
  not_nil : ∀ state value, ¬L state [] value
  cons_iff : ∀ state t tokens value, L state (t :: tokens) value ↔ (read state t).Ends L tokens value
  completes : ∀ state, ∃ tokens value, L state tokens value ∧ ∀ t ∈ tokens, t.Writable

namespace Residuals

variable {read : σ → Token → Reading σ α} {L : σ → List Token → α → Prop}

/-- What completes a state at the beginning of some tokens takes the first of them. -/
theorem exists_cons (h : Residuals read L) {state : σ} {t : Token} {tokens used rest : List Token}
    {value : α} (hused : L state used value) (heq : t :: tokens = used ++ rest) :
    ∃ tail, used = t :: tail ∧ tokens = tail ++ rest ∧ (read state t).Ends L tail value := by
  cases used with
  | nil => exact absurd hused (h.not_nil state value)
  | cons first tail =>
      obtain ⟨rfl, htail⟩ := List.cons.inj heq
      exact ⟨tail, rfl, htail, (h.cons_iff _ _ _ _).1 hused⟩

/-- A run reads the beginning of the tokens that is of the language of its state. -/
theorem readTokens_eq_ok_iff (h : Residuals read L) {size : Nat} {state : σ} {value : α}
    {lexemes rest : List Lexeme} :
    readTokens read size state lexemes = .ok (value, rest) ↔
      ∃ used, lexemes = used ++ rest ∧ L state (used.map Lexeme.token) value := by
  induction lexemes generalizing state with
  | nil =>
      constructor
      · intro heq
        cases heq
      · rintro ⟨used, heq, hused⟩
        rw [(List.append_eq_nil_iff.1 heq.symm).1] at hused
        exact absurd hused (h.not_nil state value)
  | cons l lexemes ih =>
      have hsplit : (∃ used, l :: lexemes = used ++ rest ∧ L state (used.map Lexeme.token) value) ↔
          ∃ used, lexemes = used ++ rest ∧
            (read state l.token).Ends L (used.map Lexeme.token) value := by
        constructor
        · rintro ⟨used, heq, hused⟩
          cases used with
          | nil => exact absurd hused (h.not_nil state value)
          | cons first used =>
              obtain ⟨rfl, htail⟩ := List.cons.inj heq
              exact ⟨used, htail, (h.cons_iff _ _ _ _).1 hused⟩
        · rintro ⟨used, rfl, hused⟩
          exact ⟨l :: used, rfl, (h.cons_iff _ _ _ _).2 hused⟩
      rw [hsplit, readTokens]
      cases read state l.token with
      | more next => exact ih
      | done found =>
          constructor
          · intro heq
            cases heq
            exact ⟨[], rfl, rfl, rfl⟩
          · rintro ⟨used, rfl, hnil, rfl⟩
            rw [List.map_eq_nil_iff.1 hnil]
            rfl
      | refused =>
          constructor
          · intro heq
            cases heq
          · rintro ⟨used, -, hused⟩
            exact hused.elim

/-- A run that fails stops at the end of the tokens, all of which can be gone on with, or at the first
token after which nothing can be completed. -/
theorem readTokens_eq_error (h : Residuals read L) {size : Nat} {state : σ} {lexemes : List Lexeme}
    {e : ReadError} (he : readTokens read size state lexemes = .error e) :
    (e = .atEnd size ∧ ∃ more value, L state (lexemes.map Lexeme.token ++ more) value ∧
      ∀ t ∈ more, t.Writable) ∨
    ∃ before l after, lexemes = before ++ l :: after ∧ e = .refusing l ∧
      (∃ more value, L state (before.map Lexeme.token ++ more) value ∧ ∀ t ∈ more, t.Writable) ∧
      ∀ used rest more value, before.map Lexeme.token ++ l.token :: more = used ++ rest →
        ¬L state used value := by
  induction lexemes generalizing state with
  | nil =>
      cases he
      exact .inl ⟨rfl, h.completes state⟩
  | cons l lexemes ih =>
      rw [readTokens] at he
      split at he
      · rename_i next hnext
        -- a token before the place of the error takes every language to the next one
        have hstep : ∀ tokens value, L next tokens value → L state (l.token :: tokens) value := by
          intro tokens value hL
          rw [h.cons_iff, hnext]
          exact hL
        rcases ih he with ⟨rfl, more, value, hL, hmore⟩ |
          ⟨before, l', after, rfl, rfl, ⟨more, value, hL, hmore⟩, hstuck⟩
        · exact .inl ⟨rfl, more, value, hstep _ _ hL, hmore⟩
        · refine .inr ⟨l :: before, l', after, rfl, rfl, ⟨more, value, hstep _ _ hL, hmore⟩, ?_⟩
          intro used rest more value heq hused
          obtain ⟨tail, rfl, htail, hends⟩ := h.exists_cons hused heq
          rw [hnext] at hends
          exact hstuck tail rest more value htail hends
      · cases he
      · rename_i hrefused
        cases he
        refine .inr ⟨[], l, lexemes, rfl, rfl, h.completes state, ?_⟩
        intro used rest more value heq hused
        obtain ⟨tail, rfl, -, hends⟩ := h.exists_cons hused heq
        rw [hrefused] at hends
        exact hends

/-- No reading is the beginning of another one. -/
theorem unique (h : Residuals read L) {state : σ} {used used' rest rest' : List Token} {a a' : α}
    (hused : L state used a) (hused' : L state used' a') (heq : used ++ rest = used' ++ rest') :
    used = used' ∧ rest = rest' ∧ a = a' := by
  induction used generalizing state used' with
  | nil => exact absurd hused (h.not_nil state a)
  | cons t used ih =>
      obtain ⟨tail, rfl, htail, hends⟩ := h.exists_cons hused' heq
      rw [h.cons_iff] at hused
      cases hread : read state t with
      | more next =>
          rw [hread] at hused hends
          obtain ⟨rfl, hrest, ha⟩ := ih hused hends htail
          exact ⟨rfl, hrest, ha⟩
      | done found =>
          rw [hread] at hused hends
          obtain ⟨rfl, rfl⟩ := hused
          obtain ⟨rfl, rfl⟩ := hends
          exact ⟨rfl, htail, rfl⟩
      | refused =>
          rw [hread] at hused
          exact hused.elim

end Residuals

end Machine

/-! ### Arguments -/

/-- The tokens that complete a partly read argument. -/
def ArgState.Finishes : ArgState → List Token → ArgSpec → Prop
  | .fresh, tokens, arg => ArgSpec.Phrase tokens arg
  | .signed mode, tokens, arg => ∃ type, tokens = [.name type] ∧ arg = .typed (some mode) type
  | .listing known, tokens, arg => ∃ body constants, tokens = body ++ [.closeBracket] ∧
      Separated .semicolon ConstantPhrase body constants ∧ arg = .oneOf (known ++ constants)
  | .listed known, tokens, arg => ∃ body constants, tokens = body ++ [.closeBracket] ∧
      Tail .semicolon ConstantPhrase body constants ∧ arg = .oneOf (known ++ constants)

/-- A sequence up to a closing mark begins with the mark, or with a token of the sequence. -/
theorem exists_closed_cons_iff {β : Type} {mark t : Token} {tokens : List Token}
    {P : List Token → β → Prop} {Q : β → Prop} :
    (∃ body b, t :: tokens = body ++ [mark] ∧ P body b ∧ Q b) ↔
      (t = mark ∧ tokens = [] ∧ ∃ b, P [] b ∧ Q b) ∨
        ∃ body b, tokens = body ++ [mark] ∧ P (t :: body) b ∧ Q b := by
  constructor
  · rintro ⟨body, b, heq, hP, hQ⟩
    cases body with
    | nil =>
        cases heq
        exact .inl ⟨rfl, rfl, b, hP, hQ⟩
    | cons first body =>
        obtain ⟨rfl, htail⟩ := List.cons.inj heq
        exact .inr ⟨body, b, htail, hP, hQ⟩
  · rintro (⟨rfl, rfl, b, hP, hQ⟩ | ⟨body, b, rfl, hP, hQ⟩)
    · exact ⟨[], b, rfl, hP, hQ⟩
    · exact ⟨t :: body, b, rfl, hP, hQ⟩

theorem not_separated_constant_nil {constants : List String} :
    ¬Separated .semicolon ConstantPhrase [] constants := by
  intro h
  obtain ⟨first, rest, constant, others, hfirst, -, heq, -⟩ := (separated_iff _ _ _ _).1 h
  rw [hfirst] at heq
  cases heq

theorem separated_constant_cons_iff {t : Token} {tokens : List Token} {constants : List String} :
    Separated .semicolon ConstantPhrase (t :: tokens) constants ↔
      ∃ constant others, t = .name constant ∧ constants = constant :: others ∧
        Tail .semicolon ConstantPhrase tokens others := by
  constructor
  · intro h
    obtain ⟨first, rest, constant, others, hfirst, hrest, heq, rfl⟩ := (separated_iff _ _ _ _).1 h
    rw [hfirst] at heq
    obtain ⟨rfl, rfl⟩ := List.cons.inj heq
    exact ⟨constant, others, rfl, rfl, hrest⟩
  · rintro ⟨constant, others, rfl, rfl, hrest⟩
    have hfirst : ConstantPhrase [.name constant] constant := rfl
    have h := Separated.mk hfirst hrest
    exact h

theorem ArgSpec.phrase_cons_iff {t : Token} {tokens : List Token} {arg : ArgSpec} :
    Phrase (t :: tokens) arg ↔
      (∃ type, t = .name type ∧ tokens = [] ∧ arg = .typed none type) ∨
      (∃ mode, t = Mode.token mode ∧ ArgState.Finishes (.signed mode) tokens arg) ∨
      t = .openBracket ∧ ArgState.Finishes (.listing []) tokens arg := by
  constructor
  · intro h
    cases h with
    | plain type => exact .inl ⟨type, rfl, rfl, rfl⟩
    | signed mode type => exact .inr (.inl ⟨mode, rfl, type, rfl, rfl⟩)
    | oneOf h => exact .inr (.inr ⟨rfl, _, _, rfl, h, rfl⟩)
  · rintro (⟨type, rfl, rfl, rfl⟩ | ⟨mode, rfl, type, rfl, rfl⟩ | ⟨rfl, body, constants, rfl, h, rfl⟩)
    · exact .plain type
    · exact .signed mode type
    · exact .oneOf h

namespace ArgState

theorem finishes_cons_iff (state : ArgState) (t : Token) (tokens : List Token) (arg : ArgSpec) :
    state.Finishes (t :: tokens) arg ↔ (state.read t).Ends Finishes tokens arg := by
  cases state with
  | fresh =>
      have hmode : ∀ {p : Mode → Prop}, (∃ mode, p mode) ↔ p .input ∨ p .output ∨ p .ground := by
        intro p
        constructor
        · rintro ⟨⟨⟩, h⟩ <;> simp [h]
        · rintro (h | h | h) <;> exact ⟨_, h⟩
      rw [Finishes, ArgSpec.phrase_cons_iff, hmode]
      cases t <;> simp [read, Reading.Ends, Mode.token]
  | signed mode =>
      cases t <;> simp [read, Reading.Ends, Finishes]
  | listing known =>
      rw [Finishes, exists_closed_cons_iff]
      cases t <;>
        simp [read, Reading.Ends, Finishes, not_separated_constant_nil, separated_constant_cons_iff]
  | listed known =>
      rw [Finishes, exists_closed_cons_iff]
      cases t <;> simp [read, Reading.Ends, Finishes, tail_nil_iff, tail_cons_iff]

theorem residuals : Residuals read Finishes where
  not_nil state arg h := by
    cases state with
    | fresh =>
        cases h
    | signed mode =>
        obtain ⟨type, heq, -⟩ := h
        cases heq
    | listing known =>
        obtain ⟨body, constants, heq, -⟩ := h
        simp at heq
    | listed known =>
        obtain ⟨body, constants, heq, -⟩ := h
        simp at heq
  cons_iff := finishes_cons_iff
  completes state := by
    have hname : (Token.name "x").Writable := ⟨(by decide : isName "x" = true), rfl⟩
    have hclose : Token.closeBracket.Writable := ⟨trivial, rfl⟩
    cases state with
    | fresh => exact ⟨[.name "x"], _, .plain "x", by simp [hname]⟩
    | signed mode => exact ⟨[.name "x"], _, ⟨"x", rfl, rfl⟩, by simp [hname]⟩
    | listing known =>
        have hconstants : Separated .semicolon ConstantPhrase [.name "x"] ["x"] :=
          separated_constant_cons_iff.2 ⟨"x", [], rfl, rfl, .nil⟩
        exact ⟨[.name "x"] ++ [.closeBracket], _, ⟨[.name "x"], ["x"], rfl, hconstants, rfl⟩,
          by simp [hname, hclose]⟩
    | listed known => exact ⟨[.closeBracket], _, ⟨[], [], rfl, .nil, rfl⟩, by simp [hclose]⟩

end ArgState

/-! ### Declarations -/

/-- The tokens that complete a partly read declaration. -/
def DeclState.Finishes : DeclState → List Token → ModeDecl → Prop
  | .fresh, tokens, decl => ModeDecl.Phrase tokens decl
  | .named name, tokens, decl => ∃ body args, tokens = .openParen :: (body ++ [.closeParen]) ∧
      Separated .comma ArgSpec.Phrase body args ∧ decl = ⟨name, args⟩
  | .inArg name known state, tokens, decl => ∃ first arg rest args,
      tokens = first ++ (rest ++ [.closeParen]) ∧ state.Finishes first arg ∧
        Tail .comma ArgSpec.Phrase rest args ∧ decl = ⟨name, known ++ arg :: args⟩
  | .afterArg name known, tokens, decl => ∃ body args, tokens = body ++ [.closeParen] ∧
      Tail .comma ArgSpec.Phrase body args ∧ decl = ⟨name, known ++ args⟩

namespace DeclState

/-- A list of arguments is an argument and what follows it. -/
theorem finishes_inArg_fresh_iff {name : String} {known : List ArgSpec} {tokens : List Token}
    {decl : ModeDecl} :
    Finishes (.inArg name known .fresh) tokens decl ↔
      ∃ body args, tokens = body ++ [.closeParen] ∧ Separated .comma ArgSpec.Phrase body args ∧
        decl = ⟨name, known ++ args⟩ := by
  constructor
  · rintro ⟨first, arg, rest, args, rfl, hfirst, hrest, rfl⟩
    exact ⟨first ++ rest, arg :: args, by rw [List.append_assoc], .mk hfirst hrest, rfl⟩
  · rintro ⟨body, args, rfl, ⟨hfirst, hrest⟩, rfl⟩
    exact ⟨_, _, _, _, List.append_assoc _ _ _, hfirst, hrest, rfl⟩

theorem finishes_inArg_cons_iff {name : String} {known : List ArgSpec} {state : ArgState} {t : Token}
    {tokens : List Token} {decl : ModeDecl} :
    Finishes (.inArg name known state) (t :: tokens) decl ↔
      ∃ first arg rest args, tokens = first ++ (rest ++ [.closeParen]) ∧
        (state.read t).Ends ArgState.Finishes first arg ∧ Tail .comma ArgSpec.Phrase rest args ∧
          decl = ⟨name, known ++ arg :: args⟩ := by
  constructor
  · rintro ⟨first, arg, rest, args, heq, hfirst, hrest, rfl⟩
    cases first with
    | nil => exact absurd hfirst (ArgState.residuals.not_nil state arg)
    | cons t' first =>
        obtain ⟨rfl, htail⟩ := List.cons.inj heq
        exact ⟨first, arg, rest, args, htail, (state.finishes_cons_iff _ _ _).1 hfirst, hrest, rfl⟩
  · rintro ⟨first, arg, rest, args, rfl, hfirst, hrest, rfl⟩
    exact ⟨t :: first, arg, rest, args, rfl, (state.finishes_cons_iff _ _ _).2 hfirst, hrest, rfl⟩

theorem finishes_fresh_cons_iff {t : Token} {tokens : List Token} {decl : ModeDecl} :
    Finishes .fresh (t :: tokens) decl ↔
      ∃ name, t = .name name ∧ Finishes (.named name) tokens decl := by
  constructor
  · rintro ⟨name, h⟩
    exact ⟨name, rfl, _, _, rfl, h, rfl⟩
  · rintro ⟨name, rfl, body, args, rfl, h, rfl⟩
    exact .mk name h

theorem finishes_named_cons_iff {name : String} {t : Token} {tokens : List Token} {decl : ModeDecl} :
    Finishes (.named name) (t :: tokens) decl ↔
      t = .openParen ∧ Finishes (.inArg name [] .fresh) tokens decl := by
  rw [finishes_inArg_fresh_iff]
  constructor
  · rintro ⟨body, args, heq, h, rfl⟩
    obtain ⟨rfl, rfl⟩ := List.cons.inj heq
    exact ⟨rfl, body, args, rfl, h, rfl⟩
  · rintro ⟨rfl, body, args, rfl, h, rfl⟩
    exact ⟨body, args, rfl, h, rfl⟩

theorem finishes_afterArg_cons_iff {name : String} {known : List ArgSpec} {t : Token}
    {tokens : List Token} {decl : ModeDecl} :
    Finishes (.afterArg name known) (t :: tokens) decl ↔
      t = .closeParen ∧ tokens = [] ∧ decl = ⟨name, known⟩ ∨
        t = .comma ∧ Finishes (.inArg name known .fresh) tokens decl := by
  rw [finishes_inArg_fresh_iff]
  refine exists_closed_cons_iff.trans ?_
  simp only [tail_nil_iff, tail_cons_iff, exists_eq_left, List.append_nil]
  refine or_congr_right ?_
  constructor
  · rintro ⟨body, args, rfl, ⟨rfl, h⟩, rfl⟩
    exact ⟨rfl, body, args, rfl, h, rfl⟩
  · rintro ⟨rfl, body, args, rfl, h, rfl⟩
    exact ⟨body, args, rfl, ⟨rfl, h⟩, rfl⟩

theorem finishes_cons_iff (state : DeclState) (t : Token) (tokens : List Token) (decl : ModeDecl) :
    state.Finishes (t :: tokens) decl ↔ (state.read t).Ends Finishes tokens decl := by
  cases state with
  | fresh =>
      rw [finishes_fresh_cons_iff]
      cases t <;> simp [read, Reading.Ends]
  | named name =>
      rw [finishes_named_cons_iff]
      cases t <;> simp [read, Reading.Ends]
  | inArg name known state =>
      rw [finishes_inArg_cons_iff, read]
      cases state.read t with
      | more next => rfl
      | done found =>
          constructor
          · rintro ⟨first, arg, rest, args, rfl, ⟨rfl, rfl⟩, hrest, rfl⟩
            exact ⟨rest, args, rfl, hrest, by simp⟩
          · rintro ⟨rest, args, rfl, hrest, rfl⟩
            exact ⟨[], found, rest, args, rfl, ⟨rfl, rfl⟩, hrest, by simp⟩
      | refused => simp [Reading.Ends]
  | afterArg name known =>
      rw [finishes_afterArg_cons_iff]
      cases t <;> simp [read, Reading.Ends]

/-- The machine of declarations follows the grammar. -/
theorem residuals : Residuals read Finishes where
  not_nil state decl h := by
    cases state with
    | fresh => cases h
    | named name =>
        obtain ⟨body, args, heq, -⟩ := h
        cases heq
    | inArg name known state =>
        obtain ⟨first, arg, rest, args, heq, -⟩ := h
        simp at heq
    | afterArg name known =>
        obtain ⟨body, args, heq, -⟩ := h
        simp at heq
  cons_iff := finishes_cons_iff
  completes state := by
    have hname : (Token.name "x").Writable := ⟨(by decide : isName "x" = true), rfl⟩
    have hopen : Token.openParen.Writable := ⟨trivial, rfl⟩
    have hclose : Token.closeParen.Writable := ⟨trivial, rfl⟩
    have hargs : Separated .comma ArgSpec.Phrase ([.name "x"] ++ []) [.typed none "x"] :=
      .mk (.plain "x") .nil
    cases state with
    | fresh =>
        exact ⟨_, _, .mk "x" hargs, by simp [hname, hopen, hclose]⟩
    | named name =>
        exact ⟨_, _, ⟨_, _, rfl, hargs, rfl⟩, by simp [hname, hopen, hclose]⟩
    | inArg name known state =>
        obtain ⟨first, arg, hfirst, hwritable⟩ := ArgState.residuals.completes state
        refine ⟨_, _, ⟨first, arg, [], [], rfl, hfirst, .nil, rfl⟩, fun t ht => ?_⟩
        rcases List.mem_append.1 ht with ht | ht
        · exact hwritable t ht
        · rw [List.mem_singleton.1 ht]
          exact hclose
    | afterArg name known =>
        exact ⟨[.closeParen], _, ⟨[], [], rfl, .nil, rfl⟩, by simp [hclose]⟩

end DeclState

/-! ### Neighbours -/

/-- Known tokens of which no two names are neighbours. -/
structure Tight (tokens : List Token) : Prop where
  chain : tokens.IsChain Token.Apart
  known : ∀ t ∈ tokens, t.isUnknown = false

/-- A mark parts what is before it from what is after it. -/
theorem tight_append_cons_iff {mark : Token} (hmark : mark.isMark = true) {before after : List Token} :
    Tight (before ++ mark :: after) ↔ Tight before ∧ Tight after := by
  have hknown : mark.isUnknown = false := by
    simp only [Token.isMark, Bool.and_eq_true, Bool.not_eq_true'] at hmark
    exact hmark.2
  constructor
  · rintro ⟨hchain, hall⟩
    obtain ⟨hbefore, hafter, -⟩ := List.isChain_append.1 hchain
    refine ⟨⟨hbefore, fun t ht => hall t (by simp [ht])⟩, ⟨?_, fun t ht => hall t (by simp [ht])⟩⟩
    exact (List.isChain_cons.1 hafter).2
  · rintro ⟨hbefore, hafter⟩
    refine ⟨List.isChain_append.2 ⟨hbefore.chain, List.isChain_cons.2 ⟨?_, hafter.chain⟩, ?_⟩, ?_⟩
    · exact fun t ht => Token.apart_of_isMark_left hmark t
    · intro t ht m hm
      rw [← Option.mem_some_iff.1 hm]
      exact Token.apart_of_isMark_right hmark t
    · intro t ht
      rcases List.mem_append.1 ht with ht | ht
      · exact hbefore.known t ht
      · rcases List.mem_cons.1 ht with rfl | ht
        · exact hknown
        · exact hafter.known t ht

theorem tight_cons_iff {mark : Token} (hmark : mark.isMark = true) {after : List Token} :
    Tight (mark :: after) ↔ Tight after := by
  have h : Tight ([] ++ mark :: after) ↔ Tight [] ∧ Tight after := tight_append_cons_iff hmark
  exact h.trans (and_iff_right ⟨.nil, by simp⟩)

theorem tight_name (name : String) : Tight [.name name] :=
  ⟨.singleton _, by simp [Token.isUnknown]⟩

theorem Tail.tight {α : Type} {sep : Token} {R : List Token → α → Prop} (hsep : sep.isMark = true)
    (hR : ∀ tokens a, R tokens a → Tight tokens) {rest : List Token} {as : List α}
    (h : Tail sep R rest as) {first : List Token} (hfirst : Tight first) : Tight (first ++ rest) := by
  induction h generalizing first with
  | nil => rwa [List.append_nil]
  | cons hnext hrest ih => exact (tight_append_cons_iff hsep).2 ⟨hfirst, ih (hR _ _ hnext)⟩

theorem Separated.tight {α : Type} {sep : Token} {R : List Token → α → Prop} (hsep : sep.isMark = true)
    (hR : ∀ tokens a, R tokens a → Tight tokens) {tokens : List Token} {as : List α}
    (h : Separated sep R tokens as) : Tight tokens := by
  cases h with
  | mk hfirst hrest => exact hrest.tight hsep hR (hR _ _ hfirst)

theorem ArgSpec.Phrase.tight {tokens : List Token} {arg : ArgSpec} (h : Phrase tokens arg) :
    Tight tokens := by
  cases h with
  | plain type => exact tight_name type
  | signed mode type => exact (tight_cons_iff (by cases mode <;> rfl)).2 (tight_name type)
  | oneOf h =>
      have hconstants := h.tight rfl fun tokens constant h => by
        rw [h]
        exact tight_name constant
      exact (tight_cons_iff rfl).2 ((tight_append_cons_iff rfl).2 ⟨hconstants, .nil, by simp⟩)

/-! ### Sequences of declarations -/

namespace ModeDecl

theorem Phrase.tight {tokens : List Token} {decl : ModeDecl} (h : Phrase tokens decl) :
    Tight tokens := by
  cases h with
  | @mk name body args h =>
      have hargs := h.tight rfl fun _ _ => ArgSpec.Phrase.tight
      have hlist : Tight (body ++ [.closeParen]) :=
        (tight_append_cons_iff rfl).2 ⟨hargs, .nil, by simp⟩
      have hphrase : Tight ([.name name] ++ .openParen :: (body ++ [.closeParen])) :=
        (tight_append_cons_iff rfl).2 ⟨tight_name name, hlist⟩
      exact hphrase

/-- A declaration ends with a mark. -/
theorem Sentence.exists_append_mark {tokens : List Token} {decl : ModeDecl}
    (h : Sentence tokens decl) :
    ∃ before mark, tokens = before ++ [mark] ∧ mark.isMark = true := by
  cases h with
  | plain h =>
      cases h with
      | mk name h => exact ⟨_ :: _ :: _, .closeParen, rfl, rfl⟩
  | closed h => exact ⟨_, .period, rfl, rfl⟩

theorem Sentence.tight {tokens : List Token} {decl : ModeDecl} (h : Sentence tokens decl) :
    Tight tokens := by
  cases h with
  | plain h => exact h.tight
  | closed h => exact (tight_append_cons_iff rfl).2 ⟨h.tight, .nil, by simp⟩

/-- A sequence of declarations holds no two names in a row. -/
theorem Sentences.tight {tokens : List Token} {decls : List ModeDecl} (h : Sentences tokens decls) :
    Tight tokens := by
  induction h with
  | nil => exact ⟨.nil, by simp⟩
  | cons h hrest ih =>
      obtain ⟨before, mark, rfl, hmark⟩ := h.exists_append_mark
      rw [List.append_assoc]
      exact (tight_append_cons_iff hmark).2 ⟨((tight_append_cons_iff hmark).1 h.tight).1, ih⟩

theorem Sentence.ne_nil {tokens : List Token} {decl : ModeDecl} (h : Sentence tokens decl) :
    tokens ≠ [] := by
  obtain ⟨before, mark, rfl, -⟩ := h.exists_append_mark
  simp

theorem Sentence.sentences {tokens : List Token} {decl : ModeDecl} (h : Sentence tokens decl) :
    Sentences tokens [decl] := by
  rw [← List.append_nil tokens]
  exact .cons h .nil

theorem Sentences.eq_nil {tokens : List Token} (h : Sentences tokens []) : tokens = [] := by
  cases h
  rfl

theorem sentences_nil_iff {decls : List ModeDecl} : Sentences [] decls ↔ decls = [] := by
  constructor
  · intro h
    generalize htokens : [] = tokens at h
    cases h with
    | nil => rfl
    | cons h hrest => exact absurd (List.append_eq_nil_iff.1 htokens.symm).1 h.ne_nil
  · rintro rfl
    exact .nil

/-- Every sequence of declarations begins with one. -/
theorem Sentences.exists_phrase {tokens : List Token} {decls : List ModeDecl}
    (h : Sentences tokens decls) (hne : tokens ≠ []) :
    ∃ body rest decl, tokens = body ++ rest ∧ Phrase body decl := by
  cases h with
  | nil => exact absurd rfl hne
  | @cons tokens rest decl decls h hrest =>
      obtain ⟨body, closing, rfl, hbody, -⟩ := h.exists_phrase
      exact ⟨body, closing ++ rest, decl, by rw [List.append_assoc], hbody⟩

/-- Every sequence of declarations begins with a name. -/
theorem Sentences.not_period {tokens : List Token} {decls : List ModeDecl}
    (h : Sentences tokens decls) : tokens.head? ≠ some .period := by
  cases h with
  | nil => simp
  | cons h hrest =>
      obtain ⟨body, closing, rfl, hbody, -⟩ := h.exists_phrase
      cases hbody
      simp

/-- A language that holds every declaration and of which every sequence begins with one. -/
structure Language (A : List Token → Prop) : Prop where
  of_phrase : ∀ {tokens : List Token} {decl : ModeDecl}, Phrase tokens decl → A tokens
  exists_phrase : ∀ {tokens : List Token}, A tokens → tokens ≠ [] →
    ∃ body rest decl, tokens = body ++ rest ∧ Phrase body decl
  tight : ∀ {tokens : List Token}, A tokens → Tight tokens

theorem language_sentence : Language fun tokens => ∃ decl, Sentence tokens decl where
  of_phrase h := ⟨_, .plain h⟩
  exists_phrase := by
    rintro tokens ⟨decl, h⟩ -
    obtain ⟨body, closing, heq, hbody, -⟩ := h.exists_phrase
    exact ⟨body, closing, decl, heq, hbody⟩
  tight := by
    rintro tokens ⟨decl, h⟩
    exact h.tight

theorem language_sentences : Language fun tokens => ∃ decls, Sentences tokens decls where
  of_phrase h := ⟨_, (Sentence.plain h).sentences⟩
  exists_phrase := by
    rintro tokens ⟨decls, h⟩ hne
    exact h.exists_phrase hne
  tight := by
    rintro tokens ⟨decls, h⟩
    exact h.tight

/-- The optional period that is taken from before the rest. -/
def TakesPeriod (closing rest : List Token) : Prop :=
  closing = [.period] ∨ closing = [] ∧ rest.head? ≠ some .period

theorem TakesPeriod.eq_nil_or {closing rest : List Token} (h : TakesPeriod closing rest) :
    closing = [] ∨ closing = [.period] := by
  rcases h with h | ⟨h, -⟩
  · exact .inr h
  · exact .inl h

/-- Whether there is a period is seen on the first token. -/
theorem takesPeriod_append_iff {closing tokens more : List Token} (hne : tokens ≠ []) :
    TakesPeriod closing (tokens ++ more) ↔ TakesPeriod closing tokens := by
  rw [TakesPeriod, TakesPeriod, List.head?_append_of_ne_nil _ hne]

/-- A declaration at the beginning of a sequence is the first one, and a period after it belongs to
it. -/
theorem sentences_append_iff {body closing rest : List Token} {decl : ModeDecl}
    {decls : List ModeDecl} (hbody : Phrase body decl) (hclosing : TakesPeriod closing rest) :
    Sentences (body ++ (closing ++ rest)) decls ↔
      ∃ others, decls = decl :: others ∧ Sentences rest others := by
  constructor
  · intro h
    generalize htokens : body ++ (closing ++ rest) = tokens at h
    cases h with
    | nil => exact absurd ((List.append_eq_nil_iff.1 htokens).1 ▸ hbody) (by rintro ⟨⟩)
    | @cons first others decl' decls' hfirst hothers =>
        obtain ⟨body', closing', rfl, hbody', hclosing'⟩ := hfirst.exists_phrase
        rw [List.append_assoc] at htokens
        have hfresh : DeclState.Finishes .fresh body decl := hbody
        obtain ⟨rfl, htokens, rfl⟩ := DeclState.residuals.unique hfresh hbody' htokens
        refine ⟨decls', rfl, ?_⟩
        -- both take a period, or both take none
        rcases hclosing with rfl | ⟨rfl, hperiod⟩ <;> rcases hclosing' with rfl | rfl
        · obtain rfl : .period :: rest = others := htokens
          exact absurd rfl hothers.not_period
        · rwa [List.append_cancel_left htokens]
        · rwa [List.append_cancel_left htokens]
        · obtain rfl : rest = .period :: others := htokens
          exact absurd rfl hperiod
  · rintro ⟨others, rfl, hothers⟩
    rw [← List.append_assoc]
    exact .cons (hbody.sentence hclosing.eq_nil_or) hothers

/-- Nothing but a period may follow a declaration in a sentence. -/
theorem not_sentence_append {body closing rest : List Token} {decl decl' : ModeDecl}
    (hbody : Phrase body decl) (hclosing : TakesPeriod closing rest) (hne : rest ≠ []) :
    ¬Sentence (body ++ (closing ++ rest)) decl' := by
  intro h
  obtain ⟨others, hothers, hnext⟩ := (sentences_append_iff hbody hclosing).1 h.sentences
  obtain rfl : others = [] := (List.cons.inj hothers).2.symm
  exact hne hnext.eq_nil

end ModeDecl

end ClauseForest
