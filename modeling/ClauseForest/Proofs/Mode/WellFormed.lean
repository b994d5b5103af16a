/-
**Declarations that can be read**

What is read from a text is built of names only: every predicate, every type and every constant is a
token that the text holds, there is at least one argument, and no list of constants is empty.

The reader takes one token at a time.  So it is enough that every state on the way is built of
names, which is what one token preserves; a fact about whole texts follows by induction on their
tokens.

Main definitions:

* `isName` — the texts that are name tokens;
* `ModeDecl.WellFormed` — a declaration that is built of names;
* `ModeDecl.IsRead` — a declaration that is read from some text.

Main results:

* `of_readTokens` — what every token preserves holds of what is read;
* `ModeDecl.wellFormed_of_isRead` — **whatever is read is well formed**.
-/

import ClauseForest.Mode.Reader
import ClauseForest.Proofs.Outcome

set_option relaxedAutoImplicit false
set_option autoImplicit false

namespace ClauseForest

/-! ### Names -/

/-- Whether a text is a name token. -/
def isName (text : String) : Bool :=
  match text.toList with
  | [] => false
  | c :: rest => Lexeme.startsName c && rest.all Lexeme.continuesName

theorem Lexeme.continuesName_of_startsName {c : Char} (h : startsName c = true) :
    continuesName c = true := by
  simp [continuesName, h]

/-- A name is a character that starts names, and more that continue them. -/
theorem exists_cons_of_isName {text : String} (h : isName text = true) :
    ∃ c rest, text.toList = c :: rest ∧ Lexeme.startsName c = true ∧
      ∀ d ∈ rest, Lexeme.continuesName d = true := by
  unfold isName at h
  split at h
  · cases h
  · rename_i c rest heq
    rw [Bool.and_eq_true, List.all_eq_true] at h
    exact ⟨c, rest, heq, h⟩

theorem continuesName_of_isName {text : String} (h : isName text = true) :
    ∀ c ∈ text.toList, Lexeme.continuesName c = true := by
  obtain ⟨first, rest, heq, hfirst, hrest⟩ := exists_cons_of_isName h
  rw [heq, List.forall_mem_cons]
  exact ⟨Lexeme.continuesName_of_startsName hfirst, hrest⟩

/-- Every name token is a name. -/
def Token.NamesAreNames : Token → Prop
  | .name text => isName text = true
  | _ => True

theorem Lexeme.namesAreNames_ofChars (start : Nat) (text : List Char) :
    ∀ l ∈ ofChars start text, l.token.NamesAreNames := by
  fun_induction ofChars start text with
  | case1 => simp
  | case2 start c rest hgap ih => exact ih
  | case3 start c rest hgap hname name stop ih =>
      intro l hl
      rcases List.mem_cons.1 hl with rfl | hl
      · simp [Token.NamesAreNames, isName, name, hname]
      · exact ih l hl
  | case4 start c rest hgap hname ih =>
      intro l hl
      rcases List.mem_cons.1 hl with rfl | hl
      · unfold Token.ofChar
        split <;> trivial
      · exact ih l hl

/-! ### Declarations -/

/-- An argument specification that is built of names. -/
def ArgSpec.WellFormed : ArgSpec → Prop
  | .typed _ type => isName type = true
  | .oneOf constants => constants ≠ [] ∧ ∀ constant ∈ constants, isName constant = true

/-- A declaration that is built of names. -/
structure ModeDecl.WellFormed (decl : ModeDecl) : Prop where
  name : isName decl.name = true
  args_ne_nil : decl.args ≠ []
  args : ∀ arg ∈ decl.args, arg.WellFormed

/-- A declaration that is read from some text, alone or among others. -/
def ModeDecl.IsRead (decl : ModeDecl) : Prop :=
  ∃ text, parse text = .ok decl ∨ ∃ decls, parseAll text = .ok decls ∧ decl ∈ decls

/-! ### The machine -/

section Machine

variable {σ α : Type} {read : σ → Token → Reading σ α} {I : σ → Prop} {D : α → Prop}
  {T : Token → Prop}

/-- Whatever a token makes of a state has its property. -/
def Reading.Keeps (I : σ → Prop) (D : α → Prop) : Reading σ α → Prop
  | .more state => I state
  | .done value => D value
  | .refused => True

/-- What every token preserves holds of what is read. -/
theorem of_readTokens (hread : ∀ state token, I state → T token → (read state token).Keeps I D)
    {size : Nat} {state : σ} {tokens rest : List Lexeme} {value : α} (hstate : I state)
    (htokens : ∀ l ∈ tokens, T l.token)
    (h : readTokens read size state tokens = .ok (value, rest)) :
    D value ∧ ∀ l ∈ rest, T l.token := by
  induction tokens generalizing state with
  | nil => cases h
  | cons l tokens ih =>
      have hl := hread state l.token hstate (htokens l (by simp))
      have htail : ∀ l ∈ tokens, T l.token :=
        fun other hother => htokens other (List.mem_cons_of_mem _ hother)
      rw [readTokens] at h
      split at h
      · rename_i next hnext
        rw [hnext] at hl
        exact ih hl htail h
      · rename_i found hfound
        rw [hfound] at hl
        cases h
        exact ⟨hl, htail⟩
      · cases h

end Machine

/-- What was read of an argument is built of names. -/
def ArgState.WellFormed : ArgState → Prop
  | .fresh | .signed _ => True
  | .listing constants => ∀ constant ∈ constants, isName constant = true
  | .listed constants => constants ≠ [] ∧ ∀ constant ∈ constants, isName constant = true

theorem ArgState.keeps_read (state : ArgState) (token : Token) (hstate : state.WellFormed)
    (htoken : token.NamesAreNames) : (state.read token).Keeps WellFormed ArgSpec.WellFormed := by
  unfold ArgState.read
  split <;> try trivial
  · exact fun constant hconstant => absurd hconstant (by simp)
  · rename_i constants constant
    refine ⟨by simp, fun other hother => ?_⟩
    rcases List.mem_append.1 hother with hother | hother
    · exact hstate other hother
    · rw [List.mem_singleton.1 hother]
      exact htoken
  · exact hstate.2

/-- What was read of a declaration is built of names. -/
def DeclState.WellFormed : DeclState → Prop
  | .fresh => True
  | .named name => isName name = true
  | .inArg name args state =>
    isName name = true ∧ (∀ arg ∈ args, arg.WellFormed) ∧ state.WellFormed
  | .afterArg name args => isName name = true ∧ args ≠ [] ∧ ∀ arg ∈ args, arg.WellFormed

theorem DeclState.keeps_read (state : DeclState) (token : Token) (hstate : state.WellFormed)
    (htoken : token.NamesAreNames) : (state.read token).Keeps WellFormed ModeDecl.WellFormed := by
  unfold DeclState.read
  split
  · exact htoken
  · exact ⟨hstate, by simp, trivial⟩
  · rename_i name args state
    obtain ⟨hname, hargs, hstate⟩ := hstate
    have harg := state.keeps_read token hstate htoken
    split
    · rename_i next hnext
      rw [hnext] at harg
      exact ⟨hname, hargs, harg⟩
    · rename_i arg hnext
      rw [hnext] at harg
      refine ⟨hname, by simp, fun other hother => ?_⟩
      rcases List.mem_append.1 hother with hother | hother
      · exact hargs other hother
      · rw [List.mem_singleton.1 hother]
        exact harg
    · trivial
  · exact ⟨hstate.1, hstate.2.2, trivial⟩
  · exact ⟨hstate.1, hstate.2.1, hstate.2.2⟩
  · trivial

/-! ### Texts -/

namespace ModeDecl

theorem wellFormed_of_readTokens {size : Nat} {tokens rest : List Lexeme} {decl : ModeDecl}
    (htokens : ∀ l ∈ tokens, l.token.NamesAreNames)
    (h : readTokens DeclState.read size .fresh tokens = .ok (decl, rest)) :
    decl.WellFormed ∧ ∀ l ∈ rest, l.token.NamesAreNames :=
  have hfresh : DeclState.WellFormed .fresh := trivial
  of_readTokens DeclState.keeps_read hfresh htokens h

theorem wellFormed_of_parse {text : String} {decl : ModeDecl} (h : parse text = .ok decl) :
    decl.WellFormed := by
  unfold parse at h
  obtain ⟨⟨found, rest⟩, hread, h⟩ := bind_eq_ok_iff.1 h
  obtain ⟨-, -, h⟩ := bind_eq_ok_iff.1 h
  cases h
  exact (wellFormed_of_readTokens (Lexeme.namesAreNames_ofChars _ _) hread).1

theorem mem_skipPeriod {l : Lexeme} {tokens : List Lexeme} (h : l ∈ skipPeriod tokens) :
    l ∈ tokens := by
  cases tokens with
  | nil => cases h
  | cons first rest =>
      rw [skipPeriod] at h
      split at h
      · exact List.mem_cons_of_mem _ h
      · exact h

theorem wellFormed_of_readAll {size : Nat} {tokens : List Lexeme} {decls : List ModeDecl}
    (htokens : ∀ l ∈ tokens, l.token.NamesAreNames) (h : readAll size tokens = .ok decls) :
    ∀ decl ∈ decls, decl.WellFormed := by
  fun_induction readAll size tokens generalizing decls with
  | case1 =>
      cases h
      simp
  | case2 l tokens e hread => cases h
  | case3 l tokens decl rest hread ih =>
      obtain ⟨others, hothers, rfl⟩ := map_eq_ok_iff.1 h
      obtain ⟨hdecl, hrest⟩ := wellFormed_of_readTokens htokens hread
      intro other hother
      rcases List.mem_cons.1 hother with rfl | hother
      · exact hdecl
      · exact ih (fun l hl => hrest l (mem_skipPeriod hl)) hothers other hother

/-- Whatever is read is well formed. -/
theorem wellFormed_of_isRead {decl : ModeDecl} (h : decl.IsRead) : decl.WellFormed := by
  obtain ⟨text, hparse | ⟨decls, hparse, hmem⟩⟩ := h
  · exact wellFormed_of_parse hparse
  · exact wellFormed_of_readAll (Lexeme.namesAreNames_ofChars _ _) hparse decl hmem

/-- The name of a declaration that is read opens no argument list. -/
theorem WellFormed.not_mem_name {decl : ModeDecl} (h : decl.WellFormed) :
    '(' ∉ decl.name.toList :=
  fun hmem => absurd (continuesName_of_isName h.name _ hmem) (by decide)

end ModeDecl

end ClauseForest
