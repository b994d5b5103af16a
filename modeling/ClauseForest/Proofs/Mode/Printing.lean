/-
**Declarations that are read back**

The written form of a declaration is its tokens one after another without a gap.  These are a sentence of
the grammar exactly if the declaration is built of names, and they are what the text is cut into wherever
gaps are put between them.  So the written form is read back exactly for such declarations; and a list of
them is read back from every text that writes their tokens in order, with gaps anywhere and a period
after any of them.

Main definitions:

* `ArgSpec.tokens`, `ModeDecl.tokens` — the tokens of a declaration.

Main results:

* `ModeDecl.toList_render` — the written form consists of the tokens;
* `ModeDecl.WellFormed.phrase`, `ModeDecl.WellFormed.namesAreNames` — they are a phrase of names;
* `ModeDecl.parse_render_iff_wellFormed` — **what is written is read back**, if it is built of names.
-/

import ClauseForest.Proofs.Mode.Reading

set_option relaxedAutoImplicit false
set_option autoImplicit false

namespace ClauseForest

/-! ### Joined sequences -/

section Intercalate

variable {α β : Type}

/-- A separator stands before every part but the first. -/
theorem intercalate_cons_eq_flatMap (sep : List α) (first : List α) (parts : List (List α)) :
    sep.intercalate (first :: parts) = first ++ parts.flatMap (sep ++ ·) := by
  induction parts generalizing first with
  | nil => simp
  | cons next parts ih =>
      rw [List.intercalate_cons_cons, ih next, List.flatMap_cons]
      simp only [List.append_assoc]

theorem flatMap_intercalate (f : α → List β) (sep : List α) (parts : List (List α)) :
    (sep.intercalate parts).flatMap f = (sep.flatMap f).intercalate (parts.map (List.flatMap f)) := by
  cases parts with
  | nil => rfl
  | cons first parts =>
      rw [List.map_cons, intercalate_cons_eq_flatMap, intercalate_cons_eq_flatMap, List.flatMap_append,
        List.flatMap_assoc, List.flatMap_map]
      simp only [List.flatMap_append]

theorem mem_intercalate {sep : List α} {parts : List (List α)} {a : α}
    (h : a ∈ sep.intercalate parts) : a ∈ sep ∨ ∃ part ∈ parts, a ∈ part := by
  cases parts with
  | nil => cases h
  | cons first parts =>
      rw [intercalate_cons_eq_flatMap, List.mem_append, List.mem_flatMap] at h
      rcases h with h | ⟨part, hpart, h⟩
      · exact .inr ⟨first, by simp, h⟩
      · rcases List.mem_append.1 h with h | h
        · exact .inl h
        · exact .inr ⟨part, List.mem_cons_of_mem _ hpart, h⟩

/-- Joined phrases are a sequence with separators. -/
theorem separated_intercalate {sep : Token} {R : List Token → α → Prop} {f : α → List Token}
    {as : List α} (hne : as ≠ []) (h : ∀ a ∈ as, R (f a) a) :
    Separated sep R ([sep].intercalate (as.map f)) as := by
  cases as with
  | nil => exact absurd rfl hne
  | cons first as =>
      rw [List.forall_mem_cons] at h
      rw [List.map_cons, intercalate_cons_eq_flatMap, List.flatMap_map]
      refine .mk h.1 ?_
      clear hne
      induction as with
      | nil => exact .nil
      | cons a as ih =>
          have has := List.forall_mem_cons.1 h.2
          exact .cons has.1 (ih ⟨h.1, has.2⟩)

end Intercalate

/-! ### The tokens of a declaration -/

/-- The tokens of an argument specification. -/
def ArgSpec.tokens : ArgSpec → List Token
  | .typed (some mode) type => [mode.token, .name type]
  | .typed none type => [.name type]
  | .oneOf constants => .openBracket ::
      ([.semicolon].intercalate (constants.map fun constant => [.name constant]) ++ [.closeBracket])

/-- The tokens of a declaration, without a period. -/
def ModeDecl.tokens (decl : ModeDecl) : List Token :=
  .name decl.name :: .openParen :: ([.comma].intercalate (decl.args.map ArgSpec.tokens) ++ [.closeParen])

/-- The token of a sign is written as the sign. -/
theorem Mode.spelling_token (mode : Mode) : mode.token.spelling = mode.sign.toList := by
  cases mode <;> rfl

theorem ArgSpec.toList_render (arg : ArgSpec) :
    arg.render.toList = arg.tokens.flatMap Token.spelling := by
  cases arg with
  | typed mode type =>
      cases mode with
      | none => simp [render, tokens, Token.spelling]
      | some mode =>
          rw [tokens, List.flatMap_cons, Mode.spelling_token, List.flatMap_singleton, render,
            String.toList_append]
          rfl
  | oneOf constants =>
      simp [render, tokens, flatMap_intercalate, Token.spelling, String.toList_intercalate,
        Function.comp_def]

namespace ModeDecl

/-- The written form of a declaration consists of its tokens. -/
theorem toList_render (decl : ModeDecl) :
    decl.render.toList = decl.tokens.flatMap Token.spelling := by
  simp [render, tokens, flatMap_intercalate, Token.spelling, String.toList_intercalate,
    Function.comp_def, ArgSpec.toList_render]

end ModeDecl

/-! ### Declarations that are built of names -/

theorem ArgSpec.WellFormed.phrase {arg : ArgSpec} (h : arg.WellFormed) : Phrase arg.tokens arg := by
  cases arg with
  | typed mode type =>
      cases mode with
      | none => exact .plain type
      | some mode => exact .signed mode type
  | oneOf constants => exact .oneOf (separated_intercalate h.1 fun _ _ => rfl)

theorem ArgSpec.WellFormed.namesAreNames {arg : ArgSpec} (h : arg.WellFormed) :
    ∀ t ∈ arg.tokens, t.NamesAreNames := by
  cases arg with
  | typed mode type =>
      cases mode with
      | none => exact List.forall_mem_singleton.2 h
      | some mode =>
          have hmode : mode.token.NamesAreNames := by cases mode <;> trivial
          exact List.forall_mem_cons.2 ⟨hmode, List.forall_mem_singleton.2 h⟩
  | oneOf constants =>
      intro t ht
      rcases List.mem_cons.1 ht with rfl | ht
      · trivial
      · rcases List.mem_append.1 ht with ht | ht
        · rcases mem_intercalate ht with ht | ⟨part, hpart, ht⟩
          · rw [List.mem_singleton.1 ht]
            trivial
          · obtain ⟨constant, hconstant, rfl⟩ := List.mem_map.1 hpart
            rw [List.mem_singleton.1 ht]
            exact h.2 constant hconstant
        · rw [List.mem_singleton.1 ht]
          trivial

namespace ModeDecl

theorem WellFormed.phrase {decl : ModeDecl} (h : decl.WellFormed) : Phrase decl.tokens decl :=
  .mk decl.name (separated_intercalate h.args_ne_nil fun arg harg => (h.args arg harg).phrase)

theorem WellFormed.namesAreNames {decl : ModeDecl} (h : decl.WellFormed) :
    ∀ t ∈ decl.tokens, t.NamesAreNames := by
  intro t ht
  rcases List.mem_cons.1 ht with rfl | ht
  · exact h.name
  · rcases List.mem_cons.1 ht with rfl | ht
    · trivial
    · rcases List.mem_append.1 ht with ht | ht
      · rcases mem_intercalate ht with ht | ⟨part, hpart, ht⟩
        · rw [List.mem_singleton.1 ht]
          trivial
        · obtain ⟨arg, harg, rfl⟩ := List.mem_map.1 hpart
          exact (h.args arg harg).namesAreNames t ht
      · rw [List.mem_singleton.1 ht]
        trivial

/-! ### Reading what was written -/

/-- The tokens of declarations, each with a period or without. -/
def tokensOfAll (decls : List (ModeDecl × Bool)) : List Token :=
  decls.flatMap fun d => d.1.tokens ++ if d.2 then [.period] else []

theorem sentences_tokensOfAll {decls : List (ModeDecl × Bool)} (h : ∀ d ∈ decls, d.1.WellFormed) :
    Sentences (tokensOfAll decls) (decls.map Prod.fst) := by
  induction decls with
  | nil => exact .nil
  | cons d decls ih =>
      rw [List.forall_mem_cons] at h
      have hclosing : (if d.2 then [Token.period] else []) = [] ∨
          (if d.2 then [Token.period] else []) = [.period] := by
        cases d.2 <;> simp
      exact .cons (h.1.phrase.sentence hclosing) (ih h.2)

theorem namesAreNames_tokensOfAll {decls : List (ModeDecl × Bool)}
    (h : ∀ d ∈ decls, d.1.WellFormed) : ∀ t ∈ tokensOfAll decls, t.NamesAreNames := by
  intro t ht
  obtain ⟨d, hd, ht⟩ := List.mem_flatMap.1 ht
  rcases List.mem_append.1 ht with ht | ht
  · exact (h d hd).namesAreNames t ht
  · split at ht
    · rw [List.mem_singleton.1 ht]
      trivial
    · cases ht

/-- Whatever text writes the tokens of declarations is cut into them again. -/
theorem tokensOf_of_writes {decls : List (ModeDecl × Bool)} (h : ∀ d ∈ decls, d.1.WellFormed)
    {text : String} (htext : Writes (tokensOfAll decls) text.toList) :
    tokensOf text = tokensOfAll decls := by
  have htight := (sentences_tokensOfAll h).tight
  rw [← String.ofList_toList (s := text)]
  exact tokensOf_ofList_of_writes htext htight fun t ht =>
    ⟨namesAreNames_tokensOfAll h t ht, htight.known t ht⟩

/-- What is written is read back if it is built of names, and only then.  Declarations are read back from
every text that writes their tokens in order, with gaps before, between and after them and a period after
any of the declarations. -/
theorem parse_render_iff_wellFormed :
    (∀ decl : ModeDecl, parse decl.render = .ok decl ↔ decl.WellFormed) ∧
    (∀ decl : ModeDecl, decl.render.toList = decl.tokens.flatMap Token.spelling) ∧
    ∀ (decls : List (ModeDecl × Bool)) (text : String), (∀ d ∈ decls, d.1.WellFormed) →
      Writes (tokensOfAll decls) text.toList → parseAll text = .ok (decls.map Prod.fst) := by
  refine ⟨fun decl => ⟨wellFormed_of_parse, fun h => ?_⟩, toList_render, fun decls text h htext => ?_⟩
  · have hdecls : ∀ d ∈ [(decl, false)], d.1.WellFormed := by simpa using h
    have hwrites : Writes (tokensOfAll [(decl, false)]) decl.render.toList := by
      rw [toList_render]
      simpa [tokensOfAll] using writes_flatMap_spelling decl.tokens
    rw [parse_eq_ok_iff, tokensOf_of_writes hdecls hwrites]
    simpa [tokensOfAll] using Sentence.plain h.phrase
  · rw [parseAll_eq_ok_iff, tokensOf_of_writes h htext]
    exact sentences_tokensOfAll h

/-- Two declarations with gaps, the first of which ends with a period. -/
theorem parse_render_iff_wellFormed_gaps :
    let decls : List (ModeDecl × Bool) :=
      [(⟨"p", [.typed (some .input) "t"]⟩, true), (⟨"q", [.oneOf ["a"]]⟩, false)]
    (∀ d ∈ decls, d.1.WellFormed) ∧ Writes (tokensOfAll decls) "p( +t ).\nq([a])".toList ∧
      parseAll "p( +t ).\nq([a])" = .ok (decls.map Prod.fst) := by
  intro decls
  have hdecls : ∀ d ∈ decls, d.1.WellFormed := by
    simp only [decls, List.forall_mem_cons]
    refine ⟨⟨by decide, by simp, ?_⟩, ⟨by decide, by simp, ?_⟩, by simp⟩
    · exact List.forall_mem_singleton.2 (by decide : isName "t" = true)
    · exact List.forall_mem_singleton.2 ⟨by simp, by decide⟩
  have hnone : ∀ c ∈ [], Lexeme.isGap c = true := by simp
  have hblank : ∀ c ∈ [' '], Lexeme.isGap c = true := List.forall_mem_singleton.2 rfl
  have hbreak : ∀ c ∈ ['\n'], Lexeme.isGap c = true := List.forall_mem_singleton.2 rfl
  have hsecond : Writes (tokensOfAll decls.tail) "\nq([a])".toList :=
    .cons (.name "q") hbreak <| .cons .openParen hnone <| .cons .openBracket hnone <|
      .cons (.name "a") hnone <| .cons .closeBracket hnone <| .cons .closeParen hnone <| .nil hnone
  have hfirst : Writes (tokensOfAll decls) "p( +t ).\nq([a])".toList :=
    .cons (.name "p") hnone <| .cons .openParen hnone <| .cons .plus hblank <|
      .cons (.name "t") hnone <| .cons .closeParen hblank <| .cons .period hnone hsecond
  exact ⟨hdecls, hfirst, parse_render_iff_wellFormed.2.2 decls _ hdecls hfirst⟩

end ModeDecl

end ClauseForest
