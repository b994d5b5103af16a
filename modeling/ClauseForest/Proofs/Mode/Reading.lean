/-
**What the reader accepts, and where it stops**

A text is read as a declaration exactly if its tokens are a sentence of the grammar, and as a list of
declarations exactly if they are sentences one after another.  Every other text has one error.  It points
at the first token with which no accepted text goes on; where there is none, it says that the text stops
too early.

That the reader stops no later than it must is what the languages of its states say.  That it stops no
earlier needs a text for every sequence of tokens that it lets pass: the sequence is completed to one of
the grammar, and that one is written down.

Main definitions:

* `tokensOf` — the tokens of a text;
* `Continues` — the beginnings of the accepted texts, as tokens;
* `Viable` — the beginnings of the accepted tokens, of which all can be written;
* `ReadError.Earliest` — the error that a text must have.

Main results:

* `ModeDecl.parse_eq_ok_iff`, `ModeDecl.readAll_eq_ok_iff` — what is accepted;
* `ModeDecl.earliest_of_parse`, `ModeDecl.earliest_of_readAll` — the error is the earliest one;
* `ReadError.Earliest.unique` — there is only one such error;
* `ModeDecl.parse_iff_grammar` — **the reader accepts its grammar and reports the earliest error**.
-/

import ClauseForest.Proofs.Mode.Grammar

set_option relaxedAutoImplicit false
set_option autoImplicit false

namespace ClauseForest

/-! ### Beginnings of accepted texts -/

/-- The tokens of a text. -/
def tokensOf (text : String) : List Token := (Lexeme.ofText text).map Lexeme.token

/-- Tokens with which some accepted text begins. -/
def Continues (accepts : String → Prop) (tokens : List Token) : Prop :=
  ∃ other, accepts other ∧ tokens <+: tokensOf other

/-- Tokens that some more complete to accepted ones, all of which a text can hold. -/
def Viable (A : List Token → Prop) (tokens : List Token) : Prop :=
  ∃ more, A (tokens ++ more) ∧ ∀ t ∈ tokens ++ more, t.Writable

theorem tokensOf_ofList_of_writes {tokens : List Token} {text : List Char} (h : Writes tokens text)
    (htight : Tight tokens) (hwritable : ∀ t ∈ tokens, t.Writable) :
    tokensOf (String.ofList text) = tokens := by
  rw [tokensOf, Lexeme.ofText, String.toList_ofList]
  exact map_token_of_writes h hwritable htight.chain 0

theorem Lexeme.writable_of_mem_map {lexemes : List Lexeme}
    (hnames : ∀ l ∈ lexemes, l.token.NamesAreNames) {t : Token} (ht : t ∈ lexemes.map Lexeme.token)
    (hknown : t.isUnknown = false) : t.Writable := by
  obtain ⟨l, hl, rfl⟩ := List.mem_map.1 ht
  exact ⟨hnames l hl, hknown⟩

/-- What is accepted can be written, so beginnings of texts are beginnings of tokens. -/
theorem continues_iff {accepts : String → Prop} {A : List Token → Prop} (hA : ModeDecl.Language A)
    (haccepts : ∀ text, accepts text ↔ A (tokensOf text)) {tokens : List Token} :
    Continues accepts tokens ↔ Viable A tokens := by
  constructor
  · rintro ⟨other, hother, more, heq⟩
    rw [haccepts, ← heq] at hother
    refine ⟨more, hother, fun t ht => ?_⟩
    have hknown := (hA.tight hother).known t ht
    rw [heq] at ht
    exact Lexeme.writable_of_mem_map (Lexeme.namesAreNames_ofChars _ _) ht hknown
  · rintro ⟨more, hmore, hwritable⟩
    have htokens := tokensOf_ofList_of_writes (writes_flatMap_spelling _) (hA.tight hmore) hwritable
    exact ⟨_, (haccepts _).2 (htokens.symm ▸ hmore), more, htokens.symm⟩

theorem Viable.of_append {A : List Token → Prop} {tokens rest : List Token}
    (h : Viable A (tokens ++ rest)) : Viable A tokens := by
  obtain ⟨more, hA, hwritable⟩ := h
  rw [List.append_assoc] at hA hwritable
  exact ⟨rest ++ more, hA, hwritable⟩

theorem viable_of_writable {A : List Token → Prop} {tokens : List Token} (hA : A tokens)
    (hwritable : ∀ t ∈ tokens, t.Writable) : Viable A tokens :=
  ⟨[], by rwa [List.append_nil], by rwa [List.append_nil]⟩

/-! ### The earliest error -/

/-- The first token with which none of the beginnings `goes` goes on, and the tokens before it. -/
structure FirstStop (goes : List Token → Prop) (lexemes before : List Lexeme) (l : Lexeme) : Prop where
  append : before ++ [l] <+: lexemes
  viable : goes (before.map Lexeme.token)
  stops : ¬goes (before.map Lexeme.token ++ [l.token])

/-- The error of a text that is not accepted: it points at the first token with which no accepted text
goes on, in one way inside of a declaration and in another where nothing may follow, or at the end if
there is no such token.  `goes` are the beginnings of the accepted texts, and `closed` those after which
nothing may follow. -/
inductive ReadError.Earliest (goes closed : List Token → Prop) (size : Nat) (lexemes : List Lexeme) :
    ReadError → Prop
  | refusing {before : List Lexeme} {l : Lexeme} (h : FirstStop goes lexemes before l)
      (hopen : ¬closed (before.map Lexeme.token)) : Earliest goes closed size lexemes (.refusing l)
  | expectedEnd {before : List Lexeme} {l : Lexeme} (h : FirstStop goes lexemes before l)
      (hclosed : closed (before.map Lexeme.token)) :
      Earliest goes closed size lexemes ⟨.expectedEnd, l.start, l.stop⟩
  | atEnd (h : goes (lexemes.map Lexeme.token)) : Earliest goes closed size lexemes (.atEnd size)

section Earliest

variable {A closed : List Token → Prop} {size : Nat} {lexemes before before' : List Lexeme}
  {l l' : Lexeme}

theorem FirstStop.not_viable_of_prefix (h : FirstStop (Viable A) lexemes before l)
    (hle : before ++ [l] <+: before') : ¬Viable A (before'.map Lexeme.token) := by
  rintro hviable
  obtain ⟨rest, rfl⟩ := hle
  rw [List.map_append, List.map_append] at hviable
  exact h.stops hviable.of_append

theorem FirstStop.unique (h : FirstStop (Viable A) lexemes before l)
    (h' : FirstStop (Viable A) lexemes before' l') : before = before' ∧ l = l' := by
  rcases Nat.lt_trichotomy before.length before'.length with hlt | heq | hlt
  · have hle : before ++ [l] <+: before' :=
      List.prefix_of_prefix_length_le h.append ((List.prefix_append _ _).trans h'.append) (by simpa)
    exact absurd h'.viable (h.not_viable_of_prefix hle)
  · have hle : before ++ [l] <+: before' ++ [l'] :=
      List.prefix_of_prefix_length_le h.append h'.append (by simp [heq])
    obtain ⟨hbefore, hl⟩ := List.append_inj (hle.eq_of_length (by simp [heq])) heq
    exact ⟨hbefore, by simpa using hl⟩
  · have hle : before' ++ [l'] <+: before :=
      List.prefix_of_prefix_length_le h'.append ((List.prefix_append _ _).trans h.append) (by simpa)
    exact absurd h.viable (h'.not_viable_of_prefix hle)

/-- A text has only one earliest error. -/
theorem ReadError.Earliest.unique {e e' : ReadError} (h : e.Earliest (Viable A) closed size lexemes)
    (h' : e'.Earliest (Viable A) closed size lexemes) : e = e' := by
  cases h with
  | refusing h hopen =>
      cases h' with
      | refusing h' hopen' => rw [(h.unique h').2]
      | expectedEnd h' hclosed => exact absurd ((h.unique h').1 ▸ hclosed) hopen
      | atEnd hall => exact absurd hall (h.not_viable_of_prefix h.append)
  | expectedEnd h hclosed =>
      cases h' with
      | refusing h' hopen => exact absurd ((h.unique h').1 ▸ hclosed) hopen
      | expectedEnd h' hclosed' => rw [(h.unique h').2]
      | atEnd hall => exact absurd hall (h.not_viable_of_prefix h.append)
  | atEnd hall =>
      cases h' with
      | refusing h' hopen => exact absurd hall (h'.not_viable_of_prefix h'.append)
      | expectedEnd h' hclosed => exact absurd hall (h'.not_viable_of_prefix h'.append)
      | atEnd hall' => rfl

/-- A reader that accepts what it must and whose errors are the earliest ones has exactly these. -/
theorem ReadError.eq_error_iff {α : Type} {P : α → Prop} {result : Except ReadError α}
    (hok : ∀ a, result = .ok a ↔ P a)
    (herror : ∀ e, result = .error e → e.Earliest (Viable A) closed size lexemes) {e : ReadError} :
    result = .error e ↔ (¬∃ a, P a) ∧ e.Earliest (Viable A) closed size lexemes := by
  cases result with
  | ok a =>
      constructor
      · intro h
        cases h
      · rintro ⟨hnone, -⟩
        exact absurd ⟨a, (hok a).1 rfl⟩ hnone
  | error found =>
      constructor
      · intro h
        refine ⟨?_, herror e h⟩
        rintro ⟨a, ha⟩
        cases (hok a).2 ha
      · rintro ⟨-, he⟩
        rw [(herror found rfl).unique he]

/-- An error in what comes after a beginning is the error of the whole. -/
theorem ReadError.Earliest.append {goes : List Token → Prop} {front back : List Lexeme} {e : ReadError}
    (h : e.Earliest goes (fun _ => False) size back)
    (hgoes : ∀ tokens, goes tokens → goes (front.map Lexeme.token ++ tokens))
    (hback : ∀ tokens, tokens ≠ [] → tokens <+: back.map Lexeme.token →
      goes (front.map Lexeme.token ++ tokens) → goes tokens) :
    e.Earliest goes (fun _ => False) size (front ++ back) := by
  cases h with
  | @refusing before l h hopen =>
      have hstop : FirstStop goes (front ++ back) (front ++ before) l := by
        refine ⟨?_, ?_, fun hl => h.stops ?_⟩
        · rw [List.append_assoc]
          exact (List.prefix_append_right_inj front).2 h.append
        · rw [List.map_append]
          exact hgoes _ h.viable
        · rw [List.map_append, List.append_assoc] at hl
          refine hback _ (by simp) ?_ hl
          simpa using h.append.map Lexeme.token
      exact .refusing hstop id
  | expectedEnd h hclosed => exact hclosed.elim
  | atEnd hall =>
      refine .atEnd ?_
      rw [List.map_append]
      exact hgoes _ hall

/-- A run on a declaration that fails gives the earliest error, for every language in which
declarations come first. -/
theorem ReadError.earliest_of_readTokens {e : ReadError} (hA : ModeDecl.Language A)
    (hclosed : ∀ tokens, closed tokens → tokens ≠ [] ∧ A tokens)
    (hnames : ∀ l ∈ lexemes, l.token.NamesAreNames)
    (he : readTokens DeclState.read size .fresh lexemes = .error e) :
    e.Earliest (Viable A) closed size lexemes := by
  have hviable : ∀ (front : List Lexeme) {more : List Token} {decl : ModeDecl}, front <+: lexemes →
      ModeDecl.Phrase (front.map Lexeme.token ++ more) decl → (∀ t ∈ more, t.Writable) →
      Viable A (front.map Lexeme.token) := by
    intro front more decl hfront hphrase hmore
    refine ⟨more, hA.of_phrase hphrase, fun t ht => ?_⟩
    rcases List.mem_append.1 ht with hmem | hmem
    · exact Lexeme.writable_of_mem_map (fun l hl => hnames l (hfront.subset hl)) hmem
        (hphrase.tight.known t ht)
    · exact hmore t hmem
  rcases DeclState.residuals.readTokens_eq_error he with ⟨rfl, more, decl, hphrase, hmore⟩ |
    ⟨before, l, after, rfl, rfl, ⟨more, decl, hphrase, hmore⟩, hstuck⟩
  · exact .atEnd (hviable lexemes (List.prefix_refl _) hphrase hmore)
  · have happend : before ++ [l] <+: before ++ l :: after := ⟨after, by simp⟩
    refine .refusing ⟨happend, hviable before (List.prefix_append _ _) hphrase hmore, ?_⟩ ?_
    · rintro ⟨more, hmore, -⟩
      obtain ⟨body, rest, decl, heq, hbody⟩ := hA.exists_phrase hmore (by simp)
      exact hstuck body rest more decl (by rw [← heq, List.append_assoc]; rfl) hbody
    · intro hbefore
      obtain ⟨hne, hmore⟩ := hclosed _ hbefore
      obtain ⟨body, rest, decl, heq, hbody⟩ := hA.exists_phrase hmore hne
      exact hstuck body (rest ++ [l.token]) [] decl (by rw [heq, List.append_assoc]) hbody

end Earliest

/-! ### Periods -/

theorem skipPeriod_eq_nil_iff {lexemes : List Lexeme} :
    skipPeriod lexemes = [] ↔
      lexemes.map Lexeme.token = [] ∨ lexemes.map Lexeme.token = [.period] := by
  cases lexemes with
  | nil => simp [skipPeriod]
  | cons l rest =>
      rw [skipPeriod]
      split
      · rename_i hperiod
        simp [hperiod]
      · rename_i hperiod
        simp [hperiod]

namespace ModeDecl

/-- What is left after an optional period. -/
theorem exists_append_skipPeriod (lexemes : List Lexeme) :
    ∃ closing, lexemes = closing ++ skipPeriod lexemes ∧
      TakesPeriod (closing.map Lexeme.token) ((skipPeriod lexemes).map Lexeme.token) := by
  cases lexemes with
  | nil => exact ⟨[], rfl, .inr ⟨rfl, by simp [skipPeriod]⟩⟩
  | cons l rest =>
      rw [skipPeriod]
      split
      · rename_i hperiod
        exact ⟨[l], rfl, .inl (by simp [hperiod])⟩
      · rename_i hperiod
        exact ⟨[], rfl, .inr ⟨rfl, by simpa using hperiod⟩⟩

/-- A declaration is read with its period from the beginning of the tokens. -/
theorem exists_append_of_readTokens {size : Nat} {lexemes rest : List Lexeme} {decl : ModeDecl}
    (h : readTokens DeclState.read size .fresh lexemes = .ok (decl, rest)) :
    ∃ used closing, lexemes = used ++ closing ++ skipPeriod rest ∧
      Phrase (used.map Lexeme.token) decl ∧
      TakesPeriod (closing.map Lexeme.token) ((skipPeriod rest).map Lexeme.token) := by
  obtain ⟨used, heq, hused⟩ := DeclState.residuals.readTokens_eq_ok_iff.1 h
  obtain ⟨closing, hrest, hclosing⟩ := exists_append_skipPeriod rest
  exact ⟨used, closing, by rw [heq, List.append_assoc, ← hrest], hused, hclosing⟩

/-! ### One declaration -/

theorem parse_eq_ok_iff {text : String} {decl : ModeDecl} :
    parse text = .ok decl ↔ Sentence (tokensOf text) decl := by
  constructor
  · intro h
    obtain ⟨⟨found, rest⟩, hread, h⟩ := bind_eq_ok_iff.1 h
    obtain ⟨⟨⟩, hend, h⟩ := bind_eq_ok_iff.1 h
    cases h
    obtain ⟨used, heq, hused⟩ := DeclState.residuals.readTokens_eq_ok_iff.1 hread
    have hnil : skipPeriod rest = [] := by
      cases hskip : skipPeriod rest with
      | nil => rfl
      | cons l after =>
          rw [hskip] at hend
          cases hend
    rw [tokensOf, heq, List.map_append]
    exact Phrase.sentence hused (skipPeriod_eq_nil_iff.1 hnil)
  · intro h
    obtain ⟨body, closing, heq, hbody, hclosing⟩ := h.exists_phrase
    obtain ⟨used, rest, hlexemes, rfl, rfl⟩ := List.map_eq_append_iff.1 heq
    have hread : readTokens DeclState.read text.utf8ByteSize .fresh (Lexeme.ofText text) =
        .ok (decl, rest) :=
      DeclState.residuals.readTokens_eq_ok_iff.2 ⟨used, hlexemes, hbody⟩
    rw [parse, hread]
    change (expectEnd (skipPeriod rest) >>= fun _ => pure decl) = _
    rw [skipPeriod_eq_nil_iff.2 hclosing]
    rfl

theorem earliest_of_parse {text : String} {e : ReadError} (he : parse text = .error e) :
    e.Earliest (Viable fun tokens => ∃ decl, Sentence tokens decl)
      (fun tokens => ∃ decl, Sentence tokens decl) text.utf8ByteSize (Lexeme.ofText text) := by
  have hnames : ∀ l ∈ Lexeme.ofText text, l.token.NamesAreNames := Lexeme.namesAreNames_ofChars _ _
  cases hread : readTokens DeclState.read text.utf8ByteSize .fresh (Lexeme.ofText text) with
  | error e' =>
      rw [parse, hread] at he
      cases he
      refine ReadError.earliest_of_readTokens language_sentence ?_ hnames hread
      rintro tokens ⟨decl, h⟩
      exact ⟨h.ne_nil, decl, h⟩
  | ok result =>
      obtain ⟨decl, rest⟩ := result
      obtain ⟨used, closing, heq, hused, hclosing⟩ := exists_append_of_readTokens hread
      rw [parse, hread] at he
      change (expectEnd (skipPeriod rest) >>= fun _ => pure decl) = _ at he
      cases hskip : skipPeriod rest with
      | nil =>
          rw [hskip] at he
          cases he
      | cons l after =>
          rw [hskip] at he heq hclosing
          cases he
          have hsentence : Sentence ((used ++ closing).map Lexeme.token) decl := by
            rw [List.map_append]
            exact hused.sentence hclosing.eq_nil_or
          have happend : used ++ closing ++ [l] <+: Lexeme.ofText text := ⟨after, by simp [heq]⟩
          have hfront : ∀ l ∈ used ++ closing, l.token.NamesAreNames := fun l hl =>
            hnames l (happend.subset (List.mem_append_left _ hl))
          refine .expectedEnd ⟨happend, viable_of_writable ⟨decl, hsentence⟩ fun t ht => ?_, ?_⟩
            ⟨decl, hsentence⟩
          · exact Lexeme.writable_of_mem_map hfront ht (hsentence.tight.known t ht)
          · rintro ⟨more, ⟨decl', hmore⟩, -⟩
            have hsplit : (used ++ closing).map Lexeme.token ++ [l.token] ++ more =
                used.map Lexeme.token ++ (closing.map Lexeme.token ++ ([l.token] ++ more)) := by simp
            rw [hsplit] at hmore
            have hnext : TakesPeriod (closing.map Lexeme.token) ([l.token] ++ more) :=
              (takesPeriod_append_iff (by simp)).2 ((takesPeriod_append_iff (by simp)).1 hclosing)
            exact not_sentence_append hused hnext (by simp) hmore

/-! ### Any number of declarations -/

theorem readAll_eq_ok_iff {size : Nat} {lexemes : List Lexeme} {decls : List ModeDecl} :
    readAll size lexemes = .ok decls ↔ Sentences (lexemes.map Lexeme.token) decls := by
  fun_induction readAll size lexemes generalizing decls with
  | case1 =>
      rw [List.map_nil, sentences_nil_iff]
      exact ⟨fun h => (Except.ok.inj h).symm, fun h => h ▸ rfl⟩
  | case2 l lexemes e hread =>
      constructor
      · intro h
        cases h
      · intro h
        obtain ⟨body, rest, decl, heq, hbody⟩ := h.exists_phrase (by simp)
        obtain ⟨used, rest, hlexemes, rfl, rfl⟩ := List.map_eq_append_iff.1 heq
        have hok : readTokens DeclState.read size .fresh (l :: lexemes) = .ok (decl, rest) :=
          DeclState.residuals.readTokens_eq_ok_iff.2 ⟨used, hlexemes, hbody⟩
        rw [hok] at hread
        cases hread
  | case3 l lexemes decl rest hread ih =>
      obtain ⟨used, closing, heq, hused, hclosing⟩ := exists_append_of_readTokens hread
      have htokens : (l :: lexemes).map Lexeme.token = used.map Lexeme.token ++
          (closing.map Lexeme.token ++ (skipPeriod rest).map Lexeme.token) := by
        rw [heq, List.append_assoc, List.map_append, List.map_append]
      rw [map_eq_ok_iff, htokens, sentences_append_iff hused hclosing]
      constructor
      · rintro ⟨others, hothers, rfl⟩
        exact ⟨others, rfl, ih.1 hothers⟩
      · rintro ⟨others, rfl, hothers⟩
        exact ⟨others, ih.2 hothers, rfl⟩

theorem parseAll_eq_ok_iff {text : String} {decls : List ModeDecl} :
    parseAll text = .ok decls ↔ Sentences (tokensOf text) decls :=
  readAll_eq_ok_iff

/-- A declaration may stand before every beginning of a sequence. -/
theorem viable_append {front tokens : List Token} {decl : ModeDecl} (hfront : Sentence front decl)
    (hwritable : ∀ t ∈ front, t.Writable)
    (h : Viable (fun tokens => ∃ decls, Sentences tokens decls) tokens) :
    Viable (fun tokens => ∃ decls, Sentences tokens decls) (front ++ tokens) := by
  obtain ⟨more, ⟨decls, hmore⟩, hall⟩ := h
  refine ⟨more, ⟨decl :: decls, ?_⟩, ?_⟩
  · rw [List.append_assoc]
    exact .cons hfront hmore
  · rw [List.append_assoc]
    exact List.forall_mem_append.2 ⟨hwritable, hall⟩

/-- What goes on with a declaration and its period goes on with a sequence. -/
theorem viable_of_append {body closing tokens : List Token} {decl : ModeDecl}
    (hbody : Phrase body decl) (hclosing : TakesPeriod closing tokens) (hne : tokens ≠ [])
    (h : Viable (fun tokens => ∃ decls, Sentences tokens decls) (body ++ (closing ++ tokens))) :
    Viable (fun tokens => ∃ decls, Sentences tokens decls) tokens := by
  obtain ⟨more, ⟨decls, hmore⟩, hall⟩ := h
  simp only [List.append_assoc] at hmore hall
  obtain ⟨others, -, hothers⟩ :=
    (sentences_append_iff hbody ((takesPeriod_append_iff hne).2 hclosing)).1 hmore
  exact ⟨more, ⟨others, hothers⟩, fun t ht => hall t (by simp [List.mem_append.1 ht])⟩

theorem earliest_of_readAll {size : Nat} {lexemes : List Lexeme} {e : ReadError}
    (hnames : ∀ l ∈ lexemes, l.token.NamesAreNames) (he : readAll size lexemes = .error e) :
    e.Earliest (Viable fun tokens => ∃ decls, Sentences tokens decls) (fun _ => False) size
      lexemes := by
  fun_induction readAll size lexemes with
  | case1 => cases he
  | case2 l lexemes e' hread =>
      cases he
      exact ReadError.earliest_of_readTokens language_sentences (fun tokens h => h.elim) hnames hread
  | case3 l lexemes decl rest hread ih =>
      obtain ⟨used, closing, heq, hused, hclosing⟩ := exists_append_of_readTokens hread
      have hsentence : Sentence ((used ++ closing).map Lexeme.token) decl := by
        rw [List.map_append]
        exact hused.sentence hclosing.eq_nil_or
      rw [heq] at hnames ⊢
      have hfront : ∀ l ∈ used ++ closing, l.token.NamesAreNames := fun l hl =>
        hnames l (List.mem_append_left _ hl)
      have hrest := ih (fun l hl => hnames l (List.mem_append_right _ hl)) (map_eq_error_iff.1 he)
      refine hrest.append (fun tokens htokens => viable_append hsentence (fun t ht => ?_) htokens) ?_
      · exact Lexeme.writable_of_mem_map hfront ht (hsentence.tight.known t ht)
      · intro tokens hne hle htokens
        rw [List.map_append, List.append_assoc] at htokens
        obtain ⟨after, hafter⟩ := hle
        rw [← hafter, takesPeriod_append_iff hne] at hclosing
        exact viable_of_append hused hclosing hne htokens

/-! ### Texts -/

theorem continues_parse_eq :
    Continues (fun other => ∃ decl, parse other = .ok decl) =
      Viable fun tokens => ∃ decl, Sentence tokens decl := by
  funext tokens
  exact propext (continues_iff language_sentence fun text => exists_congr fun decl => parse_eq_ok_iff)

theorem continues_parseAll_eq :
    Continues (fun other => ∃ decls, parseAll other = .ok decls) =
      Viable fun tokens => ∃ decls, Sentences tokens decls := by
  funext tokens
  exact propext (continues_iff language_sentences fun text =>
    exists_congr fun decls => parseAll_eq_ok_iff)

/-- The reader accepts its grammar and reports the earliest error.  The tokens of a text are those of the
longest matches.  One declaration is read exactly from the sentences of the grammar, each of which has
only that reading, and any number of declarations exactly from sentences one after another.  Any other
text has the error that points at the first token with which no accepted text goes on. -/
theorem parse_iff_grammar (text : String) :
    (∀ lexemes, Lexeme.Munched 0 text.toList lexemes ↔ lexemes = Lexeme.ofText text) ∧
    (∀ decl, parse text = .ok decl ↔
      Sentence (tokensOf text) decl ∧ ∀ other, Sentence (tokensOf text) other → other = decl) ∧
    (∀ decls, parseAll text = .ok decls ↔ Sentences (tokensOf text) decls) ∧
    (∀ e, parse text = .error e ↔
      (¬∃ decl, Sentence (tokensOf text) decl) ∧
      e.Earliest (Continues fun other => ∃ decl, parse other = .ok decl)
        (fun before => ∃ decl, Sentence before decl) text.utf8ByteSize (Lexeme.ofText text)) ∧
    ∀ e, parseAll text = .error e ↔
      (¬∃ decls, Sentences (tokensOf text) decls) ∧
      e.Earliest (Continues fun other => ∃ decls, parseAll other = .ok decls)
        (fun _ => False) text.utf8ByteSize (Lexeme.ofText text) := by
  have hnames : ∀ l ∈ Lexeme.ofText text, l.token.NamesAreNames := Lexeme.namesAreNames_ofChars _ _
  refine ⟨fun lexemes => Lexeme.munched_iff, fun decl => ?_, fun decls => parseAll_eq_ok_iff,
    fun e => ?_, fun e => ?_⟩
  · rw [parse_eq_ok_iff]
    refine ⟨fun h => ⟨h, fun other hother => ?_⟩, And.left⟩
    exact Except.ok.inj ((parse_eq_ok_iff.2 hother).symm.trans (parse_eq_ok_iff.2 h))
  · rw [continues_parse_eq]
    exact ReadError.eq_error_iff (fun decl => parse_eq_ok_iff) fun e he => earliest_of_parse he
  · rw [continues_parseAll_eq]
    exact ReadError.eq_error_iff (fun decls => parseAll_eq_ok_iff) fun e he =>
      earliest_of_readAll hnames he

end ModeDecl

end ClauseForest
