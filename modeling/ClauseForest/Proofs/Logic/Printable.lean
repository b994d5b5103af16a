/-
**Rules that are read back**

The syntax of rules is ambiguous: an argument may hold a comma, a predicate a neck, a literal a
semicolon.  Such a rule is not read back from its written form, and nothing else stands in the way.

Reading a term only drops spaces, so the written form of what is read is a sublist of the text.
Therefore a rule that is read back uses up its whole text: its head cannot be cut short at an
earlier neck, and its body is cut exactly where it was joined.  The comma that separates literals is
told from the others by the parenthesis before it, and it makes no difference which of the two
separators is written.

Main definitions:

* `Term.Printable`, `Rule.Printable` — the terms and rules that are read back;
* `Rule.renderWith` — a written rule with commas for some of its separators.

Main results:

* `Term.parse_eq_ok_iff` — what is read as a term;
* `Term.render_sublist_of_parse` — **reading a term only drops spaces**;
* `Rule.splitNeck_eq_some_iff`, `Rule.splitNeck_eq_none_iff` — where a rule is cut;
* `Rule.parse_renderWith` — printable rules are read back, whichever separators are written;
* `Rule.printable_of_parse` — what is read from a text without spaces is printable;
* `Rule.parse_render_iff_printable` — **exactly the printable rules are read back**.
-/

import ClauseForest.Proofs.Logic.Rendering
import ClauseForest.Proofs.Outcome
import Mathlib.Data.List.Infix

set_option relaxedAutoImplicit false
set_option autoImplicit false

namespace ClauseForest

/-! ### Pieces of texts -/

namespace Text

/-- Shorter pieces are joined to a shorter text. -/
theorem joinWith_sublist (sep : Char) {parts others : List (List Char)}
    (h : List.Forall₂ List.Sublist parts others) :
    (joinWith sep parts).Sublist (joinWith sep others) := by
  induction h with
  | nil => exact List.Sublist.refl []
  | @cons piece other parts others hpiece hparts ih =>
      cases parts with
      | nil =>
          obtain rfl := List.forall₂_nil_left_iff.1 hparts
          exact hpiece
      | cons next parts =>
          obtain ⟨next', others', -, -, rfl⟩ := List.forall₂_cons_left_iff.1 hparts
          rw [joinWith_cons_of_ne_nil sep piece (List.cons_ne_nil next parts),
            joinWith_cons_of_ne_nil sep other (List.cons_ne_nil next' others')]
          exact hpiece.append (ih.cons_cons sep)

/-- A piece is a part of the text to which it is joined. -/
theorem infix_joinWith (sep : Char) {parts : List (List Char)} {piece : List Char}
    (h : piece ∈ parts) : piece <:+: joinWith sep parts := by
  induction parts with
  | nil => cases h
  | cons first parts ih =>
      cases parts with
      | nil =>
          obtain rfl := List.mem_singleton.1 h
          exact List.infix_rfl
      | cons next parts =>
          rw [joinWith_cons_of_ne_nil _ _ (by simp)]
          rcases List.mem_cons.1 h with rfl | h
          · exact List.infix_append' [] piece _
          · exact ((ih h).trans (List.suffix_cons _ _).isInfix).trans (List.suffix_append _ _).isInfix

theorem infix_of_mem_pieces {sep : Char} {text piece : List Char} (h : piece ∈ pieces sep text) :
    piece <:+: text := by
  have hpart := infix_joinWith sep h
  rwa [joinWith_pieces] at hpart

/-- Where two characters stand next to each other. -/
theorem pair_infix_cons_iff {a b c : Char} {text : List Char} :
    [a, b] <:+: c :: text ↔ (c = a ∧ text.head? = some b) ∨ [a, b] <:+: text := by
  rw [List.infix_cons_iff, List.cons_prefix_cons]
  refine or_congr_left (and_congr eq_comm ?_)
  cases text <;> simp [eq_comm]

/-- A character that is missing in a text is not followed by another there, nor at its end. -/
theorem not_pair_infix_concat {a b c : Char} {text : List Char} (h : a ∉ text) :
    ¬[a, b] <:+: text ++ [c] := by
  induction text with
  | nil => simp [pair_infix_cons_iff]
  | cons d text ih =>
      obtain ⟨hd, htext⟩ := not_or.1 (mt List.mem_cons.2 h)
      rw [List.cons_append, pair_infix_cons_iff]
      exact not_or.2 ⟨fun hfirst => hd hfirst.1.symm, ih htext⟩

end Text

/-! ### Terms -/

namespace Term

/-- The terms that are read back: the name opens no argument list, there are arguments, and each of
them stands for itself. -/
structure Printable (t : Term) : Prop where
  predicate : '(' ∉ t.predicate.toList
  args_ne_nil : t.args ≠ []
  args : ∀ arg ∈ t.args, ReadsBack arg

instance (arg : String) : Decidable (ReadsBack arg) := inferInstanceAs (Decidable (_ ∧ _ ∧ _))

instance (t : Term) : Decidable t.Printable :=
  decidable_of_iff ('(' ∉ t.predicate.toList ∧ t.args ≠ [] ∧ ∀ arg ∈ t.args, ReadsBack arg)
    ⟨fun ⟨hname, hne, hargs⟩ => ⟨hname, hne, hargs⟩, fun h => ⟨h.predicate, h.args_ne_nil, h.args⟩⟩

variable {t : Term} {text : String}

theorem beforeClosing_eq_some_iff {text inner : List Char} :
    beforeClosing text = some inner ↔ text = inner ++ [')'] := by
  constructor
  · intro h
    unfold beforeClosing at h
    split at h
    · rename_i hlast
      cases h
      exact (List.dropLast_append_getLast? ')' hlast).symm
    · cases h
  · rintro rfl
    exact beforeClosing_append inner

/-- What is read as a term: a name, and arguments between the only opening parenthesis and a closing
one. -/
theorem parse_eq_ok_iff : parse text = .ok t ↔ ∃ args, '(' ∉ t.predicate.toList ∧ '(' ∉ args ∧
    text.toList = t.predicate.toList ++ '(' :: args ++ [')'] ∧ t.args = readArgs args := by
  constructor
  · intro h
    unfold parse at h
    split at h
    · cases h
    · rename_i inner hinner
      split at h
      · rename_i name args hpieces
        cases h
        have hfree : ∀ piece ∈ [name, args], '(' ∉ piece := by
          intro piece hpiece
          exact Text.not_mem_of_mem_pieces (hpieces ▸ hpiece)
        have hjoin := Text.joinWith_pieces '(' inner
        rw [hpieces] at hjoin
        refine ⟨args, ?_, hfree args (by simp), ?_, rfl⟩
        · simpa using hfree name (by simp)
        · rw [beforeClosing_eq_some_iff.1 hinner, ← hjoin]
          simp [Text.joinWith]
      · cases h
  · rintro ⟨args, hname, hargs, htext, hread⟩
    unfold parse
    rw [htext, beforeClosing_append]
    simp only [Text.pieces_append_cons hname, Text.pieces_of_not_mem hargs, String.ofList_toList,
      ← hread]

theorem render_ne_empty (t : Term) : t.render ≠ "" := by
  intro h
  have hlist := congrArg String.toList h
  simp [toList_render] at hlist

/-- What is read as an argument stands for itself. -/
theorem readsBack_of_mem_readArgs {args : List Char} (hargs : '(' ∉ args) {arg : String}
    (h : arg ∈ readArgs args) : ReadsBack arg := by
  obtain ⟨piece, hpiece, rfl⟩ := List.mem_map.1 h
  have hsub : piece ⊆ args.filter (· ≠ ' ') := (Text.infix_of_mem_pieces hpiece).subset
  refine ⟨?_, ?_, ?_⟩ <;> rw [String.toList_ofList]
  · exact fun hmem => hargs (List.mem_filter.1 (hsub hmem)).1
  · exact Text.not_mem_of_mem_pieces hpiece
  · exact fun hmem => absurd (List.mem_filter.1 (hsub hmem)).2 (by simp)

/-- Whatever is read as a term is printable. -/
theorem printable_of_parse (h : parse text = .ok t) : t.Printable := by
  obtain ⟨args, hname, hargs, -, hread⟩ := parse_eq_ok_iff.1 h
  refine ⟨hname, ?_, ?_⟩
  · rw [hread]
    exact readArgs_ne_nil args
  · rw [hread]
    exact fun arg => readsBack_of_mem_readArgs hargs

theorem Printable.parse_render (h : t.Printable) : parse t.render = .ok t :=
  Term.parse_render h.predicate h.args_ne_nil h.args

/-- Exactly the printable terms are read back. -/
theorem parse_render_eq_iff (t : Term) : parse t.render = .ok t ↔ t.Printable :=
  ⟨printable_of_parse, Printable.parse_render⟩

/-- The written form of what is read is the text without the spaces of its argument list. -/
theorem toList_render_of_parse (h : parse text = .ok t) : ∃ args,
    text.toList = t.predicate.toList ++ '(' :: args ++ [')'] ∧
      t.render.toList = t.predicate.toList ++ '(' :: args.filter (· ≠ ' ') ++ [')'] := by
  obtain ⟨args, -, -, htext, hread⟩ := parse_eq_ok_iff.1 h
  refine ⟨args, htext, ?_⟩
  have hargs : t.args.map String.toList = Text.pieces ',' (args.filter (· ≠ ' ')) := by
    rw [hread, readArgs, List.map_map]
    simp [Function.comp_def]
  rw [toList_render, hargs, Text.joinWith_pieces]

/-- Reading a term only drops spaces. -/
theorem render_sublist_of_parse (h : parse text = .ok t) : t.render.toList.Sublist text.toList := by
  obtain ⟨args, htext, hrender⟩ := toList_render_of_parse h
  rw [htext, hrender]
  exact ((List.Sublist.refl _).append (List.filter_sublist.cons_cons '(')).append (List.Sublist.refl _)

/-- A text without spaces is the written form of what is read from it. -/
theorem render_of_parse (h : parse text = .ok t) (hspace : ' ' ∉ text.toList) :
    t.render.toList = text.toList := by
  obtain ⟨args, htext, hrender⟩ := toList_render_of_parse h
  have hargs : args.filter (· ≠ ' ') = args := by
    refine List.filter_eq_self.2 fun c hc => decide_eq_true ?_
    rintro rfl
    exact hspace (by simp [htext, hc])
  rw [hrender, hargs, htext]

end Term

/-! ### Necks and separators -/

namespace Rule

theorem splitNeck_cons {c : Char} {rest : List Char} (h : c = ':' → rest.head? ≠ some '-') :
    splitNeck (c :: rest) = (splitNeck rest).map fun cut => (c :: cut.1, cut.2) := by
  rw [splitNeck]
  rintro rest' rfl rfl
  exact h rfl rfl

/-- A text is cut at its first neck. -/
theorem splitNeck_append_of_not_infix {head : List Char} (h : ¬[':', '-'] <:+: head)
    (body : List Char) : splitNeck (head ++ ':' :: '-' :: body) = some (head, body) := by
  induction head with
  | nil => rfl
  | cons c head ih =>
      obtain ⟨hfirst, hrest⟩ := not_or.1 (mt Text.pair_infix_cons_iff.2 h)
      -- the neck cannot begin in the head, whose last character is followed by a colon
      have hnext : c = ':' → (head ++ ':' :: '-' :: body).head? ≠ some '-' := by
        intro hc hdash
        refine hfirst ⟨hc, ?_⟩
        cases head with
        | nil => simp at hdash
        | cons d head => exact hdash
      rw [List.cons_append, splitNeck_cons hnext, ih hrest]
      rfl

theorem splitNeck_eq_some_iff {text head body : List Char} : splitNeck text = some (head, body) ↔
    text = head ++ ':' :: '-' :: body ∧ ¬[':', '-'] <:+: head := by
  constructor
  · intro h
    fun_induction splitNeck text generalizing head with
    | case1 => cases h
    | case2 rest =>
        cases h
        exact ⟨rfl, by simp⟩
    | case3 c rest hneck ih =>
        obtain ⟨⟨head', body'⟩, hrest, heq⟩ := Option.map_eq_some_iff.1 h
        cases heq
        obtain ⟨rfl, hfree⟩ := ih hrest
        refine ⟨rfl, fun hpart => ?_⟩
        rcases Text.pair_infix_cons_iff.1 hpart with ⟨rfl, hdash⟩ | hpart
        · obtain ⟨d, head', rfl⟩ := List.exists_cons_of_ne_nil
            (List.ne_nil_of_mem (List.mem_of_head? hdash))
          cases hdash
          exact hneck _ rfl rfl
        · exact hfree hpart
  · rintro ⟨rfl, h⟩
    exact splitNeck_append_of_not_infix h body

theorem splitNeck_eq_none_iff {text : List Char} :
    splitNeck text = none ↔ ¬[':', '-'] <:+: text := by
  fun_induction splitNeck text with
  | case1 => simp
  | case2 rest => simp [Text.pair_infix_cons_iff]
  | case3 c rest hneck ih =>
      have hfirst : ¬(c = ':' ∧ rest.head? = some '-') := by
        rintro ⟨rfl, hdash⟩
        obtain ⟨rest', rfl⟩ := List.head?_eq_some_iff.1 hdash
        exact hneck rest' rfl rfl
      rw [Option.map_eq_none_iff, ih, Text.pair_infix_cons_iff, or_iff_right hfirst]

/-! A comma separates literals exactly where it follows a closing parenthesis. -/

theorem separateLiterals_cons {c : Char} {rest : List Char}
    (h : c = ')' → rest.head? ≠ some ',') :
    separateLiterals (c :: rest) = c :: separateLiterals rest := by
  rw [separateLiterals]
  rintro rest' rfl rfl
  exact h rfl rfl

theorem head?_separateLiterals (text : List Char) :
    (separateLiterals text).head? = text.head? := by
  fun_cases separateLiterals text <;> rfl

theorem length_separateLiterals (text : List Char) :
    (separateLiterals text).length = text.length := by
  fun_induction separateLiterals text <;> simp_all

/-- No comma is left that separates literals. -/
theorem not_infix_separateLiterals (text : List Char) :
    ¬[')', ','] <:+: separateLiterals text := by
  fun_induction separateLiterals text with
  | case1 => simp
  | case2 rest ih => simpa [Text.pair_infix_cons_iff] using ih
  | case3 c rest hpair ih =>
      rw [Text.pair_infix_cons_iff, or_iff_left ih, head?_separateLiterals]
      rintro ⟨rfl, hcomma⟩
      obtain ⟨rest', rfl⟩ := List.head?_eq_some_iff.1 hcomma
      exact hpair rest' rfl rfl

/-- A text that ends with a parenthesis is separated from what follows, by either separator. -/
theorem separateLiterals_append {front rest : List Char} (h : ¬[')', ','] <:+: front ++ [')'])
    {sep : Char} (hsep : sep = ';' ∨ sep = ',') :
    separateLiterals (front ++ ')' :: sep :: rest) = front ++ ')' :: ';' :: separateLiterals rest := by
  induction front with
  | nil =>
      rcases hsep with rfl | rfl
      · rw [List.nil_append, separateLiterals_cons (by simp), separateLiterals_cons (by simp)]
        rfl
      · rfl
  | cons c front ih =>
      obtain ⟨hfirst, hrest⟩ := not_or.1 (mt Text.pair_infix_cons_iff.2 h)
      have hnext : c = ')' → (front ++ ')' :: sep :: rest).head? ≠ some ',' := by
        intro hc hcomma
        refine hfirst ⟨hc, ?_⟩
        cases front with
        | nil => simp at hcomma
        | cons d front => exact hcomma
      rw [List.cons_append, separateLiterals_cons hnext, ih hrest]
      rfl

theorem mem_of_mem_separateLiterals {text : List Char} {c : Char} (h : c ∈ separateLiterals text) :
    c ∈ text ∨ c = ';' := by
  fun_induction separateLiterals text with
  | case1 => cases h
  | case2 rest ih =>
      simp only [List.mem_cons] at h ⊢
      rcases h with rfl | rfl | h
      · exact .inl (.inl rfl)
      · exact .inr rfl
      · exact (ih h).imp_left fun hmem => .inr (.inr hmem)
  | case3 d rest _ ih =>
      rcases List.mem_cons.1 h with rfl | h
      · exact .inl (by simp)
      · exact (ih h).imp_left (List.mem_cons_of_mem d)

theorem separateLiterals_of_not_infix {text : List Char} (h : ¬[')', ','] <:+: text) :
    separateLiterals text = text := by
  induction text with
  | nil => rfl
  | cons c text ih =>
      obtain ⟨hfirst, hrest⟩ := not_or.1 (mt Text.pair_infix_cons_iff.2 h)
      rw [separateLiterals_cons fun hc hcomma => hfirst ⟨hc, hcomma⟩, ih hrest]

/-! ### Written rules -/

/-- The written body with a comma after the literals of some places, and a semicolon after the
others. -/
def joinBody (commas : ℕ → Bool) : List Term → List Char
  | [] => []
  | [literal] => literal.render.toList
  | literal :: next :: rest =>
    literal.render.toList ++
      (if commas 0 then ',' else ';') :: joinBody (fun place => commas (place + 1)) (next :: rest)

/-- The written rule with a comma after the literals of some places of its body. -/
def renderWith (commas : ℕ → Bool) (r : Rule) : String :=
  if r.isFact then r.head.render
  else r.head.render ++ ":-" ++ String.ofList (joinBody commas r.body)

theorem toList_renderBody (body : List Term) : (renderBody body).toList =
    Text.joinWith ';' (body.map fun literal => literal.render.toList) := by
  simp [renderBody, Text.joinWith_eq_intercalate, String.toList_intercalate, Function.comp_def]

theorem joinBody_false (body : List Term) :
    joinBody (fun _ => false) body = (renderBody body).toList := by
  rw [toList_renderBody]
  induction body with
  | nil => rfl
  | cons literal body ih =>
      cases body with
      | nil => rfl
      | cons next body =>
          rw [List.map_cons, Text.joinWith_cons_of_ne_nil _ _ (by simp), ← ih]
          rfl

/-- Without commas it is the written form. -/
theorem renderWith_false (r : Rule) : r.renderWith (fun _ => false) = r.render := by
  unfold renderWith render
  rw [joinBody_false, String.ofList_toList]

/-- It makes no difference which separators are written. -/
theorem separateLiterals_joinBody (commas : ℕ → Bool) {body : List Term}
    (h : ∀ literal ∈ body, ¬[')', ','] <:+: literal.render.toList) :
    separateLiterals (joinBody commas body) = (renderBody body).toList := by
  rw [toList_renderBody]
  fun_induction joinBody commas body with
  | case1 => rfl
  | case2 commas literal => exact separateLiterals_of_not_infix (h literal (by simp))
  | case3 commas literal next rest ih =>
      have hliteral := h literal (by simp)
      have hsep : (if commas 0 then ',' else ';') = ';' ∨ (if commas 0 then ',' else ';') = ',' := by
        cases commas 0 <;> simp
      rw [Term.toList_render] at hliteral
      rw [List.map_cons, Text.joinWith_cons_of_ne_nil _ _ (by simp), Term.toList_render,
        List.append_assoc, List.singleton_append, separateLiterals_append hliteral hsep,
        ih fun other hother => h other (List.mem_cons_of_mem literal hother)]
      simp

/-! ### What is read as a rule -/

variable {r : Rule} {text : String}

/-- The literals that are read from what follows a neck. -/
def readBody (back : List Char) : Except SyntaxError (List Term) :=
  if back.isEmpty then .ok [] else (bodyPieces back).mapM Term.parse

/-- What is read as a rule: a term alone, or a term and what follows a neck. -/
theorem parse_eq_ok_iff : parse text = .ok r ↔
    (splitNeck text.toList = none ∧ Term.parse text = .ok r.head ∧ r.body = []) ∨
      ∃ front back, splitNeck text.toList = some (front, back) ∧
        Term.parse (String.ofList front) = .ok r.head ∧ readBody back = .ok r.body := by
  obtain ⟨head, body⟩ := r
  unfold parse
  cases hsplit : splitNeck text.toList with
  | none =>
      rw [map_eq_ok_iff]
      simp [fact, eq_comm]
  | some cut =>
      obtain ⟨front, back⟩ := cut
      simp only [reduceCtorEq, false_and, false_or, Option.some.injEq, Prod.mk.injEq]
      rw [bind_eq_ok_iff]
      cases back with
      | nil => simp [readBody, fact, pure, Except.pure]
      | cons c back => simp [readBody, bind_eq_ok_iff, pure, Except.pure]

theorem readBody_eq_nil_iff {back : List Char} : readBody back = .ok [] ↔ back = [] := by
  cases back with
  | nil => simp [readBody]
  | cons c back =>
      refine ⟨fun h => ?_, nofun⟩
      -- a text has a piece, hence a literal
      have hnil : bodyPieces (c :: back) = [] :=
        List.forall₂_nil_right_iff.1 (mapM_eq_ok_iff.1 h)
      exact absurd (List.map_eq_nil_iff.1 hnil) (Text.pieces_ne_nil _ _)

theorem mapM_of_readBody {back : List Char} {body : List Term} (h : readBody back = .ok body)
    (hne : body ≠ []) : (bodyPieces back).mapM Term.parse = .ok body := by
  unfold readBody at h
  split at h
  · cases h
    exact absurd rfl hne
  · exact h

/-- A literal is read from a piece of the body, of which only spaces are dropped. -/
theorem exists_of_mem_readBody {back : List Char} {body : List Term} (h : readBody back = .ok body)
    {literal : Term} (hliteral : literal ∈ body) :
    ∃ piece ∈ Text.pieces ';' (separateLiterals back),
      Term.parse (String.ofList piece) = .ok literal ∧ literal.render.toList.Sublist piece := by
  obtain ⟨_, htext, hparse⟩ :=
    exists_of_mem_mapM (mapM_of_readBody h (List.ne_nil_of_mem hliteral)) hliteral
  obtain ⟨piece, hpiece, rfl⟩ := List.mem_map.1 htext
  have hsub := Term.render_sublist_of_parse hparse
  rw [String.toList_ofList] at hsub
  exact ⟨piece, hpiece, hparse, hsub⟩

/-- What is read as a fact has no neck, or nothing after it. -/
theorem parse_eq_fact_iff {head : Term} : parse text = .ok ⟨head, []⟩ ↔
    (splitNeck text.toList = none ∧ Term.parse text = .ok head) ∨
      ∃ front, splitNeck text.toList = some (front, []) ∧
        Term.parse (String.ofList front) = .ok head := by
  rw [parse_eq_ok_iff]
  simp [readBody_eq_nil_iff]

/-! ### Printable rules -/

/-- The rules that are read back: their terms are, the written head holds no neck, and no written
literal holds a separator. -/
structure Printable (r : Rule) : Prop where
  head : r.head.Printable
  body : ∀ literal ∈ r.body, literal.Printable
  neck : ¬[':', '-'] <:+: r.head.render.toList
  semicolon : ∀ literal ∈ r.body, ';' ∉ literal.render.toList
  comma : ∀ literal ∈ r.body, ¬[')', ','] <:+: literal.render.toList

instance (r : Rule) : Decidable r.Printable :=
  decidable_of_iff ((r.head.Printable ∧ ∀ literal ∈ r.body, literal.Printable) ∧
      ¬[':', '-'] <:+: r.head.render.toList ∧ ∀ literal ∈ r.body, ';' ∉ literal.render.toList ∧
        ¬[')', ','] <:+: literal.render.toList)
    ⟨fun ⟨⟨hhead, hbody⟩, hneck, hfree⟩ => ⟨hhead, hbody, hneck, fun literal hliteral =>
        (hfree literal hliteral).1, fun literal hliteral => (hfree literal hliteral).2⟩,
      fun h => ⟨⟨h.head, h.body⟩, h.neck, fun literal hliteral =>
        ⟨h.semicolon literal hliteral, h.comma literal hliteral⟩⟩⟩

theorem joinBody_ne_nil (commas : ℕ → Bool) {body : List Term} (h : body ≠ []) :
    joinBody commas body ≠ [] := by
  fun_cases joinBody commas body with
  | case1 => exact absurd rfl h
  | case2 literal => simp [Term.toList_render]
  | case3 literal next rest => simp [Term.toList_render]

theorem mapM_parse_render {body : List Term} (h : ∀ literal ∈ body, literal.Printable) :
    (body.map Term.render).mapM Term.parse = .ok body :=
  mapM_eq_ok_iff.2 (List.forall₂_map_left_iff.2
    (List.forall₂_same.2 fun literal hliteral => (h literal hliteral).parse_render))

namespace Printable

/-- The pieces of a written body are its literals. -/
theorem bodyPieces_joinBody (h : r.Printable) (commas : ℕ → Bool) (hne : r.body ≠ []) :
    bodyPieces (joinBody commas r.body) = r.body.map Term.render := by
  have hpieces : ∀ piece ∈ r.body.map fun literal => literal.render.toList, ';' ∉ piece := by
    intro piece hpiece
    obtain ⟨literal, hliteral, rfl⟩ := List.mem_map.1 hpiece
    exact h.semicolon literal hliteral
  rw [bodyPieces, separateLiterals_joinBody commas h.comma, toList_renderBody,
    Text.pieces_joinWith (by simpa using hne) hpieces, List.map_map]
  simp [Function.comp_def]

theorem readBody_joinBody (h : r.Printable) (commas : ℕ → Bool) :
    readBody (joinBody commas r.body) = .ok r.body := by
  by_cases hne : r.body = []
  · rw [hne]
    rfl
  · unfold readBody
    rw [if_neg (by simpa using joinBody_ne_nil commas hne), h.bodyPieces_joinBody commas hne,
      mapM_parse_render h.body]

/-- A printable rule is read back, whichever separators are written. -/
theorem parse_renderWith (h : r.Printable) (commas : ℕ → Bool) :
    parse (r.renderWith commas) = .ok r := by
  rw [parse_eq_ok_iff]
  unfold renderWith
  split
  · rename_i hfact
    have hbody : r.body = [] := List.isEmpty_iff.1 hfact
    exact .inl ⟨splitNeck_eq_none_iff.2 h.neck, h.head.parse_render, hbody⟩
  · have htext : (r.head.render ++ ":-" ++ String.ofList (joinBody commas r.body)).toList =
        r.head.render.toList ++ ':' :: '-' :: joinBody commas r.body := by simp
    refine .inr ⟨r.head.render.toList, joinBody commas r.body, ?_, ?_, h.readBody_joinBody commas⟩
    · rw [htext, splitNeck_append_of_not_infix h.neck]
    · rw [String.ofList_toList, h.head.parse_render]

/-- A printable rule is read back. -/
theorem parse_render (h : r.Printable) : parse r.render = .ok r := by
  rw [← renderWith_false]
  exact h.parse_renderWith _

/-- A printable rule whose body may be unfinished is read back. -/
theorem parseOpen_render (h : r.Printable) :
    parseOpen (r.head.render ++ ":-" ++ renderBody r.body) = .ok r := by
  have htext : (r.head.render ++ ":-" ++ renderBody r.body).toList =
      r.head.render.toList ++ ':' :: '-' :: (renderBody r.body).toList := by simp
  have hpieces : (bodyPieces (renderBody r.body).toList).filter (· ≠ "") =
      r.body.map Term.render := by
    by_cases hne : r.body = []
    · rw [hne]
      rfl
    · rw [← joinBody_false, h.bodyPieces_joinBody _ hne]
      refine List.filter_eq_self.2 fun text htext => ?_
      obtain ⟨literal, -, rfl⟩ := List.mem_map.1 htext
      exact decide_eq_true literal.render_ne_empty
  unfold parseOpen
  rw [htext, splitNeck_append_of_not_infix h.neck, Option.getD_some]
  dsimp only
  rw [String.ofList_toList, h.head.parse_render, hpieces, mapM_parse_render h.body]
  rfl

end Printable

/-- Whatever is read from a text without spaces is printable. -/
theorem printable_of_parse (hspace : ' ' ∉ text.toList) (h : parse text = .ok r) : r.Printable := by
  rcases parse_eq_ok_iff.1 h with ⟨hneck, hhead, hbody⟩ | ⟨front, back, hsplit, hhead, hback⟩
  · have hrender := Term.render_of_parse hhead hspace
    exact ⟨Term.printable_of_parse hhead, by simp [hbody],
      hrender ▸ splitNeck_eq_none_iff.1 hneck, by simp [hbody], by simp [hbody]⟩
  · obtain ⟨htext, hneck⟩ := splitNeck_eq_some_iff.1 hsplit
    have hfront : r.head.render.toList = front := by
      rw [Term.render_of_parse hhead (by simp_all), String.toList_ofList]
    have hspace : ' ' ∉ separateLiterals back := by
      intro hmem
      rcases mem_of_mem_separateLiterals hmem with hmem | hmem
      · exact hspace (by simp [htext, hmem])
      · cases hmem
    -- every literal is the written form of a piece of the body
    have hpieces : ∀ literal ∈ r.body, literal.Printable ∧
        literal.render.toList ∈ Text.pieces ';' (separateLiterals back) := by
      intro literal hliteral
      obtain ⟨piece, hpiece, hparse, -⟩ := exists_of_mem_readBody hback hliteral
      have hfree : ' ' ∉ (String.ofList piece).toList := by
        rw [String.toList_ofList]
        exact fun hmem => hspace ((Text.infix_of_mem_pieces hpiece).subset hmem)
      rw [Term.render_of_parse hparse hfree, String.toList_ofList]
      exact ⟨Term.printable_of_parse hparse, hpiece⟩
    refine ⟨Term.printable_of_parse hhead, fun literal hliteral => (hpieces literal hliteral).1,
      hfront ▸ hneck, fun literal hliteral => ?_, fun literal hliteral hpart => ?_⟩
    · exact Text.not_mem_of_mem_pieces (hpieces literal hliteral).2
    · exact not_infix_separateLiterals back
        (hpart.trans (Text.infix_of_mem_pieces (hpieces literal hliteral).2))

/-- The head of a rule that is read back is not cut short at an earlier neck. -/
theorem splitNeck_of_parse_render (hbody : r.body ≠ []) (h : parse r.render = .ok r) :
    ¬[':', '-'] <:+: r.head.render.toList ∧ readBody (renderBody r.body).toList = .ok r.body := by
  have htext : r.render.toList = r.head.render.toList ++ ':' :: '-' :: (renderBody r.body).toList := by
    simp [render, isFact, hbody]
  rcases parse_eq_ok_iff.1 h with ⟨-, -, hnil⟩ | ⟨front, back, hsplit, hhead, hback⟩
  · exact absurd hnil hbody
  · obtain ⟨hcut, hneck⟩ := splitNeck_eq_some_iff.1 hsplit
    have hle := (Term.render_sublist_of_parse hhead).length_le
    rw [String.toList_ofList] at hle
    have hprefix : r.head.render.toList <+: front :=
      List.prefix_of_prefix_length_le (htext ▸ List.prefix_append _ _) (hcut ▸ List.prefix_append _ _)
        hle
    have hfree : ¬[':', '-'] <:+: r.head.render.toList :=
      fun hpart => hneck (hpart.trans hprefix.isInfix)
    rw [htext, splitNeck_append_of_not_infix hfree] at hsplit
    cases hsplit
    exact ⟨hfree, hback⟩

/-- A body that is read back is cut where it was joined. -/
theorem free_of_readBody_renderBody {body : List Term}
    (h : readBody (renderBody body).toList = .ok body) : ∀ literal ∈ body, literal.Printable ∧
      ';' ∉ literal.render.toList ∧ ¬[')', ','] <:+: literal.render.toList := by
  intro literal hliteral
  have hsublists : List.Forall₂ List.Sublist (body.map fun literal => literal.render.toList)
      (Text.pieces ';' (separateLiterals (renderBody body).toList)) := by
    have hread := mapM_of_readBody h (List.ne_nil_of_mem hliteral)
    have hparse := List.forall₂_map_left_iff.1 (mapM_eq_ok_iff.1 hread)
    refine List.forall₂_map_left_iff.2 (hparse.flip.imp fun literal piece hpiece => ?_)
    have hsub := Term.render_sublist_of_parse hpiece
    rwa [String.toList_ofList] at hsub
  -- the text is used up: nothing was dropped, and no comma was taken for a separator
  have hsame : (renderBody body).toList = separateLiterals (renderBody body).toList := by
    have hsub := Text.joinWith_sublist ';' hsublists
    rw [← toList_renderBody, Text.joinWith_pieces] at hsub
    exact hsub.eq_of_length (length_separateLiterals _).symm
  obtain ⟨piece, hpiece, hparse, hsub⟩ := exists_of_mem_readBody h hliteral
  refine ⟨Term.printable_of_parse hparse, ?_, fun hpart => ?_⟩
  · exact fun hmem => Text.not_mem_of_mem_pieces hpiece (hsub.subset hmem)
  · refine not_infix_separateLiterals (renderBody body).toList ?_
    rw [← hsame, toList_renderBody]
    exact hpart.trans (Text.infix_joinWith ';' (List.mem_map.2 ⟨literal, hliteral, rfl⟩))

/-- A rule that is read back is printable. -/
theorem printable_of_parse_render (h : parse r.render = .ok r) : r.Printable := by
  have hhead : r.head.Printable := by
    rcases parse_eq_ok_iff.1 h with ⟨-, hhead, -⟩ | ⟨_, _, -, hhead, -⟩ <;>
      exact Term.printable_of_parse hhead
  by_cases hbody : r.body = []
  · have htext : r.render = r.head.render := by simp [render, isFact, hbody]
    have hneck : ¬[':', '-'] <:+: r.head.render.toList := by
      rcases parse_eq_ok_iff.1 h with ⟨hnone, -, -⟩ | ⟨front, back, hsplit, hread, -⟩
      · exact splitNeck_eq_none_iff.1 (htext ▸ hnone)
      · -- the head cannot be read from what stands before a neck in it
        have hcut := (splitNeck_eq_some_iff.1 hsplit).1
        have hle := (Term.render_sublist_of_parse hread).length_le
        rw [String.toList_ofList, ← htext, hcut] at hle
        simp only [List.length_append, List.length_cons] at hle
        omega
    exact ⟨hhead, by simp [hbody], hneck, by simp [hbody], by simp [hbody]⟩
  · obtain ⟨hneck, hback⟩ := splitNeck_of_parse_render hbody h
    have hfree := free_of_readBody_renderBody hback
    exact ⟨hhead, fun literal hliteral => (hfree literal hliteral).1, hneck,
      fun literal hliteral => (hfree literal hliteral).2.1,
      fun literal hliteral => (hfree literal hliteral).2.2⟩

/-- **Printing and reading are inverse exactly on printable rules.**  Exactly the printable terms
and the printable rules are read back from their written forms.  Any of the separators between the
literals of a printable rule may be written as a comma.  And whatever is read from a text without
spaces is read back. -/
theorem parse_render_iff_printable :
    (∀ t : Term, Term.parse t.render = .ok t ↔ t.Printable) ∧
      (∀ r : Rule, parse r.render = .ok r ↔ r.Printable) ∧
      (∀ r : Rule, r.Printable → ∀ commas : ℕ → Bool, parse (r.renderWith commas) = .ok r) ∧
      ∀ (text : String) (r : Rule), ' ' ∉ text.toList → parse text = .ok r →
        parse r.render = .ok r :=
  ⟨Term.parse_render_eq_iff, fun _ => ⟨printable_of_parse_render, Printable.parse_render⟩,
    fun _ h commas => h.parse_renderWith commas,
    fun _ _ hspace h => (printable_of_parse hspace h).parse_render⟩

/-- A rule whose two literals may be separated by a comma. -/
def grandparent : Rule :=
  ⟨⟨"grand", ["X", "Z"]⟩, [⟨"parent", ["X", "Y"]⟩, ⟨"parent", ["Y", "Z"]⟩]⟩

theorem parse_render_iff_printable_grandparent :
    grandparent.Printable ∧
      grandparent.renderWith (fun _ => true) = "grand(X,Z):-parent(X,Y),parent(Y,Z)" ∧
      parse "grand(X,Z):-parent(X,Y),parent(Y,Z)" = .ok grandparent ∧
      ' ' ∉ "grand(X,Z):-parent(X,Y),parent(Y,Z)".toList ∧
      parse grandparent.render = .ok grandparent := by
  have hprintable : grandparent.Printable := by decide +kernel
  have htext : grandparent.renderWith (fun _ => true) = "grand(X,Z):-parent(X,Y),parent(Y,Z)" := by
    decide +kernel
  have hspace : ' ' ∉ "grand(X,Z):-parent(X,Y),parent(Y,Z)".toList := by decide +kernel
  have hparse := parse_render_iff_printable.2.2.1 grandparent hprintable fun _ => true
  rw [htext] at hparse
  exact ⟨hprintable, htext, hparse, hspace, parse_render_iff_printable.2.2.2 _ _ hspace hparse⟩

end Rule

end ClauseForest
