/-
**Cutting a declaration text into tokens**

A token is written by its spelling, and the pieces that tokens and gaps may consist of are described by
patterns that say nothing about how a text is cut.  The tokens of a text are those of the longest match
at every position; and whatever tokens are written one after another, with gaps anywhere, are the tokens
of the text, provided that a gap parts two names.

Main definitions:

* `Token.spelling` — the characters of a token;
* `Lexeme.Scans` — the pieces that match a pattern;
* `Lexeme.Munched` — the tokens of a text by the longest match at every position;
* `Writes` — a text writes tokens one after another, with gaps before, between and after them.

Main results:

* `Lexeme.munched_iff` — **the tokens of a text are those of the longest matches**;
* `map_token_of_writes` — **what is written is cut into the same tokens**.
-/

import ClauseForest.Proofs.Mode.WellFormed
import Mathlib.Data.Nat.Find
import Mathlib.Data.List.Chain

set_option relaxedAutoImplicit false
set_option autoImplicit false

namespace ClauseForest

/-! ### Spellings -/

namespace Token

/-- The characters of a token. -/
def spelling : Token → List Char
  | .period => ['.']
  | .comma => [',']
  | .semicolon => [';']
  | .openParen => ['(']
  | .closeParen => [')']
  | .openBracket => ['[']
  | .closeBracket => [']']
  | .plus => ['+']
  | .minus => ['-']
  | .hash => ['#']
  | .name text => text.toList
  | .unknown c => [c]

/-- Whether a token is a name. -/
def isWord : Token → Bool
  | .name _ => true
  | _ => false

/-- Whether a token stands for a character that starts no token. -/
def isUnknown : Token → Bool
  | .unknown _ => true
  | _ => false

/-- Whether a token is one of the marks, which are all tokens but names and unknown characters. -/
def isMark (t : Token) : Bool := !t.isWord && !t.isUnknown

/-- A mark is a single character, which is neither a gap nor a part of a name. -/
theorem exists_spelling_of_isMark {t : Token} (h : t.isMark = true) :
    ∃ c, t.spelling = [c] ∧ ofChar c = t ∧ Lexeme.isGap c = false ∧ Lexeme.continuesName c = false := by
  cases t with
  | name text => cases h
  | unknown c => cases h
  | _ => exact ⟨_, rfl, rfl, by decide, by decide⟩

/-- A character is the whole of a mark, or it is unknown. -/
theorem ofChar_eq_unknown_or (c : Char) :
    ofChar c = .unknown c ∨ (ofChar c).isMark = true ∧ (ofChar c).spelling = [c] := by
  unfold ofChar
  split
  case h_11 => exact .inl rfl
  all_goals exact .inr ⟨rfl, rfl⟩

end Token

theorem isName_ofList_cons {c : Char} {rest : List Char} :
    isName (String.ofList (c :: rest)) = true ↔
      Lexeme.startsName c = true ∧ ∀ d ∈ rest, Lexeme.continuesName d = true := by
  simp [isName]

namespace Lexeme

theorem continuesName_of_isGap {c : Char} (h : isGap c = true) : continuesName c = false := by
  simp only [isGap, Bool.or_eq_true, beq_iff_eq] at h
  obtain (((rfl | rfl) | rfl) | rfl) | rfl := h <;> decide

theorem isGap_of_startsName {c : Char} (h : startsName c = true) : isGap c = false := by
  by_contra hgap
  rw [Bool.not_eq_false] at hgap
  exact absurd (continuesName_of_startsName h) (by simp [continuesName_of_isGap hgap])

theorem startsName_of_continuesName {c : Char} (h : continuesName c = false) :
    startsName c = false := by
  by_contra hstarts
  rw [Bool.not_eq_false] at hstarts
  exact absurd (continuesName_of_startsName hstarts) (by simp [h])

/-! ### What the tokens begin with -/

theorem byteLength_cons (c : Char) (text : List Char) :
    byteLength (c :: text) = c.utf8Size + byteLength text := by
  have hfold : ∀ (rest : List Char) (n : Nat),
      rest.foldl (fun n c => n + c.utf8Size) n = n + byteLength rest := by
    intro rest
    induction rest with
    | nil => exact fun n => rfl
    | cons d rest ih =>
        intro n
        simp only [byteLength, List.foldl_cons] at ih ⊢
        rw [ih, ih (0 + d.utf8Size)]
        omega
  rw [byteLength, List.foldl_cons, hfold, Nat.zero_add]

/-- The token of a piece of text, if it is not a gap. -/
def ofPiece (start : Nat) (piece : List Char) (found : Option Token) : List Lexeme :=
  (found.map fun token => ⟨token, start, start + byteLength piece⟩).toList

theorem ofChars_nil (start : Nat) : ofChars start [] = [] := by
  rw [ofChars]

/-- A gap is skipped. -/
theorem ofChars_gap_append {gap : List Char} (hgap : ∀ c ∈ gap, isGap c = true) (start : Nat)
    (rest : List Char) :
    ofChars start (gap ++ rest) = ofChars (start + byteLength gap) rest := by
  induction gap generalizing start with
  | nil => rfl
  | cons c gap ih =>
      rw [List.forall_mem_cons] at hgap
      rw [List.cons_append, ofChars, if_pos hgap.1, ih hgap.2, byteLength_cons, Nat.add_assoc]

/-- A name is one token where the text does not go on with it. -/
theorem ofChars_name_append {text : String} (hname : isName text = true) {rest : List Char}
    (hrest : ∀ c ∈ rest.head?, continuesName c = false) (start : Nat) :
    ofChars start (text.toList ++ rest) =
      ofPiece start text.toList (some (.name text)) ++
        ofChars (start + byteLength text.toList) rest := by
  obtain ⟨c, more, heq, hc, hmore⟩ := exists_cons_of_isName hname
  have htake : rest.takeWhile continuesName = [] := by
    cases rest with
    | nil => rfl
    | cons d rest => exact List.takeWhile_cons_of_neg (by simp [hrest d rfl])
  have hdrop : rest.dropWhile continuesName = rest := by
    cases rest with
    | nil => rfl
    | cons d rest => exact List.dropWhile_cons_of_neg (by simp [hrest d rfl])
  have htext : String.ofList (c :: more) = text := by
    rw [← heq, String.ofList_toList]
  rw [heq, List.cons_append, ofChars, if_neg (by simp [isGap_of_startsName hc]), if_pos hc,
    List.takeWhile_append_of_pos hmore, List.dropWhile_append_of_pos hmore, htake, hdrop,
    List.append_nil, ← htext]
  rfl

/-- A character that is neither a gap nor the start of a name is a token of its own. -/
theorem ofChars_cons_of_not {c : Char} (hgap : isGap c = false) (hname : startsName c = false)
    (start : Nat) (rest : List Char) :
    ofChars start (c :: rest) =
      ⟨.ofChar c, start, start + c.utf8Size⟩ :: ofChars (start + c.utf8Size) rest := by
  rw [ofChars, if_neg (by simp [hgap]), if_neg (by simp [hname])]

theorem ofChars_mark_append {token : Token} (h : token.isMark = true) (start : Nat)
    (rest : List Char) :
    ofChars start (token.spelling ++ rest) =
      ofPiece start token.spelling (some token) ++
        ofChars (start + byteLength token.spelling) rest := by
  obtain ⟨c, hspelling, hchar, hgap, hname⟩ := Token.exists_spelling_of_isMark h
  rw [hspelling, List.singleton_append, ofChars_cons_of_not hgap (startsName_of_continuesName hname),
    hchar, ofPiece, byteLength_cons]
  rfl

/-! ### The longest match -/

/-- The pieces of text that match a pattern, with the token that they are.  A run of gap characters
is no token. -/
inductive Scans : List Char → Option Token → Prop
  | mark {token : Token} (h : token.isMark = true) : Scans token.spelling (some token)
  | name {text : String} (h : isName text = true) : Scans text.toList (some (.name text))
  | gap {piece : List Char} (hne : piece ≠ []) (h : ∀ c ∈ piece, isGap c = true) : Scans piece none

/-- The tokens of the rest of a text that begins at a byte position.  At every position the longest
piece that matches a pattern is taken, and a single character where none does. -/
inductive Munched : Nat → List Char → List Lexeme → Prop
  | nil (start : Nat) : Munched start [] []
  | piece {start : Nat} {piece rest : List Char} {found : Option Token} {lexemes : List Lexeme}
      (h : Scans piece found)
      (longest : ∀ other token, Scans other token → other <+: piece ++ rest →
        other.length ≤ piece.length)
      (hrest : Munched (start + byteLength piece) rest lexemes) :
      Munched start (piece ++ rest) (ofPiece start piece found ++ lexemes)
  | unknown {start : Nat} {c : Char} {rest : List Char} {lexemes : List Lexeme}
      (h : ∀ piece found, Scans piece found → ¬piece <+: c :: rest)
      (hrest : Munched (start + c.utf8Size) rest lexemes) :
      Munched start (c :: rest) (⟨.unknown c, start, start + c.utf8Size⟩ :: lexemes)

theorem Scans.ne_nil {piece : List Char} {found : Option Token} (h : Scans piece found) :
    piece ≠ [] := by
  cases h with
  | mark h =>
      obtain ⟨c, hspelling, -⟩ := Token.exists_spelling_of_isMark h
      simp [hspelling]
  | name h =>
      obtain ⟨c, rest, heq, -⟩ := exists_cons_of_isName h
      simp [heq]
  | gap hne h => exact hne

/-- What the longest match comes before does not go on with a name. -/
theorem not_continuesName_of_longest {text : String} (hname : isName text = true)
    {rest : List Char}
    (longest : ∀ other token, Scans other token → other <+: text.toList ++ rest →
      other.length ≤ text.toList.length) :
    ∀ c ∈ rest.head?, continuesName c = false := by
  intro c hc
  by_contra hcontinues
  rw [Bool.not_eq_false] at hcontinues
  obtain ⟨rest, rfl⟩ : ∃ more, rest = c :: more := by
    cases rest with
    | nil => cases hc
    | cons d rest => exact ⟨rest, by rw [Option.mem_some_iff.1 hc]⟩
  -- the name with one more character is a longer match
  obtain ⟨first, more, heq, hfirst, hmore⟩ := exists_cons_of_isName hname
  have hlonger : isName (String.ofList (text.toList ++ [c])) = true := by
    rw [heq, List.cons_append, isName_ofList_cons]
    refine ⟨hfirst, fun d hd => ?_⟩
    rcases List.mem_append.1 hd with hd | hd
    · exact hmore d hd
    · rw [List.mem_singleton.1 hd]
      exact hcontinues
  have hprefix : (String.ofList (text.toList ++ [c])).toList <+: text.toList ++ c :: rest :=
    ⟨rest, by simp⟩
  have hlength := longest _ _ (.name hlonger) hprefix
  rw [String.toList_ofList, List.length_append, List.length_singleton] at hlength
  exact Nat.not_succ_le_self _ hlength

/-- A character that begins no match is unknown, and no part of a name or gap. -/
theorem unknown_of_not_scans {c : Char} {rest : List Char}
    (h : ∀ piece found, Scans piece found → ¬piece <+: c :: rest) :
    isGap c = false ∧ startsName c = false ∧ Token.ofChar c = .unknown c := by
  have hprefix : [c] <+: c :: rest := ⟨rest, rfl⟩
  refine ⟨?_, ?_, ?_⟩
  · by_contra hgap
    rw [Bool.not_eq_false] at hgap
    exact h [c] none (.gap (by simp) (by simpa using hgap)) hprefix
  · by_contra hname
    rw [Bool.not_eq_false] at hname
    have hc : isName (String.ofList [c]) = true := isName_ofList_cons.2 ⟨hname, by simp⟩
    exact h _ _ (.name hc) (by simp)
  · rcases Token.ofChar_eq_unknown_or c with hc | ⟨hmark, hspelling⟩
    · exact hc
    · exact absurd (hspelling ▸ hprefix) (h _ _ (.mark hmark))

/-- Where some piece matches, there is a longest one. -/
theorem exists_longest {text : List Char} (h : ∃ piece found, Scans piece found ∧ piece <+: text) :
    ∃ piece found, Scans piece found ∧ piece <+: text ∧
      ∀ other token, Scans other token → other <+: text → other.length ≤ piece.length := by
  classical
  let P : Nat → Prop := fun n => ∃ piece found, Scans piece found ∧ piece <+: text ∧ piece.length = n
  have hbound : ∀ {other : List Char}, other <+: text → other.length ≤ text.length :=
    List.IsPrefix.length_le
  obtain ⟨first, token, hfirst, hprefix⟩ := h
  have hP : P first.length := ⟨first, token, hfirst, hprefix, rfl⟩
  obtain ⟨piece, found, hpiece, hle, hlength⟩ := Nat.findGreatest_spec (hbound hprefix) hP
  refine ⟨piece, found, hpiece, hle, fun other token hother hle => ?_⟩
  rw [hlength]
  exact Nat.le_findGreatest (hbound hle) ⟨other, token, hother, hle, rfl⟩

theorem Munched.eq_ofChars {start : Nat} {text : List Char} {lexemes : List Lexeme}
    (h : Munched start text lexemes) : lexemes = ofChars start text := by
  induction h with
  | nil start => exact (ofChars_nil start).symm
  | piece h longest hrest ih =>
      rw [ih]
      cases h with
      | mark h => exact (ofChars_mark_append h _ _).symm
      | name h => exact (ofChars_name_append h (not_continuesName_of_longest h longest) _).symm
      | gap hne h => exact (ofChars_gap_append h _ _).symm
  | unknown h hrest ih =>
      obtain ⟨hgap, hname, hchar⟩ := unknown_of_not_scans h
      rw [ih, ofChars_cons_of_not hgap hname, hchar]

theorem exists_munched (start : Nat) (text : List Char) : ∃ lexemes, Munched start text lexemes := by
  induction h : text.length using Nat.strong_induction_on generalizing start text with
  | _ n ih =>
      cases text with
      | nil => exact ⟨[], .nil start⟩
      | cons c rest =>
          by_cases hscans : ∃ piece found, Scans piece found ∧ piece <+: c :: rest
          · obtain ⟨piece, found, hpiece, ⟨rest', heq⟩, longest⟩ := exists_longest hscans
            have hlt : rest'.length < n := by
              have hpos := List.length_pos_of_ne_nil hpiece.ne_nil
              rw [← h, ← heq, List.length_append]
              omega
            obtain ⟨lexemes, hlexemes⟩ := ih _ hlt (start + byteLength piece) rest' rfl
            rw [← heq] at longest ⊢
            exact ⟨_, .piece hpiece longest hlexemes⟩
          · have hlt : rest.length < n := by
              rw [← h, List.length_cons]
              exact Nat.lt_succ_self _
            obtain ⟨lexemes, hlexemes⟩ := ih _ hlt (start + c.utf8Size) rest rfl
            exact ⟨_, .unknown (fun piece found hp hle => hscans ⟨piece, found, hp, hle⟩) hlexemes⟩

/-- The tokens of a text are those of the longest match at every position. -/
theorem munched_iff {start : Nat} {text : List Char} {lexemes : List Lexeme} :
    Munched start text lexemes ↔ lexemes = ofChars start text := by
  refine ⟨Munched.eq_ofChars, ?_⟩
  rintro rfl
  obtain ⟨lexemes, h⟩ := exists_munched start text
  exact h.eq_ofChars ▸ h

end Lexeme

/-! ### Writing tokens -/

/-- A text writes tokens one after another, with gaps before, between and after them. -/
inductive Writes : List Token → List Char → Prop
  | nil {gap : List Char} (hgap : ∀ c ∈ gap, Lexeme.isGap c = true) : Writes [] gap
  | cons {gap text : List Char} {tokens : List Token} (token : Token)
      (hgap : ∀ c ∈ gap, Lexeme.isGap c = true) (htext : Writes tokens text) :
      Writes (token :: tokens) (gap ++ (token.spelling ++ text))

/-- Two neighbours that need no gap between them: not both are names. -/
def Token.Apart (a b : Token) : Prop := ¬(a.isWord = true ∧ b.isWord = true)

/-- A token that a text can hold. -/
def Token.Writable (t : Token) : Prop := t.NamesAreNames ∧ t.isUnknown = false

theorem Token.apart_of_isMark_left {a : Token} (h : a.isMark = true) (b : Token) : Apart a b := by
  simp only [isMark, Bool.and_eq_true, Bool.not_eq_true'] at h
  simp [Apart, h.1]

theorem Token.apart_of_isMark_right {b : Token} (h : b.isMark = true) (a : Token) : Apart a b := by
  simp only [isMark, Bool.and_eq_true, Bool.not_eq_true'] at h
  simp [Apart, h.1]

/-- Tokens may be written without any gap. -/
theorem writes_flatMap_spelling (tokens : List Token) : Writes tokens (tokens.flatMap Token.spelling) := by
  induction tokens with
  | nil => exact .nil (by simp)
  | cons token tokens ih =>
      have hgap : ∀ c ∈ [], Lexeme.isGap c = true := by simp
      exact .cons token hgap ih

theorem Token.isMark_of_writable {t : Token} (h : t.Writable) (hword : t.isWord = false) :
    t.isMark = true := by
  simp [isMark, hword, h.2]

/-- A text that writes tokens of which the first is no name does not go on with a name. -/
theorem Writes.not_continuesName {tokens : List Token} {text : List Char} (h : Writes tokens text)
    (hwritable : ∀ t ∈ tokens, t.Writable) (hfirst : ∀ t ∈ tokens.head?, t.isWord = false) :
    ∀ c ∈ text.head?, Lexeme.continuesName c = false := by
  cases h with
  | nil hgap => exact fun c hc => Lexeme.continuesName_of_isGap (hgap c (List.mem_of_mem_head? hc))
  | @cons gap text tokens token hgap htext =>
      cases gap with
      | nil =>
          have hmark := Token.isMark_of_writable (hwritable token (by simp)) (hfirst token rfl)
          obtain ⟨c, hspelling, -, -, hc⟩ := Token.exists_spelling_of_isMark hmark
          simpa [hspelling] using hc
      | cons d gap =>
          intro c hc
          rw [← Option.mem_some_iff.1 hc]
          exact Lexeme.continuesName_of_isGap (hgap d (by simp))

/-- What is written is cut into the same tokens, whatever the gaps are. -/
theorem map_token_of_writes {tokens : List Token} {text : List Char} (h : Writes tokens text)
    (hwritable : ∀ t ∈ tokens, t.Writable) (hchain : tokens.IsChain Token.Apart) (start : Nat) :
    (Lexeme.ofChars start text).map Lexeme.token = tokens := by
  induction h generalizing start with
  | @nil gap hgap =>
      have hnil := Lexeme.ofChars_gap_append hgap start []
      rw [List.append_nil, Lexeme.ofChars_nil] at hnil
      rw [hnil, List.map_nil]
  | @cons gap text tokens token hgap htext ih =>
      rw [List.forall_mem_cons] at hwritable
      rw [List.isChain_cons] at hchain
      rw [Lexeme.ofChars_gap_append hgap]
      cases hword : token.isWord with
      | false =>
          rw [Lexeme.ofChars_mark_append (Token.isMark_of_writable hwritable.1 hword),
            List.map_append, ih hwritable.2 hchain.2]
          rfl
      | true =>
          cases token with
          | name word =>
              have hfirst : ∀ t ∈ tokens.head?, t.isWord = false := by
                intro t ht
                by_contra hnext
                exact hchain.1 t ht ⟨rfl, by simpa using hnext⟩
              have hnext := htext.not_continuesName hwritable.2 hfirst
              simp only [Token.spelling]
              rw [Lexeme.ofChars_name_append hwritable.1.1 hnext, List.map_append,
                ih hwritable.2 hchain.2]
              rfl
          | _ => cases hword

end ClauseForest
