/-
**Splitting and joining texts**

Texts are taken apart as lists of characters.  `Text.piecesBy` cuts a text at every character of a
class and `Text.joinWith` writes pieces one after another with a separator between them; cutting at
the separator undoes the joining of pieces that are free of it.

Main definitions:

* `Text.piecesBy`, `Text.pieces` — the pieces of a text between its separators;
* `Text.joinWith` — the pieces with a separator between neighbours.

Main results:

* `Text.joinWith_pieces` — **nothing is lost**: joining the pieces of a text gives the text back;
* `Text.pieces_joinWith` — cutting joined pieces gives the pieces back when none of them holds the
  separator.
-/

set_option relaxedAutoImplicit false
set_option autoImplicit false

namespace ClauseForest.Text

/-! ### Cutting -/

/-- The pieces of a text between the characters of a class.  A text without such a character is its
own only piece. -/
def piecesBy (p : Char → Bool) : List Char → List (List Char)
  | [] => [[]]
  | c :: rest => if p c then [] :: piecesBy p rest else (piecesBy p rest).modifyHead (c :: ·)

/-- The pieces of a text between the occurrences of one separator. -/
def pieces (sep : Char) (text : List Char) : List (List Char) := piecesBy (· == sep) text

theorem piecesBy_ne_nil (p : Char → Bool) (text : List Char) : piecesBy p text ≠ [] := by
  induction text with
  | nil => simp [piecesBy]
  | cons c rest ih => by_cases h : p c <;> simp [piecesBy, h, ih]

theorem pieces_ne_nil (sep : Char) (text : List Char) : pieces sep text ≠ [] :=
  piecesBy_ne_nil _ text

@[simp] theorem pieces_nil (sep : Char) : pieces sep [] = [[]] := rfl

@[simp] theorem pieces_cons_self (sep : Char) (rest : List Char) :
    pieces sep (sep :: rest) = [] :: pieces sep rest := by simp [pieces, piecesBy]

theorem pieces_cons_of_ne {sep c : Char} (h : c ≠ sep) (rest : List Char) :
    pieces sep (c :: rest) = (pieces sep rest).modifyHead (c :: ·) := by
  simp [pieces, piecesBy, h]

/-- No piece holds the separator. -/
theorem not_mem_of_mem_pieces {sep : Char} {text piece : List Char} (h : piece ∈ pieces sep text) :
    sep ∉ piece := by
  induction text generalizing piece with
  | nil => simp_all
  | cons c rest ih =>
    by_cases hc : c = sep
    · subst hc
      rcases List.mem_cons.1 (pieces_cons_self c rest ▸ h) with rfl | h
      · simp
      · exact ih h
    · rw [pieces_cons_of_ne hc] at h
      cases hp : pieces sep rest with
      | nil => exact absurd hp (pieces_ne_nil sep rest)
      | cons first others =>
        rw [hp, List.modifyHead_cons] at h
        rcases List.mem_cons.1 h with rfl | h
        · have : sep ∉ first := ih (by simp [hp])
          simp [this, Ne.symm hc]
        · exact ih (by simp [hp, h])

/-! ### Joining -/

/-- The pieces of a list, one after another, with a separator between neighbours. -/
def joinWith (sep : Char) : List (List Char) → List Char
  | [] => []
  | [piece] => piece
  | piece :: next :: others => piece ++ sep :: joinWith sep (next :: others)

theorem joinWith_cons_of_ne_nil (sep : Char) (piece : List Char) {others : List (List Char)}
    (h : others ≠ []) : joinWith sep (piece :: others) = piece ++ sep :: joinWith sep others := by
  cases others with
  | nil => exact absurd rfl h
  | cons next others => rfl

theorem joinWith_modifyHead (sep c : Char) {parts : List (List Char)} (h : parts ≠ []) :
    joinWith sep (parts.modifyHead (c :: ·)) = c :: joinWith sep parts := by
  match parts, h with
  | [piece], _ => rfl
  | piece :: next :: others, _ => rfl

/-- Joining the pieces of a text gives the text back. -/
theorem joinWith_pieces (sep : Char) (text : List Char) :
    joinWith sep (pieces sep text) = text := by
  induction text with
  | nil => rfl
  | cons c rest ih =>
    by_cases hc : c = sep
    · subst hc
      rw [pieces_cons_self, joinWith_cons_of_ne_nil _ _ (pieces_ne_nil c rest), ih]
      rfl
    · rw [pieces_cons_of_ne hc, joinWith_modifyHead _ _ (pieces_ne_nil sep rest), ih]

theorem pieces_of_not_mem {sep : Char} {text : List Char} (h : sep ∉ text) :
    pieces sep text = [text] := by
  induction text with
  | nil => rfl
  | cons c rest ih =>
    have hc : c ≠ sep := fun e => h (by simp [e])
    rw [pieces_cons_of_ne hc, ih fun hm => h (List.mem_cons_of_mem _ hm), List.modifyHead_cons]

theorem pieces_append_cons {sep : Char} {piece : List Char} (h : sep ∉ piece) (rest : List Char) :
    pieces sep (piece ++ sep :: rest) = piece :: pieces sep rest := by
  induction piece with
  | nil => simp
  | cons c piece ih =>
    have hc : c ≠ sep := fun e => h (by simp [e])
    rw [List.cons_append, pieces_cons_of_ne hc, ih fun hm => h (List.mem_cons_of_mem _ hm),
      List.modifyHead_cons]

/-- Cutting joined pieces gives the pieces back when none of them holds the separator. -/
theorem pieces_joinWith {sep : Char} {parts : List (List Char)} (hne : parts ≠ [])
    (h : ∀ piece ∈ parts, sep ∉ piece) : pieces sep (joinWith sep parts) = parts := by
  induction parts with
  | nil => exact absurd rfl hne
  | cons piece others ih =>
    have hp : sep ∉ piece := h piece (by simp)
    cases others with
    | nil => exact pieces_of_not_mem hp
    | cons next others =>
      rw [joinWith_cons_of_ne_nil _ _ (by simp), pieces_append_cons hp,
        ih (by simp) fun q hq => h q (List.mem_cons_of_mem _ hq)]

end ClauseForest.Text
