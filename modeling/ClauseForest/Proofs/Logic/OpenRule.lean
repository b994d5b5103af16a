/-
**Two readings of a clause**

A clause is read in two ways.  The prover reads a finished rule: a text without a neck is a fact, and so
is one with nothing behind its neck, and every piece of the body must be a literal.  Where literals are
sought that may extend a clause, the rule may still be under construction: a missing neck is read as one
with nothing behind it, and empty pieces are passed over.

The two readings differ in nothing else.  A text without a body has one empty piece, which either
reading passes over; and an empty piece of any other text is no literal.

Main definitions:

* `Rule.bodyText` — the body of a text, before it is cut into literals.

Main results:

* `Rule.parseOpen_eq_ok_iff` — what is read as a rule whose body may be unfinished;
* `Rule.parse_eq_ok_iff_parseOpen` — **a finished rule is an open one without empty literals**.
-/

import ClauseForest.Proofs.Logic.Printable

set_option relaxedAutoImplicit false
set_option autoImplicit false

namespace ClauseForest.Rule

variable {text : String} {r : Rule}

/-- What stands behind the first neck of a text: nothing, if there is no neck. -/
def bodyText (text : String) : List Char := ((splitNeck text.toList).getD (text.toList, [])).2

/-- The literals of a body, empty pieces passed over. -/
def readOpenBody (back : List Char) : Except SyntaxError (List Term) :=
  ((bodyPieces back).filter (· ≠ "")).mapM Term.parse

/-- What is read as a rule whose body may be unfinished. -/
theorem parseOpen_eq_ok_iff : parseOpen text = .ok r ↔
    Term.parse (String.ofList ((splitNeck text.toList).getD (text.toList, [])).1) = .ok r.head ∧
      readOpenBody (bodyText text) = .ok r.body := by
  obtain ⟨head, body⟩ := r
  unfold parseOpen bodyText readOpenBody
  rw [bind_eq_ok_iff]
  constructor
  · rintro ⟨read, hread, h⟩
    obtain ⟨literals, hliterals, h⟩ := bind_eq_ok_iff.1 h
    cases h
    exact ⟨hread, hliterals⟩
  · rintro ⟨hhead, hbody⟩
    exact ⟨head, hhead, bind_eq_ok_iff.2 ⟨body, hbody, rfl⟩⟩

/-- An empty text has one piece, which is passed over. -/
theorem readOpenBody_nil : readOpenBody [] = .ok [] := by
  have hpieces : (bodyPieces []).filter (· ≠ "") = [] := by decide
  unfold readOpenBody
  rw [hpieces]
  rfl

/-- Nothing is passed over where no piece is empty. -/
theorem readOpenBody_eq {back : List Char} (h : "" ∉ bodyPieces back) :
    readOpenBody back = (bodyPieces back).mapM Term.parse := by
  unfold readOpenBody
  rw [List.filter_eq_self.2 fun piece hpiece => decide_eq_true ?_]
  rintro rfl
  exact h hpiece

/-- An empty piece is no literal. -/
theorem empty_not_mem_of_mapM {pieces : List String} {body : List Term}
    (h : pieces.mapM Term.parse = .ok body) : "" ∉ pieces := by
  intro hmem
  obtain ⟨literal, -, hliteral⟩ := exists_mem_of_mapM h hmem
  have hempty : Term.parse "" = .error ⟨"", .missingClosingParen⟩ := rfl
  rw [hempty] at hliteral
  cases hliteral

/-- The literals of a finished body are those of an open one that has no empty pieces. -/
theorem readBody_eq_ok_iff {back : List Char} {body : List Term} : readBody back = .ok body ↔
    readOpenBody back = .ok body ∧ (back = [] ∨ "" ∉ bodyPieces back) := by
  cases back with
  | nil => simp [readBody, readOpenBody_nil]
  | cons c back =>
      show (bodyPieces (c :: back)).mapM Term.parse = .ok body ↔ _
      constructor
      · intro h
        have hempty := empty_not_mem_of_mapM h
        exact ⟨(readOpenBody_eq hempty).trans h, .inr hempty⟩
      · rintro ⟨h, hnil | hempty⟩
        · cases hnil
        · exact (readOpenBody_eq hempty).symm.trans h

/-- A finished rule is an open one without a body, or without empty literals in its body. -/
theorem parse_eq_ok_iff_parseOpen : parse text = .ok r ↔
    parseOpen text = .ok r ∧ (bodyText text = [] ∨ "" ∉ bodyPieces (bodyText text)) := by
  rw [parse_eq_ok_iff, parseOpen_eq_ok_iff, and_assoc, ← readBody_eq_ok_iff]
  unfold bodyText
  cases hsplit : splitNeck text.toList with
  | none =>
      have hnone : readBody [] = .ok r.body ↔ r.body = [] :=
        ⟨fun h => (Except.ok.inj h).symm, fun h => congrArg Except.ok h.symm⟩
      simp [hnone]
  | some cut =>
      obtain ⟨front, back⟩ := cut
      simp

end ClauseForest.Rule
