/-
**Terms that are read back**

A written term is cut at its parentheses and at its commas, and its spaces are dropped.  So it is read
back as it was if its name opens no argument list and its arguments hold none of these characters.  The
names of new variables are of this kind, for they are made of letters and digits only.

Main results:

* `Term.predicate_of_parse_render` — a name without a parenthesis is read back;
* `Term.parse_render` — **a term is read back**, if its arguments are.
-/

import ClauseForest.Logic.Rule
import ClauseForest.Proofs.Logic.Freshness

set_option relaxedAutoImplicit false
set_option autoImplicit false

namespace ClauseForest

/-! ### Joined texts -/

theorem Text.joinWith_eq_intercalate (sep : Char) (parts : List (List Char)) :
    joinWith sep parts = [sep].intercalate parts := by
  induction parts with
  | nil => rfl
  | cons piece others ih =>
      cases others with
      | nil => simp [joinWith]
      | cons next others =>
          rw [joinWith_cons_of_ne_nil _ _ (by simp), ih]
          simp [List.intercalate]

theorem Text.mem_joinWith {sep c : Char} {parts : List (List Char)} (h : c ∈ joinWith sep parts) :
    c = sep ∨ ∃ piece ∈ parts, c ∈ piece := by
  induction parts with
  | nil => cases h
  | cons piece others ih =>
      cases others with
      | nil => exact .inr ⟨piece, by simp, h⟩
      | cons next others =>
          rw [joinWith_cons_of_ne_nil _ _ (by simp)] at h
          rcases List.mem_append.1 h with h | h
          · exact .inr ⟨piece, by simp, h⟩
          · rcases List.mem_cons.1 h with rfl | h
            · exact .inl rfl
            · rcases ih h with rfl | ⟨other, hother, hc⟩
              · exact .inl rfl
              · exact .inr ⟨other, List.mem_cons_of_mem piece hother, hc⟩

/-! ### Terms -/

namespace Term

theorem beforeClosing_append (text : List Char) : beforeClosing (text ++ [')']) = some text := by
  simp [beforeClosing]

/-- The written form, as it is cut by the reader. -/
theorem toList_render (t : Term) : t.render.toList =
    (t.predicate.toList ++ '(' :: Text.joinWith ',' (t.args.map String.toList)) ++ [')'] := by
  simp [render, Text.joinWith_eq_intercalate, String.toList_intercalate]

theorem mem_render {t : Term} {c : Char} (h : c ∈ t.render.toList) :
    c ∈ t.predicate.toList ∨ c ∈ ['(', ',', ')'] ∨ ∃ arg ∈ t.args, c ∈ arg.toList := by
  rw [toList_render] at h
  rcases List.mem_append.1 h with h | h
  · rcases List.mem_append.1 h with h | h
    · exact .inl h
    · rcases List.mem_cons.1 h with rfl | h
      · exact .inr (.inl (by simp))
      · rcases Text.mem_joinWith h with rfl | ⟨piece, hpiece, h⟩
        · exact .inr (.inl (by simp))
        · obtain ⟨arg, harg, rfl⟩ := List.mem_map.1 hpiece
          exact .inr (.inr ⟨arg, harg, h⟩)
  · obtain rfl := List.mem_singleton.1 h
    exact .inr (.inl (by simp))

/-- A name without a parenthesis is read back. -/
theorem predicate_of_parse_render {name : String} {args : List String} {t : Term}
    (hname : '(' ∉ name.toList) (h : parse (render ⟨name, args⟩) = .ok t) : t.predicate = name := by
  unfold parse at h
  rw [toList_render, beforeClosing_append] at h
  simp only [Text.pieces_append_cons hname] at h
  split at h
  · rename_i predicate rest heq
    obtain ⟨rfl, -⟩ := List.cons.inj heq
    cases h
    exact String.ofList_toList
  · cases h

/-- A text that stands for itself as an argument. -/
def ReadsBack (arg : String) : Prop := '(' ∉ arg.toList ∧ ',' ∉ arg.toList ∧ ' ' ∉ arg.toList

/-- A text of characters of a kind stands for itself, if the marks of a term are not of this kind. -/
theorem ReadsBack.of_forall {p : Char → Bool}
    (hp : p '(' = false ∧ p ',' = false ∧ p ' ' = false) {arg : String}
    (h : ∀ c ∈ arg.toList, p c = true) : ReadsBack arg := by
  have hmark : ∀ mark, p mark = false → mark ∉ arg.toList := by
    intro mark hfalse hmem
    exact absurd (h mark hmem) (by simp [hfalse])
  exact ⟨hmark _ hp.1, hmark _ hp.2.1, hmark _ hp.2.2⟩

/-- Arguments that stand for themselves are read back. -/
theorem readArgs_joinWith {args : List String} (hne : args ≠ []) (hargs : ∀ arg ∈ args, ReadsBack arg) :
    readArgs (Text.joinWith ',' (args.map String.toList)) = args := by
  have hspaces : (Text.joinWith ',' (args.map String.toList)).filter (· ≠ ' ') =
      Text.joinWith ',' (args.map String.toList) := by
    refine List.filter_eq_self.2 fun c hc => decide_eq_true ?_
    rintro rfl
    rcases Text.mem_joinWith hc with hc | ⟨piece, hpiece, hc⟩
    · cases hc
    · obtain ⟨arg, harg, rfl⟩ := List.mem_map.1 hpiece
      exact (hargs arg harg).2.2 hc
  have hcommas : ∀ piece ∈ args.map String.toList, ',' ∉ piece := by
    intro piece hpiece
    obtain ⟨arg, harg, rfl⟩ := List.mem_map.1 hpiece
    exact (hargs arg harg).2.1
  unfold readArgs
  rw [hspaces, Text.pieces_joinWith (by simpa using hne) hcommas, List.map_map]
  simp

/-- A term is read back, if its arguments stand for themselves. -/
theorem parse_render {t : Term} (hname : '(' ∉ t.predicate.toList) (hne : t.args ≠ [])
    (hargs : ∀ arg ∈ t.args, ReadsBack arg) : parse t.render = .ok t := by
  have hparens : '(' ∉ Text.joinWith ',' (t.args.map String.toList) := by
    intro hmem
    rcases Text.mem_joinWith hmem with h | ⟨piece, hpiece, h⟩
    · cases h
    · obtain ⟨arg, harg, rfl⟩ := List.mem_map.1 hpiece
      exact (hargs arg harg).1 h
  unfold parse
  rw [toList_render, beforeClosing_append]
  simp only [Text.pieces_append_cons hname, Text.pieces_of_not_mem hparens,
    readArgs_joinWith hne hargs, String.ofList_toList]

end Term

/-! ### New names -/

/-- A text of letters and digits stands for itself as an argument. -/
theorem Term.ReadsBack.of_isAlphanum {arg : String}
    (h : ∀ c ∈ arg.toList, c.isAlphanum = true) : ReadsBack arg :=
  .of_forall (by decide) h

theorem Term.ReadsBack.of_mem_freshNames {taken : List String} {count : Nat} {name : String}
    (h : name ∈ freshNames taken count) : ReadsBack name :=
  .of_isAlphanum fun _ hc => isAlphanum_of_mem_freshNames h hc

end ClauseForest
