/-
**Leaf records that are read back**

A leaf record is trimmed, cut at its last space, and its clause is read.  The number at its end holds no
blank, so the record is cut where it was joined, and nothing is trimmed at its end.  The neck that the
clause of a leaf always has makes no difference either: a head followed by a neck is read as the head
alone would be.

What is trimmed at the start is lost, and the clause is then another one.  For whatever is read, its text
begins with the predicate of the head and an opening parenthesis.  So a text that is read as a clause
begins with the same blanks as the predicate of the clause.

Main definitions:

* `Leaf.Survives` — **the leaves that are read back**: the value is a number, the rule is read back, and
  the record does not begin with a blank.

Main results:

* `Rule.splitNeck_concat_neck` — where a text with a neck at its end is cut;
* `Rule.parse_renderClause_iff` — a neck at the end makes no difference;
* `Rule.exists_of_parse` — how the text of a rule begins;
* `Leaf.parse_render_eq` — what is read from a leaf record;
* `Leaf.exists_parse_render_iff` — **exactly the leaves that survive are read back**.
-/

import ClauseForest.Proofs.Decimal.Layout
import ClauseForest.Proofs.Decimal.Order
import ClauseForest.Proofs.Logic.Printable
import ClauseForest.Proofs.Text.Trimming
import ClauseForest.Tree.Basic
import Mathlib.Data.List.TakeWhile

set_option relaxedAutoImplicit false
set_option autoImplicit false

namespace ClauseForest

/-! ### Cutting -/

/-- A text is cut where a piece without spaces was joined to it. -/
theorem Leaf.splitLastSpace?_append {front back : List Char} (h : ' ' ∉ back) :
    splitLastSpace? (front ++ ' ' :: back) = some (front, back) := by
  have hback : ∀ c ∈ back.reverse, (decide (c ≠ ' ')) = true := by
    intro c hc
    refine decide_eq_true ?_
    rintro rfl
    exact h (List.mem_reverse.1 hc)
  unfold splitLastSpace?
  rw [List.reverse_append, List.reverse_cons, List.append_assoc, List.dropWhile_append_of_pos hback,
    List.takeWhile_append_of_pos hback]
  simp

/-! ### Necks -/

namespace Rule

/-- A text with a neck at its end is cut at its first neck, which may be that one. -/
theorem splitNeck_concat_neck (text : List Char) : splitNeck (text ++ [':', '-']) =
    some ((splitNeck text).elim (text, []) fun cut => (cut.1, cut.2 ++ [':', '-'])) := by
  fun_induction splitNeck text with
  | case1 => rfl
  | case2 rest => rfl
  | case3 c rest hneck ih =>
      have hstep : splitNeck (c :: (rest ++ [':', '-'])) =
          (splitNeck (rest ++ [':', '-'])).map fun cut => (c :: cut.1, cut.2) := by
        rw [splitNeck]
        intro body hc hbody
        -- a neck cannot begin in the text and end in the neck after it
        cases rest with
        | nil => cases hbody
        | cons d rest =>
            obtain ⟨rfl, rfl⟩ := List.cons.inj hbody
            exact hneck rest hc rfl
      rw [List.cons_append, hstep, ih]
      cases splitNeck rest <;> rfl

theorem splitNeck_render_ne (t : Term) (front : List Char) :
    splitNeck t.render.toList ≠ some (front, []) := by
  intro h
  have heq := (splitNeck_eq_some_iff.1 h).1
  rw [Term.toList_render, show front ++ [':', '-'] = (front ++ [':']) ++ ['-'] by simp] at heq
  have hlast := List.append_inj_right' heq rfl
  simp at hlast

/-- A neck at the end makes no difference: the clause of a leaf is read back exactly if its rule is. -/
theorem parse_renderClause_iff (r : Rule) :
    parse (Leaf.renderClause r) = .ok r ↔ parse r.render = .ok r := by
  obtain ⟨head, body⟩ := r
  cases body with
  | cons literal body => rfl
  | nil =>
      have hclause : (Leaf.renderClause ⟨head, []⟩).toList = head.render.toList ++ [':', '-'] := by
        simp [Leaf.renderClause, renderBody]
      have hrender : render ⟨head, []⟩ = head.render := rfl
      rw [parse_eq_fact_iff, parse_eq_fact_iff, hclause, hrender, splitNeck_concat_neck]
      cases hsplit : splitNeck head.render.toList with
      | none => simp
      | some cut =>
          obtain ⟨front, rest⟩ := cut
          have hne := splitNeck_render_ne head front
          rw [hsplit] at hne
          simp_all

end Rule

/-! ### How the text of a rule begins -/

/-- The text of a rule begins with the predicate of its head. -/
theorem Rule.exists_of_parse {text : String} {r : Rule} (h : parse text = .ok r) :
    '(' ∉ r.head.predicate.toList ∧
      ∃ rest, text.toList = r.head.predicate.toList ++ '(' :: rest := by
  rcases parse_eq_ok_iff.1 h with ⟨-, hhead, -⟩ | ⟨front, back, hsplit, hhead, -⟩
  · obtain ⟨args, hname, -, htext, -⟩ := Term.parse_eq_ok_iff.1 hhead
    exact ⟨hname, args ++ [')'], by simp [htext]⟩
  · obtain ⟨args, hname, -, hfront, -⟩ := Term.parse_eq_ok_iff.1 hhead
    rw [String.toList_ofList] at hfront
    refine ⟨hname, args ++ [')'] ++ ':' :: '-' :: back, ?_⟩
    rw [(splitNeck_eq_some_iff.1 hsplit).1, hfront]
    simp

/-! ### Leaves -/

namespace Leaf

variable {leaf : Leaf}

/-- The leaves that are read back. -/
structure Survives (leaf : Leaf) : Prop where
  isNumber : leaf.value.isNaN = false
  readsBack : Rule.parse leaf.rule.render = .ok leaf.rule
  start : leaf.render.toList.head?.any Text.isBlank = false

theorem beq_iff {found leaf : Leaf} :
    (found == leaf) = true ↔ found.rule = leaf.rule ∧ (found.value == leaf.value) = true := by
  obtain ⟨rule, value⟩ := found
  obtain ⟨rule', value'⟩ := leaf
  show (rule == rule' && value == value') = true ↔ _
  rw [Bool.and_eq_true, beq_iff_eq]

theorem toList_renderClause (r : Rule) :
    ∃ rest, (renderClause r).toList = r.head.predicate.toList ++ '(' :: rest := by
  refine ⟨Text.joinWith ',' (r.head.args.map String.toList) ++ [')'] ++ ":-".toList ++
    (Rule.renderBody r.body).toList, ?_⟩
  simp [renderClause, Term.toList_render]

/-- What is read from a leaf record: the clause without the blanks at its start, and the value. -/
theorem parse_render_eq (h : Decimal.ReadsBack leaf.value) : parse leaf.render = (do
    let rule ← (Rule.parse (String.ofList ((renderClause leaf.rule).toList.dropWhile
      Text.isBlank))).mapError .malformed
    return ⟨rule, leaf.value⟩) := by
  have hblank : ∀ c ∈ (Decimal.Layout.record.render leaf.value).toList, Text.isBlank c = false :=
    fun c => Decimal.Layout.isBlank_of_mem_render
  have hne : (Decimal.Layout.record.render leaf.value).toList ≠ [] := by
    intro hnil
    rw [Decimal.ReadsBack, hnil] at h
    cases h
  have hspace : ' ' ∉ (Decimal.Layout.record.render leaf.value).toList := by
    intro hmem
    exact absurd (hblank ' ' hmem) (by decide)
  have hclause : ((renderClause leaf.rule).toList ++ [' ']).dropWhile Text.isBlank =
      (renderClause leaf.rule).toList.dropWhile Text.isBlank ++ [' '] := by
    -- the parenthesis of the head is not blank, so the space stays
    obtain ⟨rest, hrest⟩ := toList_renderClause leaf.rule
    rw [List.dropWhile_append, if_neg]
    rw [List.isEmpty_iff, List.dropWhile_eq_nil_iff, hrest]
    intro hall
    exact absurd (hall '(' (by simp)) (by decide)
  have htext : leaf.render.toList = ((renderClause leaf.rule).toList ++ [' ']) ++
      (Decimal.Layout.record.render leaf.value).toList := by
    simp [render]
  unfold parse
  rw [htext, Text.trim_append hne hblank, hclause, List.append_assoc, List.singleton_append,
    splitLastSpace?_append hspace]
  dsimp only
  rw [h]

theorem takeWhile_append_parenthesis {front rest : List Char} (h : '(' ∉ front) :
    (front ++ '(' :: rest).takeWhile (· ≠ '(') = front := by
  have hall : ∀ c ∈ front, (decide (c ≠ '(')) = true := by
    intro c hc
    refine decide_eq_true ?_
    rintro rfl
    exact h hc
  rw [List.takeWhile_append_of_pos hall]
  simp

theorem dropWhile_append_parenthesis (front rest : List Char) :
    (front ++ '(' :: rest).dropWhile Text.isBlank = front.dropWhile Text.isBlank ++ '(' :: rest := by
  have hparenthesis : ('(' :: rest).dropWhile Text.isBlank = '(' :: rest :=
    List.dropWhile_cons_of_neg (by decide)
  rw [List.dropWhile_append, hparenthesis]
  split
  · rename_i hempty
    rw [List.isEmpty_iff.1 hempty, List.nil_append]
  · rfl

/-- A clause that is read back without the blanks at its start has none. -/
theorem dropWhile_isBlank_eq {r : Rule} (h : Rule.parse (String.ofList
    ((renderClause r).toList.dropWhile Text.isBlank)) = .ok r) :
    (renderClause r).toList.dropWhile Text.isBlank = (renderClause r).toList := by
  obtain ⟨hname, rest', htext⟩ := Rule.exists_of_parse h
  obtain ⟨rest, hclause⟩ := toList_renderClause r
  rw [String.toList_ofList, hclause, dropWhile_append_parenthesis] at htext
  -- both texts are cut at their first parenthesis
  have hshort : '(' ∉ r.head.predicate.toList.dropWhile Text.isBlank :=
    fun hmem => hname ((List.dropWhile_sublist _).subset hmem)
  have hpredicate := congrArg (List.takeWhile (· ≠ '(')) htext
  rw [takeWhile_append_parenthesis hshort, takeWhile_append_parenthesis hname] at hpredicate
  rw [hclause, dropWhile_append_parenthesis, hpredicate]

theorem start_eq_false_iff : leaf.render.toList.head?.any Text.isBlank = false ↔
    (renderClause leaf.rule).toList.dropWhile Text.isBlank = (renderClause leaf.rule).toList := by
  obtain ⟨rest, hrest⟩ := toList_renderClause leaf.rule
  rw [render, String.toList_append, String.toList_append]
  cases hclause : (renderClause leaf.rule).toList with
  | nil => simp [hclause] at hrest
  | cons c clause => simp [List.dropWhile_eq_self_iff]

/-- A leaf is read back if its rule is, its record does not begin with a blank and its value reads back. -/
theorem parse_render (hrule : Rule.parse leaf.rule.render = .ok leaf.rule)
    (hstart : leaf.render.toList.head?.any Text.isBlank = false)
    (hreads : Decimal.ReadsBack leaf.value) : parse leaf.render = .ok leaf := by
  rw [parse_render_eq hreads, start_eq_false_iff.1 hstart, String.ofList_toList,
    (Rule.parse_renderClause_iff leaf.rule).2 hrule]
  rfl

/-- Exactly the leaves that survive are read back. -/
theorem exists_parse_render_iff (leaf : Leaf)
    (hreads : leaf.value.isNaN = false → Decimal.ReadsBack leaf.value) :
    (∃ found, parse leaf.render = .ok found ∧ (found == leaf) = true) ↔ leaf.Survives := by
  constructor
  · rintro ⟨found, hfound, heq⟩
    obtain ⟨hrule, hvalue⟩ := beq_iff.1 heq
    have hnumber := Decimal.isNaN_of_beq hvalue
    rw [parse_render_eq (hreads hnumber)] at hfound
    obtain ⟨rule, hparse, hleaf⟩ := bind_eq_ok_iff.1 hfound
    cases hleaf
    obtain rfl : rule = leaf.rule := hrule
    have hparse := mapError_eq_ok_iff.1 hparse
    have hstart := dropWhile_isBlank_eq hparse
    rw [hstart, String.ofList_toList, Rule.parse_renderClause_iff] at hparse
    exact ⟨hnumber, hparse, start_eq_false_iff.2 hstart⟩
  · intro h
    exact ⟨leaf, parse_render h.readsBack h.start (hreads h.isNumber),
      beq_iff.2 ⟨rfl, Decimal.beq_self_iff.2 h.isNumber⟩⟩

end Leaf

/-! ### Trees -/

/-- Lists are equal if their elements are, one by one. -/
theorem list_beq_iff {α : Type} [BEq α] {as bs : List α} :
    (as == bs) = true ↔ List.Forall₂ (fun a b => (a == b) = true) as bs := by
  induction as generalizing bs with
  | nil => cases bs <;> simp
  | cons a as ih =>
      cases bs with
      | nil => simp
      | cons b bs => simp [ih]

/-- Lists of results exist for which two relations hold, one by one, if such a result exists for each. -/
theorem exists_forall₂_and_iff {α : Type} {R S : α → α → Prop} {as : List α} :
    (∃ bs, List.Forall₂ R as bs ∧ List.Forall₂ S bs as) ↔ ∀ a ∈ as, ∃ b, R a b ∧ S b a := by
  induction as with
  | nil => simp
  | cons a as ih =>
      rw [List.forall_mem_cons, ← ih]
      constructor
      · rintro ⟨bs, hR, hS⟩
        obtain ⟨b, bs, hb, hbs, rfl⟩ := List.forall₂_cons_left_iff.1 hR
        obtain ⟨hb', hbs'⟩ := List.forall₂_cons.1 hS
        exact ⟨⟨b, hb, hb'⟩, bs, hbs, hbs'⟩
      · rintro ⟨⟨b, hb, hb'⟩, bs, hbs, hbs'⟩
        exact ⟨b :: bs, .cons hb hbs, .cons hb' hbs'⟩

namespace LearnedTree

/-- Trees are equal if their leaves are, one by one. -/
theorem beq_iff {found tree : LearnedTree} : (found == tree) = true ↔
    List.Forall₂ (fun leaf leaf' => (leaf == leaf') = true) found.leaves tree.leaves := by
  obtain ⟨leaves⟩ := found
  obtain ⟨leaves'⟩ := tree
  exact list_beq_iff

/-- A tree is read back if its leaves are. -/
theorem parse_records {tree : LearnedTree}
    (h : ∀ leaf ∈ tree.leaves, Leaf.parse leaf.render = .ok leaf) : parse tree.records = .ok tree := by
  refine map_eq_ok_iff.2 ⟨tree.leaves, mapM_eq_ok_iff.2 ?_, rfl⟩
  exact List.forall₂_map_left_iff.2 (List.forall₂_same.2 h)

/-- Exactly the trees whose leaves survive are read back. -/
theorem parse_records_iff {tree : LearnedTree} (hreads : ∀ leaf ∈ tree.leaves,
      leaf.value.isNaN = false → Decimal.ReadsBack leaf.value) :
    (∃ found, parse tree.records = .ok found ∧ (found == tree) = true) ↔
      ∀ leaf ∈ tree.leaves, leaf.Survives := by
  have hleaves : (∃ found, parse tree.records = .ok found ∧ (found == tree) = true) ↔
      ∃ leaves, List.Forall₂ (fun leaf leaf' => Leaf.parse leaf.render = .ok leaf') tree.leaves leaves ∧
        List.Forall₂ (fun leaf leaf' => (leaf == leaf') = true) leaves tree.leaves := by
    constructor
    · rintro ⟨found, hparse, heq⟩
      obtain ⟨leaves, hleaves, rfl⟩ := map_eq_ok_iff.1 hparse
      exact ⟨leaves, List.forall₂_map_left_iff.1 (mapM_eq_ok_iff.1 hleaves), beq_iff.1 heq⟩
    · rintro ⟨leaves, hleaves, heq⟩
      refine ⟨⟨leaves⟩, map_eq_ok_iff.2 ⟨leaves, mapM_eq_ok_iff.2 ?_, rfl⟩, beq_iff.2 heq⟩
      exact List.forall₂_map_left_iff.2 hleaves
  rw [hleaves, exists_forall₂_and_iff]
  exact forall₂_congr fun leaf hleaf => Leaf.exists_parse_render_iff leaf (hreads leaf hleaf)

end LearnedTree

end ClauseForest
