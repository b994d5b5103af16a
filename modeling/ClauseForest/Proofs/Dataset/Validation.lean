/-
**What is checked when data are read**

A fact, an example or a piece of advice stays a text after it was read, and is read again wherever a
proof needs it.  For classification every such text is checked at once when the data are read from
files: facts and the clauses of advice must be rules, and examples must be terms.  Nothing that is done
with a data set later adds texts to it, so they can be read at any time.

The lines of a regression problem are not checked in this way; an example there is whatever stands
before the first blank.

Main definitions:

* `Dataset.Readable` — the texts of a data set can be read.

Main results:

* `Dataset.readable_of_readTest`, `Dataset.readable_of_readTraining` — **what is read from files can be
  read again**, for classification;
* `Dataset.Readable.setValues` — giving values adds no texts.
-/

import ClauseForest.Proofs.Dataset.Assignment
import ClauseForest.Proofs.Dataset.Load

set_option relaxedAutoImplicit false
set_option autoImplicit false

namespace ClauseForest

/-! ### Examples of tables -/

/-- Giving an example a value adds this one and no other. -/
theorem ValueTable.mem_keys_put {t : ValueTable} {key other : String} {value : Float} :
    other ∈ (t.put key value).keys ↔ other ∈ t.keys ∨ other = key := by
  rw [keys_put]
  split
  · rename_i hkey
    exact ⟨.inl, fun h => h.elim id fun heq => heq ▸ hkey⟩
  · rw [List.mem_append, List.mem_singleton]

namespace Dataset

/-- Labelled texts are the only new examples of a table. -/
theorem mem_keys_label {table : ValueTable} {predicate : String} {value : Float}
    {texts : List String} {text : String} (h : text ∈ (label table predicate value texts).keys) :
    text ∈ table.keys ∨ text ∈ texts := by
  have hfold : ∀ (found : List String) (t : ValueTable),
      text ∈ (found.foldl (fun t text => t.put text value) t).keys →
        text ∈ t.keys ∨ text ∈ found := by
    intro found
    induction found with
    | nil => exact fun t ht => .inl ht
    | cons first found ih =>
        intro t ht
        rcases ih _ ht with ht | ht
        · rcases ValueTable.mem_keys_put.1 ht with ht | rfl
          · exact .inl ht
          · exact .inr (by simp)
        · exact .inr (List.mem_cons_of_mem _ ht)
  exact (hfold _ table h).imp_right fun hmem => (List.mem_filter.1 hmem).1

/-! ### Readable data -/

/-- The texts of a data set are read: its facts and the clauses of its advice as rules, its examples as
terms. -/
structure Readable (d : Dataset) : Prop where
  facts : ∀ text ∈ d.facts, ∃ rule, Rule.parse text = .ok rule
  examples : ∀ text ∈ d.examples, ∃ query, Term.parse text = .ok query
  advice : ∀ advice ∈ d.advice, ∃ rule, Rule.parse advice.clause = .ok rule

variable {d : Dataset} {files : FileTree} {dir target : String} {options : DataOptions}

/-- Giving values adds no texts. -/
theorem Readable.setValues (h : d.Readable) (values : List (String × Float)) :
    (d.setValues values).Readable where
  facts := by
    rw [(d.sameProblem_setValues values).facts]
    exact h.facts
  examples := by
    intro text htext
    exact h.examples text (mem_examples_setValues.1 htext)
  advice := by
    rw [(d.sameProblem_setValues values).advice]
    exact h.advice

theorem checkExample_eq_ok_iff {text : String} {checked : Unit} :
    checkExample text = .ok checked ↔ ∃ query, Term.parse text = .ok query := by
  unfold checkExample
  cases hparse : Term.parse text with
  | ok query => simp
  | error e => simp

/-- The examples of a classification problem are labelled texts. -/
theorem mem_examples_of_label {facts positives negatives : List String} {text : String}
    (hoptions : options.regression = false)
    (h : text ∈ ((((empty options).setFacts facts).addPositives target positives).addNegatives
      target negatives).examples) : text ∈ positives ++ negatives := by
  unfold examples isRegression at h
  rw [if_neg (by simp [addNegatives, addPositives, setFacts, empty, hoptions])] at h
  rcases List.mem_append.1 h with h | h
  · exact List.mem_append_left _ ((mem_keys_label h).resolve_left nofun)
  · exact List.mem_append_right _ ((mem_keys_label h).resolve_left nofun)

/-- Test data for classification can be read again.  There is no advice in them. -/
theorem readable_of_readTest (hoptions : options.regression = false)
    (h : readTest files dir target options = .ok d) : d.Readable := by
  obtain ⟨facts, -, h⟩ := bind_eq_ok_iff.1 h
  obtain ⟨rules, hrules, h⟩ := bind_eq_ok_iff.1 h
  rw [if_neg (by simp [hoptions])] at h
  obtain ⟨positives, -, h⟩ := bind_eq_ok_iff.1 h
  obtain ⟨negatives, -, h⟩ := bind_eq_ok_iff.1 h
  obtain ⟨checks, hchecks, h⟩ := bind_eq_ok_iff.1 h
  cases h
  refine ⟨exists_mapM_iff.1 ⟨rules, mapError_eq_ok_iff.1 hrules⟩, fun text htext => ?_, nofun⟩
  obtain ⟨checked, -, hcheck⟩ := exists_mem_of_mapM hchecks (mem_examples_of_label hoptions htext)
  exact checkExample_eq_ok_iff.1 hcheck

/-- Advice that was read has a clause. -/
theorem exists_parse_of_advice {line : String} {advice : Advice} (h : Advice.parse line = .ok advice) :
    ∃ rule, Rule.parse advice.clause = .ok rule := by
  unfold Advice.parse at h
  split at h
  · obtain ⟨rule, hrule, h⟩ := bind_eq_ok_iff.1 h
    split at h <;> cases h
    exact ⟨rule, mapError_eq_ok_iff.1 hrule⟩
  · cases h

/-- Taking in declarations adds no texts but the target. -/
theorem Readable.setBackground (h : d.Readable) (target : String) (background : List ModeDecl) :
    (d.setBackground target background).1.Readable := by
  obtain ⟨hfacts, hexamples, hadvice⟩ := h
  unfold Dataset.setBackground
  dsimp only
  split <;> exact ⟨hfacts, hexamples, hadvice⟩

theorem Readable.foldl_addAdvice (h : d.Readable) {advice : List Advice}
    (hadvice : ∀ piece ∈ advice, ∃ rule, Rule.parse piece.clause = .ok rule) :
    (advice.foldl addAdvice d).Readable := by
  induction advice generalizing d with
  | nil => exact h
  | cons first advice ih =>
      refine ih ⟨h.facts, h.examples, fun piece hpiece => ?_⟩
        fun piece hpiece => hadvice piece (List.mem_cons_of_mem _ hpiece)
      rcases List.mem_append.1 hpiece with hpiece | hpiece
      · exact h.advice piece hpiece
      · exact hadvice piece (List.mem_singleton.1 hpiece ▸ List.mem_cons_self ..)

/-- Training data for classification can be read again. -/
theorem readable_of_readTraining (hoptions : options.regression = false)
    (h : readTraining files dir target options = .ok d) : d.Readable := by
  obtain ⟨before, lines, background, declared, hbefore, -, -, hdeclared, hadvice⟩ :=
    readTraining_eq_ok_iff.1 h
  have hreadable : declared.Readable := by
    have hset := (readable_of_readTest hoptions hbefore).setBackground target background
    rwa [orFault_eq_ok_iff.1 hdeclared] at hset
  split at hadvice
  · obtain ⟨texts, -, hadvice⟩ := bind_eq_ok_iff.1 hadvice
    obtain ⟨advice, hread, hadvice⟩ := bind_eq_ok_iff.1 hadvice
    cases hadvice
    refine hreadable.foldl_addAdvice fun piece hpiece => ?_
    obtain ⟨line, -, hline⟩ := exists_of_mem_mapM hread hpiece
    exact exists_parse_of_advice hline
  · cases hadvice
    exact hreadable

end Dataset

end ClauseForest
