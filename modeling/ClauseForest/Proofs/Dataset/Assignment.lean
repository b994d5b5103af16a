/-
**Giving values to examples**

A value that is given to an example overwrites the one before, and values of different examples do not
touch each other.  A text that is no example takes no value.  So of the values that are given one after
another only the last one of each example counts, and a series of values makes no difference if all its
examples are given values again.

Main definitions:

* `Dataset.Place`, `Dataset.place?` — the tables of current values, and the one that holds an example;
* `Dataset.SameExamples` — all tables keep just their examples.

Main results:

* `ValueTable.put_put_self`, `ValueTable.put_comm` — the same for tables;
* `Dataset.setValue_eq`, `Dataset.value?_eq` — giving and finding a value by its place;
* `Dataset.sameExamples_setValues` — giving values keeps the examples;
* `Dataset.setValues_setValues` — **what is overwritten makes no difference**;
* `Dataset.value?_setValues_congr`, `Dataset.value?_setValues_of_forall` — the values that are given are
  the values afterwards.
-/

import ClauseForest.Proofs.Dataset.Values

set_option relaxedAutoImplicit false
set_option autoImplicit false

namespace ClauseForest

/-! ### Tables -/

namespace ValueTable

variable {t : ValueTable} {key other : String}

theorem contains_iff_mem_keys : t.contains key = true ↔ key ∈ t.keys := by
  obtain ⟨entries⟩ := t
  unfold contains get? keys
  induction entries with
  | nil => simp
  | cons entry rest ih =>
      rw [List.lookup_cons, List.map_cons, List.mem_cons, ← ih]
      by_cases h : key = entry.1
      · simp [h]
      · simp [h, beq_eq_false_iff_ne.2 h]

theorem keys_put_of_contains (h : t.contains key = true) (value : Float) :
    (t.put key value).keys = t.keys := by
  rw [keys_put, if_pos (contains_iff_mem_keys.1 h)]

theorem contains_put_of_contains (h : t.contains key = true) (value : Float) :
    (t.put key value).contains other = t.contains other := by
  rw [Bool.eq_iff_iff, contains_iff_mem_keys, contains_iff_mem_keys, keys_put_of_contains h]

/-- A value that is given later overwrites the one before. -/
theorem put_put_self (t : ValueTable) (key : String) (old new : Float) :
    (t.put key old).put key new = t.put key new := by
  obtain ⟨entries⟩ := t
  refine congrArg ValueTable.mk ?_
  show putEntry key new (putEntry key old entries) = putEntry key new entries
  induction entries with
  | nil => simp [putEntry]
  | cons entry rest ih =>
      by_cases h : entry.1 = key
      · simp [putEntry, h]
      · simp [putEntry, h, ih]

/-- Values of different examples do not touch each other. -/
theorem put_comm (hkey : t.contains key = true) (hother : t.contains other = true)
    (hne : key ≠ other) (value value' : Float) :
    (t.put key value).put other value' = (t.put other value').put key value := by
  rw [contains_iff_mem_keys] at hkey hother
  obtain ⟨entries⟩ := t
  refine congrArg ValueTable.mk ?_
  show putEntry other value' (putEntry key value entries) =
    putEntry key value (putEntry other value' entries)
  induction entries with
  | nil => cases hkey
  | cons entry rest ih =>
      by_cases h : entry.1 = key
      · simp [putEntry, h, hne]
      · by_cases h' : entry.1 = other
        · simp [putEntry, h', hne.symm]
        · have hkey : key ∈ rest.map Prod.fst := by
            simpa [keys, Ne.symm h] using hkey
          have hother : other ∈ rest.map Prod.fst := by
            simpa [keys, Ne.symm h'] using hother
          simp [putEntry, h, h', ih hkey hother]

end ValueTable

namespace Dataset

variable {d d' d'' : Dataset} {text other : String}

/-! ### Where values are kept -/

/-- The tables in which current values are kept. -/
inductive Place where
  | estimates
  | positives
  | negatives
deriving DecidableEq

/-- The table at a place. -/
def table (d : Dataset) : Place → ValueTable
  | .estimates => d.estimates
  | .positives => d.positives
  | .negatives => d.negatives

/-- The data set with another table at a place. -/
def withTable (d : Dataset) : Place → ValueTable → Dataset
  | .estimates, t => { d with estimates := t }
  | .positives, t => { d with positives := t }
  | .negatives, t => { d with negatives := t }

/-- The place of the value of an example.  That of a positive example comes first. -/
def place? (d : Dataset) (text : String) : Option Place :=
  if d.isRegression then if d.estimates.contains text then some .estimates else none
  else if d.positives.contains text then some .positives
  else if d.negatives.contains text then some .negatives
  else none

theorem contains_of_place? {p : Place} (h : d.place? text = some p) :
    (d.table p).contains text = true := by
  unfold place? at h
  split at h
  · split at h <;> cases h
    assumption
  · split at h
    · cases h
      assumption
    · split at h <;> cases h
      assumption

theorem value?_eq (d : Dataset) (text : String) :
    d.value? text = (d.place? text).bind fun p => (d.table p).get? text := by
  have hmissing : ∀ t : ValueTable, t.contains text = false → t.get? text = none := by
    intro t h
    simpa [ValueTable.contains] using h
  unfold value? place?
  cases d.isRegression with
  | true =>
      cases hestimate : d.estimates.contains text with
      | true => simp [table]
      | false => simp [hmissing _ hestimate]
  | false =>
      cases hpositive : d.positives.contains text with
      | true =>
          obtain ⟨value, hvalue⟩ := Option.isSome_iff_exists.1 hpositive
          simp [table, hvalue]
      | false =>
          cases hnegative : d.negatives.contains text with
          | true => simp [table, hmissing _ hpositive]
          | false => simp [hmissing _ hpositive, hmissing _ hnegative]

theorem setValue_eq (d : Dataset) (text : String) (value : Float) :
    d.setValue text value =
      (d.place? text).elim d fun p => d.withTable p ((d.table p).put text value) := by
  unfold setValue place?
  cases d.isRegression with
  | true => cases d.estimates.contains text <;> rfl
  | false => cases d.positives.contains text <;> cases d.negatives.contains text <;> rfl

/-- The examples are the texts that have a value. -/
theorem mem_examples_iff : text ∈ d.examples ↔ (d.place? text).isSome = true := by
  unfold examples place?
  cases d.isRegression with
  | true => simp [← ValueTable.contains_iff_mem_keys]
  | false =>
      rw [if_neg (by simp), if_neg (by simp), List.mem_append, ← ValueTable.contains_iff_mem_keys,
        ← ValueTable.contains_iff_mem_keys]
      cases d.positives.contains text <;> cases d.negatives.contains text <;> simp

theorem place?_withTable {p : Place} {t : ValueTable}
    (h : ∀ text, t.contains text = (d.table p).contains text) (text : String) :
    (d.withTable p t).place? text = d.place? text := by
  cases p <;> simp only [withTable, place?, isRegression, h] <;> rfl

theorem place?_setValue (d : Dataset) (text other : String) (value : Float) :
    (d.setValue text value).place? other = d.place? other := by
  rw [setValue_eq]
  cases h : d.place? text with
  | none => rfl
  | some p =>
      have hcontains := contains_of_place? h
      exact place?_withTable (fun _ => ValueTable.contains_put_of_contains hcontains value) other

/-- A text that is no example has no value. -/
theorem value_of_not_mem (h : text ∉ d.examples) : d.value text = 0.0 := by
  rw [mem_examples_iff, Option.not_isSome_iff_eq_none] at h
  rw [value, value?_eq, h]
  rfl

/-! ### Keeping examples -/

/-- All tables keep just their examples, and all examples their true values. -/
structure SameExamples (d d' : Dataset) : Prop where
  options : d'.options = d.options
  positives : d'.positives.keys = d.positives.keys
  negatives : d'.negatives.keys = d.negatives.keys
  estimates : d'.estimates.keys = d.estimates.keys
  trueValues : d'.trueValues = d.trueValues

namespace SameExamples

theorem refl (d : Dataset) : d.SameExamples d := ⟨rfl, rfl, rfl, rfl, rfl⟩

theorem trans (h : d.SameExamples d') (h' : d'.SameExamples d'') : d.SameExamples d'' where
  options := h'.options.trans h.options
  positives := h'.positives.trans h.positives
  negatives := h'.negatives.trans h.negatives
  estimates := h'.estimates.trans h.estimates
  trueValues := h'.trueValues.trans h.trueValues

theorem examples (h : d.SameExamples d') : d'.examples = d.examples := by
  unfold Dataset.examples isRegression
  rw [h.options, h.positives, h.negatives, h.estimates]

end SameExamples

/-- A value is given to an example that is there, or not at all. -/
theorem sameExamples_setValue (d : Dataset) (text : String) (value : Float) :
    d.SameExamples (d.setValue text value) := by
  rw [setValue_eq]
  cases hp : d.place? text with
  | none => exact .refl d
  | some p =>
      have hkeys : ((d.table p).put text value).keys = (d.table p).keys :=
        ValueTable.keys_put_of_contains (contains_of_place? hp) value
      cases p with
      | estimates => exact ⟨rfl, rfl, rfl, hkeys, rfl⟩
      | positives => exact ⟨rfl, hkeys, rfl, rfl, rfl⟩
      | negatives => exact ⟨rfl, rfl, hkeys, rfl, rfl⟩

theorem sameExamples_setValues (d : Dataset) (values : List (String × Float)) :
    d.SameExamples (d.setValues values) := by
  induction values generalizing d with
  | nil => exact .refl d
  | cons entry values ih => exact (d.sameExamples_setValue entry.1 entry.2).trans (ih _)

/-- Giving a value makes no text an example, and takes no example away. -/
theorem mem_examples_setValue {value : Float} :
    other ∈ (d.setValue text value).examples ↔ other ∈ d.examples := by
  rw [(d.sameExamples_setValue text value).examples]

theorem mem_examples_setValues {values : List (String × Float)} :
    text ∈ (d.setValues values).examples ↔ text ∈ d.examples := by
  rw [(d.sameExamples_setValues values).examples]

/-! ### One value -/

/-- A text that is no example takes no value. -/
theorem setValue_of_not_mem (h : text ∉ d.examples) (value : Float) : d.setValue text value = d := by
  rw [mem_examples_iff, Option.not_isSome_iff_eq_none] at h
  rw [setValue_eq, h]
  rfl

/-- A value that is given later overwrites the one before. -/
theorem setValue_setValue_self (d : Dataset) (text : String) (old new : Float) :
    (d.setValue text old).setValue text new = d.setValue text new := by
  rw [setValue_eq (d.setValue text old), place?_setValue, setValue_eq d, setValue_eq d]
  cases h : d.place? text with
  | none => rfl
  | some p => cases p <;> simp [table, withTable, ValueTable.put_put_self]

/-- Values of different examples do not touch each other. -/
theorem setValue_comm (h : text ≠ other) (d : Dataset) (value value' : Float) :
    (d.setValue text value).setValue other value' =
      (d.setValue other value').setValue text value := by
  rw [setValue_eq (d.setValue text value), setValue_eq (d.setValue other value'), place?_setValue,
    place?_setValue, setValue_eq, setValue_eq]
  cases hp : d.place? text with
  | none => rfl
  | some p =>
      cases hq : d.place? other with
      | none => rfl
      | some q =>
          have hput := fun hpq : p = q => ValueTable.put_comm (contains_of_place? hp)
            (hpq ▸ contains_of_place? hq) h value value'
          cases p <;> cases q <;> simp_all [table, withTable]

theorem value?_setValue_self (h : text ∈ d.examples) (value : Float) :
    (d.setValue text value).value? text = some value := by
  obtain ⟨p, hp⟩ := Option.isSome_iff_exists.1 (mem_examples_iff.1 h)
  rw [value?_eq, place?_setValue, setValue_eq, hp]
  cases p <;> exact ValueTable.get?_put_self _ text value

theorem value?_setValue_of_ne (h : other ≠ text) (d : Dataset) (value : Float) :
    (d.setValue text value).value? other = d.value? other := by
  rw [value?_eq, value?_eq, place?_setValue, setValue_eq]
  cases hp : d.place? text with
  | none => rfl
  | some p =>
      cases hq : d.place? other with
      | none => rfl
      | some q => cases p <;> cases q <;> simp [table, withTable, ValueTable.get?_put_of_ne _ _ h]

/-! ### Several values -/

theorem setValues_cons (d : Dataset) (text : String) (value : Float)
    (values : List (String × Float)) :
    d.setValues ((text, value) :: values) = (d.setValue text value).setValues values := rfl

/-- A value makes no difference if its example is given a value again. -/
theorem setValues_setValue {values : List (String × Float)}
    (h : text ∈ d.examples → text ∈ values.map Prod.fst) (value : Float) :
    (d.setValue text value).setValues values = d.setValues values := by
  by_cases hmem : text ∈ d.examples
  · have hcover := h hmem
    clear h hmem
    induction values generalizing d with
    | nil => cases hcover
    | cons entry values ih =>
        rw [setValues_cons, setValues_cons]
        by_cases hself : entry.1 = text
        · rw [hself, setValue_setValue_self]
        · rw [setValue_comm (Ne.symm hself)]
          refine ih ?_
          simpa [Ne.symm hself] using hcover
  · rw [setValue_of_not_mem hmem]

/-- What is overwritten makes no difference. -/
theorem setValues_setValues {earlier values : List (String × Float)}
    (h : ∀ text ∈ d.examples, text ∈ values.map Prod.fst) :
    (d.setValues earlier).setValues values = d.setValues values := by
  induction earlier generalizing d with
  | nil => rfl
  | cons entry earlier ih =>
      rw [setValues_cons, ih fun text htext => h text (mem_examples_setValue.1 htext)]
      exact setValues_setValue (h entry.1) entry.2

/-- An example that is given no value keeps its own. -/
theorem value?_setValues_of_not_mem {values : List (String × Float)}
    (h : text ∉ values.map Prod.fst) : (d.setValues values).value? text = d.value? text := by
  induction values generalizing d with
  | nil => rfl
  | cons entry values ih =>
      rw [List.map_cons, List.mem_cons, not_or] at h
      rw [setValues_cons, ih h.2, value?_setValue_of_ne h.1]

/-- The value of an example that is given values depends on nothing else. -/
theorem value?_setValues_congr {values : List (String × Float)}
    (h : text ∈ values.map Prod.fst) (hmem : text ∈ d.examples) (hmem' : text ∈ d'.examples) :
    (d.setValues values).value? text = (d'.setValues values).value? text := by
  induction values generalizing d d' with
  | nil => cases h
  | cons entry values ih =>
      rw [setValues_cons, setValues_cons]
      by_cases hlater : text ∈ values.map Prod.fst
      · exact ih hlater (mem_examples_setValue.2 hmem) (mem_examples_setValue.2 hmem')
      · obtain rfl : text = entry.1 := by simpa [hlater] using h
        rw [value?_setValues_of_not_mem hlater, value?_setValues_of_not_mem hlater,
          value?_setValue_self hmem, value?_setValue_self hmem']

/-- An example that is given one value only has this value afterwards. -/
theorem value?_setValues_of_forall {values : List (String × Float)} {value : Float}
    (hmem : text ∈ d.examples) (h : (text, value) ∈ values)
    (hall : ∀ other, (text, other) ∈ values → other = value) :
    (d.setValues values).value? text = some value := by
  induction values generalizing d with
  | nil => cases h
  | cons entry values ih =>
      rw [setValues_cons]
      by_cases hlater : text ∈ values.map Prod.fst
      · obtain ⟨⟨_, last⟩, hlast, rfl⟩ := List.mem_map.1 hlater
        obtain rfl := hall last (List.mem_cons_of_mem _ hlast)
        exact ih (mem_examples_setValue.2 hmem) hlast fun other hother =>
          hall other (List.mem_cons_of_mem _ hother)
      · rw [value?_setValues_of_not_mem hlater]
        rcases List.mem_cons.1 h with rfl | h
        · exact value?_setValue_self hmem value
        · exact absurd (List.mem_map_of_mem h) hlater

end Dataset

end ClauseForest
