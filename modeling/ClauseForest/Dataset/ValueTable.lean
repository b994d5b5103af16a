/-
**Values of examples**

Examples keep the order in which they were first mentioned; mentioning one again changes its value and
not its place.

Main definitions:

* `ValueTable` — values by example, in order;
* `ValueTable.put` — a value given to an example.

Main results:

* `ValueTable.get?_put_self`, `ValueTable.get?_put_of_ne` — what giving a value changes;
* `ValueTable.keys_put` — a new example comes last, a known one keeps its place.
-/

set_option relaxedAutoImplicit false
set_option autoImplicit false

namespace ClauseForest

/-- Values of examples, in the order in which the examples were first mentioned. -/
structure ValueTable where
  entries : List (String × Float)
deriving Inhabited

namespace ValueTable

/-- No examples. -/
def empty : ValueTable := ⟨[]⟩

/-- The examples, in order. -/
def keys (t : ValueTable) : List String := t.entries.map Prod.fst

/-- The value of an example. -/
def get? (t : ValueTable) (key : String) : Option Float := t.entries.lookup key

/-- Whether an example is in the table. -/
def contains (t : ValueTable) (key : String) : Bool := (t.get? key).isSome

/-- The entries after a value was given to an example. -/
def putEntry (key : String) (value : Float) : List (String × Float) → List (String × Float)
  | [] => [(key, value)]
  | entry :: rest =>
    if entry.1 = key then (key, value) :: rest else entry :: putEntry key value rest

/-- The table after a value was given to an example. -/
def put (t : ValueTable) (key : String) (value : Float) : ValueTable :=
  ⟨putEntry key value t.entries⟩

theorem get?_put_self (t : ValueTable) (key : String) (value : Float) :
    (t.put key value).get? key = some value := by
  obtain ⟨entries⟩ := t
  induction entries with
  | nil => simp [get?, put, putEntry]
  | cons entry rest ih =>
    obtain ⟨name, old⟩ := entry
    by_cases h : name = key
    · simp [get?, put, putEntry, h]
    · have h' : (key == name) = false := beq_eq_false_iff_ne.2 (Ne.symm h)
      simpa [get?, put, putEntry, h, List.lookup_cons, h'] using ih

theorem get?_put_of_ne (t : ValueTable) {key other : String} (value : Float) (h : other ≠ key) :
    (t.put key value).get? other = t.get? other := by
  obtain ⟨entries⟩ := t
  have hne : (other == key) = false := beq_eq_false_iff_ne.2 h
  induction entries with
  | nil => simp [get?, put, putEntry, List.lookup_cons, hne]
  | cons entry rest ih =>
    obtain ⟨name, old⟩ := entry
    by_cases hk : name = key
    · subst hk
      simp [get?, put, putEntry, List.lookup_cons, hne]
    · by_cases ho : (other == name) = true
      · simp [get?, put, putEntry, hk, List.lookup_cons, ho]
      · have ho' : (other == name) = false := by simpa using ho
        simpa [get?, put, putEntry, hk, List.lookup_cons, ho'] using ih

/-- A new example comes last, a known one keeps its place. -/
theorem keys_put (t : ValueTable) (key : String) (value : Float) :
    (t.put key value).keys = if key ∈ t.keys then t.keys else t.keys ++ [key] := by
  obtain ⟨entries⟩ := t
  induction entries with
  | nil => simp [keys, put, putEntry]
  | cons entry rest ih =>
    by_cases h : entry.1 = key
    · simp [keys, put, putEntry, h]
    · have ih' : List.map Prod.fst (putEntry key value rest) =
          if key ∈ rest.map Prod.fst then rest.map Prod.fst else rest.map Prod.fst ++ [key] := ih
      by_cases hm : key ∈ rest.map Prod.fst
      · rw [if_pos hm] at ih'
        simp only [keys, put, putEntry, h, if_false, List.map_cons, ih', List.mem_cons, hm, or_true,
          if_true]
      · rw [if_neg hm] at ih'
        simp only [keys, put, putEntry, h, if_false, List.map_cons, ih', List.mem_cons, hm, or_false,
          Ne.symm h, List.cons_append]

end ValueTable

end ClauseForest
