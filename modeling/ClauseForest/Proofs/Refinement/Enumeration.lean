/-
**What is offered, and in which order**

The arguments of a declaration are filled one after the other, and a new name is taken as soon as it
is given out.  So the arguments that take new names take different ones, and none that occurs in the
clause: a token of the body that is not taken from the start is no variable, and new names are.
Apart from the new names, what an argument may be does not depend on the other arguments.

All ways to fill the arguments are enumerated.  Said by places instead of tokens, so that a constant
may be listed twice, the choices come in lexicographic order.

Main definitions:

* `choices`, `picks` — places, one in each set, and the tokens at these places;
* `LanguageBias.variablesOf` — the variables of a type;
* `LanguageBias.TakesNew` — an argument takes a new name;
* `LanguageBias.slot`, `LanguageBias.slots` — what an argument may be, and what each may be;
* `LanguageBias.AreNew` — names that may be given to the arguments that take new names.

Main results:

* `combinations_eq`, `pairwise_lt_choices`, `mem_choices_iff` — what is enumerated, in which order;
* `LanguageBias.fillSlots_eq` — what each argument may be, given the new names;
* `LanguageBias.areNew_newName` — the new names are new;
* `LanguageBias.exists_literalsOf_eq` — **exactly what is offered for a clause**.
-/

import ClauseForest.Proofs.Logic.Freshness
import ClauseForest.Proofs.Outcome
import ClauseForest.Proofs.Refinement.Types

set_option relaxedAutoImplicit false
set_option autoImplicit false

namespace ClauseForest

/-! ### Choices -/

/-- Every way to take one place in each set, the first set varying slowest. -/
def choices : List (List String) → List (List Nat)
  | [] => [[]]
  | set :: sets => (List.range set.length).flatMap fun k => (choices sets).map (k :: ·)

/-- The tokens at the places of a choice. -/
def picks (sets : List (List String)) (choice : List Nat) : List String :=
  List.zipWith (fun set k => set.getD k "") sets choice

theorem map_getD_range (set : List String) : (List.range set.length).map (set.getD · "") = set := by
  refine List.ext_getElem (by simp) fun k _ hk => ?_
  simp [hk]

theorem combinations_eq (sets : List (List String)) :
    combinations sets = (choices sets).map (picks sets) := by
  induction sets with
  | nil => rfl
  | cons set sets ih =>
      have hhead : ∀ k, picks (set :: sets) ∘ (k :: ·) = (set.getD k "" :: ·) ∘ picks sets :=
        fun k => rfl
      calc
        combinations (set :: sets)
          = ((List.range set.length).map (set.getD · "")).flatMap
              fun item => ((choices sets).map (picks sets)).map (item :: ·) := by
            rw [map_getD_range, combinations, ih]
        _ = (choices (set :: sets)).map (picks (set :: sets)) := by
            simp only [choices, List.flatMap_map, List.map_flatMap, List.map_map, hhead]

/-- Choices come in lexicographic order, each once. -/
theorem pairwise_lt_choices (sets : List (List String)) : (choices sets).Pairwise (· < ·) := by
  induction sets with
  | nil => exact List.pairwise_singleton _ _
  | cons set sets ih =>
      rw [choices, List.pairwise_flatMap]
      constructor
      · intro k _
        rw [List.pairwise_map]
        exact ih.imp fun h => List.cons_lt_cons_iff.2 (.inr ⟨rfl, h⟩)
      · refine List.pairwise_lt_range.imp fun {j k} hlt first hfirst second hsecond => ?_
        obtain ⟨_, -, rfl⟩ := List.mem_map.1 hfirst
        obtain ⟨_, -, rfl⟩ := List.mem_map.1 hsecond
        exact List.cons_lt_cons_iff.2 (.inl hlt)

/-- A choice is one place in each set. -/
theorem mem_choices_iff {sets : List (List String)} {choice : List Nat} :
    choice ∈ choices sets ↔ List.Forall₂ (fun k set => k < set.length) choice sets := by
  induction sets generalizing choice with
  | nil => simp [choices]
  | cons set sets ih =>
      simp only [choices, List.mem_flatMap, List.mem_range, List.mem_map]
      constructor
      · rintro ⟨k, hk, rest, hrest, rfl⟩
        exact .cons hk (ih.1 hrest)
      · rintro (_ | ⟨hk, hrest⟩)
        exact ⟨_, hk, _, ih.2 hrest, rfl⟩

namespace LanguageBias

variable (bias : LanguageBias) (clause : Rule)

/-! ### Arguments -/

/-- The variables of a type, in the order in which they first appear in the clause. -/
def variablesOf (type : String) : List String :=
  clause.variables.filter fun var => bias.recordedType? clause var = some type

/-- An argument takes a new name: it has to be new, or no variable has its type. -/
def TakesNew : ArgSpec → Prop
  | .oneOf _ => False
  | .typed mode type => mode = some .output ∨ bias.variablesOf clause type = []

instance (spec : ArgSpec) : Decidable (bias.TakesNew clause spec) :=
  match spec with
  | .oneOf _ => inferInstanceAs (Decidable False)
  | .typed _ _ => inferInstanceAs (Decidable (_ ∨ _))

/-- What an argument may be, if it takes a given name when it takes a new one. -/
def slot (new : String) : ArgSpec → List String
  | .oneOf constants => constants
  | .typed mode type =>
    if bias.TakesNew clause (.typed mode type) then [new] else bias.variablesOf clause type

/-- What each argument may be, if each takes a given name when it takes a new one. -/
def slots (specs : List ArgSpec) (new : Fin specs.length → String) : List (List String) :=
  List.ofFn fun i => bias.slot clause (new i) specs[i]

theorem length_slots (specs : List ArgSpec) (new : Fin specs.length → String) :
    (bias.slots clause specs new).length = specs.length := List.length_ofFn

/-- What an argument may be are the listed constants, a new name, or variables of the clause. -/
theorem slot_cases (new : String) (spec : ArgSpec) :
    spec = .oneOf (bias.slot clause new spec) ∨ bias.slot clause new spec = [new] ∨
      (bias.slot clause new spec ≠ [] ∧ bias.slot clause new spec ⊆ clause.variables) := by
  cases spec with
  | oneOf constants => exact .inl rfl
  | typed mode type =>
      by_cases hnew : bias.TakesNew clause (.typed mode type)
      · exact .inr (.inl (if_pos hnew))
      · have hslot : bias.slot clause new (.typed mode type) = bias.variablesOf clause type :=
          if_neg hnew
        rw [hslot]
        exact .inr (.inr ⟨fun hnil => hnew (.inr hnil), List.filter_subset_self _⟩)

/-- For each argument, the new name at its turn. -/
def newNames : List String → List ArgSpec → List String
  | _, [] => []
  | taken, spec :: specs =>
    freshName taken :: newNames
      (if bias.TakesNew clause spec then taken ++ [freshName taken] else taken) specs

/-- Names for the arguments are new: they are variables, they do not occur in the clause, and
different arguments that take new names take different ones. -/
structure AreNew (specs : List ArgSpec) (new : Fin specs.length → String) : Prop where
  isClauseVariable : ∀ i, isClauseVariable (new i) = true
  not_mem_args : ∀ i, ∀ literal ∈ clause.head :: clause.body, new i ∉ literal.args
  ne : ∀ i j, i ≠ j → bias.TakesNew clause specs[i] → bias.TakesNew clause specs[j] → new i ≠ new j

theorem reusable_eq (mode : Option Mode) (type : String) :
    reusable clause.variables (bias.clauseTypes clause) mode type =
      if bias.TakesNew clause (.typed mode type) then [] else bias.variablesOf clause type := by
  unfold reusable TakesNew
  simp only [get?_clauseTypes]
  change (if mode = some .output then [] else bias.variablesOf clause type) = _
  split <;> simp_all

/-- What an argument may be depends on the others only by the new name. -/
theorem fillSlots_eq (taken : List String) (specs : List ArgSpec) :
    fillSlots clause.variables (bias.clauseTypes clause) taken specs =
      List.zipWith (bias.slot clause) (bias.newNames clause taken specs) specs := by
  induction specs generalizing taken with
  | nil => rfl
  | cons spec specs ih =>
      cases spec with
      | oneOf constants => exact congrArg (constants :: ·) (ih taken)
      | typed mode type =>
          have hreusable := reusable_eq bias clause mode type
          by_cases hnew : bias.TakesNew clause (.typed mode type)
          · rw [if_pos hnew] at hreusable
            simp only [fillSlots, hreusable, newNames, List.zipWith_cons_cons, slot, if_pos hnew,
              ih]
          · rw [if_neg hnew] at hreusable
            obtain ⟨var, vars, hvars⟩ := List.exists_cons_of_ne_nil fun h => hnew (.inr h)
            simp only [fillSlots, hreusable, newNames, List.zipWith_cons_cons, slot, if_neg hnew,
              hvars, ih]

/-! ### New names -/

theorem length_newNames (taken : List String) (specs : List ArgSpec) :
    (bias.newNames clause taken specs).length = specs.length := by
  induction specs generalizing taken with
  | nil => rfl
  | cons spec specs ih => exact congrArg (· + 1) (ih _)

/-- The new name at the turn of an argument. -/
def newName (specs : List ArgSpec) (i : Fin specs.length) : String :=
  (bias.newNames clause clause.variables specs).get
    (i.cast (length_newNames bias clause clause.variables specs).symm)

theorem fillSlots_eq_slots (specs : List ArgSpec) :
    fillSlots clause.variables (bias.clauseTypes clause) clause.variables specs =
      bias.slots clause specs (bias.newName clause specs) := by
  rw [fillSlots_eq]
  refine List.ext_getElem (by simp [slots, length_newNames]) fun i _ _ => ?_
  simp [slots, newName]

variable {bias clause}

theorem isClauseVariable_of_mem_newNames {taken : List String} {specs : List ArgSpec}
    {name : String} (h : name ∈ bias.newNames clause taken specs) :
    isClauseVariable name = true := by
  induction specs generalizing taken with
  | nil => cases h
  | cons spec specs ih =>
      rcases List.mem_cons.1 h with rfl | h
      · exact isClauseVariable_freshName taken
      · exact ih h

/-- What is taken stays taken. -/
theorem not_mem_of_mem_newNames {taken : List String} {specs : List ArgSpec} {name : String}
    (h : name ∈ bias.newNames clause taken specs) : name ∉ taken := by
  induction specs generalizing taken with
  | nil => cases h
  | cons spec specs ih =>
      rcases List.mem_cons.1 h with rfl | h
      · exact freshName_not_mem taken
      · have hlater := ih h
        split at hlater
        · exact fun hmem => hlater (List.mem_append_left _ hmem)
        · exact hlater

/-- A variable that does not stand among those of the clause does not occur in it. -/
theorem not_mem_args_of_not_mem_variables {name : String} (hname : isClauseVariable name = true)
    (h : name ∉ clause.variables) :
    ∀ literal ∈ clause.head :: clause.body, name ∉ literal.args := by
  intro literal hliteral hmem
  refine h (Rule.mem_variables_iff.2 ?_)
  rcases List.mem_cons.1 hliteral with rfl | hliteral
  · exact List.mem_append_left _ hmem
  · exact List.mem_append_right _
      (List.mem_filter.2 ⟨List.mem_flatMap.2 ⟨literal, hliteral, hmem⟩, hname⟩)

variable (bias clause) in
/-- A name that an argument takes is not given out again. -/
theorem pairwise_newNames (taken : List String) (specs : List ArgSpec) :
    ((bias.newNames clause taken specs).zip specs).Pairwise fun first later =>
      bias.TakesNew clause first.2 → first.1 ≠ later.1 := by
  induction specs generalizing taken with
  | nil => exact List.Pairwise.nil
  | cons spec specs ih =>
      rw [newNames, List.zip_cons_cons, List.pairwise_cons]
      refine ⟨fun later hlater hnew heq => ?_, ih _⟩
      have hmem := not_mem_of_mem_newNames (List.of_mem_zip hlater).1
      rw [if_pos hnew] at hmem
      exact hmem (List.mem_append_right _ (by simp [← heq]))

theorem ne_of_lt_newName {specs : List ArgSpec} {i j : Fin specs.length} (hlt : i < j)
    (hnew : bias.TakesNew clause specs[i]) :
    bias.newName clause specs i ≠ bias.newName clause specs j := by
  have hpairwise := List.pairwise_iff_getElem.1
    (pairwise_newNames bias clause clause.variables specs) i j
    (by simp [length_newNames]) (by simp [length_newNames]) hlt
  simpa [newName] using hpairwise (by simpa using hnew)

variable (bias clause) in
/-- The new names at the turns of the arguments are new. -/
theorem areNew_newName (specs : List ArgSpec) :
    bias.AreNew clause specs (bias.newName clause specs) := by
  have hmem : ∀ i, bias.newName clause specs i ∈ bias.newNames clause clause.variables specs :=
    fun i => List.get_mem _ _
  refine ⟨fun i => isClauseVariable_of_mem_newNames (hmem i), fun i => ?_, fun i j hne hi hj => ?_⟩
  · exact not_mem_args_of_not_mem_variables (isClauseVariable_of_mem_newNames (hmem i))
      (not_mem_of_mem_newNames (hmem i))
  · rcases Nat.lt_or_gt_of_ne (Fin.val_ne_of_ne hne) with hlt | hgt
    · exact ne_of_lt_newName hlt hi
    · exact (ne_of_lt_newName hgt hj).symm

/-! ### Literals -/

variable (bias clause) in
/-- What is offered for a clause are the ways to fill the arguments with the new names at their turns. -/
theorem literalsFor_eq (name : String) (specs : List ArgSpec) :
    bias.literalsFor name specs clause =
      (combinations (bias.slots clause specs (bias.newName clause specs))).map fun args =>
        Term.render ⟨name, args⟩ := by
  rw [literalsFor, fillSlots_eq_slots]

/-- What is offered are all ways to fill the arguments, in lexicographic order.  An argument with
constants takes each of them, as listed; an argument that has to be new, and one for whose type the
clause has no variable, takes a new name; and any other argument takes each variable of its type, in
the order in which they first appear in the clause. -/
theorem exists_literalsOf_eq (bias : LanguageBias) (name : String) (specs : List ArgSpec)
    {text : String} {clause : Rule} (h : Rule.parseOpen text = .ok clause) :
    (∀ var, var ∈ clause.variables ↔ var ∈ clause.reusableTokens) ∧
    clause.variables.Pairwise
      (fun a b => clause.reusableTokens.idxOf a < clause.reusableTokens.idxOf b) ∧
    ∃ (new : Fin specs.length → String) (all : List (List Nat)),
      bias.AreNew clause specs new ∧ all.Pairwise (· < ·) ∧
      (∀ choice, choice ∈ all ↔
        List.Forall₂ (fun k slot => k < slot.length) choice (bias.slots clause specs new)) ∧
      bias.literalsOf name specs text =
        .ok (all.map fun choice =>
          Term.render ⟨name, picks (bias.slots clause specs new) choice⟩) := by
  refine ⟨fun _ => Rule.mem_variables_iff, pairwise_idxOf_eraseDups _,
    bias.newName clause specs, choices _, areNew_newName bias clause specs,
    pairwise_lt_choices _, fun _ => mem_choices_iff, map_eq_ok_iff.2 ⟨clause, h, ?_⟩⟩
  rw [literalsFor_eq, combinations_eq, List.map_map]
  rfl

/-- Friends are persons, and so is the variable of the target. -/
def friendsBias : LanguageBias where
  background := [⟨"friends", [.typed (some .input) "person", .typed (some .output) "person"]⟩]
  targetTypes := ⟨[("A", "person")]⟩

/-- Constants, a person who has to be new, a known person, and a city, for which there is no
variable. -/
def meetsSpecs : List ArgSpec :=
  [.oneOf ["bar", "zoo"], .typed (some .output) "person", .typed (some .input) "person",
    .typed none "city"]

/-- A clause with a variable of the target and another one. -/
def friendsClause : Rule := ⟨⟨"cancer", ["A"]⟩, [⟨"friends", ["A", "B"]⟩]⟩

theorem exists_literalsOf_eq_meets :
    Rule.parseOpen "cancer(A):-friends(A,B)" = .ok friendsClause ∧
    (∀ var, var ∈ friendsClause.variables ↔ var ∈ friendsClause.reusableTokens) ∧
    friendsClause.variables.Pairwise
      (fun a b => friendsClause.reusableTokens.idxOf a < friendsClause.reusableTokens.idxOf b) ∧
    ∃ (new : Fin meetsSpecs.length → String) (all : List (List Nat)),
      friendsBias.AreNew friendsClause meetsSpecs new ∧ all.Pairwise (· < ·) ∧
      (∀ choice, choice ∈ all ↔ List.Forall₂ (fun k slot => k < slot.length) choice
        (friendsBias.slots friendsClause meetsSpecs new)) ∧
      friendsBias.literalsOf "meets" meetsSpecs "cancer(A):-friends(A,B)" =
        .ok (all.map fun choice =>
          Term.render ⟨"meets", picks (friendsBias.slots friendsClause meetsSpecs new) choice⟩) := by
  have hparse : Rule.parseOpen "cancer(A):-friends(A,B)" = .ok friendsClause := by decide +kernel
  exact ⟨hparse, exists_literalsOf_eq friendsBias "meets" meetsSpecs hparse⟩

example : friendsBias.literalsOf "meets" meetsSpecs "cancer(A):-friends(A,B)" =
    .ok ["meets(bar,C,A,D)", "meets(bar,C,B,D)", "meets(zoo,C,A,D)", "meets(zoo,C,B,D)"] := by
  decide +kernel

end LanguageBias

end ClauseForest
