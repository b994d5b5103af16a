/-
**The clauses of a tree are well typed**

The types of the variables of a clause are recorded anew at every node, from a body that has the nearest
test first.  So a literal that introduced a variable may come after others that use it, and which place
is the first one changes on the way down.  It does not matter: as long as the declarations of a literal
agree on the types of its places, all tests on a path fit one assignment of types, and every literal that
may be tested next fits an assignment that extends it.  This holds of every node of the tree, and by
induction on the edges it is enough that a test at a node keeps the clause of the node well typed.

Main definitions:

* `Grower.bias` — what restricts the tests of a tree;
* `Grower.WellTypedAt` — the clause of a node is well typed.

Main results:

* `Dataset.get?_targetTypes` — the variables of a target have the types of their places;
* `Grower.WellTypedAt.child` — a test keeps the clause of a node well typed;
* `Dataset.wellTyped_of_visits` — **the clauses of all nodes of a tree are well typed**, also when they
  are extended by a test.
-/

import ClauseForest.Proofs.Dataset.Target
import ClauseForest.Proofs.Refinement.Typing
import ClauseForest.Proofs.Tree.Named
import ClauseForest.Proofs.Tree.Visits

set_option relaxedAutoImplicit false
set_option autoImplicit false

namespace ClauseForest

/-! ### The target -/

namespace Dataset

theorem mem_args_targetTerm {decl : ModeDecl} {var : String} (h : var ∈ (targetTerm decl).args) :
    isClauseVariable var = true := isClauseVariable_of_mem_freshNames h

/-- Every typed place has a variable of its own. -/
theorem sublist_typedPlaces (vars : List String) (specs : List ArgSpec) :
    (((vars.zip specs).filterMap fun (var, spec) => spec.type?.map (var, ·)).map Prod.fst).Sublist
      vars := by
  induction vars generalizing specs with
  | nil => simp
  | cons var vars ih =>
      cases specs with
      | nil => simp
      | cons spec specs =>
          cases htype : spec.type? with
          | none => simpa [htype] using (ih specs).cons var
          | some type => simpa [htype] using ih specs

/-- The variables of a target have the types of their places. -/
theorem get?_targetTypes (decl : ModeDecl) {i : Nat} {var type : String}
    (hvar : (targetTerm decl).args[i]? = some var) (htype : decl.typeAt? i = some type) :
    (targetTypes decl).get? var = some type := by
  obtain ⟨spec, hspec, htype⟩ := Option.bind_eq_some_iff.1 htype
  let pairs := ((targetTerm decl).args.zip decl.args).filterMap
    fun (var, spec) => spec.type?.map (var, ·)
  have hpairs : targetTypes decl =
      pairs.foldl (fun types pair => types.insert pair.1 pair.2) .empty := by
    rw [List.foldl_filterMap, targetTypes]
    congr 1
    funext types place
    obtain ⟨var, spec⟩ := place
    cases htype : spec.type? <;> simp [htype]
  have hmem : (var, type) ∈ pairs := by
    refine List.mem_filterMap.2 ⟨(var, spec), ?_, by simp [htype]⟩
    exact List.mem_iff_getElem?.2 ⟨i, List.getElem?_zip_eq_some.2 ⟨hvar, hspec⟩⟩
  have hkeys : (pairs.map Prod.fst).Nodup :=
    (sublist_typedPlaces _ _).nodup (nodup_freshNames [] decl.arity)
  rw [hpairs, VariableTypes.get?_foldl_insert]
  exact lookup_of_nodup hkeys hmem

end Dataset

/-! ### Nodes -/

namespace Grower

variable {g : Grower}

/-- What restricts the tests of a tree. -/
def bias (g : Grower) : LanguageBias := ⟨g.data.literals, g.data.variableTypes⟩

/-- The clause of a node is well typed, and its tests are built of names. -/
structure WellTypedAt (g : Grower) (types : String → String) (node : Node) : Prop where
  named : ∀ test ∈ node.lefts, test.Named
  wellTyped : g.bias.WellTyped types (g.clauseOf node)

/-- At the top the variables of the target have their types, and there are no others. -/
theorem wellTypedAt_root (hvars : ∀ var ∈ g.target.args, isClauseVariable var = true)
    (examples : List String) :
    g.WellTypedAt (fun var => (g.data.variableTypes.get? var).getD "") (.root examples) where
  named := nofun
  wellTyped := {
    isClauseVariable := hvars
    head := fun var _ type htype => by
      rw [show g.data.variableTypes.get? var = some type from htype, Option.getD_some]
    declared := nofun
    body := nofun }

namespace WellTypedAt

variable {types : String → String} {node : Node}

/-- A literal that may be tested at a node fits an assignment that extends that of the clause, wherever
it is put. -/
theorem exists_of_mem_testsAt (h : g.WellTypedAt types node) (hnames : g.OfNames)
    (huniform : Uniform g.data.literals) {tests : List String} (htests : g.testsAt node = .ok tests)
    {text : String} (htext : text ∈ tests) : ∃ test types', Term.parse text = .ok test ∧
      (∀ var ∈ (g.clauseOf node).variables, types' var = types var) ∧
      ∀ body : List Term, (∀ literal ∈ body, literal = test ∨ literal ∈ node.lefts) →
        g.bias.WellTyped types' ⟨g.target, body⟩ := by
  have hliterals : ∀ decl ∈ g.bias.background, decl.WellFormed := hnames.literals
  obtain ⟨decl, hdecl, args, hargs, hnamed, rfl⟩ :=
    LanguageBias.exists_combination_of_mem_candidates hliterals
      (hnames.named_clauseOf h.named) htests htext
  have hnew := g.bias.areNew_newName (g.clauseOf node) decl.args
  refine ⟨_, _, hnamed.parse_render, fun var => LanguageBias.assignNew_of_mem_variables hnew, ?_⟩
  intro body hbody
  exact h.wellTyped.extend huniform hdecl hnew hargs hbody

/-- A test keeps the clause of a node well typed. -/
theorem child (h : g.WellTypedAt types node) (hnames : g.OfNames) (huniform : Uniform g.data.literals)
    {s : Split} (hs : g.Splits node s) {child : Node} (hchild : child ∈ children node s) :
    ∃ types', g.WellTypedAt types' child := by
  have hnamed := hnames.named_child h.named hs hchild
  rcases mem_children_iff.1 hchild with ⟨-, rfl⟩ | ⟨-, rfl⟩
  · obtain ⟨tests, htests, text, htext, htest⟩ := hs.test
    obtain ⟨test, types', hparse, -, hextends⟩ := h.exists_of_mem_testsAt hnames huniform htests htext
    obtain rfl : test = s.test := Except.ok.inj (hparse.symm.trans htest)
    exact ⟨types', hnamed, hextends (s.test :: node.lefts) fun literal => List.mem_cons.1⟩
  · exact ⟨types, hnamed, h.wellTyped⟩

end WellTypedAt

/-- The clauses of all nodes are well typed, if that of the top is. -/
theorem exists_wellTypedAt_of_visits (hnames : g.OfNames) (huniform : Uniform g.data.literals)
    {depth k : Nat} {top node : Node} (hnode : g.Visits depth top k node)
    (htop : ∃ types, g.WellTypedAt types top) : ∃ types, g.WellTypedAt types node := by
  refine hnode.of_edges (P := fun node => ∃ types, g.WellTypedAt types node) htop ?_
  rintro node s child ⟨types, h⟩ hs hchild
  exact h.child hnames huniform hs hchild

end Grower

/-! ### Trees of data sets -/

namespace Dataset

/-- A data set with the background of a call that was not refused has a background. -/
theorem SameBackground.hasBackground_of_setBackground {before d : Dataset} {target : String}
    {background : List ModeDecl} (hread : ∀ decl ∈ background, decl.IsRead)
    (hset : (before.setBackground target background).2 = none)
    (hd : (before.setBackground target background).1.SameBackground d) : d.HasBackground :=
  ⟨before, target, background, hread, hset, hd.target, hd.literals, hd.variableTypes⟩

theorem exists_find?_of_setBackground {before : Dataset} {target : String}
    {background : List ModeDecl} (hset : (before.setBackground target background).2 = none) :
    ∃ decl, background.find? (·.name = target) = some decl ∧
      (before.setBackground target background).1.target = (targetTerm decl).render ∧
      (before.setBackground target background).1.variableTypes = targetTypes decl := by
  unfold setBackground at hset ⊢
  cases hfind : background.find? (·.name = target) with
  | none => simp [hfind] at hset
  | some decl => exact ⟨decl, rfl, rfl, rfl⟩

/-- **The clauses of all nodes are well typed.**  In a data set with a declared background, in which the
declarations of the literals that may be tested agree on the types of their places, the clause of every
node of a tree fits one assignment of types, under which the variables of the target have the types of
its declaration.  There are tests for the node, and the clause that is extended by any one of them fits
an assignment that differs at new variables only. -/
theorem wellTyped_of_visits (before : Dataset) (target : String) (background : List ModeDecl)
    (hread : ∀ decl ∈ background, decl.IsRead)
    (hset : (before.setBackground target background).2 = none) (d : Dataset)
    (hd : (before.setBackground target background).1.SameBackground d)
    (huniform : Uniform d.literals) (config : TreeConfig) (g : Grower)
    (hg : d.grower config = .ok g) (k : Nat) (node : Node)
    (hnode : g.Visits config.maxDepth (.root d.examples) k node) :
    ∃ decl types, background.find? (·.name = target) = some decl ∧
      g.target = targetTerm decl ∧ g.target.Fits types decl ∧
      LanguageBias.WellTyped ⟨d.literals, d.variableTypes⟩ types (g.clauseOf node) ∧
      ∃ tests, g.testsAt node = .ok tests ∧ ∀ text ∈ tests, ∃ test types',
        Term.parse text = .ok test ∧
        (∀ var ∈ (g.clauseOf node).variables, types' var = types var) ∧
        LanguageBias.WellTyped ⟨d.literals, d.variableTypes⟩ types' ((g.clauseOf node).when test) := by
  obtain ⟨decl, hfind, htarget, htypes⟩ := exists_find?_of_setBackground hset
  have hbackground := SameBackground.hasBackground_of_setBackground hread hset hd
  have hnames := Grower.ofNames_of_grower hg hbackground
  have hdata := data_of_grower hg
  obtain ⟨rules, term, -, hterm, rfl⟩ := grower_eq_ok_iff.1 hg
  obtain rfl : term = targetTerm decl := by
    have hdecl := ModeDecl.wellFormed_of_isRead (hread decl (List.mem_of_find?_eq_some hfind))
    rw [hd.target, htarget, parse_targetTerm hdecl] at hterm
    exact (Except.ok.inj hterm).symm
  have htop := Grower.wellTypedAt_root (g := ⟨d, .ofList rules, targetTerm decl, config.stepLimit⟩)
    (fun _ => mem_args_targetTerm) d.examples
  obtain ⟨types, hnode⟩ := Grower.exists_wellTypedAt_of_visits hnames huniform hnode ⟨_, htop⟩
  have hfits : (targetTerm decl).Fits types decl := by
    intro i var type hvar htype
    have hmem := List.mem_of_getElem? hvar
    refine ⟨mem_args_targetTerm hmem, hnode.wellTyped.head var hmem type ?_⟩
    exact (congrArg (·.get? var) (hd.variableTypes.trans htypes)).trans
      (get?_targetTypes decl hvar htype)
  obtain ⟨tests, htests⟩ := Grower.bias _ |>.exists_candidates
    (hnames.named_clauseOf hnode.named).parseOpen_renderClause (node.path.map Term.render)
  refine ⟨decl, types, hfind, rfl, hfits, hnode.wellTyped, tests, htests, fun text htext => ?_⟩
  obtain ⟨test, types', hparse, hagree, hextends⟩ :=
    hnode.exists_of_mem_testsAt hnames huniform htests htext
  refine ⟨test, types', hparse, hagree, hextends (node.lefts ++ [test]) fun literal hliteral => ?_⟩
  simpa [or_comm] using hliteral

/-- Declarations of the city of a person, of big cities, and of the target. -/
def cityModes : List ModeDecl :=
  [⟨"lives", [.typed (some .input) "person", .typed (some .output) "city"]⟩,
    ⟨"big", [.typed (some .input) "city"]⟩, ⟨"cancer", [.typed (some .input) "person"]⟩]

/-- Two persons, of whom one lives in a big city. -/
def cityPersons : Dataset :=
  (((empty .default).setFacts ["lives(ann,rome)", "big(rome)", "lives(dan,ulm)"]).addPositives
    "cancer" ["cancer(ann)"]).addNegatives "cancer" ["cancer(dan)"]

/-- What the tree of this problem is grown from. -/
def cityGrower : Grower where
  data := (cityPersons.setBackground "cancer" cityModes).1
  facts := .ofList [.fact ⟨"lives", ["ann", "rome"]⟩, .fact ⟨"big", ["rome"]⟩,
    .fact ⟨"lives", ["dan", "ulm"]⟩]
  target := ⟨"cancer", ["A"]⟩
  limit := some 100

/-- The leaf of the person in the big city. -/
def cityLeaf : Node :=
  let tests : List Term := [⟨"big", ["B"]⟩, ⟨"lives", ["A", "B"]⟩]
  ⟨["cancer(ann)"], tests, tests⟩

theorem exists_visits_cityLeaf : ∃ k, cityGrower.Visits 2 (.root ["cancer(ann)", "cancer(dan)"]) k
    cityLeaf := by
  have hgrow : ∃ leaves, cityGrower.grow 2 [.root ["cancer(ann)", "cancer(dan)"]] = .ok leaves ∧
      cityLeaf ∈ leaves := by
    refine ⟨[cityLeaf, ⟨["cancer(dan)"], [⟨"lives", ["A", "B"]⟩], cityLeaf.path⟩], ?_, by simp⟩
    decide +kernel
  obtain ⟨leaves, hleaves, hmem⟩ := hgrow
  exact Grower.visits_of_grow hleaves (by simpa using Grower.Visits.top) cityLeaf hmem

/-- The theorem for a leaf whose nearest test uses the variable of the test above it. -/
theorem wellTyped_of_visits_cities :
    ((∀ decl ∈ cityModes, decl.IsRead) ∧ (cityPersons.setBackground "cancer" cityModes).2 = none ∧
      Uniform cityGrower.data.literals ∧ cityGrower.data.grower ⟨2, false, some 100⟩ = .ok cityGrower) ∧
    ∃ k decl types, cityGrower.Visits 2 (.root cityGrower.data.examples) k cityLeaf ∧
      cityModes.find? (·.name = "cancer") = some decl ∧
      cityGrower.target = targetTerm decl ∧ cityGrower.target.Fits types decl ∧
      LanguageBias.WellTyped ⟨cityGrower.data.literals, cityGrower.data.variableTypes⟩ types
        (cityGrower.clauseOf cityLeaf) ∧
      ∃ tests, cityGrower.testsAt cityLeaf = .ok tests ∧ ∀ text ∈ tests, ∃ test types',
        Term.parse text = .ok test ∧
        (∀ var ∈ (cityGrower.clauseOf cityLeaf).variables, types' var = types var) ∧
        LanguageBias.WellTyped ⟨cityGrower.data.literals, cityGrower.data.variableTypes⟩ types'
          ((cityGrower.clauseOf cityLeaf).when test) := by
  have hread : ∀ decl ∈ cityModes, decl.IsRead := fun decl hdecl =>
    ⟨"lives(+person,-city) big(+city) cancer(+person)", .inr ⟨cityModes, by decide +kernel, hdecl⟩⟩
  have huniform : Uniform cityGrower.data.literals := by
    have hliterals : cityGrower.data.literals = cityModes.take 2 := by decide +kernel
    rw [hliterals]
    simp [Uniform, cityModes]
  have hrules : cityGrower.data.facts.mapM Rule.parse = .ok [.fact ⟨"lives", ["ann", "rome"]⟩,
      .fact ⟨"big", ["rome"]⟩, .fact ⟨"lives", ["dan", "ulm"]⟩] := by decide +kernel
  have hg : cityGrower.data.grower ⟨2, false, some 100⟩ = .ok cityGrower :=
    grower_eq_ok_iff.2 ⟨_, _, hrules, by decide +kernel, rfl⟩
  have hexamples : cityGrower.data.examples = ["cancer(ann)", "cancer(dan)"] := by decide +kernel
  obtain ⟨k, hvisits⟩ := hexamples ▸ exists_visits_cityLeaf
  obtain ⟨decl, types, hresult⟩ := wellTyped_of_visits cityPersons "cancer" cityModes hread rfl
    cityGrower.data ⟨rfl, rfl, rfl⟩ huniform ⟨2, false, some 100⟩ cityGrower hg k cityLeaf hvisits
  exact ⟨⟨hread, rfl, huniform, hg⟩, k, decl, types, hvisits, hresult⟩

end Dataset

end ClauseForest
