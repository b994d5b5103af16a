/-
**How a tree grows**

Growing a tree is a computation that may fail at every proof on the way.  When it succeeds, every
level of the tree comes from the level above by one and the same kind of step: a node stays and is a
leaf, or its examples are sent to the nodes below it, those that satisfy the clause with the test to
the left and the others to the right.

So a property of all leaves is proved along the edges of the tree.  The number of levels that may
still follow goes with the property, because what is known of a node may depend on how far down it
is.

Main definitions:

* `Grower.satisfies` — an example satisfies the clause of the target with a body;
* `Grower.bestAt` — the best split of a node;
* `Grower.Scored` — a split is scored at a node, by one of the tests there;
* `Grower.Splits` — a split sends the examples of a node to its sides;
* `Grower.Expands`, `Grower.Grows` — one level of a tree, and all levels below.

Main results:

* `Grower.grows_of_grow` — **a tree grows level by level**;
* `Grower.Grows.forall_leaves` — what is passed on along the edges holds of the leaves;
* `Grower.Grows.pairwise` — so does what is passed on between two nodes;
* `Grower.Grows.perm` — **the leaves share the examples that a tree is grown from**.
-/

import ClauseForest.Proofs.Outcome
import ClauseForest.Tree.Growth

set_option relaxedAutoImplicit false
set_option autoImplicit false

namespace ClauseForest

theorem ProofError.ofSyntax_eq_ok_iff {α : Type} {x : Except SyntaxError α} {a : α} :
    ProofError.ofSyntax x = .ok a ↔ x = .ok a := by
  cases x with
  | error e => exact ⟨nofun, nofun⟩
  | ok found => exact ⟨fun h => Except.ok.inj h ▸ rfl, fun h => Except.ok.inj h ▸ rfl⟩

/-- Whether a proof is found.  A proof without an answer counts as none. -/
def Session.proves (s : Session) (query : Term) : Bool :=
  match s.prove query with
  | .ok answer => answer
  | .error _ => false

theorem Session.proves_of_prove {s : Session} {query : Term} {answer : Bool}
    (h : s.prove query = .ok answer) : s.proves query = answer := by
  unfold proves
  rw [h]

/-- A tree is grown over the rules that the facts of a data set are read as. -/
theorem Dataset.grower_eq_ok_iff {d : Dataset} {config : TreeConfig} {g : Grower} :
    d.grower config = .ok g ↔ ∃ rules target, d.facts.mapM Rule.parse = .ok rules ∧
      Term.parse d.target = .ok target ∧ g = ⟨d, .ofList rules, target, config.stepLimit⟩ := by
  constructor
  · intro h
    obtain ⟨base, hbase, h⟩ := bind_eq_ok_iff.1 h
    obtain ⟨target, htarget, h⟩ := bind_eq_ok_iff.1 h
    obtain ⟨rules, hrules, rfl⟩ := map_eq_ok_iff.1 (ProofError.ofSyntax_eq_ok_iff.1 hbase)
    exact ⟨rules, target, hrules, ProofError.ofSyntax_eq_ok_iff.1 htarget, (Except.ok.inj h).symm⟩
  · rintro ⟨rules, target, hrules, htarget, rfl⟩
    have hbase : RuleBase.parse d.facts = .ok (.ofList rules) := map_eq_ok_iff.2 ⟨rules, hrules, rfl⟩
    exact bind_eq_ok_iff.2 ⟨_, ProofError.ofSyntax_eq_ok_iff.2 hbase,
      bind_eq_ok_iff.2 ⟨_, ProofError.ofSyntax_eq_ok_iff.2 htarget, rfl⟩⟩

theorem Dataset.data_of_grower {d : Dataset} {config : TreeConfig} {g : Grower}
    (hg : d.grower config = .ok g) : g.data = d := by
  obtain ⟨rules, target, -, -, rfl⟩ := grower_eq_ok_iff.1 hg
  rfl

namespace Grower

variable {g : Grower}

/-! ### Splits -/

/-- Whether an example satisfies the clause of the target with a body. -/
def satisfies (g : Grower) (body : List Term) (text : String) : Bool :=
  match Term.parse text with
  | .ok query => Session.proves ⟨g.facts, some ⟨g.target, body⟩, g.limit⟩ query
  | .error _ => false

theorem satisfies_of_parse {body : List Term} {text : String} {query : Term}
    (h : Term.parse text = .ok query) :
    g.satisfies body text = Session.proves ⟨g.facts, some ⟨g.target, body⟩, g.limit⟩ query := by
  unfold satisfies
  rw [h]

/-- A split by one of the tests at a node sends its examples to the sides. -/
structure Splits (g : Grower) (node : Node) (s : Split) : Prop where
  test : ∃ tests, g.testsAt node = .ok tests ∧ ∃ text ∈ tests, Term.parse text = .ok s.test
  satisfied : s.satisfied = node.examples.filter (g.satisfies (node.lefts ++ [s.test]))
  unsatisfied :
    s.unsatisfied = node.examples.filter fun text => !g.satisfies (node.lefts ++ [s.test]) text

theorem of_divide {session : Session} {queries : List (String × Term)}
    {satisfied unsatisfied : List String}
    (h : divide session queries = .ok (satisfied, unsatisfied)) :
    satisfied = (queries.filter fun q => session.proves q.2).map Prod.fst ∧
      unsatisfied = (queries.filter fun q => !session.proves q.2).map Prod.fst := by
  induction queries generalizing satisfied unsatisfied with
  | nil =>
      cases h
      exact ⟨rfl, rfl⟩
  | cons q queries ih =>
      obtain ⟨text, query⟩ := q
      obtain ⟨holds, hholds, h⟩ := bind_eq_ok_iff.1 h
      obtain ⟨⟨lefts, rights⟩, hrest, h⟩ := bind_eq_ok_iff.1 h
      obtain ⟨hlefts, hrights⟩ := ih hrest
      have hproves := Session.proves_of_prove hholds
      cases holds with
      | true =>
          cases h
          simp [hproves, ← hlefts, ← hrights]
      | false =>
          cases h
          simp [hproves, ← hlefts, ← hrights]

theorem foldl_best (others : List Split) (first : Split) :
    let best := others.foldl (fun best next => if next.score < best.score then next else best) first
    best = first ∨ best ∈ others := by
  induction others generalizing first with
  | nil => exact .inl rfl
  | cons next others ih =>
      rw [List.foldl_cons]
      rcases ih (if next.score < first.score then next else first) with hbest | hbest
      · rw [hbest]
        split
        · exact .inr (by simp)
        · exact .inl rfl
      · exact .inr (List.mem_cons_of_mem _ hbest)

theorem mem_of_best {splits : List Split} {s : Split} (h : Split.best splits = some s) :
    s ∈ splits := by
  cases splits with
  | nil => cases h
  | cons first others =>
      cases h
      rcases foldl_best others first with hbest | hbest
      · rw [hbest]
        simp
      · exact List.mem_cons_of_mem _ hbest

/-- All examples of a node are read before they are divided. -/
def readExamples (examples : List String) : Except ProofError (List (String × Term)) :=
  examples.mapM fun text => do
    return (text, ← ProofError.ofSyntax (Term.parse text))

theorem readExamples_eq_ok_iff {examples : List String} {queries : List (String × Term)} :
    readExamples examples = .ok queries ↔
      List.Forall₂ (fun text q => q.1 = text ∧ Term.parse text = .ok q.2) examples queries := by
  refine mapM_eq_ok_iff.trans ?_
  constructor <;> intro h <;> refine h.imp fun text q hq => ?_
  · obtain ⟨query, hquery, hq⟩ := bind_eq_ok_iff.1 hq
    cases hq
    exact ⟨rfl, ProofError.ofSyntax_eq_ok_iff.1 hquery⟩
  · obtain ⟨rfl, hquery⟩ := hq
    exact bind_eq_ok_iff.2 ⟨q.2, ProofError.ofSyntax_eq_ok_iff.2 hquery, rfl⟩

theorem filter_map_queries {examples : List String} {queries : List (String × Term)}
    (h : readExamples examples = .ok queries) (body : List Term) (keep : Bool → Bool) :
    (queries.filter fun q =>
        keep (Session.proves ⟨g.facts, some ⟨g.target, body⟩, g.limit⟩ q.2)).map Prod.fst =
      examples.filter fun text => keep (g.satisfies body text) := by
  induction readExamples_eq_ok_iff.1 h with
  | nil => rfl
  | @cons text q examples queries hq hrest ih =>
      obtain ⟨rfl, hparse⟩ := hq
      rw [List.filter_cons, List.filter_cons, satisfies_of_parse hparse]
      have htail := ih (readExamples_eq_ok_iff.2 hrest)
      split <;> simp [htail]

/-- A split that is scored at a node, by one of the tests that are tried there. -/
structure Scored (g : Grower) (node : Node) (s : Split) : Prop where
  mixed : g.isPure node = false
  split : ∃ tests queries, g.testsAt node = .ok tests ∧ readExamples node.examples = .ok queries ∧
    ∃ text ∈ tests, g.split (g.clauseOf node) queries text = .ok s

theorem scored_of_mapM {node : Node} {tests : List String} {queries : List (String × Term)}
    {splits : List Split} (hmixed : g.isPure node = false) (htests : g.testsAt node = .ok tests)
    (hqueries : readExamples node.examples = .ok queries)
    (hsplits : tests.mapM (g.split (g.clauseOf node) queries) = .ok splits) {s : Split}
    (hs : s ∈ splits) : g.Scored node s := by
  obtain ⟨text, htext, hsplit⟩ := exists_of_mem_mapM hsplits hs
  exact ⟨hmixed, tests, queries, htests, hqueries, text, htext, hsplit⟩

theorem Scored.splits {node : Node} {s : Split} (h : g.Scored node s) : g.Splits node s := by
  obtain ⟨tests, queries, htests, hqueries, text, htext, hs⟩ := h.split
  obtain ⟨test, htest, hs⟩ := bind_eq_ok_iff.1 hs
  obtain ⟨⟨satisfied, unsatisfied⟩, hdivide, hs⟩ := bind_eq_ok_iff.1 hs
  cases hs
  obtain ⟨hsatisfied, hunsatisfied⟩ := of_divide hdivide
  exact ⟨⟨tests, htests, text, htext, ProofError.ofSyntax_eq_ok_iff.1 htest⟩,
    hsatisfied.trans (filter_map_queries hqueries _ id),
    hunsatisfied.trans (filter_map_queries hqueries _ (!·))⟩

/-- The best split of a node, if there is one. -/
def bestAt (g : Grower) (node : Node) : Except ProofError (Option Split) := do
  if g.isPure node then return none
  let tests ← ProofError.ofSyntax (g.testsAt node)
  g.bestSplit (g.clauseOf node) node.examples tests

/-- A node is expanded by its best split. -/
theorem expand_eq (node : Node) : g.expand node = Option.map (children node) <$> g.bestAt node := by
  unfold expand bestAt
  split
  · rfl
  · simp only [map_bind, bind_pure_comp]

theorem scored_of_bestAt {node : Node} {s : Split} (h : g.bestAt node = .ok (some s)) :
    g.Scored node s := by
  unfold bestAt at h
  split at h
  · cases h
  · rename_i hmixed
    obtain ⟨tests, htests, h⟩ := bind_eq_ok_iff.1 h
    obtain ⟨queries, hqueries, h⟩ := bind_eq_ok_iff.1 h
    obtain ⟨splits, hsplits, h⟩ := bind_eq_ok_iff.1 h
    exact scored_of_mapM (Bool.eq_false_iff.2 hmixed) (ProofError.ofSyntax_eq_ok_iff.1 htests)
      hqueries hsplits (mem_of_best (Except.ok.inj h))

/-- A node that is no leaf is split by one of the splits that are scored there. -/
theorem exists_scored_of_expand {node : Node} {below : List Node}
    (h : g.expand node = .ok (some below)) : ∃ s, g.Scored node s ∧ below = children node s := by
  rw [expand_eq] at h
  obtain ⟨best, hbest, hbelow⟩ := map_eq_ok_iff.1 h
  cases best with
  | none => cases hbelow
  | some s =>
      cases hbelow
      exact ⟨s, scored_of_bestAt hbest, rfl⟩

/-! ### Levels -/

/-- What becomes of the nodes of a level: some are leaves, and the others have their sides on the
next level. -/
inductive Expands (g : Grower) : List Node → List Node → List Node → Prop
  | nil : Expands g [] [] []
  | leaf {node : Node} {nodes leaves next : List Node} (h : Expands g nodes leaves next) :
      Expands g (node :: nodes) (node :: leaves) next
  | split {node : Node} {s : Split} {nodes leaves next : List Node} (hs : g.Splits node s)
      (h : Expands g nodes leaves next) : Expands g (node :: nodes) leaves (children node s ++ next)

/-- The leaves below the nodes of a level, when at most so many levels follow. -/
inductive Grows (g : Grower) : Nat → List Node → List Node → Prop
  | done (nodes : List Node) : Grows g 0 nodes nodes
  | level {k : Nat} {nodes leaves next below : List Node} (h : Expands g nodes leaves next)
      (hbelow : Grows g k next below) : Grows g (k + 1) nodes (leaves ++ below)

theorem expands_of_expandAll {nodes leaves next : List Node}
    (h : g.expandAll nodes = .ok (leaves, next)) : g.Expands nodes leaves next := by
  induction nodes generalizing leaves next with
  | nil =>
      cases h
      exact .nil
  | cons node nodes ih =>
      obtain ⟨expanded, hexpanded, h⟩ := bind_eq_ok_iff.1 h
      obtain ⟨⟨leaves', next'⟩, hrest, h⟩ := bind_eq_ok_iff.1 h
      cases expanded with
      | none =>
          cases h
          exact .leaf (ih hrest)
      | some below =>
          cases h
          obtain ⟨s, hs, rfl⟩ := exists_scored_of_expand hexpanded
          exact .split hs.splits (ih hrest)

theorem grows_nil (k : Nat) : g.Grows k [] [] := by
  induction k with
  | zero => exact .done []
  | succ k ih => exact .level .nil ih

/-- A tree grows level by level. -/
theorem grows_of_grow {k : Nat} {nodes leaves : List Node} (h : g.grow k nodes = .ok leaves) :
    g.Grows k nodes leaves := by
  induction k generalizing nodes leaves with
  | zero => cases nodes <;> cases h <;> exact .done _
  | succ k ih =>
      cases nodes with
      | nil =>
          cases h
          exact grows_nil (k + 1)
      | cons node nodes =>
          obtain ⟨⟨found, next⟩, hexpand, h⟩ := bind_eq_ok_iff.1 h
          obtain ⟨below, hbelow, h⟩ := bind_eq_ok_iff.1 h
          cases h
          exact .level (expands_of_expandAll hexpand) (ih hbelow)

/-! ### Properties of leaves -/

theorem mem_children_iff {node child : Node} {s : Split} : child ∈ children node s ↔
    s.satisfied ≠ [] ∧ child = node.left s.test s.satisfied ∨
      s.unsatisfied ≠ [] ∧ child = node.right s.test s.unsatisfied := by
  unfold children
  rw [List.mem_append]
  cases s.satisfied <;> cases s.unsatisfied <;> simp

theorem Expands.mem_leaves {nodes leaves next : List Node} (h : g.Expands nodes leaves next)
    {node : Node} (hnode : node ∈ leaves) : node ∈ nodes := by
  induction h with
  | nil => exact hnode
  | leaf _ ih =>
      rcases List.mem_cons.1 hnode with rfl | hnode
      · simp
      · exact List.mem_cons_of_mem _ (ih hnode)
  | split _ _ ih => exact List.mem_cons_of_mem _ (ih hnode)

theorem Expands.exists_of_mem_next {nodes leaves next : List Node} (h : g.Expands nodes leaves next)
    {child : Node} (hchild : child ∈ next) :
    ∃ node ∈ nodes, ∃ s, g.Splits node s ∧ child ∈ children node s := by
  induction h with
  | nil => cases hchild
  | leaf _ ih =>
      obtain ⟨node, hnode, hs⟩ := ih hchild
      exact ⟨node, List.mem_cons_of_mem _ hnode, hs⟩
  | @split node s _ _ _ hs _ ih =>
      rcases List.mem_append.1 hchild with hchild | hchild
      · exact ⟨node, by simp, s, hs, hchild⟩
      · obtain ⟨node, hnode, hs⟩ := ih hchild
        exact ⟨node, List.mem_cons_of_mem _ hnode, hs⟩

/-- What is passed on along the edges of a tree, and kept by a node that is a leaf, holds of the
leaves. -/
theorem Grows.forall_leaves {P : Nat → Node → Prop} {k : Nat} {nodes leaves : List Node}
    (h : g.Grows k nodes leaves)
    (hedge : ∀ k node s child, P (k + 1) node → g.Splits node s → child ∈ children node s →
      P k child)
    (hleaf : ∀ k node, P (k + 1) node → P k node) (hnodes : ∀ node ∈ nodes, P k node) :
    ∀ leaf ∈ leaves, P 0 leaf := by
  induction h with
  | done nodes => exact hnodes
  | @level k nodes leaves next below hexpands _ ih =>
      intro leaf hmem
      rcases List.mem_append.1 hmem with hmem | hmem
      · have hlast : ∀ k, P k leaf → P 0 leaf := by
          intro k
          induction k with
          | zero => exact id
          | succ k ih => exact fun h => ih (hleaf k leaf h)
        exact hlast _ (hnodes leaf (hexpands.mem_leaves hmem))
      · refine ih (fun child hchild => ?_) leaf hmem
        obtain ⟨node, hnode, s, hs, hchild⟩ := hexpands.exists_of_mem_next hchild
        exact hedge k node s child (hnodes node hnode) hs hchild

/-- What is passed on along the edges holds of the leaves of a level and of the nodes of the next one. -/
theorem Expands.forall_append {Q : Node → Prop} {nodes leaves next : List Node}
    (h : g.Expands nodes leaves next) (hnodes : ∀ node ∈ nodes, Q node)
    (hedge : ∀ node ∈ nodes, ∀ s child, g.Splits node s → child ∈ children node s → Q node → Q child) :
    ∀ node ∈ leaves ++ next, Q node := by
  intro node hnode
  rcases List.mem_append.1 hnode with hnode | hnode
  · exact hnodes node (h.mem_leaves hnode)
  · obtain ⟨above, habove, s, hs, hchild⟩ := h.exists_of_mem_next hnode
    exact hedge above habove s node hs hchild (hnodes above habove)

section

variable {P : Nat → Node → Prop} {R : Node → Node → Prop} {k : Nat} {nodes leaves next : List Node}

/-- A symmetric relation that is kept along the edges, and holds between the sides of a split, goes from
the nodes of a level to its leaves and the nodes of the next one. -/
theorem Expands.pairwise (h : g.Expands nodes leaves next)
    (hsymm : ∀ {node other}, R node other → R other node)
    (hedge : ∀ k node s child other, P (k + 1) node → g.Splits node s → child ∈ children node s →
      R node other → R child other)
    (hsides : ∀ k node s, P (k + 1) node → g.Splits node s → (children node s).Pairwise R)
    (hnodes : ∀ node ∈ nodes, P (k + 1) node) (hpairs : nodes.Pairwise R) :
    (leaves ++ next).Pairwise R := by
  induction h with
  | nil => exact .nil
  | @leaf node nodes leaves next hexpands ih =>
      obtain ⟨hfirst, hrest⟩ := List.pairwise_cons.1 hpairs
      obtain ⟨hnode, hnodes⟩ := List.forall_mem_cons.1 hnodes
      refine List.pairwise_cons.2 ⟨?_, ih hnodes hrest⟩
      exact hexpands.forall_append hfirst fun above habove s child hs hchild hR =>
        hsymm (hedge k above s child node (hnodes above habove) hs hchild (hsymm hR))
  | @split node s nodes leaves next hs hexpands ih =>
      obtain ⟨hfirst, hrest⟩ := List.pairwise_cons.1 hpairs
      obtain ⟨hnode, hnodes⟩ := List.forall_mem_cons.1 hnodes
      have hall : ∀ other ∈ leaves ++ next, R node other :=
        hexpands.forall_append hfirst fun above habove s child hs hchild hR =>
          hsymm (hedge k above s child node (hnodes above habove) hs hchild (hsymm hR))
      rw [(List.perm_append_comm_assoc leaves (children node s) next).pairwise_iff hsymm]
      refine List.pairwise_append.2 ⟨hsides k node s hnode hs, ih hnodes hrest, ?_⟩
      intro child hchild other hother
      exact hedge k node s child other hnode hs hchild (hall other hother)

/-- So it holds between the leaves of a tree. -/
theorem Grows.pairwise (h : g.Grows k nodes leaves)
    (hsymm : ∀ {node other}, R node other → R other node)
    (hkeeps : ∀ k node s child, P (k + 1) node → g.Splits node s → child ∈ children node s → P k child)
    (hleaf : ∀ k node, P (k + 1) node → P k node)
    (hedge : ∀ k node s child other, P (k + 1) node → g.Splits node s → child ∈ children node s →
      R node other → R child other)
    (hsides : ∀ k node s, P (k + 1) node → g.Splits node s → (children node s).Pairwise R)
    (hnodes : ∀ node ∈ nodes, P k node) (hpairs : nodes.Pairwise R) : leaves.Pairwise R := by
  induction h with
  | done nodes => exact hpairs
  | @level k nodes leaves next below hexpands hbelow ih =>
      have hnext : ∀ child ∈ next, P k child := by
        intro child hchild
        obtain ⟨node, hnode, s, hs, hchild⟩ := hexpands.exists_of_mem_next hchild
        exact hkeeps k node s child (hnodes node hnode) hs hchild
      obtain ⟨hleaves, hpairs, hcross⟩ :=
        List.pairwise_append.1 (hexpands.pairwise hsymm hedge hsides hnodes hpairs)
      refine List.pairwise_append.2 ⟨hleaves, ih hnext hpairs, fun leaf hmem => ?_⟩
      -- whatever a leaf of this level is related to stays so along the edges below
      have hrelated := hbelow.forall_leaves (P := fun k node => P k node ∧ R leaf node)
        (fun k node s child hnode hs hchild => ⟨hkeeps k node s child hnode.1 hs hchild,
          hsymm (hedge k node s child leaf hnode.1 hs hchild (hsymm hnode.2))⟩)
        (fun k node hnode => ⟨hleaf k node hnode.1, hnode.2⟩)
        (fun child hchild => ⟨hnext child hchild, hcross leaf hmem child hchild⟩)
      exact fun other hother => (hrelated other hother).2

end

theorem Splits.mem_satisfied_iff {node : Node} {s : Split} (hs : g.Splits node s) {text : String} :
    text ∈ s.satisfied ↔
      text ∈ node.examples ∧ g.satisfies (node.lefts ++ [s.test]) text = true := by
  rw [hs.satisfied, List.mem_filter]

theorem Splits.mem_unsatisfied_iff {node : Node} {s : Split} (hs : g.Splits node s)
    {text : String} : text ∈ s.unsatisfied ↔
      text ∈ node.examples ∧ g.satisfies (node.lefts ++ [s.test]) text = false := by
  rw [hs.unsatisfied, List.mem_filter, Bool.not_eq_true']

/-! ### Examples -/

theorem Splits.examples_sublist {node child : Node} {s : Split} (hs : g.Splits node s)
    (hchild : child ∈ children node s) : child.examples.Sublist node.examples := by
  rcases mem_children_iff.1 hchild with ⟨-, rfl⟩ | ⟨-, rfl⟩
  · exact hs.satisfied ▸ List.filter_sublist
  · exact hs.unsatisfied ▸ List.filter_sublist

/-- The examples of a leaf come from above, and keep their order. -/
theorem Grows.examples_sublist {k : Nat} {nodes leaves : List Node} (h : g.Grows k nodes leaves)
    {examples : List String} (hnodes : ∀ node ∈ nodes, node.examples.Sublist examples) :
    ∀ leaf ∈ leaves, leaf.examples.Sublist examples :=
  h.forall_leaves (P := fun _ node => node.examples.Sublist examples)
    (fun _ _ _ _ hnode hs hchild => (hs.examples_sublist hchild).trans hnode) (fun _ _ => id) hnodes

/-- The sides of a split share the examples of the node. -/
theorem Splits.perm {node : Node} {s : Split} (hs : g.Splits node s) :
    (s.satisfied ++ s.unsatisfied).Perm node.examples := by
  rw [hs.satisfied, hs.unsatisfied]
  exact List.filter_append_perm _ node.examples

theorem flatMap_children (node : Node) (s : Split) :
    (children node s).flatMap Node.examples = s.satisfied ++ s.unsatisfied := by
  unfold children
  cases s.satisfied <;> cases s.unsatisfied <;> simp [Node.left, Node.right]

theorem Expands.perm {nodes leaves next : List Node} (h : g.Expands nodes leaves next) :
    ((leaves ++ next).flatMap Node.examples).Perm (nodes.flatMap Node.examples) := by
  induction h with
  | nil => exact .nil
  | leaf _ ih => exact ih.append_left _
  | @split node s nodes leaves next hs _ ih =>
      have hback : ((leaves ++ (children node s ++ next)).flatMap Node.examples).Perm
          ((children node s).flatMap Node.examples ++ (leaves ++ next).flatMap Node.examples) := by
        rw [← List.flatMap_append]
        exact (List.perm_append_comm_assoc leaves _ next).flatMap_right Node.examples
      rw [flatMap_children] at hback
      exact hback.trans (hs.perm.append ih)

/-- The leaves share the examples of the nodes that they are below. -/
theorem Grows.perm {k : Nat} {nodes leaves : List Node} (h : g.Grows k nodes leaves) :
    (leaves.flatMap Node.examples).Perm (nodes.flatMap Node.examples) := by
  induction h with
  | done nodes => exact .refl _
  | @level k nodes leaves next below hexpands _ ih =>
      refine List.Perm.trans ?_ hexpands.perm
      rw [List.flatMap_append, List.flatMap_append]
      exact ih.append_left _

/-- The examples of a leaf come from above. -/
theorem Grows.examples_subset {k : Nat} {nodes leaves : List Node} (h : g.Grows k nodes leaves)
    {examples : List String} (hnodes : ∀ node ∈ nodes, ∀ text ∈ node.examples, text ∈ examples) :
    ∀ leaf ∈ leaves, ∀ text ∈ leaf.examples, text ∈ examples := by
  intro leaf hleaf text htext
  obtain ⟨node, hnode, hmem⟩ :=
    List.mem_flatMap.1 (h.perm.mem_iff.1 (List.mem_flatMap.2 ⟨leaf, hleaf, htext⟩))
  exact hnodes node hnode text hmem

/-- Every example ends in a leaf. -/
theorem Grows.exists_leaf {k : Nat} {nodes leaves : List Node} (h : g.Grows k nodes leaves)
    {text : String} (htext : ∃ node ∈ nodes, text ∈ node.examples) :
    ∃ leaf ∈ leaves, text ∈ leaf.examples :=
  List.mem_flatMap.1 (h.perm.mem_iff.2 (List.mem_flatMap.2 htext))

end Grower

end ClauseForest
