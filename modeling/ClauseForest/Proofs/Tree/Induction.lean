/-
**Trees by plain recursion**

What a learned tree is can be said without queues, arenas and levels.  A node is a leaf if no level may
follow, if its examples have almost the same value, or if there is nothing to test; otherwise it is
split by the earliest of the tests that leave the least variance, and the sides that have examples are
treated in the same way.  The leaves of this recursion, listed level by level and then sorted by the
number of their conditions, are those of the learned tree.

One thing is not in this picture.  The examples of a node are read as terms before the first test is
looked at, also if there is none.  So an example that cannot be read makes learning fail even at a node
that the recursion makes a leaf for want of tests.

Main definitions:

* `Split.earliest` — the earliest of the splits with the least score;
* `Grower.induce` — the leaves below a node, by recursion;
* `Grower.byLevel` — nodes listed level by level;
* `LearnedTree.Sorts` — a tree has certain leaves in order.

Main results:

* `Split.best_eq_earliest` — the best split is the earliest of the best, if all scores are numbers;
* `Grower.grow_eq_ok_iff` — **growing level by level is recursion, and listing by levels**;
* `Dataset.buildTree_eq_induce` — so is building a tree with a queue.
-/

import ClauseForest.Proofs.Decimal.Order
import ClauseForest.Proofs.Tree.Answering
import ClauseForest.Proofs.Tree.Builder
import ClauseForest.Proofs.Tree.Coverage

set_option relaxedAutoImplicit false
set_option autoImplicit false

namespace ClauseForest

/-! ### The earliest best split -/

namespace Split

/-- The earliest of the splits that no other has a smaller score than. -/
def earliest (splits : List Split) : Option Split :=
  splits.find? fun s => splits.all fun other => !decide (other.score < s.score)

/-- What is found is better than all splits before it, and as good as all after it. -/
theorem exists_of_foldl (others : List Split) (first : Split)
    (h : ∀ s ∈ first :: others, s.score.isNaN = false) :
    ∃ best before after,
      others.foldl (fun best next => if next.score < best.score then next else best) first = best ∧
      first :: others = before ++ best :: after ∧
      (∀ s ∈ before, Decimal.rank best.score < Decimal.rank s.score) ∧
      ∀ s ∈ after, Decimal.rank best.score ≤ Decimal.rank s.score := by
  induction others generalizing first with
  | nil => exact ⟨first, [], [], rfl, rfl, nofun, nofun⟩
  | cons next others ih =>
      obtain ⟨hfirst, hnext, hothers⟩ := by simpa only [List.forall_mem_cons] using h
      have hlt := Decimal.lt_iff_rank_lt hnext hfirst
      rw [List.foldl_cons]
      -- the next split takes the place of the first one, or is passed over
      by_cases hbetter : next.score < first.score
      · rw [if_pos hbetter]
        obtain ⟨best, before, after, hbest, hlist, hbefore, hafter⟩ :=
          ih next (List.forall_mem_cons.2 ⟨hnext, hothers⟩)
        refine ⟨best, first :: before, after, hbest, congrArg (first :: ·) hlist, ?_, hafter⟩
        refine List.forall_mem_cons.2 ⟨?_, hbefore⟩
        have hle : Decimal.rank best.score ≤ Decimal.rank next.score := by
          cases before with
          | nil => exact le_of_eq (congrArg (Decimal.rank ∘ score) (List.cons.inj hlist).1.symm)
          | cons s before =>
              obtain ⟨rfl, -⟩ := List.cons.inj hlist
              exact le_of_lt (hbefore _ (by simp))
        exact lt_of_le_of_lt hle (hlt.1 hbetter)
      · rw [if_neg hbetter]
        have hge : Decimal.rank first.score ≤ Decimal.rank next.score :=
          le_of_not_gt fun hgt => hbetter (hlt.2 hgt)
        obtain ⟨best, before, after, hbest, hlist, hbefore, hafter⟩ :=
          ih first (List.forall_mem_cons.2 ⟨hfirst, hothers⟩)
        cases before with
        | nil =>
            obtain ⟨rfl, rfl⟩ := List.cons.inj hlist
            exact ⟨first, [], next :: others, hbest, rfl, nofun,
              List.forall_mem_cons.2 ⟨hge, hafter⟩⟩
        | cons s before =>
            obtain ⟨rfl, rfl⟩ := List.cons.inj hlist
            have hless := hbefore first (by simp)
            refine ⟨best, first :: next :: before, after, hbest, rfl, ?_, hafter⟩
            simp only [List.forall_mem_cons] at hbefore ⊢
            exact ⟨hless, lt_of_lt_of_le hless hge, hbefore.2⟩

/-- The best split is the earliest of the best, if all scores are numbers. -/
theorem best_eq_earliest {splits : List Split} (h : ∀ s ∈ splits, s.score.isNaN = false) :
    best splits = earliest splits := by
  cases splits with
  | nil => rfl
  | cons first others =>
      obtain ⟨found, before, after, hfound, hlist, hbefore, hafter⟩ :=
        exists_of_foldl others first h
      have hmem : found ∈ first :: others := by
        rw [hlist]
        simp
      have hle : ∀ s ∈ first :: others, Decimal.rank found.score ≤ Decimal.rank s.score := by
        rw [hlist]
        simp only [List.forall_mem_append, List.forall_mem_cons]
        exact ⟨fun s hs => le_of_lt (hbefore s hs), le_refl _, hafter⟩
      refine (congrArg some hfound).trans (Eq.symm ?_)
      refine List.find?_eq_some_iff_append.2 ⟨?_, before, after, hlist, fun s hs => ?_⟩
      · refine List.all_eq_true.2 fun s hs => ?_
        have hnot : ¬ s.score < found.score := fun hlt =>
          absurd ((Decimal.lt_iff_rank_lt (h s hs) (h found hmem)).1 hlt) (not_lt_of_ge (hle s hs))
        simpa using hnot
      · have hs' : s ∈ first :: others := hlist ▸ List.mem_append_left _ hs
        have hlt := (Decimal.lt_iff_rank_lt (h found hmem) (h s hs')).2 (hbefore s hs)
        simp only [Bool.not_eq_eq_eq_not, Bool.not_true, List.all_eq_false]
        exact ⟨found, hmem, by simpa using hlt⟩

end Split

namespace Grower

variable {g : Grower}

/-! ### Recursion -/

/-- The split of a node by recursion: none if its examples have almost the same value, or if there is
nothing to test. -/
def choose (g : Grower) (node : Node) : Except ProofError (Option Split) := do
  if g.isPure node then return none
  let tests ← ProofError.ofSyntax (g.testsAt node)
  if tests.isEmpty then return none
  let queries ← readExamples node.examples
  return Split.earliest (← tests.mapM (g.split (g.clauseOf node) queries))

/-- The leaves below a node from left to right, when so many levels may follow. -/
def induce (g : Grower) : Nat → Node → Except ProofError (List Node)
  | 0, node => .ok [node]
  | levels + 1, node => do
    match ← g.choose node with
    | none => return [node]
    | some s =>
      let below (side : Node) :=
        if side.examples.isEmpty then Except.ok [] else g.induce levels side
      return (← below (node.left s.test s.satisfied)) ++ (← below (node.right s.test s.unsatisfied))

/-- The leaves below several nodes. -/
def induceAll (g : Grower) (levels : Nat) : List Node → Except ProofError (List Node)
  | [] => return []
  | node :: nodes => do
    let leaves ← g.induce levels node
    return leaves ++ (← g.induceAll levels nodes)

/-- Nodes of some levels in a row, level by level. -/
def byLevel (first count : Nat) (nodes : List Node) : List Node :=
  (List.range' first count).flatMap fun level => nodes.filter (·.level = level)

/-- Where a node above the deepest level is a leaf although its examples differ, these can be read. -/
def Readable (g : Grower) (depth : Nat) (leaves : List Node) : Prop :=
  ∀ leaf ∈ leaves, leaf.level < depth → g.isPure leaf = false →
    ∀ text ∈ leaf.examples, ∃ query, Term.parse text = .ok query

/-- Where the leaves are listed does not matter to whether they can be read. -/
theorem readable_append_cons {depth : Nat} {front back : List Node} {node : Node} :
    g.Readable depth (front ++ node :: back) ↔
      (node.level < depth → g.isPure node = false →
        ∀ text ∈ node.examples, ∃ query, Term.parse text = .ok query) ∧
      g.Readable depth (front ++ back) := by
  unfold Readable
  simp only [List.perm_middle.mem_iff, List.forall_mem_cons]

theorem exists_readExamples_iff {examples : List String} :
    (∃ queries, readExamples examples = .ok queries) ↔
      ∀ text ∈ examples, ∃ query, Term.parse text = .ok query := by
  refine exists_mapM_iff.trans (forall₂_congr fun text _ => ?_)
  constructor
  · rintro ⟨q, hq⟩
    obtain ⟨query, hquery, -⟩ := bind_eq_ok_iff.1 hq
    exact ⟨query, ProofError.ofSyntax_eq_ok_iff.1 hquery⟩
  · rintro ⟨query, hquery⟩
    exact ⟨(text, query), bind_eq_ok_iff.2 ⟨query, ProofError.ofSyntax_eq_ok_iff.2 hquery, rfl⟩⟩

/-- The examples of a node for which a split is chosen were read. -/
theorem readable_of_choose {node : Node} {s : Split} (h : g.choose node = .ok (some s)) :
    ∀ text ∈ node.examples, ∃ query, Term.parse text = .ok query := by
  unfold choose at h
  split at h
  · cases h
  · obtain ⟨tests, -, h⟩ := bind_eq_ok_iff.1 h
    split at h
    · cases h
    · obtain ⟨queries, hqueries, -⟩ := bind_eq_ok_iff.1 h
      exact exists_readExamples_iff.1 ⟨queries, hqueries⟩

theorem bestSplit_eq_ok_iff {node : Node} {tests : List String} (hmixed : g.isPure node = false)
    (htests : g.testsAt node = .ok tests) (hnumbers : ∀ s, g.Scored node s → s.score.isNaN = false)
    {best : Option Split} : g.bestSplit (g.clauseOf node) node.examples tests = .ok best ↔
      ∃ queries, readExamples node.examples = .ok queries ∧
        ∃ splits, tests.mapM (g.split (g.clauseOf node) queries) = .ok splits ∧
          .ok (Split.earliest splits) = (.ok best : Except ProofError (Option Split)) := by
  refine bind_eq_ok_iff.trans (exists_congr fun queries => and_congr_right fun hqueries => ?_)
  refine bind_eq_ok_iff.trans (exists_congr fun splits => and_congr_right fun hsplits => ?_)
  rw [Split.best_eq_earliest fun s hs =>
    hnumbers s (scored_of_mapM hmixed htests hqueries hsplits hs)]
  rfl

/-- The best split of a node is the one that recursion chooses, but for the reading of examples. -/
theorem bestAt_eq_ok_iff {node : Node} (hnumbers : ∀ s, g.Scored node s → s.score.isNaN = false)
    {best : Option Split} : g.bestAt node = .ok best ↔ g.choose node = .ok best ∧
      (g.isPure node = false → ∀ text ∈ node.examples, ∃ query, Term.parse text = .ok query) := by
  unfold bestAt choose
  cases hmixed : g.isPure node with
  | true => simp
  | false =>
      simp only [Bool.false_eq_true, if_false, forall_true_left, ← exists_readExamples_iff]
      cases htests : g.testsAt node with
      | error e => exact ⟨nofun, fun h => nomatch h.1⟩
      | ok tests =>
          refine (bestSplit_eq_ok_iff hmixed htests hnumbers).trans ?_
          cases tests with
          | nil =>
              -- without tests the examples are read nevertheless
              constructor
              · rintro ⟨queries, hqueries, splits, hsplits, hbest⟩
                cases hsplits
                exact ⟨hbest, queries, hqueries⟩
              · rintro ⟨hbest, queries, hqueries⟩
                exact ⟨queries, hqueries, [], rfl, hbest⟩
          | cons text texts =>
              have hchoose : (ProofError.ofSyntax (.ok (text :: texts)) >>= fun tests =>
                  if tests.isEmpty then pure none else readExamples node.examples >>= fun queries =>
                    tests.mapM (g.split (g.clauseOf node) queries) >>= fun splits =>
                      pure (Split.earliest splits)) =
                  readExamples node.examples >>= fun queries =>
                    (text :: texts).mapM (g.split (g.clauseOf node) queries) >>= fun splits =>
                      .ok (Split.earliest splits) := rfl
              rw [hchoose, bind_eq_ok_iff]
              simp only [bind_eq_ok_iff]
              exact ⟨fun h => ⟨h, h.imp fun _ => And.left⟩, And.left⟩

/-! ### Several nodes -/

theorem induceAll_append (levels : Nat) (nodes others : List Node) :
    g.induceAll levels (nodes ++ others) = (do
      let front ← g.induceAll levels nodes
      return front ++ (← g.induceAll levels others)) := by
  induction nodes with
  | nil => simp only [List.nil_append, induceAll, pure_bind, bind_pure]
  | cons node nodes ih =>
      simp only [List.cons_append, induceAll, ih, bind_assoc, pure_bind, List.append_assoc]

theorem induceAll_singleton (levels : Nat) (node : Node) :
    g.induceAll levels [node] = g.induce levels node := by
  simp only [induceAll, pure_bind, List.append_nil, bind_pure]

theorem induceAll_side (levels : Nat) (side : Node) :
    g.induceAll levels (if side.examples.isEmpty then [] else [side]) =
      if side.examples.isEmpty then .ok [] else g.induce levels side := by
  split
  · rfl
  · exact induceAll_singleton levels side

/-- Recursion goes on below the sides of the chosen split that have examples. -/
theorem induce_of_choose {levels : Nat} {node : Node} {s : Split}
    (h : g.choose node = .ok (some s)) :
    g.induce (levels + 1) node = g.induceAll levels (children node s) := by
  have hchildren : children node s =
      (if (node.left s.test s.satisfied).examples.isEmpty then []
        else [node.left s.test s.satisfied]) ++
      if (node.right s.test s.unsatisfied).examples.isEmpty then []
        else [node.right s.test s.unsatisfied] := rfl
  rw [induce, h, hchildren, induceAll_append, induceAll_side, induceAll_side]
  rfl

theorem induce_of_choose_none {levels : Nat} {node : Node} (h : g.choose node = .ok none) :
    g.induce (levels + 1) node = .ok [node] := by
  rw [induce, h]
  rfl

/-- A leaf is listed before what is below the other nodes. -/
theorem exists_induceAll_cons_of_choose_none {levels : Nat} {node : Node} {now : List Node}
    (h : g.choose node = .ok none) {P : List Node → Prop} :
    (∃ all, g.induceAll (levels + 1) (node :: now) = .ok all ∧ P all) ↔
      ∃ rest, g.induceAll (levels + 1) now = .ok rest ∧ P (node :: rest) := by
  constructor
  · rintro ⟨all, hall, hP⟩
    obtain ⟨front, hfront, rest, hrest, rfl⟩ := append_eq_ok_iff.1 hall
    cases (induce_of_choose_none h).symm.trans hfront
    exact ⟨rest, hrest, hP⟩
  · rintro ⟨rest, hrest, hP⟩
    exact ⟨node :: rest, append_eq_ok_iff.2
      ⟨[node], induce_of_choose_none h, rest, hrest, rfl⟩, hP⟩

/-- The children of a node may be moved to the nodes of the next level. -/
theorem exists_induceAll_cons_of_choose (levels : Nat) (now later : List Node) {node : Node}
    {s : Split} (P : List Node → Prop) (h : g.choose node = .ok (some s)) :
    (∃ old, g.induceAll levels later = .ok old ∧
      ∃ all, g.induceAll (levels + 1) (node :: now) = .ok all ∧ P (old ++ all)) ↔
    ∃ both, g.induceAll levels (later ++ children node s) = .ok both ∧
      ∃ rest, g.induceAll (levels + 1) now = .ok rest ∧ P (both ++ rest) := by
  rw [induceAll_append]
  constructor
  · rintro ⟨old, hold, all, hall, hP⟩
    obtain ⟨front, hfront, rest, hrest, rfl⟩ := append_eq_ok_iff.1 hall
    rw [induce_of_choose h] at hfront
    rw [← List.append_assoc] at hP
    exact ⟨old ++ front, append_eq_ok_iff.2 ⟨old, hold, front, hfront, rfl⟩, rest, hrest, hP⟩
  · rintro ⟨both, hboth, rest, hrest, hP⟩
    obtain ⟨old, hold, front, hfront, rfl⟩ := append_eq_ok_iff.1 hboth
    rw [List.append_assoc] at hP
    exact ⟨old, hold, front ++ rest, append_eq_ok_iff.2
      ⟨front, (induce_of_choose h).trans hfront, rest, hrest, rfl⟩, hP⟩

theorem induceAll_zero (nodes : List Node) : g.induceAll 0 nodes = .ok nodes := by
  induction nodes with
  | nil => rfl
  | cons node nodes ih =>
      rw [induceAll, induce, ih]
      rfl

theorem exists_of_mem_induceAll {levels : Nat} {nodes leaves : List Node}
    (h : g.induceAll levels nodes = .ok leaves) {leaf : Node} (hleaf : leaf ∈ leaves) :
    ∃ node ∈ nodes, ∃ found, g.induce levels node = .ok found ∧ leaf ∈ found := by
  induction nodes generalizing leaves with
  | nil =>
      cases h
      cases hleaf
  | cons node nodes ih =>
      obtain ⟨front, hfront, back, hback, rfl⟩ := append_eq_ok_iff.1 h
      rcases List.mem_append.1 hleaf with hleaf | hleaf
      · exact ⟨node, by simp, front, hfront, hleaf⟩
      · obtain ⟨other, hother, hfound⟩ := ih hback hleaf
        exact ⟨other, List.mem_cons_of_mem _ hother, hfound⟩

/-- The leaves are not above the node that they are below. -/
theorem level_le_of_induce {levels : Nat} {node : Node} {leaves : List Node}
    (h : g.induce levels node = .ok leaves) : ∀ leaf ∈ leaves, node.level ≤ leaf.level := by
  induction levels generalizing node leaves with
  | zero =>
      cases h
      simp
  | succ levels ih =>
      intro leaf hleaf
      obtain ⟨best, hchoose, -⟩ := bind_eq_ok_iff.1 h
      cases best with
      | none =>
          cases (induce_of_choose_none hchoose).symm.trans h
          rw [List.mem_singleton.1 hleaf]
      | some s =>
          rw [induce_of_choose hchoose] at h
          obtain ⟨child, hchild, found, hfound, hleaf⟩ := exists_of_mem_induceAll h hleaf
          have hle := ih hfound leaf hleaf
          have hlevel := level_of_mem_children hchild
          omega

/-! ### Levels -/

/-- All scores are numbers at the nodes of the tree that is grown from its top. -/
def ScoresNumbers (g : Grower) (depth : Nat) (top : Node) : Prop :=
  ∀ k node s, g.Visits depth top (k + 1) node → g.Scored node s → s.score.isNaN = false

/-- Every proof that is made for a split ends with an answer. -/
def ProofsReturn (g : Grower) (depth : Nat) (top : Node) : Prop :=
  ∀ k node, g.Visits depth top (k + 1) node → ∀ tests, g.testsAt node = .ok tests →
    ∀ text ∈ tests, ∀ test, Term.parse text = .ok test →
      ∀ example_ ∈ node.examples, ∀ query, Term.parse example_ = .ok query →
        ∃ answer, Session.prove ⟨g.facts, some ((g.clauseOf node).when test), g.limit⟩ query =
          .ok answer

theorem byLevel_succ (first count : Nat) (nodes : List Node) : byLevel first (count + 1) nodes =
    nodes.filter (·.level = first) ++ byLevel (first + 1) count nodes := by
  unfold byLevel
  rw [List.range'_succ, List.flatMap_cons]

theorem byLevel_of_level_lt {first : Nat} (count : Nat) (front : List Node) {node : Node}
    (back : List Node) (h : node.level < first) :
    byLevel first count (front ++ node :: back) = byLevel first count (front ++ back) := by
  unfold byLevel
  refine List.flatMap_congr fun level hlevel => ?_
  have hle := (List.mem_range'_1.1 hlevel).1
  have hne : node.level ≠ level := by omega
  simp [List.filter_append, hne]

/-- The first of some levels is empty. -/
theorem byLevel_of_forall_lt {first : Nat} (count : Nat) {nodes : List Node}
    (h : ∀ node ∈ nodes, first < node.level) :
    byLevel first (count + 1) nodes = byLevel (first + 1) count nodes := by
  rw [byLevel_succ]
  have hnil : nodes.filter (·.level = first) = [] :=
    List.filter_eq_nil_iff.2 fun node hnode => by
      have hlt := h node hnode
      simp
      omega
  rw [hnil, List.nil_append]

/-- The first node of the first level comes first. -/
theorem byLevel_cons {first : Nat} (count : Nat) {front : List Node} {node : Node}
    (back : List Node) (hfront : ∀ other ∈ front, first < other.level) (hnode : node.level = first) :
    byLevel first (count + 1) (front ++ node :: back) =
      node :: byLevel first (count + 1) (front ++ back) := by
  have hnil : front.filter (·.level = first) = [] :=
    List.filter_eq_nil_iff.2 fun other hother => by
      have hlt := hfront other hother
      simp
      omega
  rw [byLevel_succ, byLevel_succ, byLevel_of_level_lt count front back (by omega)]
  simp [hnil, hnode]

section Level

variable {depth k : Nat} {examples : List String}

/-- What growing makes of nodes whose level may be followed by `k` others. -/
def GrowsByRecursion (g : Grower) (depth : Nat) (examples : List String) (k : Nat) : Prop :=
  ∀ (nodes leaves : List Node), (∀ node ∈ nodes, g.Visits depth (.root examples) k node) →
    ∀ first, first + k = depth → (g.grow k nodes = .ok leaves ↔
      ∃ found, g.induceAll k nodes = .ok found ∧ g.Readable depth found ∧
        byLevel first (k + 1) found = leaves)

/-- The nodes of a level are treated from the first to the last. -/
theorem growRest_eq_ok_iff (hnumbers : g.ScoresNumbers depth (.root examples))
    (hgrow : g.GrowsByRecursion depth examples k) {first : Nat} (hfirst : first + (k + 1) = depth)
    {now later leaves : List Node} (hnow : ∀ node ∈ now, g.Visits depth (.root examples) (k + 1) node)
    (hlater : ∀ node ∈ later, g.Visits depth (.root examples) k node) :
    g.growRest k now later = .ok leaves ↔
      ∃ old, g.induceAll k later = .ok old ∧ ∃ new, g.induceAll (k + 1) now = .ok new ∧
        g.Readable depth (old ++ new) ∧ byLevel first (k + 2) (old ++ new) = leaves := by
  have hold : ∀ {later old : List Node}, (∀ node ∈ later, g.Visits depth (.root examples) k node) →
      g.induceAll k later = .ok old → ∀ leaf ∈ old, first < leaf.level := by
    intro later old hlater hold leaf hleaf
    obtain ⟨node, hnode, found, hfound, hleaf⟩ := exists_of_mem_induceAll hold hleaf
    have hlevel : node.level + k = 0 + depth := (hlater node hnode).level_add
    have hle := level_le_of_induce hfound leaf hleaf
    omega
  -- what is left of the level gets shorter, and the children of a split node wait behind it
  induction now generalizing later leaves with
  | nil =>
      rw [growRest_nil_left, hgrow later leaves hlater (first + 1) (by omega)]
      constructor
      · rintro ⟨old, hfound, hread, rfl⟩
        refine ⟨old, hfound, [], rfl, by rwa [List.append_nil], ?_⟩
        rw [List.append_nil, byLevel_of_forall_lt (k + 1) (hold hlater hfound)]
      · rintro ⟨old, hfound, new, hnew, hread, rfl⟩
        cases hnew
        rw [List.append_nil] at hread ⊢
        exact ⟨old, hfound, hread, (byLevel_of_forall_lt (k + 1) (hold hlater hfound)).symm⟩
  | cons node now ih =>
      obtain ⟨hnode, hrest⟩ := List.forall_mem_cons.1 hnow
      have hlevel : node.level + (k + 1) = 0 + depth := hnode.level_add
      have hscores := fun s => hnumbers k node s hnode
      have hbelow : ∀ s, g.bestAt node = .ok (some s) →
          ∀ child ∈ later ++ children node s, g.Visits depth (.root examples) k child := by
        intro s hbest child hchild
        rcases List.mem_append.1 hchild with hchild | hchild
        · exact hlater child hchild
        · exact .child hnode (by rw [expand_eq, hbest]; rfl) hchild
      have hleaf : ∀ {old new : List Node}, g.induceAll k later = .ok old →
          byLevel first (k + 2) (old ++ node :: new) =
            node :: byLevel first (k + 2) (old ++ new) := fun hfound =>
        byLevel_cons (k + 1) _ (hold hlater hfound) (by omega)
      -- it is the same whether the children of a split node wait, or are treated at once
      have hmove : ∀ {s}, g.choose node = .ok (some s) → _ := fun {s} =>
        exists_induceAll_cons_of_choose k now later
          fun all => g.Readable depth all ∧ byLevel first (k + 2) all = leaves
      rw [growRest_cons, bind_eq_ok_iff]
      constructor
      · rintro ⟨best, hbest, h⟩
        obtain ⟨hchoose, hread⟩ := (bestAt_eq_ok_iff hscores).1 hbest
        cases best with
        | none =>
            obtain ⟨rest, hrest', rfl⟩ := map_eq_ok_iff.1 h
            obtain ⟨old, hfound, new, hnew, hreadable, rfl⟩ := (ih hrest hlater).1 hrest'
            exact ⟨old, hfound, (exists_induceAll_cons_of_choose_none hchoose).2
              ⟨new, hnew, readable_append_cons.2 ⟨fun _ => hread, hreadable⟩, hleaf hfound⟩⟩
        | some s =>
            exact (hmove hchoose).2 ((ih hrest (hbelow s hbest)).1 h)
      · rintro ⟨old, hfound, hnow⟩
        obtain ⟨best, hchoose⟩ : ∃ best, g.choose node = .ok best := by
          obtain ⟨all, hall, -⟩ := hnow
          obtain ⟨front, hfront, -⟩ := append_eq_ok_iff.1 hall
          obtain ⟨best, hchoose, -⟩ := bind_eq_ok_iff.1 hfront
          exact ⟨best, hchoose⟩
        cases best with
        | none =>
            obtain ⟨new, hnew, hreadable, rfl⟩ :=
              (exists_induceAll_cons_of_choose_none hchoose).1 hnow
            obtain ⟨hread, hreadable⟩ := readable_append_cons.1 hreadable
            have hrest' := (ih hrest hlater).2 ⟨old, hfound, new, hnew, hreadable, rfl⟩
            exact ⟨none, (bestAt_eq_ok_iff hscores).2 ⟨hchoose, hread (by omega)⟩,
              map_eq_ok_iff.2 ⟨_, hrest', (hleaf hfound).symm⟩⟩
        | some s =>
            have hbest := (bestAt_eq_ok_iff hscores).2 ⟨hchoose, fun _ => readable_of_choose hchoose⟩
            exact ⟨some s, hbest, (ih hrest (hbelow s hbest)).2 ((hmove hchoose).1 ⟨old, hfound, hnow⟩)⟩

/-- Growing level by level is recursion, and listing by levels. -/
theorem growsByRecursion (hnumbers : g.ScoresNumbers depth (.root examples)) (k : Nat) :
    g.GrowsByRecursion depth examples k := by
  induction k with
  | zero =>
      intro nodes leaves hnodes first hfirst
      have hlevel : ∀ node ∈ nodes, node.level = first := fun node hnode =>
        (hnodes node hnode).level_add.trans ((Nat.zero_add depth).trans hfirst.symm)
      have hfilter : byLevel first 1 nodes = nodes := by
        rw [byLevel_succ]
        simpa [byLevel] using hlevel
      rw [grow_zero, induceAll_zero]
      constructor
      · rintro ⟨⟩
        refine ⟨nodes, rfl, fun leaf hleaf hlt => ?_, hfilter⟩
        have heq := hlevel leaf hleaf
        omega
      · rintro ⟨found, ⟨⟩, -, rfl⟩
        rw [hfilter]
  | succ k ih =>
      intro nodes leaves hnodes first hfirst
      rw [← growRest_nil_right, growRest_eq_ok_iff hnumbers ih hfirst hnodes (by simp)]
      constructor
      · rintro ⟨old, hfound, new, hnew, hreadable, rfl⟩
        cases hfound
        exact ⟨new, hnew, hreadable, rfl⟩
      · rintro ⟨new, hnew, hreadable, rfl⟩
        exact ⟨[], rfl, new, hnew, hreadable, rfl⟩

/-- A tree that is grown from its top has the leaves of the recursion. -/
theorem grow_root_eq_ok_iff (hnumbers : g.ScoresNumbers depth (.root examples))
    {leaves : List Node} : g.grow depth [.root examples] = .ok leaves ↔
      ∃ found, g.induce depth (.root examples) = .ok found ∧ g.Readable depth found ∧
        byLevel 0 (depth + 1) found = leaves := by
  rw [← induceAll_singleton]
  exact growsByRecursion hnumbers depth _ leaves (by simpa using Visits.top) 0 (Nat.zero_add depth)

end Level

/-! ### Checking that scores are numbers -/

/-- Whether all scores at a node are numbers. -/
def numbersAt (g : Grower) (node : Node) : Bool :=
  g.isPure node ||
    match (do
      let tests ← ProofError.ofSyntax (g.testsAt node)
      let queries ← readExamples node.examples
      tests.mapM (g.split (g.clauseOf node) queries)) with
    | .ok splits => splits.all fun s => !s.score.isNaN
    | .error _ => false

/-- Whether all scores at a node, and at the nodes below it, are numbers. -/
def scoresAreNumbers (g : Grower) : Nat → Node → Bool
  | 0, _ => true
  | levels + 1, node => g.numbersAt node &&
    match g.expand node with
    | .ok (some below) => below.all (g.scoresAreNumbers levels)
    | _ => true

theorem isNaN_of_numbersAt {node : Node} (h : g.numbersAt node = true) {s : Split}
    (hs : g.Scored node s) : s.score.isNaN = false := by
  obtain ⟨tests, queries, htests, hqueries, text, htext, hsplit⟩ := hs.split
  unfold numbersAt at h
  rw [hs.mixed, Bool.false_or] at h
  split at h
  · rename_i splits hsplits
    obtain ⟨found, hfound, hsplits⟩ := bind_eq_ok_iff.1 hsplits
    obtain ⟨read, hread, hsplits⟩ := bind_eq_ok_iff.1 hsplits
    cases htests.symm.trans (ProofError.ofSyntax_eq_ok_iff.1 hfound)
    cases hqueries.symm.trans hread
    obtain ⟨s', hs', hsplit'⟩ := exists_mem_of_mapM hsplits htext
    cases hsplit.symm.trans hsplit'
    simpa using List.all_eq_true.1 h s hs'
  · cases h

theorem scoresAreNumbers_of_visits {depth : Nat} {top : Node}
    (h : g.scoresAreNumbers depth top = true) {k : Nat} {node : Node}
    (hnode : g.Visits depth top k node) : g.scoresAreNumbers k node = true := by
  induction hnode with
  | top => exact h
  | child _ hexpand hchild ih =>
      rw [scoresAreNumbers, hexpand] at ih
      exact List.all_eq_true.1 (Bool.and_eq_true_iff.1 ih).2 _ hchild

theorem scoresNumbers_of_check {depth : Nat} {top : Node}
    (h : g.scoresAreNumbers depth top = true) : g.ScoresNumbers depth top := by
  intro k node s hnode hs
  have hcheck := scoresAreNumbers_of_visits h hnode
  rw [scoresAreNumbers] at hcheck
  exact isNaN_of_numbersAt (Bool.and_eq_true_iff.1 hcheck).1 hs

end Grower

/-! ### Learned trees -/

/-- A tree has certain leaves, the most specific first; equally specific ones keep their order. -/
structure LearnedTree.Sorts (tree : LearnedTree) (leaves : List Leaf) : Prop where
  perm : tree.leaves.Perm leaves
  sorted : tree.leaves.Pairwise fun leaf other => other.specificity ≤ leaf.specificity
  stable : ∀ count, (tree.leaves.filter fun leaf => leaf.specificity = count) =
    leaves.filter fun leaf => leaf.specificity = count

theorem LearnedTree.sorts_ofLeaves (leaves : List Leaf) : (ofLeaves leaves).Sorts leaves :=
  ⟨perm_ofLeaves leaves, pairwise_ofLeaves leaves, filter_ofLeaves leaves⟩

namespace Dataset

variable {d : Dataset} {config : TreeConfig} {g : Grower}

/-- A tree is learned with the leaves of the recursion. -/
theorem learnTree_eq_ok_iff (hg : d.grower config = .ok g)
    (hnumbers : g.ScoresNumbers config.maxDepth (.root d.examples)) {tree : LearnedTree} :
    d.learnTree config = .ok tree ↔ ∃ leaves,
      g.induce config.maxDepth (.root d.examples) = .ok leaves ∧
        g.Readable config.maxDepth leaves ∧
        tree = .ofLeaves ((Grower.byLevel 0 (config.maxDepth + 1) leaves).map g.leafOf) := by
  constructor
  · intro h
    obtain ⟨found, hfound, h⟩ := bind_eq_ok_iff.1 h
    cases hg.symm.trans hfound
    obtain ⟨nodes, hnodes, h⟩ := bind_eq_ok_iff.1 h
    obtain ⟨leaves, hleaves, hreadable, rfl⟩ := (Grower.grow_root_eq_ok_iff hnumbers).1 hnodes
    exact ⟨leaves, hleaves, hreadable, (Except.ok.inj h).symm⟩
  · rintro ⟨leaves, hleaves, hreadable, rfl⟩
    exact learnTree_eq hg
      ((Grower.grow_root_eq_ok_iff hnumbers).2 ⟨leaves, hleaves, hreadable, rfl⟩)

/-- **Building with a queue is recursion.**  If all scores are numbers, a tree is built if and only if
the recursion succeeds, and the examples can be read wherever it makes a leaf for want of tests.  The
tree then has the leaves of the recursion, listed level by level and sorted by the number of their
tests; equally specific leaves stay in order. -/
theorem buildTree_eq_induce (d : Dataset) (config : TreeConfig) :
    d.buildTree config = some (d.learnTree config) ∧
    ∀ g, d.grower config = .ok g → g.ScoresNumbers config.maxDepth (.root d.examples) →
      ((∃ tree, d.buildTree config = some (.ok tree)) ↔
        ∃ leaves, g.induce config.maxDepth (.root d.examples) = .ok leaves ∧
          g.Readable config.maxDepth leaves) ∧
      ∀ tree leaves, d.buildTree config = some (.ok tree) →
        g.induce config.maxDepth (.root d.examples) = .ok leaves →
        tree = .ofLeaves ((Grower.byLevel 0 (config.maxDepth + 1) leaves).map g.leafOf) ∧
          tree.Sorts ((Grower.byLevel 0 (config.maxDepth + 1) leaves).map g.leafOf) := by
  have hbuild := d.buildTree_eq config
  refine ⟨hbuild, fun g hg hnumbers => ?_⟩
  rw [hbuild]
  simp only [Option.some.injEq, learnTree_eq_ok_iff hg hnumbers]
  refine ⟨⟨?_, ?_⟩, ?_⟩
  · rintro ⟨tree, leaves, hleaves, hreadable, -⟩
    exact ⟨leaves, hleaves, hreadable⟩
  · rintro ⟨leaves, hleaves, hreadable⟩
    exact ⟨_, leaves, hleaves, hreadable, rfl⟩
  · rintro tree leaves ⟨found, hfound, -, rfl⟩ hleaves
    cases hfound.symm.trans hleaves
    exact ⟨rfl, LearnedTree.sorts_ofLeaves _⟩

/-! ### A tree that branches -/

/-- Two levels of tests, and proofs of at most a hundred steps. -/
def limitedConfig : TreeConfig := ⟨2, false, some 100⟩

/-- What a tree of friends is grown from under this limit. -/
def limitedGrower : Grower := { friendsGrower with limit := some 100 }

/-- The leaves of this tree from left to right.  The last one is nearest to the top. -/
def inducedLeaves : List Node :=
  let near : Term := ⟨"friends", ["A", "B"]⟩
  let far : Term := ⟨"friends", ["B", "C"]⟩
  [⟨["cancer(ann)"], [far, near], [far, near]⟩, ⟨["cancer(dan)"], [near], [far, near]⟩,
    ⟨["cancer(fay)"], [], [near]⟩]

theorem buildTree_eq_induce_friends :
    (friendsData.grower limitedConfig = .ok limitedGrower ∧
      limitedGrower.ScoresNumbers limitedConfig.maxDepth (.root friendsData.examples) ∧
      limitedGrower.induce limitedConfig.maxDepth (.root friendsData.examples) = .ok inducedLeaves ∧
      Grower.byLevel 0 (limitedConfig.maxDepth + 1) inducedLeaves = friendsLeaves) ∧
    friendsData.buildTree limitedConfig = some (friendsData.learnTree limitedConfig) ∧
      ((∃ tree, friendsData.buildTree limitedConfig = some (.ok tree)) ↔
        ∃ leaves, limitedGrower.induce limitedConfig.maxDepth (.root friendsData.examples) =
          .ok leaves ∧ limitedGrower.Readable limitedConfig.maxDepth leaves) ∧
      ∀ tree leaves, friendsData.buildTree limitedConfig = some (.ok tree) →
        limitedGrower.induce limitedConfig.maxDepth (.root friendsData.examples) = .ok leaves →
        tree = .ofLeaves
            ((Grower.byLevel 0 (limitedConfig.maxDepth + 1) leaves).map limitedGrower.leafOf) ∧
          tree.Sorts
            ((Grower.byLevel 0 (limitedConfig.maxDepth + 1) leaves).map limitedGrower.leafOf) := by
  have hrules : friendsData.facts.mapM Rule.parse = .ok friendsRules := by decide +kernel
  have hgrower : friendsData.grower limitedConfig = .ok limitedGrower := grower_cancerData hrules
  have hcheck : limitedGrower.scoresAreNumbers 2 (.root friendsData.examples) = true := by
    decide +kernel
  have hinduce : limitedGrower.induce 2 (.root friendsData.examples) = .ok inducedLeaves := by
    decide +kernel
  have hnumbers := Grower.scoresNumbers_of_check hcheck
  have hmain := buildTree_eq_induce friendsData limitedConfig
  exact ⟨⟨hgrower, hnumbers, hinduce, by decide⟩, hmain.1,
    hmain.2 limitedGrower hgrower hnumbers⟩

/-! ### Examples that cannot be read -/

/-- A problem with nothing to test, and with an example that is no term. -/
def unreadableData : Dataset :=
  ((((empty .default).addPositives "cancer" ["cancer(ann"]).addNegatives "cancer"
    ["cancer(bob)"]).setBackground "cancer" [⟨"cancer", [.typed (some .input) "person"]⟩]).1

/-- What the tree of this problem is grown from. -/
def unreadableGrower : Grower := ⟨unreadableData, .ofList [], ⟨"cancer", ["A"]⟩, none⟩

/-- Learning the tree of this problem does not get past the top. -/
theorem eq_root_of_visits_unreadableGrower {depth k : Nat} {node : Node}
    (h : unreadableGrower.Visits depth (.root unreadableData.examples) k node) :
    node = .root unreadableData.examples := by
  have hfails : (unreadableGrower.expand (.root unreadableData.examples)).toBool = false := by
    decide +kernel
  induction h with
  | top => rfl
  | child _ hexpand _ ih =>
      rw [ih] at hexpand
      rw [hexpand] at hfails
      cases hfails

/-- Not every tree of the recursion is learned. -/
theorem not_forall_buildTree_iff_induce :
    ¬ ∀ (d : Dataset) (config : TreeConfig) (g : Grower), d.grower config = .ok g →
      g.ProofsReturn config.maxDepth (.root d.examples) →
      g.ScoresNumbers config.maxDepth (.root d.examples) →
      ((∃ tree, d.buildTree config = some (.ok tree)) ↔
        ∃ leaves, g.induce config.maxDepth (.root d.examples) = .ok leaves) := by
  intro h
  have htarget : Term.parse "cancer(A)" = .ok ⟨"cancer", ["A"]⟩ := by decide +kernel
  have hgrower : unreadableData.grower .default = .ok unreadableGrower :=
    bind_eq_ok_iff.2 ⟨.ofList [], rfl,
      bind_eq_ok_iff.2 ⟨_, ProofError.ofSyntax_eq_ok_iff.2 htarget, rfl⟩⟩
  have htests : unreadableGrower.testsAt (.root unreadableData.examples) = .ok [] := by
    decide +kernel
  have hreturn : unreadableGrower.ProofsReturn 2 (.root unreadableData.examples) := by
    intro k node hnode tests hfound text htext
    rw [eq_root_of_visits_unreadableGrower hnode] at hfound
    cases htests.symm.trans hfound
    cases htext
  have hnumbers : unreadableGrower.ScoresNumbers 2 (.root unreadableData.examples) := by
    intro k node s hnode hs
    rw [eq_root_of_visits_unreadableGrower hnode] at hs
    obtain ⟨tests, queries, hfound, -, text, htext, -⟩ := hs.split
    cases htests.symm.trans hfound
    cases htext
  have hinduce : unreadableGrower.induce 2 (.root unreadableData.examples) =
      .ok [.root unreadableData.examples] := by decide +kernel
  have hfails : (unreadableData.learnTree .default).toBool = false := by decide +kernel
  obtain ⟨tree, htree⟩ := (h unreadableData .default unreadableGrower hgrower hreturn hnumbers).2
    ⟨_, hinduce⟩
  rw [buildTree_eq, Option.some.injEq] at htree
  rw [htree] at hfails
  cases hfails

end Dataset

end ClauseForest
