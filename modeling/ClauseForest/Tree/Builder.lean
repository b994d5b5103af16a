/-
**Building a tree with a queue**

A tree can be built without looking at whole levels.  The nodes are slots of an arena, in the order in
which they were made, and know the number of the slot above them; the numbers of the nodes that are
still to be looked at wait in a queue.  The test of a node is filled in only when the node is taken from
the queue, and the tests on the way to a node are found by following the links up to the top.

Main definitions:

* `Arena` — nodes with links to those above them;
* `Arena.pathTests` — the tests on the way to a node;
* `Builder` — an arena, a queue and the leaves that were recorded;
* `Builder.expand` — what the builder does with a node;
* `Dataset.buildTree` — the tree that is built, if the queue ever becomes empty.
-/

import ClauseForest.Prover.Repetition
import ClauseForest.Tree.Growth

set_option relaxedAutoImplicit false
set_option autoImplicit false

namespace ClauseForest

/-! ### The arena -/

/-- The edge that leads from a node to the one above it. -/
inductive Side where
  /-- The examples satisfied the test above. -/
  | left
  /-- The examples did not satisfy the test above. -/
  | right
deriving DecidableEq, Repr

/-- A node in an arena. -/
structure Slot where
  /-- The test of the node, once it was looked at. -/
  test : Option Term
  examples : List String
  /-- The variance of the values of the examples. -/
  info : Float
  level : Nat
  /-- The number of the node above, and the edge that leads there. -/
  parent : Option (Nat × Side)

/-- The sides of a split that have examples, the left one first. -/
def Split.sides (s : Split) : List (Side × List String) :=
  [(.left, s.satisfied), (.right, s.unsatisfied)].filter fun side => !side.2.isEmpty

/-- The node on a side of a split, below the node with some number. -/
def Slot.below (d : Dataset) (id level : Nat) (side : Side × List String) : Slot :=
  ⟨none, side.2, d.variance side.2, level + 1, some (id, side.1)⟩

/-- Nodes in the order in which they were made. -/
structure Arena where
  slots : List Slot
  /-- A node is made after the one above it. -/
  before : ∀ (id : Nat) (slot : Slot), slots[id]? = some slot →
    ∀ (above : Nat) (side : Side), slot.parent = some (above, side) → above < id

namespace Arena

/-- The arena without nodes. -/
def empty : Arena := ⟨[], nofun⟩

/-- Fills in the test of a node. -/
def setTest (a : Arena) (id : Nat) (test : Term) : Arena where
  slots := a.slots.modify id fun slot => { slot with test := some test }
  before := by
    intro id' slot hslot above side hparent
    rw [List.getElem?_modify] at hslot
    obtain ⟨old, hold, rfl⟩ := Option.map_eq_some_iff.1 hslot
    refine a.before id' old hold above side ?_
    split at hparent <;> exact hparent

/-- Makes new nodes, whose links lead to old ones. -/
def append (a : Arena) (slots : List Slot) (h : ∀ slot ∈ slots, ∀ (above : Nat) (side : Side),
    slot.parent = some (above, side) → above < a.slots.length) : Arena where
  slots := a.slots ++ slots
  before := by
    intro id slot hslot above side hparent
    by_cases hid : id < a.slots.length
    · rw [List.getElem?_append_left hid] at hslot
      exact a.before id slot hslot above side hparent
    · rw [List.getElem?_append_right (Nat.le_of_not_lt hid)] at hslot
      exact Nat.lt_of_lt_of_le (h slot (List.mem_of_getElem? hslot) above side hparent)
        (Nat.le_of_not_lt hid)

/-- The test of a node, if it was filled in. -/
def test? (a : Arena) (id : Nat) : Option Term := a.slots[id]?.bind Slot.test

/-- The tests of the left edges, and of all edges, on the way up from a node. -/
def pathTests (a : Arena) (id : Nat) : List Term × List Term :=
  match _ : a.slots[id]? with
  | none => ([], [])
  | some slot =>
    match _ : slot.parent with
    | none => ([], [])
    | some (above, side) =>
      let (lefts, path) := a.pathTests above
      match a.test? above with
      | none => (lefts, path)
      | some test => (if side = .left then test :: lefts else lefts, test :: path)
termination_by id
decreasing_by exact a.before id slot ‹_› above side ‹_›

end Arena

/-! ### The builder -/

/-- The nodes that were made, those that are still to be looked at, and the leaves that were recorded. -/
structure Builder where
  arena : Arena
  queue : List Nat
  learned : List Leaf

namespace Builder

/-- The builder before its first step, with the top of the tree in the queue. -/
def start (d : Dataset) : Builder where
  arena := Arena.empty.append [⟨none, d.examples, d.variance d.examples, 0, none⟩] (by simp)
  queue := [0]
  learned := []

/-- Records a leaf. -/
def record (b : Builder) (leaf : Leaf) : Builder := { b with learned := b.learned ++ [leaf] }

/-- Splits a node of the arena: its test is filled in, and its sides are put at the end of the
queue. -/
def split (b : Builder) (d : Dataset) (id level : Nat) (h : id < b.arena.slots.length) (s : Split) :
    Builder where
  arena := (b.arena.setTest id s.test).append (s.sides.map (.below d id level)) (by
    intro slot hslot above side hparent
    obtain ⟨_, -, rfl⟩ := List.mem_map.1 hslot
    cases hparent
    simpa [Arena.setTest] using h)
  queue := b.queue ++ List.range' b.arena.slots.length s.sides.length
  learned := b.learned

/-- What the builder does with a node: it is recorded as a leaf, or it is split. -/
def expand (g : Grower) (depth : Nat) (b : Builder) (id : Nat) : Except ProofError Builder :=
  match h : b.arena.slots[id]? with
  | none => .ok b
  | some slot =>
    let tests := b.arena.pathTests id
    let node : Node := ⟨slot.examples, tests.1, tests.2⟩
    if slot.level = depth ∨ Grower.roundsToZero slot.info = true then .ok (b.record (g.leafOf node))
    else do
      let tests ← ProofError.ofSyntax (g.testsAt node)
      match ← g.bestSplit (g.clauseOf node) slot.examples tests with
      | none => return b.record (g.leafOf node)
      | some s => return b.split g.data id slot.level (List.getElem?_eq_some_iff.1 h).1 s

/-- Looks at the first node of the queue, or ends with the leaves. -/
def next (g : Grower) (depth : Nat) (b : Builder) : Builder ⊕ Except ProofError (List Leaf) :=
  match b.queue with
  | [] => .inr (.ok b.learned)
  | id :: queue =>
    match { b with queue }.expand g depth id with
    | .error e => .inr (.error e)
    | .ok b => .inl b

end Builder

/-- The tree that is built from the current values of a data set. -/
def Dataset.buildTree (d : Dataset) (config : TreeConfig) :
    Option (Except ProofError LearnedTree) :=
  match d.grower config with
  | .error e => some (.error e)
  | .ok g =>
    (Repetition.run? (Builder.next g config.maxDepth) (.start d)).map fun result =>
      LearnedTree.ofLeaves <$> result

end ClauseForest
