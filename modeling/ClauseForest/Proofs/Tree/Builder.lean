/-
**The queue builds the tree that is grown**

Two orders must be seen to be one: the queue is always the rest of a level followed by the nodes of the
next level that were already made, and a tree that is grown looks at the same nodes, level by level.
What the queue holds are only numbers.  The node behind a number is found by following links, and it
stays the same while others are split: only a node in the queue has its test filled in, and such a
node is above no other.

Main definitions:

* `Arena.nodeAt` — the node behind a number;
* `Builder.Sound` — what is true of a builder at every step.

Main results:

* `Arena.Extends.nodeAt_eq` — later steps do not disturb the way to a node;
* `Builder.Sound.endsWith_grow` — **from every sound state the leaves of the queued nodes are recorded**;
* `Dataset.buildTree_eq` — the builder always ends, with the tree that is grown.
-/

import ClauseForest.Proofs.Tree.Visits
import ClauseForest.Tree.Builder

set_option relaxedAutoImplicit false
set_option autoImplicit false

namespace ClauseForest

/-! ### Ways to the top -/

namespace Arena

variable {a b c : Arena} {id above : Nat} {slot : Slot} {side : Side}

theorem pathTests_of_top (hslot : a.slots[id]? = some slot) (hparent : slot.parent = none) :
    a.pathTests id = ([], []) := by
  rw [pathTests]
  split
  · rfl
  · split
    · rfl
    · simp_all

theorem pathTests_of_link (hslot : a.slots[id]? = some slot)
    (hparent : slot.parent = some (above, side)) {test : Term} (htest : a.test? above = some test) :
    a.pathTests id = (if side = .left then test :: (a.pathTests above).1 else (a.pathTests above).1,
      test :: (a.pathTests above).2) := by
  rw [pathTests]
  split
  · simp_all
  · split
    · simp_all
    · simp_all

/-- The node behind a number. -/
def nodeAt (a : Arena) (id : Nat) : Node :=
  ⟨(a.slots[id]?.map Slot.examples).getD [], (a.pathTests id).1, (a.pathTests id).2⟩

/-- Every node that is above another has its test. -/
def Tested (a : Arena) : Prop :=
  ∀ (id : Nat) (slot : Slot), a.slots[id]? = some slot →
    ∀ (above : Nat) (side : Side), slot.parent = some (above, side) → ∃ test, a.test? above = some test

/-- An arena with more nodes and tests. -/
structure Extends (a b : Arena) : Prop where
  slot : ∀ (id : Nat) (slot : Slot), a.slots[id]? = some slot → ∃ slot' : Slot,
    b.slots[id]? = some slot' ∧ slot'.parent = slot.parent ∧ slot'.examples = slot.examples
  test : ∀ (id : Nat) (test : Term), a.test? id = some test → b.test? id = some test

theorem Extends.pathTests_eq (h : a.Extends b) (ha : a.Tested) (hslot : a.slots[id]? = some slot) :
    b.pathTests id = a.pathTests id := by
  -- the way up has smaller and smaller numbers
  induction id using Nat.strongRecOn generalizing slot with
  | ind id ih =>
      obtain ⟨slot', hslot', hparent', -⟩ := h.slot id slot hslot
      cases hparent : slot.parent with
      | none =>
          rw [pathTests_of_top hslot' (hparent'.trans hparent), pathTests_of_top hslot hparent]
      | some link =>
          obtain ⟨above, side⟩ := link
          obtain ⟨test, htest⟩ := ha id slot hslot above side hparent
          obtain ⟨_, habove, -⟩ := Option.bind_eq_some_iff.1 htest
          rw [pathTests_of_link hslot' (hparent'.trans hparent) (h.test above test htest),
            pathTests_of_link hslot hparent htest,
            ih above (a.before id slot hslot above side hparent) habove]

/-- Later steps do not disturb the way to a node. -/
theorem Extends.nodeAt_eq (h : a.Extends b) (ha : a.Tested) (hslot : a.slots[id]? = some slot) :
    b.nodeAt id = a.nodeAt id := by
  obtain ⟨slot', hslot', -, hexamples⟩ := h.slot id slot hslot
  unfold nodeAt
  rw [h.pathTests_eq ha hslot, hslot, hslot']
  simp [hexamples]

end Arena

/-! ### Sides -/

/-- The node on an edge of a test. -/
def Node.below (node : Node) (test : Term) (side : Side × List String) : Node :=
  match side.1 with
  | .left => node.left test side.2
  | .right => node.right test side.2

theorem Node.level_below (node : Node) (test : Term) (side : Side × List String) :
    (node.below test side).level = node.level + 1 := by
  unfold below
  split <;> rfl

theorem Grower.children_eq (node : Node) (s : Split) :
    children node s = s.sides.map (node.below s.test) := by
  unfold children Split.sides
  cases s.satisfied <;> cases s.unsatisfied <;> rfl

/-! ### One step -/

namespace Builder

variable {g : Grower} {depth : Nat} {b : Builder} {id : Nat} {slot : Slot} {s : Split}

/-- What is true of a builder at every step. -/
structure Sound (g : Grower) (b : Builder) : Prop where
  tested : b.arena.Tested
  info : ∀ (id : Nat) (slot : Slot), b.arena.slots[id]? = some slot →
    slot.info = g.data.variance slot.examples
  level : ∀ (id : Nat) (slot : Slot), b.arena.slots[id]? = some slot →
    slot.level = (b.arena.nodeAt id).level
  /-- A node in the queue has no test yet. -/
  pending : ∀ id ∈ b.queue, id < b.arena.slots.length ∧ b.arena.test? id = none
  nodup : b.queue.Nodup

section Split

variable (h : id < b.arena.slots.length) (d : Dataset) (level : Nat) (s : Split)

theorem length_setTest : (b.arena.setTest id s.test).slots.length = b.arena.slots.length := by
  simp [Arena.setTest]

theorem slots_split_of_lt {id' : Nat} (hid' : id' < b.arena.slots.length) :
    (b.split d id level h s).arena.slots[id']? = b.arena.slots[id']?.map fun slot =>
      if id = id' then { slot with test := some s.test } else slot := by
  show ((b.arena.setTest id s.test).slots ++ _)[id']? = _
  rw [List.getElem?_append_left (length_setTest s ▸ hid')]
  exact List.getElem?_modify _ _ _ _

theorem slots_split_add (i : Nat) :
    (b.split d id level h s).arena.slots[b.arena.slots.length + i]? =
      s.sides[i]?.map (.below d id level) := by
  show ((b.arena.setTest id s.test).slots ++ _)[_]? = _
  rw [List.getElem?_append_right (by rw [length_setTest]; omega), length_setTest,
    Nat.add_sub_cancel_left, List.getElem?_map]

/-- A node of the arena after a split is an old one, or on a side of the split. -/
theorem slots_split_cases {id' : Nat} {slot' : Slot}
    (hslot' : (b.split d id level h s).arena.slots[id']? = some slot') :
    (∃ slot, b.arena.slots[id']? = some slot ∧
      slot' = if id = id' then { slot with test := some s.test } else slot) ∨
    b.arena.slots.length ≤ id' ∧ ∃ side ∈ s.sides, slot' = .below d id level side := by
  by_cases hid' : id' < b.arena.slots.length
  · rw [slots_split_of_lt h d level s hid'] at hslot'
    obtain ⟨slot, hslot, rfl⟩ := Option.map_eq_some_iff.1 hslot'
    exact .inl ⟨slot, hslot, rfl⟩
  · obtain ⟨i, rfl⟩ := Nat.exists_eq_add_of_le (Nat.le_of_not_lt hid')
    rw [slots_split_add] at hslot'
    obtain ⟨side, hside, rfl⟩ := Option.map_eq_some_iff.1 hslot'
    exact .inr ⟨Nat.le_add_right _ i, side, List.mem_of_getElem? hside, rfl⟩

theorem test?_split_self : (b.split d id level h s).arena.test? id = some s.test := by
  unfold Arena.test?
  rw [slots_split_of_lt h d level s h, List.getElem?_eq_getElem h]
  simp

/-- A split leaves all other nodes and tests as they are. -/
theorem extends_split (hnone : b.arena.test? id = none) :
    b.arena.Extends (b.split d id level h s).arena where
  slot := by
    intro id' slot hslot
    have hslot' := slots_split_of_lt h d level s (List.getElem?_eq_some_iff.1 hslot).1
    rw [hslot, Option.map_some] at hslot'
    refine ⟨_, hslot', ?_⟩
    split <;> exact ⟨rfl, rfl⟩
  test := by
    intro id' test htest
    obtain ⟨slot, hslot, hslot'⟩ := Option.bind_eq_some_iff.1 htest
    have hne : id ≠ id' := by
      rintro rfl
      rw [hnone] at htest
      cases htest
    unfold Arena.test?
    rw [slots_split_of_lt h d level s (List.getElem?_eq_some_iff.1 hslot).1, hslot]
    simpa [hne] using hslot'

/-- The node on a side of a split. -/
theorem nodeAt_split (hb : b.arena.Tested) (hnone : b.arena.test? id = none) {id' : Nat}
    {side : Side × List String}
    (hslot' : (b.split d id level h s).arena.slots[id']? = some (.below d id level side)) :
    (b.split d id level h s).arena.nodeAt id' = (b.arena.nodeAt id).below s.test side := by
  have hpath := (extends_split h d level s hnone).pathTests_eq hb (List.getElem?_eq_getElem h)
  unfold Arena.nodeAt
  rw [Arena.pathTests_of_link hslot' rfl (test?_split_self h d level s), hslot', hpath]
  obtain ⟨edge, examples⟩ := side
  cases edge <;> rfl

end Split

/-- A split keeps a builder sound, if the node is no longer in the queue. -/
theorem Sound.split (hb : b.Sound g) (h : id < b.arena.slots.length)
    (hnone : b.arena.test? id = none) (hid : id ∉ b.queue) {level : Nat}
    (hlevel : level = (b.arena.nodeAt id).level) (s : Split) :
    (b.split g.data id level h s).Sound g := by
  have hextends := extends_split h g.data level s hnone
  refine ⟨?_, ?_, ?_, ?_, ?_⟩
  · intro id' slot' hslot' above side hparent
    rcases slots_split_cases h g.data level s hslot' with ⟨slot, hslot, rfl⟩ | ⟨-, side', -, rfl⟩
    · have hparent' : slot.parent = some (above, side) := by split at hparent <;> exact hparent
      obtain ⟨test, htest⟩ := hb.tested id' slot hslot above side hparent'
      exact ⟨test, hextends.test above test htest⟩
    · cases hparent
      exact ⟨s.test, test?_split_self h g.data level s⟩
  · intro id' slot' hslot'
    rcases slots_split_cases h g.data level s hslot' with ⟨slot, hslot, rfl⟩ | ⟨-, side', -, rfl⟩
    · split <;> exact hb.info id' slot hslot
    · rfl
  · intro id' slot' hslot'
    rcases slots_split_cases h g.data level s hslot' with ⟨slot, hslot, rfl⟩ | ⟨-, side', -, rfl⟩
    · rw [hextends.nodeAt_eq hb.tested hslot]
      split <;> exact hb.level id' slot hslot
    · rw [nodeAt_split h g.data level s hb.tested hnone hslot', Node.level_below, ← hlevel]
      rfl
  · intro id' hid'
    have hlength : (b.split g.data id level h s).arena.slots.length =
        b.arena.slots.length + s.sides.length := by
      simp [Builder.split, Arena.append, Arena.setTest]
    unfold Arena.test?
    rcases List.mem_append.1 hid' with hid' | hid'
    · obtain ⟨hlt, htest⟩ := hb.pending id' hid'
      have hne : id ≠ id' := fun heq => hid (heq ▸ hid')
      refine ⟨by omega, ?_⟩
      rw [slots_split_of_lt h g.data level s hlt]
      simpa [hne, Arena.test?] using htest
    · obtain ⟨i, hi, rfl⟩ := List.mem_range'.1 hid'
      refine ⟨by omega, ?_⟩
      rw [Nat.one_mul, slots_split_add, List.getElem?_eq_getElem hi]
      rfl
  · refine List.nodup_append.2 ⟨hb.nodup, List.nodup_range', ?_⟩
    intro id' hid' other hother heq
    have hlt := (hb.pending id' hid').1
    have hle := (List.mem_range'_1.1 hother).1
    omega

/-- A split puts its sides at the end of the queue.  The other nodes in the queue stay the same. -/
theorem Sound.exists_queue_split (hb : b.Sound g) (h : id < b.arena.slots.length)
    (hnone : b.arena.test? id = none) (level : Nat) (s : Split) :
    ∃ new, (b.split g.data id level h s).queue = b.queue ++ new ∧
      new.map (b.split g.data id level h s).arena.nodeAt =
        Grower.children (b.arena.nodeAt id) s ∧
      ∀ other ∈ b.queue,
        (b.split g.data id level h s).arena.nodeAt other = b.arena.nodeAt other := by
  refine ⟨_, rfl, ?_, fun other hother => ?_⟩
  · rw [Grower.children_eq]
    refine List.ext_getElem (by simp) fun i hi hi' => ?_
    have hside : i < s.sides.length := by simpa using hi'
    rw [List.getElem_map, List.getElem_map, List.getElem_range', Nat.one_mul]
    refine nodeAt_split h g.data level s hb.tested hnone ?_
    rw [slots_split_add, List.getElem?_eq_getElem hside]
    rfl
  · exact (extends_split h g.data level s hnone).nodeAt_eq hb.tested
      (List.getElem?_eq_getElem (hb.pending other hother).1)

/-! ### What a step does -/

theorem nodeAt_of_slot (hslot : b.arena.slots[id]? = some slot) : b.arena.nodeAt id =
    ⟨slot.examples, (b.arena.pathTests id).1, (b.arena.pathTests id).2⟩ := by
  unfold Arena.nodeAt
  rw [hslot]
  rfl

theorem expand_of_deepest (hslot : b.arena.slots[id]? = some slot) (hlevel : slot.level = depth) :
    b.expand g depth id = .ok (b.record (g.leafOf (b.arena.nodeAt id))) := by
  rw [nodeAt_of_slot hslot]
  unfold expand
  split
  · simp_all
  · rename_i slot' hslot'
    obtain rfl : slot' = slot := Option.some.inj (hslot'.symm.trans hslot)
    exact if_pos (.inl hlevel)

/-- Above the deepest level the builder looks for the best split. -/
theorem expand_of_above (hslot : b.arena.slots[id]? = some slot) (hlevel : slot.level ≠ depth)
    (hinfo : slot.info = g.data.variance slot.examples) :
    b.expand g depth id = g.bestAt (b.arena.nodeAt id) >>= fun best =>
      match best with
      | none => .ok (b.record (g.leafOf (b.arena.nodeAt id)))
      | some s => .ok (b.split g.data id slot.level (List.getElem?_eq_some_iff.1 hslot).1 s) := by
  rw [nodeAt_of_slot hslot]
  unfold expand
  split
  · simp_all
  · rename_i slot' hslot'
    obtain rfl : slot' = slot := Option.some.inj (hslot'.symm.trans hslot)
    unfold Grower.bestAt Grower.isPure
    dsimp only
    rw [← hinfo]
    by_cases hpure : Grower.roundsToZero slot'.info = true
    · rw [if_pos (.inr hpure), if_pos hpure]
      rfl
    · rw [if_neg (by simp [hlevel, hpure]), if_neg hpure]
      simp only [bind_assoc]
      rfl

/-! ### Runs -/

/-- A builder ends: the leaves of some nodes are recorded after those that were recorded before, or it
fails as the search for these nodes does. -/
def EndsWith (g : Grower) (depth : Nat) (b : Builder) (nodes : Except ProofError (List Node)) : Prop :=
  ∃ n, Repetition.within (next g depth) n b = some ((b.learned ++ ·.map g.leafOf) <$> nodes)

section Run

variable {queue : List Nat} {nodes : Except ProofError (List Node)}

theorem endsWith_nil (hqueue : b.queue = []) : b.EndsWith g depth (.ok []) := by
  refine ⟨1, ?_⟩
  simp [Repetition.within, next, hqueue, Functor.map, Except.map]

theorem endsWith_error (hqueue : b.queue = id :: queue) {e : ProofError}
    (h : { b with queue }.expand g depth id = .error e) : b.EndsWith g depth (.error e) := by
  refine ⟨1, ?_⟩
  rw [Repetition.within, next, hqueue]
  simp only [h]
  rfl

theorem EndsWith.of_split (hqueue : b.queue = id :: queue) {b' : Builder}
    (h : { b with queue }.expand g depth id = .ok b') (hlearned : b'.learned = b.learned)
    (hends : b'.EndsWith g depth nodes) : b.EndsWith g depth nodes := by
  obtain ⟨n, hn⟩ := hends
  refine ⟨n + 1, ?_⟩
  rw [Repetition.within, next, hqueue]
  simpa only [h, hlearned] using hn

theorem EndsWith.of_record (hqueue : b.queue = id :: queue) {node : Node}
    (h : { b with queue }.expand g depth id = .ok (record { b with queue } (g.leafOf node)))
    (hends : (record { b with queue } (g.leafOf node)).EndsWith g depth nodes) :
    b.EndsWith g depth ((node :: ·) <$> nodes) := by
  obtain ⟨n, hn⟩ := hends
  refine ⟨n + 1, ?_⟩
  rw [Repetition.within, next, hqueue]
  simp only [h, hn]
  cases nodes with
  | error e => rfl
  | ok nodes => simp [Builder.record, Functor.map, Except.map]

theorem Sound.record (hb : b.Sound g) (leaf : Leaf) : (b.record leaf).Sound g :=
  ⟨hb.tested, hb.info, hb.level, hb.pending, hb.nodup⟩

/-- A node is taken from the queue: it has no test yet, and is not in the queue again. -/
theorem Sound.pop (hb : b.Sound g) (hqueue : b.queue = id :: queue) :
    { b with queue }.Sound g ∧ id ∉ queue ∧ b.arena.test? id = none ∧
      ∃ slot : Slot, b.arena.slots[id]? = some slot := by
  have hpending : ∀ other ∈ id :: queue, _ := hqueue ▸ hb.pending
  obtain ⟨hid, hnodup⟩ := List.nodup_cons.1 (hqueue ▸ hb.nodup)
  obtain ⟨hlt, htest⟩ := hpending id (by simp)
  exact ⟨⟨hb.tested, hb.info, hb.level, fun other hother => hpending other (by simp [hother]),
    hnodup⟩, hid, htest, _, List.getElem?_eq_getElem hlt⟩

/-- At the deepest level all nodes in the queue are recorded. -/
theorem Sound.endsWith_deepest (hb : b.Sound g)
    (hlevel : ∀ id ∈ b.queue, (b.arena.nodeAt id).level = depth) :
    b.EndsWith g depth (.ok (b.queue.map b.arena.nodeAt)) := by
  generalize hqueue : b.queue = queue at hlevel
  induction queue generalizing b with
  | nil => exact endsWith_nil hqueue
  | cons id queue ih =>
      obtain ⟨hpop, -, -, slot, hslot⟩ := hb.pop hqueue
      have hdeepest : slot.level = depth := (hb.level id slot hslot).trans (hlevel id (by simp))
      exact .of_record hqueue (expand_of_deepest hslot hdeepest) (ih (hpop.record _) rfl
        fun other hother => hlevel other (List.mem_cons_of_mem _ hother))

end Run

end Builder

/-! ### Levels -/

namespace Grower

variable {g : Grower}

theorem grow_zero (nodes : List Node) : g.grow 0 nodes = .ok nodes := by cases nodes <;> rfl

/-- The leaves of a level whose nodes are partly looked at: of those that are left, and then of the
nodes below, some of which are known already. -/
def growRest (g : Grower) (k : Nat) (now later : List Node) : Except ProofError (List Node) :=
  g.expandAll now >>= fun level => (level.1 ++ ·) <$> g.grow k (later ++ level.2)

theorem growRest_nil_right (k : Nat) (now : List Node) : g.growRest k now [] = g.grow (k + 1) now := by
  cases now with
  | nil => cases k <;> rfl
  | cons node now => simp only [growRest, grow, map_eq_pure_bind, List.nil_append]

theorem growRest_nil_left (k : Nat) (later : List Node) : g.growRest k [] later = g.grow k later := by
  show ([] ++ ·) <$> g.grow k (later ++ []) = _
  rw [List.append_nil]
  exact id_map _

theorem growRest_cons (k : Nat) (node : Node) (now later : List Node) :
    g.growRest k (node :: now) later = g.bestAt node >>= fun best => match best with
      | none => (node :: ·) <$> g.growRest k now later
      | some s => g.growRest k now (later ++ children node s) := by
  unfold growRest
  rw [expandAll, expand_eq]
  cases g.bestAt node with
  | error e => rfl
  | ok best =>
      cases hlevel : g.expandAll now with
      | error e => cases best <;> rfl
      | ok level =>
          cases best with
          | none =>
              show _ = (node :: ·) <$> (level.1 ++ ·) <$> g.grow k (later ++ level.2)
              rw [Functor.map_map]
              rfl
          | some s =>
              show _ = (level.1 ++ ·) <$> g.grow k (later ++ children node s ++ level.2)
              rw [List.append_assoc]
              rfl

end Grower

namespace Builder

variable {g : Grower} {depth k : Nat} {b : Builder} {id : Nat}

/-- One level is looked at, if the levels below are looked at afterwards. -/
theorem Sound.endsWith_growRest (hnext : ∀ b : Builder, b.Sound g →
      (∀ id ∈ b.queue, (b.arena.nodeAt id).level + k = depth) →
      b.EndsWith g depth (g.grow k (b.queue.map b.arena.nodeAt)))
    (hb : b.Sound g) {now later : List Nat} (hqueue : b.queue = now ++ later)
    (hnow : ∀ id ∈ now, (b.arena.nodeAt id).level + (k + 1) = depth)
    (hlater : ∀ id ∈ later, (b.arena.nodeAt id).level + k = depth) :
    b.EndsWith g depth (g.growRest k (now.map b.arena.nodeAt) (later.map b.arena.nodeAt)) := by
  -- what is left of the level gets shorter, and a split makes the rest of the queue longer
  induction now generalizing b later with
  | nil =>
      have hends := hnext b hb (by simpa [hqueue] using hlater)
      rw [List.map_nil, Grower.growRest_nil_left]
      rwa [hqueue] at hends
  | cons id now ih =>
      have hqueue' : b.queue = id :: (now ++ later) := hqueue
      obtain ⟨hpop, hid, hnone, slot, hslot⟩ := hb.pop hqueue'
      have hlevel := hb.level id slot hslot
      have hlevel' := hnow id (by simp)
      have hrest := fun other hother => hnow other (List.mem_cons_of_mem id hother)
      have habove : slot.level ≠ depth := by omega
      have hexpand := expand_of_above (b := { b with queue := now ++ later }) hslot habove
        (hb.info id slot hslot)
      rw [List.map_cons, Grower.growRest_cons]
      cases hbest : g.bestAt (b.arena.nodeAt id) with
      | error e =>
          simp only [hbest] at hexpand
          exact endsWith_error hqueue' hexpand
      | ok best =>
          simp only [hbest] at hexpand
          cases best with
          | none => exact .of_record hqueue' hexpand (ih (hpop.record _) rfl hrest hlater)
          | some s =>
              have hlt := (List.getElem?_eq_some_iff.1 hslot).1
              obtain ⟨new, hsplit, hnew, hold⟩ := hpop.exists_queue_split hlt hnone slot.level s
              -- the numbers in the queue still stand for the same nodes
              have hnow_eq := List.map_congr_left fun other hother =>
                hold other (List.mem_append_left later hother)
              have hlater_eq := List.map_congr_left fun other hother =>
                hold other (List.mem_append_right now hother)
              refine .of_split hqueue' hexpand rfl ?_
              have hends := ih (hpop.split hlt hnone hid hlevel s)
                (hsplit.trans (List.append_assoc now later new)) (fun other hother => ?_)
                fun other hother => ?_
              · rwa [List.map_append, hnow_eq, hlater_eq, hnew] at hends
              · rw [hold other (List.mem_append_left later hother)]
                exact hrest other hother
              · rcases List.mem_append.1 hother with hother | hother
                · rw [hold other (List.mem_append_right now hother)]
                  exact hlater other hother
                · have hchild : _ = (b.arena.nodeAt id).level + 1 :=
                    Grower.level_of_mem_children (hnew ▸ List.mem_map_of_mem hother)
                  omega

/-- From every sound state the leaves of the queued nodes are recorded. -/
theorem Sound.endsWith_grow (hb : b.Sound g)
    (hlevel : ∀ id ∈ b.queue, (b.arena.nodeAt id).level + k = depth) :
    b.EndsWith g depth (g.grow k (b.queue.map b.arena.nodeAt)) := by
  induction k generalizing b with
  | zero =>
      rw [Grower.grow_zero]
      exact hb.endsWith_deepest hlevel
  | succ k ih =>
      rw [← Grower.growRest_nil_right]
      exact hb.endsWith_growRest (fun b hb => ih hb) (List.append_nil b.queue).symm hlevel nofun

/-! ### From the top -/

theorem slots_start (d : Dataset) : (start d).arena.slots[0]? =
    some ⟨none, d.examples, d.variance d.examples, 0, none⟩ := rfl

theorem nodeAt_start (d : Dataset) : (start d).arena.nodeAt 0 = .root d.examples := by
  rw [nodeAt_of_slot (slots_start d), Arena.pathTests_of_top (slots_start d) rfl]
  rfl

theorem sound_start (g : Grower) : (start g.data).Sound g := by
  have hslots : ∀ (id : Nat) (slot : Slot), (start g.data).arena.slots[id]? = some slot →
      id = 0 ∧ slot = ⟨none, g.data.examples, g.data.variance g.data.examples, 0, none⟩ := by
    intro id slot hslot
    have hid : id < 1 := (List.getElem?_eq_some_iff.1 hslot).1
    obtain rfl : id = 0 := by omega
    exact ⟨rfl, (Option.some.inj hslot).symm⟩
  refine ⟨?_, ?_, ?_, ?_, List.pairwise_singleton _ 0⟩
  · intro id slot hslot above side hparent
    obtain ⟨-, rfl⟩ := hslots id slot hslot
    cases hparent
  · intro id slot hslot
    obtain ⟨-, rfl⟩ := hslots id slot hslot
    rfl
  · intro id slot hslot
    obtain ⟨rfl, rfl⟩ := hslots id slot hslot
    rw [nodeAt_start]
    rfl
  · intro id hid
    obtain rfl := List.mem_singleton.1 hid
    exact ⟨Nat.zero_lt_one, rfl⟩

end Builder

/-- The builder always ends, with the tree that is grown. -/
theorem Dataset.buildTree_eq (d : Dataset) (config : TreeConfig) :
    d.buildTree config = some (d.learnTree config) := by
  unfold buildTree learnTree
  cases hg : d.grower config with
  | error e => rfl
  | ok g =>
      obtain rfl : g.data = d := data_of_grower hg
      have hlevel : ∀ id ∈ (Builder.start g.data).queue,
          ((Builder.start g.data).arena.nodeAt id).level + config.maxDepth = config.maxDepth := by
        intro id hid
        obtain rfl := List.mem_singleton.1 hid
        rw [Builder.nodeAt_start]
        exact Nat.zero_add _
      have hends := (Builder.sound_start g).endsWith_grow hlevel
      have hqueue : (Builder.start g.data).queue.map (Builder.start g.data).arena.nodeAt =
          [.root g.data.examples] := congrArg (fun node => [node]) (Builder.nodeAt_start g.data)
      rw [hqueue] at hends
      have hrun := Repetition.run?_eq_some_iff.2 hends
      simp only [hrun, Option.map_some, Functor.map_map]
      show _ = some (g.grow config.maxDepth [.root g.data.examples] >>= fun nodes => _)
      cases g.grow config.maxDepth [.root g.data.examples] <;> rfl

end ClauseForest
