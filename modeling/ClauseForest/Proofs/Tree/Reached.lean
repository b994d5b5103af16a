/-
**The nodes that a builder makes**

A builder goes from state to state, and every state has an arena of nodes.  Most of them are still
waiting in the queue, and a run may fail before it comes to them.  All of them are nodes of the tree
that is grown from its top: a step makes new nodes only when it splits one, and these are its
children, one level deeper.

Main definitions:

* `Builder.Reaches` — the states of a builder on its way;
* `Builder.MakesNodes` — what is made are nodes of the tree.

Main results:

* `Builder.next_cases` — what a step does;
* `Builder.Reaches.sound` — every state is sound;
* `Builder.Reaches.makesNodes` — **every node that is made is a node of the tree**.
-/

import ClauseForest.Proofs.Tree.Builder

set_option relaxedAutoImplicit false
set_option autoImplicit false

namespace ClauseForest.Builder

variable {g : Grower} {depth : Nat} {b b' : Builder} {id : Nat} {slot : Slot}

/-- The states of a builder on its way. -/
inductive Reaches (g : Grower) (depth : Nat) : Builder → Prop
  | start : Reaches g depth (.start g.data)
  | step {b b' : Builder} (h : Reaches g depth b) (hnext : b.next g depth = .inl b') :
      Reaches g depth b'

/-! ### Steps -/

/-- A step takes the first node from the queue.  It is recorded as a leaf, or split above the deepest
level by its best split. -/
theorem next_cases (hb : b.Sound g) (h : b.next g depth = .inl b') : ∃ id queue, b.queue = id :: queue ∧
    (b' = record { b with queue } (g.leafOf (b.arena.nodeAt id)) ∨
      ∃ (slot : Slot) (hslot : b.arena.slots[id]? = some slot) (s : Split), slot.level ≠ depth ∧
        g.bestAt (b.arena.nodeAt id) = .ok (some s) ∧
          b' = split { b with queue } g.data id slot.level (List.getElem?_eq_some_iff.1 hslot).1 s) := by
  cases hqueue : b.queue with
  | nil => simp [next, hqueue] at h
  | cons id queue =>
      obtain ⟨-, -, -, slot, hslot⟩ := hb.pop hqueue
      refine ⟨id, queue, rfl, ?_⟩
      have hexpand : expand g depth { b with queue } id = .ok b' := by
        rw [next, hqueue] at h
        dsimp only at h
        split at h <;> cases h
        assumption
      by_cases hlevel : slot.level = depth
      · rw [expand_of_deepest (b := { b with queue }) hslot hlevel] at hexpand
        exact .inl (Except.ok.inj hexpand).symm
      · rw [expand_of_above (b := { b with queue }) hslot hlevel (hb.info id slot hslot)] at hexpand
        obtain ⟨best, hbest, hexpand⟩ := bind_eq_ok_iff.1 hexpand
        cases best with
        | none => exact .inl (Except.ok.inj hexpand).symm
        | some s => exact .inr ⟨slot, hslot, s, hlevel, hbest, (Except.ok.inj hexpand).symm⟩

/-- A step keeps a builder sound. -/
theorem Sound.next (hb : b.Sound g) (h : b.next g depth = .inl b') : b'.Sound g := by
  obtain ⟨id, queue, hqueue, hcases⟩ := next_cases hb h
  obtain ⟨hpop, hid, hnone, -⟩ := hb.pop hqueue
  rcases hcases with rfl | ⟨slot, hslot, s, -, -, rfl⟩
  · exact hpop.record _
  · exact hpop.split _ hnone hid (hb.level id slot hslot) s

/-- Every node of the arena is a node of the tree that is grown from its top. -/
def MakesNodes (g : Grower) (depth : Nat) (b : Builder) : Prop :=
  ∀ (id : Nat) (slot : Slot), b.arena.slots[id]? = some slot →
    ∃ k, g.Visits depth (.root g.data.examples) k (b.arena.nodeAt id)

/-- The nodes that a split makes are children of the node that is split. -/
theorem MakesNodes.split (h : b.MakesNodes g depth) (hb : b.Sound g) (hnone : b.arena.test? id = none)
    (hslot : b.arena.slots[id]? = some slot) (hlevel : slot.level ≠ depth) {s : Split}
    (hbest : g.bestAt (b.arena.nodeAt id) = .ok (some s)) :
    (b.split g.data id slot.level (List.getElem?_eq_some_iff.1 hslot).1 s).MakesNodes g depth := by
  have hlt := (List.getElem?_eq_some_iff.1 hslot).1
  intro id' slot' hslot'
  rcases slots_split_cases hlt g.data slot.level s hslot' with ⟨old, hold, -⟩ | ⟨-, side, hside, rfl⟩
  · rw [(extends_split hlt g.data slot.level s hnone).nodeAt_eq hb.tested hold]
    exact h id' old hold
  · rw [nodeAt_split hlt g.data slot.level s hb.tested hnone hslot']
    obtain ⟨k, hvisits⟩ := h id slot hslot
    -- above the deepest level one more level may follow
    have hdepth : slot.level + k = 0 + depth := hb.level id slot hslot ▸ hvisits.level_add
    obtain ⟨k, rfl⟩ := Nat.exists_eq_succ_of_ne_zero (show k ≠ 0 by omega)
    have hexpand : g.expand (b.arena.nodeAt id) =
        .ok (some (Grower.children (b.arena.nodeAt id) s)) := by
      rw [Grower.expand_eq, hbest]
      rfl
    refine ⟨k, hvisits.child hexpand ?_⟩
    rw [Grower.children_eq]
    exact List.mem_map_of_mem hside

/-- A step makes nodes of the tree only. -/
theorem MakesNodes.next (h : b.MakesNodes g depth) (hb : b.Sound g)
    (hnext : b.next g depth = .inl b') : b'.MakesNodes g depth := by
  obtain ⟨id, queue, hqueue, hcases⟩ := next_cases hb hnext
  obtain ⟨hpop, -, hnone, -⟩ := hb.pop hqueue
  rcases hcases with rfl | ⟨slot, hslot, s, hlevel, hbest, rfl⟩
  · exact h
  · exact MakesNodes.split (b := { b with queue }) h hpop hnone hslot hlevel hbest

/-! ### Runs -/

namespace Reaches

/-- Every state of a builder is sound. -/
theorem sound (h : Reaches g depth b) : b.Sound g := by
  induction h with
  | start => exact sound_start g
  | step _ hnext ih => exact ih.next hnext

/-- Every node that is made is a node of the tree. -/
theorem makesNodes (h : Reaches g depth b) : b.MakesNodes g depth := by
  induction h with
  | start =>
      intro id slot hslot
      have hid : id < 1 := (List.getElem?_eq_some_iff.1 hslot).1
      obtain rfl : id = 0 := by omega
      exact ⟨depth, nodeAt_start g.data ▸ .top⟩
  | step hreaches hnext ih => exact ih.next hreaches.sound hnext

end Reaches

end ClauseForest.Builder
