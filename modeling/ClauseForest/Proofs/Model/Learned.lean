/-
**Learned models that are loaded**

Every tree of a boosting run is learned from the same declared background: only the values of the examples
change from one round to the next.  So all trees are read back from their leaf records.  Saved to a file with
their parameters and loaded again, they are the same trees under parameters that differ in the loss at most.
Predictions do not depend on the loss, but it must have a JSON form that is read as a number.

Main results:

* `Dataset.exists_learnTree_of_learn` — every tree of a boosting run is learned from the background;
* `Dataset.parse_records_of_learn` — **so it is read back from its leaf records**;
* `Loss.exists_reread?` — a loss whose bound is finite is read as a loss;
* `Model.load_of_readBytes` — what is loaded is what the text of the saved model is read as;
* `Model.load_of_saved` — **a model whose trees are read back is loaded**, but for its loss.
-/

import ClauseForest.Proofs.Dataset.History
import ClauseForest.Proofs.Json.Magnitude
import ClauseForest.Proofs.Model.Saving
import ClauseForest.Proofs.Tree.Named

set_option relaxedAutoImplicit false
set_option autoImplicit false

namespace ClauseForest

/-! ### Boosting runs -/

namespace Dataset

variable {d d' : Dataset} {config : BoostConfig} {trees : List LearnedTree}

/-- Every tree is one of those learned before, or learned from the background. -/
theorem exists_learnTree_of_learnMore {rounds : Nat} {earlier : List LearnedTree}
    (hd : d.HasBackground) (h : learnMore config rounds earlier d = (.ok trees, d')) :
    ∀ tree ∈ trees, tree ∈ earlier ∨
      ∃ before : Dataset, before.HasBackground ∧ before.learnTree config.tree = .ok tree := by
  induction rounds generalizing earlier d with
  | zero =>
      cases h
      exact fun tree htree => .inl htree
  | succ rounds ih =>
      obtain ⟨new, next, hnew, hupdate, hmore⟩ := exists_of_learnMore_succ h
      intro tree htree
      rcases ih ((sameProblem_of_updateGradients hupdate).hasBackground hd) hmore tree htree with
        hearlier | hlater
      · rcases List.mem_append.1 hearlier with hearlier | hlast
        · exact .inl hearlier
        · exact .inr ⟨d, hd, List.mem_singleton.1 hlast ▸ hnew⟩
      · exact .inr hlater

/-- Every tree of a boosting run is learned from the background. -/
theorem exists_learnTree_of_learn (hd : d.HasBackground) (h : (d.learn config).1 = .ok trees) :
    ∀ tree ∈ trees,
      ∃ before : Dataset, before.HasBackground ∧ before.learnTree config.tree = .ok tree :=
  fun tree htree =>
    (exists_learnTree_of_learnMore hd (Prod.ext h rfl) tree htree).resolve_left List.not_mem_nil

/-- Every tree of a boosting run is read back from its leaf records. -/
theorem parse_records_of_learn (hd : d.HasBackground) (h : (d.learn config).1 = .ok trees)
    (hreads : ∀ tree ∈ trees, ∀ leaf ∈ tree.leaves, Decimal.ReadsBack leaf.value) :
    ∀ tree ∈ trees, LearnedTree.parse tree.records = .ok tree := by
  intro tree htree
  obtain ⟨before, hbefore, hlearn⟩ := exists_learnTree_of_learn hd h tree htree
  exact parse_records_of_learnTree hbefore hlearn (hreads tree htree)

end Dataset

/-! ### Files -/

theorem fromUTF8?_toUTF8 (text : String) : String.fromUTF8? text.toUTF8 = some text := by
  unfold String.fromUTF8?
  exact dif_pos text.isValidUTF8

theorem FileTree.readText_of_readBytes {files : FileTree} {path text : String}
    (h : files.readBytes path = .ok text.toUTF8) : files.readText path = .ok text := by
  refine bind_eq_ok_iff.2 ⟨_, h, ?_⟩
  rw [fromUTF8?_toUTF8]
  rfl

/-- A loss whose bound is finite is read as a loss, perhaps with another bound. -/
theorem Loss.exists_reread? {loss : Loss} (h : ∀ delta, loss = .huber delta → delta.isFinite = true) :
    ∃ found, loss.reread? = some found := by
  cases loss with
  | leastSquares => exact ⟨_, rfl⟩
  | leastAbsoluteDeviation => exact ⟨_, rfl⟩
  | huber delta =>
      obtain ⟨found, hfound⟩ := Json.exists_float?_render (h delta rfl)
      refine ⟨.huber found, ?_⟩
      rw [reread?, if_pos (h delta rfl), hfound]
      rfl

namespace Model

variable {m : Model} {files : FileTree} {path : String}

/-- The bytes of the file of a model. -/
def bytes (m : Model) : ByteArray := m.render.toUTF8

/-- The files after a model was saved are those after its bytes were written. -/
theorem save_fst (m : Model) (files : FileTree) (path : String) :
    (m.save files path).1 = (files.write path m.bytes).1 := rfl

theorem readBytes_of_save {saved : FileTree} (h : m.save files path = (saved, none)) :
    saved.readBytes path = .ok m.bytes := by
  obtain ⟨rfl, hfault⟩ := Prod.mk.inj h
  have hwrite : files.write path m.bytes = ((files.write path m.bytes).1, none) :=
    Prod.ext rfl (Option.map_eq_none_iff.1 hfault)
  exact FileTree.readBytes_of_write hwrite

/-- What is loaded is what the text of the model is read as. -/
theorem load_of_readBytes (h : files.readBytes path = .ok m.bytes) :
    load files path = parse m.render := by
  unfold load
  rw [FileTree.readText_of_readBytes h]
  simp only [Except.mapError, bind, Except.bind]

/-- A model whose trees are read back and whose loss is read as a loss is loaded, with that loss. -/
theorem load_of_saved {loss : Loss} (h : files.readBytes path = .ok m.bytes)
    (hcounts : m.params.config.CountsFit) (hloss : m.params.config.loss.reread? = some loss)
    (htrees : ∀ tree ∈ m.trees, LearnedTree.parse tree.records = .ok tree) :
    load files path = .ok ⟨m.params.withLoss loss, m.trees⟩ := by
  rw [load_of_readBytes h, parse_render_eq_ok_iff, ofJson?_toJson hcounts]
  exact ⟨⟨loss, hloss, rfl⟩, List.forall₂_same.2 htrees⟩

end Model

end ClauseForest
