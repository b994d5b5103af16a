/-
**Models that are saved and read back**

A model is saved as nested records, each with all of its fields.  So nothing is missing when the records are
read, and no default is taken.  What can be lost on the way is in the numbers and in the trees.  A Huber loss
whose bound is not finite has no JSON form, and the model is refused.  A tree is saved as its leaf records, so
it is read back if its leaves are.

Main definitions:

* `Model.CountsFit` — the counts of a model are numbers of 64 bits;
* `Loss.reread?` — what is read for a saved loss;
* `Model.Survives` — **the models that survive**.

Main results:

* `Json.fields?_ofMembers` — the fields of a saved record;
* `Model.isWritten_toJson` — a model is printed as it is;
* `Model.ofJson?_toJson` — what is read for a saved model;
* `Model.parse_render_iff` — **exactly the models that survive are read back**.
-/

import ClauseForest.Model.Reader
import ClauseForest.Proofs.Json.Document
import ClauseForest.Proofs.Refinement.Types
import ClauseForest.Proofs.Tree.Records
import Mathlib.Data.List.Nodup

set_option relaxedAutoImplicit false
set_option autoImplicit false

namespace ClauseForest

/-! ### Records -/

namespace Json

theorem areWrittenMembers_iff {members : List (Option String × Json)} : AreWrittenMembers members ↔
    ∀ member ∈ members, member.1.isSome = true ∧ member.2.IsWritten := by
  induction members with
  | nil => simp [AreWrittenMembers]
  | cons member members ih => simp [AreWrittenMembers, ih, and_assoc]

theorem areWrittenItems_iff {items : List Json} :
    AreWrittenItems items ↔ ∀ item ∈ items, item.IsWritten := by
  induction items with
  | nil => simp [AreWrittenItems]
  | cons item items ih => simp [AreWrittenItems, ih]

@[simp] theorem isWritten_ofMembers {members : List (String × Json)} :
    (ofMembers members).IsWritten ↔ ∀ member ∈ members, member.2.IsWritten := by
  rw [ofMembers, IsWritten, areWrittenMembers_iff, List.forall_mem_map]
  simp

@[simp] theorem isWritten_array {items : List Json} :
    (Json.array items).IsWritten ↔ ∀ item ∈ items, item.IsWritten := by
  rw [IsWritten, areWrittenItems_iff]

@[simp] theorem isWritten_ofString (s : String) : (ofString s).IsWritten := by
  simp [ofString, IsWritten]

@[simp] theorem isWritten_ofNat (n : Nat) : (ofNat n).IsWritten := by
  rw [ofNat, IsWritten]
  exact isLiteral_toDigits n

@[simp] theorem isWritten_bool (b : Bool) : (Json.bool b).IsWritten := by simp [IsWritten]

@[simp] theorem isWritten_null : Json.null.IsWritten := by simp [IsWritten]

@[simp] theorem isWritten_ofFloat (x : Float) : (ofFloat x).IsWritten := by
  unfold ofFloat
  split
  · rename_i hfinite
    rw [IsWritten]
    exact isLiteral_render _ hfinite
  · exact isWritten_null

/-- The fields of a record that is saved with all of them. -/
theorem fields?_ofMembers {names : List String} {members : List (String × Json)}
    (hnames : members.map Prod.fst = names) (h : names.Nodup) :
    fields? names (ofMembers members) = some (members.map fun member => some member.2) := by
  subst hnames
  have honce : ((members.map Prod.fst).all fun name =>
      (members.filter fun member => member.1 = name).length ≤ 1) = true := by
    refine List.all_eq_true.2 fun name _ => decide_eq_true ?_
    have hcount := List.nodup_iff_count_le_one.1 h name
    rw [List.count, List.countP_map, List.countP_eq_length_filter] at hcount
    refine le_trans (le_of_eq (congrArg _ (List.filter_congr fun member _ => ?_))) hcount
    exact (beq_eq_decide _ _).symm
  have hfields : (members.map Prod.fst).map (fun name => members.lookup name) =
      members.map fun member => some member.2 := by
    rw [List.map_map]
    exact List.map_congr_left fun member hmember => lookup_of_nodup h hmember
  refine Option.bind_eq_some_iff.2 ⟨members, mapM_eq_some_iff.2 ?_, ?_⟩
  · exact List.forall₂_map_left_iff.2 (List.forall₂_same.2 fun _ _ => rfl)
  · rw [if_pos honce, hfields]
    rfl

/-! ### Fields -/

theorem asCount?_ofNat {n : Nat} (h : n ≤ maxCount) : (ofNat n).asCount? = some n := count?_toDigits h

theorem asLimit?_limit {limit : Option Nat} (h : ∀ n, limit = some n → n ≤ maxCount) :
    ((limit.map ofNat).getD .null).asLimit? = some limit := by
  cases limit with
  | none => rfl
  | some n =>
      show some <$> (ofNat n).asCount? = some (some n)
      rw [asCount?_ofNat (h n rfl)]
      rfl

end Json

/-! ### Parameters -/

open Json

theorem DataOptions.ofJson?_toJson (options : DataOptions) : ofJson? options.toJson = some options := by
  rw [ofJson?, toJson, fields?_ofMembers]
  · rfl
  · rfl
  · simp

/-- The counts among the parameters of a tree are numbers of 64 bits. -/
def TreeConfig.CountsFit (config : TreeConfig) : Prop :=
  config.maxDepth ≤ maxCount ∧ ∀ limit, config.stepLimit = some limit → limit ≤ maxCount

theorem TreeConfig.ofJson?_toJson {config : TreeConfig} (h : config.CountsFit) :
    ofJson? config.toJson = some config := by
  rw [ofJson?, toJson, fields?_ofMembers]
  · show ((ofNat config.maxDepth).asCount?.bind fun depth =>
      (((config.stepLimit.map ofNat).getD .null).asLimit?).bind fun limit =>
        some (TreeConfig.mk depth config.parallel limit)) = some config
    rw [asCount?_ofNat h.1, asLimit?_limit h.2]
    rfl
  · rfl
  · simp

/-- What is read for a saved loss: a bound that is not finite has no JSON form. -/
def Loss.reread? : Loss → Option Loss
  | .huber delta =>
    if delta.isFinite then .huber <$> float? (Decimal.Layout.json.render delta).toList else none
  | loss => some loss

theorem Loss.ofSoundJson?_number (literal : List Char) :
    ofSoundJson? (.ofMembers [("kind", .ofString "huber"), ("delta", .number literal)]) =
      .huber <$> float? literal := by
  cases hread : float? literal with
  | none => simp [ofSoundJson?, ofMembers, isSound, areSoundMembers, hread]
  | some delta =>
      have hsound : (ofMembers [("kind", ofString "huber"), ("delta", .number literal)]).isSound =
          true := by
        simp [ofMembers, isSound, areSoundMembers, ofString, hread]
      rw [ofSoundJson?, hsound]
      show ((float? literal).bind fun delta => some (huber delta)) = _
      rw [hread]
      rfl

theorem Loss.ofSoundJson?_toJson (loss : Loss) : ofSoundJson? loss.toJson = loss.reread? := by
  cases loss with
  | leastSquares => rfl
  | leastAbsoluteDeviation => rfl
  | huber delta =>
      rw [toJson, reread?, ofFloat]
      split
      · exact ofSoundJson?_number _
      · rfl

/-- The counts among the parameters of a boosting run are numbers of 64 bits. -/
def BoostConfig.CountsFit (config : BoostConfig) : Prop :=
  config.trees ≤ maxCount ∧ config.tree.CountsFit

theorem BoostConfig.ofJson?_toJson {config : BoostConfig} (h : config.CountsFit) :
    ofJson? config.toJson = config.loss.reread?.map fun loss => { config with loss } := by
  rw [ofJson?, toJson, fields?_ofMembers]
  · show ((ofNat config.trees).asCount?.bind fun trees =>
      (Loss.ofSoundJson? config.loss.toJson).bind fun loss =>
        (TreeConfig.ofJson? config.tree.toJson).bind fun tree =>
          some (BoostConfig.mk trees loss tree)) = _
    rw [asCount?_ofNat h.1, Loss.ofSoundJson?_toJson, TreeConfig.ofJson?_toJson h.2]
    cases config.loss.reread? <;> rfl
  · rfl
  · simp

/-- The parameters of a model learned with another loss. -/
def ModelParams.withLoss (params : ModelParams) (loss : Loss) : ModelParams :=
  { params with config := { params.config with loss } }

theorem ModelParams.ofJson?_toJson {params : ModelParams} (h : params.config.CountsFit) :
    ofJson? params.toJson = params.config.loss.reread?.map params.withLoss := by
  rw [ofJson?, toJson, fields?_ofMembers]
  · show ((DataOptions.ofJson? params.options.toJson).bind fun options =>
      (BoostConfig.ofJson? params.config.toJson).bind fun config =>
        some (ModelParams.mk params.target options config)) = _
    rw [DataOptions.ofJson?_toJson, BoostConfig.ofJson?_toJson h]
    cases params.config.loss.reread? <;> rfl
  · rfl
  · simp

/-! ### Models -/

theorem LearnedTree.ofJson?_toJson (tree : LearnedTree) :
    ofJson? tree.toJson = (parse tree.records).toOption := by
  have hrecords : (tree.records.map ofString).mapM asString? = some tree.records :=
    mapM_eq_some_iff.2 (List.forall₂_map_left_iff.2 (List.forall₂_same.2 fun _ _ => rfl))
  show ((tree.records.map ofString).mapM asString?).bind _ = _
  rw [hrecords]
  rfl

namespace Model

variable {m found : Model}

/-- What is read for a saved model: its loss and its trees are read again, everything else is as it was. -/
theorem ofJson?_toJson (h : m.params.config.CountsFit) : ofJson? m.toJson = some found ↔
    (∃ loss, m.params.config.loss.reread? = some loss ∧ found.params = m.params.withLoss loss) ∧
      List.Forall₂ (fun tree tree' => LearnedTree.parse tree.records = .ok tree') m.trees
        found.trees := by
  have htrees : ∀ trees, (m.trees.map LearnedTree.toJson).mapM LearnedTree.ofJson? = some trees ↔
      List.Forall₂ (fun tree tree' => LearnedTree.parse tree.records = .ok tree') m.trees trees := by
    intro trees
    simp only [mapM_eq_some_iff, List.forall₂_map_left_iff, LearnedTree.ofJson?_toJson,
      toOption_eq_some_iff]
  rw [ofJson?, toJson, fields?_ofMembers]
  · show ((ModelParams.ofJson? m.params.toJson).bind fun params =>
      ((m.trees.map LearnedTree.toJson).mapM LearnedTree.ofJson?).bind fun trees =>
        some (Model.mk params trees)) = _ ↔ _
    rw [ModelParams.ofJson?_toJson h, ← htrees]
    obtain ⟨params, trees⟩ := found
    simp only [Option.bind_eq_some_iff, Option.map_eq_some_iff]
    constructor
    · rintro ⟨params', ⟨loss, hloss, hparams⟩, trees', hread, heq⟩
      cases heq
      exact ⟨⟨loss, hloss, hparams.symm⟩, hread⟩
    · rintro ⟨⟨loss, hloss, hparams⟩, hread⟩
      exact ⟨params, ⟨loss, hloss, hparams.symm⟩, trees, hread, rfl⟩
  · rfl
  · simp

/-- A model is printed as it is. -/
theorem isWritten_toJson (m : Model) : m.toJson.IsWritten := by
  have hloss : m.params.config.loss.toJson.IsWritten := by
    cases m.params.config.loss <;> simp [Loss.toJson]
  have hlimit : ((m.params.config.tree.stepLimit.map Json.ofNat).getD .null).IsWritten := by
    cases m.params.config.tree.stepLimit <;> simp
  have htrees : ∀ tree ∈ m.trees, tree.toJson.IsWritten := by
    intro tree _
    simp [LearnedTree.toJson]
  simpa [toJson, ModelParams.toJson, DataOptions.toJson, BoostConfig.toJson, TreeConfig.toJson] using
    ⟨⟨hloss, hlimit⟩, htrees⟩

theorem parse_render_eq_ok_iff : parse m.render = .ok found ↔ ofJson? m.toJson = some found := by
  rw [parse, render, Json.parse_render m.isWritten_toJson, Option.bind_some]
  cases ofJson? m.toJson with
  | none =>
      dsimp only
      split <;> simp
  | some m' => simp

/-- Models are equal if their parameters are and their trees are, one by one. -/
theorem beq_iff : (found == m) = true ↔ (found.params == m.params) = true ∧
    List.Forall₂ (fun tree tree' => (tree == tree') = true) found.trees m.trees := by
  obtain ⟨params, trees⟩ := found
  obtain ⟨params', trees'⟩ := m
  show (params == params' && trees == trees') = true ↔ _
  rw [Bool.and_eq_true, list_beq_iff]

/-- The models that survive: the bound of the loss is finite, and every leaf survives. -/
structure Survives (m : Model) : Prop where
  bound : ∀ delta, m.params.config.loss = .huber delta → delta.isFinite = true
  leaves : ∀ tree ∈ m.trees, ∀ leaf ∈ tree.leaves, leaf.Survives

end Model

/-- Parameters that differ in their loss only are equal if the losses are. -/
theorem ModelParams.withLoss_beq_iff {params : ModelParams} {loss : Loss} :
    (params.withLoss loss == params) = true ↔ (loss == params.config.loss) = true := by
  obtain ⟨target, options, trees, loss', tree⟩ := params
  show (target == target && (options == options && (trees == trees && (loss == loss' &&
    tree == tree)))) = true ↔ _
  simp

/-- A loss is read back if its bound is finite. -/
theorem Loss.reread?_iff {loss : Loss} (h : ∀ delta, loss = .huber delta → delta.isFinite = true →
      Json.float? (Decimal.Layout.json.render delta).toList = some delta) :
    (∃ found, loss.reread? = some found ∧ (found == loss) = true) ↔
      ∀ delta, loss = .huber delta → delta.isFinite = true := by
  cases loss with
  | leastSquares => exact ⟨fun _ => nofun, fun _ => ⟨.leastSquares, rfl, rfl⟩⟩
  | leastAbsoluteDeviation =>
      exact ⟨fun _ => nofun, fun _ => ⟨.leastAbsoluteDeviation, rfl, rfl⟩⟩
  | huber delta =>
      rw [reread?]
      constructor
      · rintro ⟨found, hfound, -⟩ delta' hdelta
        cases hdelta
        by_contra hinfinite
        rw [if_neg hinfinite] at hfound
        cases hfound
      · intro hfinite
        have hfinite := hfinite delta rfl
        rw [if_pos hfinite, h delta rfl hfinite]
        exact ⟨.huber delta, rfl, Decimal.beq_self_iff.2 (Decimal.isNaN_of_isFinite hfinite)⟩

namespace Model

/-- **Exactly the models that survive are read back.**  If the numbers in a model are read back where they
have a written form, a model is read back from its text if and only if the bound of its loss is finite and
all of its leaves survive: the value is a number, the rule is read back from its own text, and the record
does not begin with a blank.  These are also exactly the leaves that are read back from their records. -/
theorem parse_render_iff (m : Model) (hcounts : m.params.config.CountsFit)
    (hvalues : ∀ tree ∈ m.trees, ∀ leaf ∈ tree.leaves,
      leaf.value.isNaN = false → Decimal.ReadsBack leaf.value)
    (hbound : ∀ delta, m.params.config.loss = .huber delta → delta.isFinite = true →
      Json.float? (Decimal.Layout.json.render delta).toList = some delta) :
    ((∃ found, parse m.render = .ok found ∧ (found == m) = true) ↔ m.Survives) ∧
      ∀ leaf : Leaf, (leaf.value.isNaN = false → Decimal.ReadsBack leaf.value) →
        ((∃ found, Leaf.parse leaf.render = .ok found ∧ (found == leaf) = true) ↔ leaf.Survives) := by
  refine ⟨?_, Leaf.exists_parse_render_iff⟩
  have htrees : (∃ trees, List.Forall₂ (fun tree tree' => LearnedTree.parse tree.records = .ok tree')
        m.trees trees ∧ List.Forall₂ (fun tree tree' => (tree == tree') = true) trees m.trees) ↔
      ∀ tree ∈ m.trees, ∀ leaf ∈ tree.leaves, leaf.Survives :=
    exists_forall₂_and_iff.trans
      (forall₂_congr fun tree htree => LearnedTree.parse_records_iff (hvalues tree htree))
  have hloss := Loss.reread?_iff hbound
  constructor
  · rintro ⟨found, hfound, heq⟩
    obtain ⟨⟨loss, hread, hparams⟩, hparsed⟩ :=
      (ofJson?_toJson hcounts).1 (parse_render_eq_ok_iff.1 hfound)
    obtain ⟨hparamsEq, htreesEq⟩ := beq_iff.1 heq
    rw [hparams, ModelParams.withLoss_beq_iff] at hparamsEq
    exact ⟨hloss.1 ⟨loss, hread, hparamsEq⟩, htrees.1 ⟨found.trees, hparsed, htreesEq⟩⟩
  · intro h
    obtain ⟨loss, hread, hlossEq⟩ := hloss.2 h.bound
    obtain ⟨trees, hparsed, htreesEq⟩ := htrees.2 h.leaves
    refine ⟨⟨m.params.withLoss loss, trees⟩, ?_, ?_⟩
    · exact parse_render_eq_ok_iff.2 ((ofJson?_toJson hcounts).2 ⟨⟨loss, hread, rfl⟩, hparsed⟩)
    · exact beq_iff.2 ⟨ModelParams.withLoss_beq_iff.2 hlossEq, htreesEq⟩

/-- A model with a tree of two leaves, learned with a Huber loss and a limit. -/
def sizes : Model :=
  ⟨⟨"size", ⟨true, false⟩, ⟨1, .huber 1.5, ⟨2, false, some 20⟩⟩⟩,
    [⟨[⟨⟨⟨"size", ["A"]⟩, [⟨"tall", ["A"]⟩]⟩, 1.75⟩, ⟨.fact ⟨"size", ["A"]⟩, -0.5⟩]⟩]⟩

/-- The theorem for the model of sizes, which survives. -/
theorem parse_render_iff_sizes :
    sizes.params.config.CountsFit ∧ sizes.Survives ∧
      ∃ found, parse sizes.render = .ok found ∧ (found == sizes) = true := by
  have hcounts : sizes.params.config.CountsFit := by
    refine ⟨by decide, by decide, ?_⟩
    rintro limit ⟨rfl⟩
    decide
  have hsurvives : sizes.Survives := by
    constructor
    · rintro delta ⟨rfl⟩
      decide +kernel
    · intro tree htree leaf hleaf
      obtain rfl := List.mem_singleton.1 htree
      rcases List.mem_pair.1 hleaf with rfl | rfl <;>
        exact ⟨by decide +kernel, by decide +kernel, by decide +kernel⟩
  have hiff := parse_render_iff sizes hcounts (by decide +kernel) (by
    rintro delta ⟨rfl⟩ _
    decide +kernel)
  exact ⟨hcounts, hsurvives, hiff.1.2 hsurvives⟩

end Model

end ClauseForest
