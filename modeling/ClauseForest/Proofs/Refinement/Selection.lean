/-
**Which literals are tried**

Several declarations may offer the same literal, and some literals are not wanted.  What is tried is
the sequence of all offers, of the first declaration first, in which only the first offer of a literal
counts and unwanted literals count for nothing.  It makes no difference whether unwanted literals are
left out before repetitions are, after them, or while the offers are gathered in one pass: an unwanted
literal never stands in the way of another one.

Main definitions:

* `LanguageBias.offers` — all offers of the declarations, with their repetitions;
* `LanguageBias.Offers` — a declaration offers a literal for a clause text.

Main results:

* `filter_eraseDups` — leaving out repetitions and leaving out some elements commute;
* `LanguageBias.gather_eq` — **gathering in one pass gives the candidates**;
* `LanguageBias.exists_candidates_eq` — **exactly what is tried, and in which order**.
-/

import ClauseForest.Proofs.Refinement.Candidates

set_option relaxedAutoImplicit false
set_option autoImplicit false

namespace ClauseForest

/-! ### Repetitions -/

theorem eraseDups_concat (tokens : List String) (token : String) : (tokens ++ [token]).eraseDups =
    if token ∈ tokens then tokens.eraseDups else tokens.eraseDups ++ [token] := by
  rw [List.eraseDups_append]
  split <;> simp [List.removeAll, List.eraseDups_cons, *]

/-- Leaving out repetitions and leaving out some elements commute. -/
theorem filter_eraseDups (p : String → Bool) (tokens : List String) :
    tokens.eraseDups.filter p = (tokens.filter p).eraseDups := by
  induction tokens using List.reverseRecOn with
  | nil => rfl
  | append_singleton tokens token ih =>
      rw [eraseDups_concat, List.filter_append]
      cases hp : p token with
      | false => split <;> simp [hp, ih]
      | true =>
          have hmem : token ∈ tokens.filter p ↔ token ∈ tokens := by simp [hp]
          rw [List.filter_cons_of_pos hp, List.filter_nil, eraseDups_concat]
          simp only [hmem]
          split <;> simp [hp, ih]

/-- What stands at different first places is different. -/
theorem nodup_of_pairwise_idxOf {tokens all : List String}
    (h : tokens.Pairwise fun a b => all.idxOf a < all.idxOf b) : tokens.Nodup := by
  refine h.imp fun {a b} hlt heq => ?_
  rw [heq] at hlt
  exact Nat.lt_irrefl _ hlt

namespace LanguageBias

variable (bias : LanguageBias) {text : String} {clause : Rule} (exclude : List String)

/-! ### One pass -/

/-- What is kept of some offers. -/
def kept (offers : List String) : List String := (offers.filter (· ∉ exclude)).eraseDups

/-- A literal that is looked at is kept if no offer before it was the same. -/
theorem keep_kept (offers : List String) (literal : String) :
    keep exclude (kept exclude offers) literal = kept exclude (offers ++ [literal]) := by
  unfold keep kept
  rw [List.filter_append]
  by_cases hexclude : literal ∈ exclude
  · simp [hexclude]
  · rw [List.filter_cons_of_pos (by simpa using hexclude), List.filter_nil, eraseDups_concat]
    simp only [List.mem_eraseDups, hexclude, not_false_eq_true, true_and, ite_not]

theorem foldl_keep (offers literals : List String) :
    literals.foldl (keep exclude) (kept exclude offers) = kept exclude (offers ++ literals) := by
  induction literals generalizing offers with
  | nil => rw [List.foldl_nil, List.append_nil]
  | cons literal literals ih =>
      rw [List.foldl_cons, keep_kept, ih, List.append_assoc, List.singleton_append]

/-- Gathering from some declarations on goes on from what was kept before. -/
theorem foldlM_keep (text : String) (offers : List String) (decls : List ModeDecl) :
    decls.foldlM (fun kept decl => do
        let literals ← bias.literalsOf decl.name decl.args text
        return literals.foldl (keep exclude) kept) (kept exclude offers) =
      (fun found => kept exclude (offers ++ found.flatten)) <$>
        decls.mapM fun decl => bias.literalsOf decl.name decl.args text := by
  induction decls generalizing offers with
  | nil => simp [List.foldlM_nil, List.mapM_nil]
  | cons decl decls ih =>
      rw [List.foldlM_cons, List.mapM_cons, bind_assoc, map_bind]
      refine bind_congr fun literals => ?_
      rw [pure_bind, foldl_keep, ih, map_bind]
      simp only [map_pure, List.flatten_cons, List.append_assoc, bind_pure_comp]

/-- Gathering in one pass gives the candidates. -/
theorem gather_eq (text : String) : bias.gather text exclude = bias.candidates text exclude := by
  have hpass := bias.foldlM_keep exclude text [] (bias.background.filter ModeDecl.isLiteral)
  exact hpass.trans (map_eq_pure_bind _ _)

/-! ### What is tried -/

/-- A declaration offers a literal for a clause text. -/
def Offers (text literal : String) : Prop :=
  ∃ decl ∈ bias.background, decl.isLiteral = true ∧
    ∃ literals, bias.literalsOf decl.name decl.args text = .ok literals ∧ literal ∈ literals

/-- All offers for a clause, of the first declaration first. -/
def offers (clause : Rule) : List String :=
  (bias.background.filter ModeDecl.isLiteral).flatMap fun decl =>
    bias.literalsFor decl.name decl.args clause

theorem candidates_eq (h : Rule.parseOpen text = .ok clause) :
    bias.candidates text exclude = .ok ((bias.offers clause).eraseDups.filter (· ∉ exclude)) := by
  rw [filter_eraseDups]
  exact bind_eq_ok_iff.2 ⟨_, bias.mapM_literalsOf h, rfl⟩

variable {bias} in
theorem mem_offers_iff (h : Rule.parseOpen text = .ok clause) {literal : String} :
    literal ∈ bias.offers clause ↔ bias.Offers text literal := by
  have hoffers : ∀ decl : ModeDecl, bias.literalsOf decl.name decl.args text =
      .ok (bias.literalsFor decl.name decl.args clause) :=
    fun decl => map_eq_ok_iff.2 ⟨clause, h, rfl⟩
  simp [offers, Offers, hoffers, and_assoc]

/-- **Exactly what is tried, and in which order.**  For a clause text that is read, a literal is tried
if and only if a declaration of literals offers it and it is not excluded.  No literal is tried twice,
and of two literals that are tried the one that is offered first comes first.  What is tried is what
would be tried without exclusions, less what is excluded, and it can be gathered in one pass. -/
theorem exists_candidates_eq (bias : LanguageBias) {text : String} {clause : Rule}
    (h : Rule.parseOpen text = .ok clause) (exclude : List String) :
    ∃ tried all, bias.candidates text exclude = .ok tried ∧ bias.candidates text [] = .ok all ∧
      bias.gather text exclude = .ok tried ∧ tried.Nodup ∧
      (∀ literal, literal ∈ tried ↔ bias.Offers text literal ∧ literal ∉ exclude) ∧
      (∃ found, (bias.background.filter ModeDecl.isLiteral).mapM
          (fun decl => bias.literalsOf decl.name decl.args text) = .ok found ∧
        tried.Pairwise fun a b => found.flatten.idxOf a < found.flatten.idxOf b) ∧
      tried = all.filter (· ∉ exclude) := by
  have htried := bias.candidates_eq exclude h
  have hall := bias.candidates_eq [] h
  have horder := (pairwise_idxOf_eraseDups (bias.offers clause)).filter
    fun literal => decide (literal ∉ exclude)
  refine ⟨_, _, htried, hall, (bias.gather_eq exclude text).trans htried,
    nodup_of_pairwise_idxOf horder, fun literal => ?_, ⟨_, bias.mapM_literalsOf h, horder⟩, by simp⟩
  rw [List.mem_filter, List.mem_eraseDups, mem_offers_iff h, decide_eq_true_iff]

/-- Two declarations of drinks, both of which list wine, and one of the target, which offers nothing. -/
def drinksBias : LanguageBias where
  background :=
    [⟨"drinks", [.typed (some .input) "person", .oneOf ["beer", "wine"]]⟩,
      ⟨"cancer", [.typed none "person"]⟩,
      ⟨"drinks", [.typed (some .input) "person", .oneOf ["wine", "tea", "beer"]]⟩]
  targetTypes := ⟨[("A", "person")]⟩

/-- The theorem at these declarations: every drink is tried once, where it is offered first, and the one
that is excluded is not. -/
theorem exists_candidates_eq_drinks :
    Rule.parseOpen "cancer(A):-" = .ok ⟨⟨"cancer", ["A"]⟩, []⟩ ∧
    drinksBias.candidates "cancer(A):-" [] =
      .ok ["drinks(A,beer)", "drinks(A,wine)", "drinks(A,tea)"] ∧
    drinksBias.candidates "cancer(A):-" ["drinks(A,beer)"] =
      .ok ["drinks(A,wine)", "drinks(A,tea)"] ∧
    drinksBias.gather "cancer(A):-" ["drinks(A,beer)"] = .ok ["drinks(A,wine)", "drinks(A,tea)"] ∧
    ["drinks(A,wine)", "drinks(A,tea)"].Nodup ∧
    (∀ literal, literal ∈ ["drinks(A,wine)", "drinks(A,tea)"] ↔
      drinksBias.Offers "cancer(A):-" literal ∧ literal ∉ ["drinks(A,beer)"]) ∧
    ∃ found, (drinksBias.background.filter ModeDecl.isLiteral).mapM
        (fun decl => drinksBias.literalsOf decl.name decl.args "cancer(A):-") = .ok found ∧
      ["drinks(A,wine)", "drinks(A,tea)"].Pairwise
        fun a b => found.flatten.idxOf a < found.flatten.idxOf b := by
  have hparse : Rule.parseOpen "cancer(A):-" = .ok ⟨⟨"cancer", ["A"]⟩, []⟩ := by decide +kernel
  have hdrinks : drinksBias.candidates "cancer(A):-" [] =
      .ok ["drinks(A,beer)", "drinks(A,wine)", "drinks(A,tea)"] := by decide +kernel
  obtain ⟨tried, all, htried, hall, hgather, hnodup, hmem, horder, heq⟩ :=
    exists_candidates_eq drinksBias hparse ["drinks(A,beer)"]
  obtain rfl : _ = all := Except.ok.inj (hdrinks.symm.trans hall)
  obtain rfl : tried = ["drinks(A,wine)", "drinks(A,tea)"] := heq.trans (by decide)
  exact ⟨hparse, hdrinks, htried, hgather, hnodup, hmem, horder⟩

end LanguageBias

end ClauseForest
