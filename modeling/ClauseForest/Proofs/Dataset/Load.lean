/-
**Data sets and their files**

A data set is read from the files of one directory.  So it is read again where these files are kept,
whatever else has changed.  A target that is learned is declared, so it has the name of a declaration: it
holds no slash, and the file of its model lies in the directory of the models, under a name that no file of
a data set has.

Main definitions:

* `Dataset.KeepsData` — the files of a directory that can be read are kept.

Main results:

* `Dataset.readTest_of_keepsData`, `Dataset.readTraining_of_keepsData` — **data are read again**;
* `Dataset.hasBackground_of_readTraining` — the background of what is learned is declared;
* `Dataset.isName_of_readTraining` — so is its target;
* `isName_modelFile`, `modelFile_injective`, `ne_modelFile` — the names of the files of models.
-/

import ClauseForest.Dataset.Load
import ClauseForest.Proofs.Dataset.Values
import ClauseForest.Proofs.Files.Keeping

set_option relaxedAutoImplicit false
set_option autoImplicit false

namespace ClauseForest

namespace Dataset

variable {files files' : FileTree} {dir target : String} {options : DataOptions} {d : Dataset}

/-! ### Reading again -/

/-- Every file of a directory that can be read has the same content in another tree. -/
def KeepsData (files files' : FileTree) (dir : String) : Prop :=
  ∀ name ∈ fileNames, ∀ content, files.readBytes (Path.join dir name) = .ok content →
    files'.readBytes (Path.join dir name) = .ok content

theorem readLines_of_keepsData (h : KeepsData files files' dir) {name : String} {lines : List String}
    (hname : name ∈ fileNames) (hread : readLines files dir name = .ok lines) :
    readLines files' dir name = .ok lines := by
  obtain ⟨text, htext, rfl⟩ := map_eq_ok_iff.1 (mapError_eq_ok_iff.1 hread)
  obtain ⟨content, hcontent, hdecode⟩ := bind_eq_ok_iff.1 htext
  refine mapError_eq_ok_iff.2 (map_eq_ok_iff.2 ⟨text, ?_, rfl⟩)
  exact bind_eq_ok_iff.2 ⟨content, h name hname content hcontent, hdecode⟩

/-- Test data are read again. -/
theorem readTest_of_keepsData (h : KeepsData files files' dir)
    (hread : readTest files dir target options = .ok d) :
    readTest files' dir target options = .ok d := by
  obtain ⟨facts, hfacts, hread⟩ := bind_eq_ok_iff.1 hread
  refine bind_eq_ok_iff.2 ⟨facts, readLines_of_keepsData h (by decide) hfacts, ?_⟩
  obtain ⟨rules, hrules, hread⟩ := bind_eq_ok_iff.1 hread
  refine bind_eq_ok_iff.2 ⟨rules, hrules, ?_⟩
  split at hread
  · rename_i hregression
    rw [if_pos hregression]
    obtain ⟨lines, hlines, hread⟩ := bind_eq_ok_iff.1 hread
    exact bind_eq_ok_iff.2 ⟨lines, readLines_of_keepsData h (by decide) hlines, hread⟩
  · rename_i hregression
    rw [if_neg hregression]
    obtain ⟨positives, hpositives, hread⟩ := bind_eq_ok_iff.1 hread
    refine bind_eq_ok_iff.2 ⟨positives, readLines_of_keepsData h (by decide) hpositives, ?_⟩
    obtain ⟨negatives, hnegatives, hread⟩ := bind_eq_ok_iff.1 hread
    exact bind_eq_ok_iff.2 ⟨negatives, readLines_of_keepsData h (by decide) hnegatives, hread⟩

/-- The parts of training data. -/
theorem readTraining_eq_ok_iff : readTraining files dir target options = .ok d ↔
    ∃ before lines background declared, readTest files dir target options = .ok before ∧
      readLines files dir "bk.txt" = .ok lines ∧ lines.mapM readDecl = .ok background ∧
      orFault (before.setBackground target background) = .ok declared ∧
      (if options.advice then do
          let advice ← (← readLines files dir "advice.txt").mapM Advice.parse
          return advice.foldl addAdvice declared
        else return declared) = .ok d := by
  unfold readTraining
  simp only [bind_eq_ok_iff]
  constructor
  · rintro ⟨before, hbefore, lines, hlines, background, hbackground, declared, hdeclared, hadvice⟩
    exact ⟨before, lines, background, declared, hbefore, hlines, hbackground, hdeclared, hadvice⟩
  · rintro ⟨before, lines, background, declared, hbefore, hlines, hbackground, hdeclared, hadvice⟩
    exact ⟨before, hbefore, lines, hlines, background, hbackground, declared, hdeclared, hadvice⟩

/-- Training data are read again. -/
theorem readTraining_of_keepsData (h : KeepsData files files' dir)
    (hread : readTraining files dir target options = .ok d) :
    readTraining files' dir target options = .ok d := by
  obtain ⟨before, lines, background, declared, hbefore, hlines, hbackground, hdeclared, hadvice⟩ :=
    readTraining_eq_ok_iff.1 hread
  refine readTraining_eq_ok_iff.2 ⟨before, lines, background, declared, readTest_of_keepsData h hbefore,
    readLines_of_keepsData h (by decide) hlines, hbackground, hdeclared, ?_⟩
  split at hadvice
  · rename_i huses
    rw [if_pos huses]
    obtain ⟨texts, htexts, hadvice⟩ := bind_eq_ok_iff.1 hadvice
    exact bind_eq_ok_iff.2 ⟨texts, readLines_of_keepsData h (by decide) htexts, hadvice⟩
  · rename_i huses
    rw [if_neg huses]
    exact hadvice

/-! ### Declared targets -/

theorem readDecl_eq_ok_iff {line : String} {decl : ModeDecl} :
    readDecl line = .ok decl ↔ ModeDecl.parse line = .ok decl := mapError_eq_ok_iff

theorem orFault_eq_ok_iff {result : Dataset × Option DataError} :
    orFault result = .ok d ↔ result = (d, none) := by
  obtain ⟨d', fault⟩ := result
  cases fault <;> simp [orFault]

/-- Advice leaves the background alone. -/
theorem HasBackground.foldl_addAdvice (h : d.HasBackground) (advice : List Advice) :
    (advice.foldl addAdvice d).HasBackground := by
  induction advice generalizing d with
  | nil => exact h
  | cons first advice ih =>
      obtain ⟨before, target, background, hread, hfault, htarget, hliterals, htypes⟩ := h
      exact ih ⟨before, target, background, hread, hfault, htarget, hliterals, htypes⟩

/-- What is learned from has a declared background. -/
theorem hasBackground_of_readTraining (h : readTraining files dir target options = .ok d) :
    d.HasBackground := by
  obtain ⟨before, lines, background, declared, -, -, hbackground, hdeclared, hadvice⟩ :=
    readTraining_eq_ok_iff.1 h
  have hset := orFault_eq_ok_iff.1 hdeclared
  have hread : ∀ decl ∈ background, decl.IsRead := by
    intro decl hdecl
    obtain ⟨line, -, hline⟩ := exists_of_mem_mapM hbackground hdecl
    exact ⟨line, .inl (readDecl_eq_ok_iff.1 hline)⟩
  have hdeclared : declared.HasBackground :=
    ⟨before, target, background, hread, by rw [hset], by rw [hset], by rw [hset], by rw [hset]⟩
  split at hadvice
  · obtain ⟨texts, -, hadvice⟩ := bind_eq_ok_iff.1 hadvice
    obtain ⟨advice, -, hadvice⟩ := bind_eq_ok_iff.1 hadvice
    cases hadvice
    exact hdeclared.foldl_addAdvice advice
  · cases hadvice
    exact hdeclared

/-- What is learned has the name of a declaration. -/
theorem isName_of_readTraining (h : readTraining files dir target options = .ok d) :
    isName target = true := by
  obtain ⟨before, lines, background, declared, -, -, hbackground, hdeclared, -⟩ :=
    readTraining_eq_ok_iff.1 h
  have hset := orFault_eq_ok_iff.1 hdeclared
  unfold setBackground at hset
  cases hfind : background.find? (·.name = target) with
  | none =>
      rw [hfind] at hset
      cases hset
  | some decl =>
      have hname : decl.name = target := by simpa using List.find?_some hfind
      obtain ⟨line, -, hline⟩ := exists_of_mem_mapM hbackground (List.mem_of_find?_eq_some hfind)
      rw [← hname]
      exact (ModeDecl.wellFormed_of_isRead ⟨line, .inl (readDecl_eq_ok_iff.1 hline)⟩).name

end Dataset

/-! ### Files of models -/

/-- The name of the file of the model of a target. -/
def modelFile (target : String) : String := target ++ ".json"

theorem toList_modelFile (target : String) :
    (modelFile target).toList = target.toList ++ ['.', 'j', 's', 'o', 'n'] := by
  simp [modelFile]

theorem length_modelFile (target : String) : 5 ≤ (modelFile target).toList.length := by
  rw [toList_modelFile, List.length_append]
  exact Nat.le_add_left 5 _

/-- The model of a target with a name has a file in the directory of the models. -/
theorem isName_modelFile {target : String} (h : isName target = true) :
    Path.IsName (modelFile target) where
  not_mem := by
    rw [toList_modelFile]
    intro hmem
    rcases List.mem_append.1 hmem with hmem | hmem
    · exact absurd (continuesName_of_isName h '/' hmem) (by decide)
    · exact absurd hmem (by decide)
  ne_empty heq := absurd (length_modelFile target) (by rw [heq]; decide)
  ne_here heq := absurd (length_modelFile target) (by rw [heq]; decide)
  ne_above heq := absurd (length_modelFile target) (by rw [heq]; decide)

/-- Different targets have different files. -/
theorem modelFile_injective {target other : String} (h : modelFile target = modelFile other) :
    target = other := by
  have htext := congrArg String.toList h
  rw [toList_modelFile, toList_modelFile] at htext
  exact String.toList_injective (List.append_cancel_right htext)

/-- No file of a data set is the file of a model. -/
theorem ne_modelFile {name : String} (hname : name ∈ Dataset.fileNames) (target : String) :
    name ≠ modelFile target := by
  rintro rfl
  have hlast : (modelFile target).toList.getLast? = some 'n' := by simp [toList_modelFile]
  have hall : ∀ name ∈ Dataset.fileNames, name.toList.getLast? ≠ some 'n' := by decide
  exact hall _ hname hlast

theorem isName_of_mem_fileNames {name : String} (h : name ∈ Dataset.fileNames) :
    Path.IsName name := by
  have hall : ∀ name ∈ Dataset.fileNames,
      '/' ∉ name.toList ∧ name ≠ "" ∧ name ≠ "." ∧ name ≠ ".." := by decide
  obtain ⟨hslash, hempty, hhere, habove⟩ := hall name h
  exact ⟨hslash, hempty, hhere, habove⟩

namespace FileTree

variable {files : FileTree} {dir target : String} {content : ByteArray}

/-- Data are kept when a model is saved, whether this succeeds or not. -/
theorem keepsData_write (files : FileTree) (dir models : String) (htarget : isName target = true)
    (content : ByteArray) :
    Dataset.KeepsData files (files.write (Path.join models (modelFile target)) content).1 dir :=
  fun _ hname _ hread => readBytes_write_of_ne (isName_of_mem_fileNames hname)
    (isName_modelFile htarget) (ne_modelFile hname target) hread

end FileTree

end ClauseForest
