/-
**Files that are kept**

Writing a file makes the directories on the way to it, where nothing stood, and puts the file at the end of
its way.  No way to another file leads through a place where nothing or a file stands.  So every other file
is still found where it was, whether the writing succeeds or not.

Files with different names are different files, whatever directories they are looked for in: the last name
on the way to a file is its own.

Main definitions:

* `FileTree.Holds` — a path leads to a file;
* `FileTree.IsOpen` — a way with no file before its end;
* `Path.IsName` — a name that leads to an entry of a directory.

Main results:

* `FileTree.Holds.put`, `FileTree.Holds.makeDirectories` — files that are kept;
* `Path.names_join` — the last name on the way to a file in a directory;
* `FileTree.write_cases` — what comes of writing a file;
* `FileTree.readBytes_write_of_ne` — **a file with another name is kept**;
* `FileTree.readBytes_write_same` — a file that is written again as it was is kept.
-/

import ClauseForest.Files.FileTree
import ClauseForest.Proofs.Outcome

set_option relaxedAutoImplicit false
set_option autoImplicit false

namespace ClauseForest

/-! ### Names -/

/-- A text is cut last at the last separator in it. -/
theorem Text.exists_pieces_append {sep : Char} (front : List Char) {back : List Char}
    (h : sep ∉ back) : ∃ parts, parts ≠ [] ∧ pieces sep (front ++ sep :: back) = parts ++ [back] := by
  induction front with
  | nil => exact ⟨[[]], by simp, by simp [pieces_of_not_mem h]⟩
  | cons c front ih =>
      obtain ⟨parts, hne, hparts⟩ := ih
      by_cases hc : c = sep
      · subst hc
        exact ⟨[] :: parts, by simp, by rw [List.cons_append, pieces_cons_self, hparts]; rfl⟩
      · refine ⟨parts.modifyHead (c :: ·), by simpa using hne, ?_⟩
        rw [List.cons_append, pieces_cons_of_ne hc, hparts]
        obtain ⟨part, parts, rfl⟩ := List.exists_cons_of_ne_nil hne
        rfl

namespace Path

/-- A name that leads to an entry of a directory. -/
structure IsName (name : String) : Prop where
  not_mem : '/' ∉ name.toList
  ne_empty : name ≠ ""
  ne_here : name ≠ "."
  ne_above : name ≠ ".."

variable {name : String}

theorem IsName.nameOf (h : IsName name) : nameOf name.toList = name := by
  unfold Path.nameOf
  rw [if_neg, String.ofList_toList]
  simpa using h.ne_empty

theorem IsName.enter (h : IsName name) (way : List String) : enter way name = way ++ [name] := by
  unfold Path.enter
  rw [if_neg h.ne_here, if_neg h.ne_above]

/-- A path into a directory is the name alone, or the name after a slash. -/
theorem toList_join (dir name : String) : (join dir name).toList = name.toList ∨
    ∃ front, (join dir name).toList = front ++ '/' :: name.toList := by
  unfold join
  split
  · exact .inl rfl
  · split
    · rename_i hslash
      refine .inr ⟨dir.toList.dropLast, ?_⟩
      rw [String.toList_append, ← List.dropLast_append_getLast? '/' hslash]
      simp
    · exact .inr ⟨dir.toList, by simp⟩

/-- The last name on the way to a file in a directory is its own. -/
theorem names_join (dir : String) (h : IsName name) :
    ∃ front, names (join dir name) = front ++ [name] := by
  unfold names
  rcases toList_join dir name with htext | ⟨front, htext⟩
  · rw [htext]
    refine ⟨[], ?_⟩
    split
    · rename_i heq
      exact absurd (heq ▸ List.mem_cons_self) h.not_mem
    · rw [Text.pieces_of_not_mem h.not_mem, List.map_singleton, h.nameOf]
      rfl
  · rw [htext]
    have hcut : ∀ front, ∃ above,
        (Text.pieces '/' (front ++ '/' :: name.toList)).map Path.nameOf = above ++ [name] := by
      intro front
      obtain ⟨parts, -, hparts⟩ := Text.exists_pieces_append front h.not_mem
      exact ⟨parts.map Path.nameOf, by simp [hparts, h.nameOf]⟩
    split
    · rename_i rest heq
      cases front with
      | nil =>
          obtain rfl : name.toList = rest := (List.cons.inj heq).2
          exact ⟨["/"], by simp [Text.pieces_of_not_mem h.not_mem, h.nameOf]⟩
      | cons c front =>
          obtain rfl : front ++ '/' :: name.toList = rest := (List.cons.inj heq).2
          obtain ⟨above, habove⟩ := hcut front
          exact ⟨"/" :: above, by rw [habove]; rfl⟩
    · exact hcut front

end Path

/-! ### Places -/

namespace FileTree

variable {tree : FileTree} {path : String} {way other : List String} {content : ByteArray}

/-- A path leads to a file. -/
structure Holds (tree : FileTree) (path : String) (way : List String) (content : ByteArray) :
    Prop where
  locate : tree.locate path = .ok way
  content : tree.at? way = some (.file content)

theorem readBytes_eq_ok_iff :
    tree.readBytes path = .ok content ↔ ∃ way, tree.Holds path way content := by
  unfold readBytes
  rw [bind_eq_ok_iff]
  constructor
  · rintro ⟨way, hway, hread⟩
    split at hread
    · cases hread
    · cases hread
    · rename_i hfile
      cases hread
      exact ⟨way, hway, hfile⟩
  · rintro ⟨way, hway, hfile⟩
    refine ⟨way, hway, ?_⟩
    rw [hfile]
    rfl

/-- There is no file on a way before its end. -/
def IsOpen (tree : FileTree) (way : List String) : Prop :=
  ∀ front rest, way = front ++ rest → rest ≠ [] → ∀ content, tree.at? front ≠ some (.file content)

theorem at?_append (tree : FileTree) (front rest : List String) :
    tree.at? (front ++ rest) = (tree.at? front).bind fun tree => tree.at? rest := by
  induction front generalizing tree with
  | nil => simp
  | cons name front ih =>
      rw [List.cons_append, at?_cons, at?_cons]
      cases tree.child? name with
      | none => rfl
      | some child => exact ih child

/-- Nothing lies in a file. -/
theorem at?_file (content : ByteArray) {rest : List String} (h : rest ≠ []) :
    (file content).at? rest = none := by
  obtain ⟨name, rest, rfl⟩ := List.exists_cons_of_ne_nil h
  rfl

/-- A way that leads no further than one name from a directory is open. -/
theorem isOpen_of_directory {entries : List (String × FileTree)}
    (h : tree.at? other = some (.directory entries)) (hway : way.dropLast <+: other) :
    tree.IsOpen way := by
  rintro front rest rfl hrest content hfile
  rw [List.dropLast_append_of_ne_nil hrest] at hway
  obtain ⟨middle, rfl⟩ := (List.prefix_append front _).trans hway
  rw [at?_append, hfile, Option.bind_some] at h
  cases middle with
  | nil => cases h
  | cons name middle => cases h

/-- What stands elsewhere is kept when something is put at the end of an open way. -/
theorem at?_put_of_ne (new : FileTree) (hopen : tree.IsOpen way)
    (hw : ∀ entries, tree.at? way ≠ some (.directory entries)) (hne : other ≠ way)
    (h : tree.at? other = some (.file content)) :
    (tree.put way new).at? other = some (.file content) := by
  induction way generalizing tree other with
  | nil =>
      cases tree with
      | directory entries => exact absurd (at?_nil _) (hw entries)
      | file content' =>
          rw [at?_file content' hne] at h
          cases h
  | cons name way ih =>
      cases tree with
      | file content' => exact absurd (at?_nil _) (hopen [] (name :: way) rfl (by simp) content')
      | directory entries =>
          cases other with
          | nil => cases h
          | cons first others =>
              by_cases hfirst : first = name
              · subst hfirst
                rw [at?_cons] at h
                obtain ⟨child, hchild, hfile⟩ := Option.bind_eq_some_iff.1 h
                rw [at?_cons, child?_put_self, hchild]
                refine ih ?_ ?_ (fun heq => hne (heq ▸ rfl)) hfile
                · intro front rest heq hrest content' hat
                  refine hopen (first :: front) rest (by simp [heq]) hrest content' ?_
                  rw [at?_cons, hchild]
                  exact hat
                · intro entries' hat
                  refine hw entries' ?_
                  rw [at?_cons, hchild]
                  exact hat
              · rw [at?_cons, child?_put_of_ne hfirst, ← at?_cons]
                exact h

/-- A file is kept when something is put at the end of another way that is open. -/
theorem Holds.put (h : tree.Holds path way content) (new : FileTree) (hopen : tree.IsOpen other)
    (hw : ∀ entries, tree.at? other ≠ some (.directory entries)) (hne : way ≠ other) :
    (tree.put other new).Holds path way content :=
  ⟨locate_put new hw h.locate, at?_put_of_ne new hopen hw hne h.content⟩

/-! ### Making directories -/

theorem dropLast_enter (way : List String) (name : String) :
    (Path.enter way name).dropLast <+: way := by
  unfold Path.enter
  split
  · exact List.dropLast_prefix way
  · split
    · split
      · exact List.dropLast_prefix way
      · split
        · simp
        · exact (List.dropLast_prefix _).trans (List.dropLast_prefix way)
    · simp

/-- A step is made in a directory. -/
theorem exists_of_step {name : String} (h : tree.step way name = .ok other) :
    (∃ entries, tree.at? way = some (.directory entries)) ∧ other = Path.enter way name := by
  unfold step at h
  split at h
  · cases h
  · cases h
  · rename_i entries hdirectory
    split at h
    · cases h
    · cases h
      exact ⟨⟨entries, hdirectory⟩, rfl⟩

theorem isOpen_of_step {name : String} (h : tree.step way name = .ok other) : tree.IsOpen other := by
  obtain ⟨⟨entries, hdirectory⟩, rfl⟩ := exists_of_step h
  exact isOpen_of_directory hdirectory (dropLast_enter way name)

theorem isOpen_of_foldlM {names : List String} (hopen : tree.IsOpen way)
    (h : names.foldlM tree.step way = .ok other) : tree.IsOpen other := by
  induction names generalizing way with
  | nil =>
      cases h
      exact hopen
  | cons name names ih =>
      rw [List.foldlM_cons] at h
      obtain ⟨next, hnext, hrest⟩ := bind_eq_ok_iff.1 h
      exact ih (isOpen_of_step hnext) hrest

/-- The way to a path follows its names. -/
theorem foldlM_of_locate (h : tree.locate path = .ok way) :
    (Path.names path).foldlM tree.step [] = .ok way := by
  unfold locate at h
  split at h
  · cases h
  · split at h
    · cases h
    · exact h

/-- The way to a path is open. -/
theorem isOpen_of_locate (h : tree.locate path = .ok way) : tree.IsOpen way := by
  refine isOpen_of_foldlM ?_ (foldlM_of_locate h)
  intro front rest heq hrest
  exact absurd (List.append_eq_nil_iff.1 heq.symm).2 hrest

theorem Holds.ensureDirectory (h : tree.Holds path way content) (hopen : tree.IsOpen other) :
    (tree.ensureDirectory other).1.Holds path way content := by
  unfold FileTree.ensureDirectory
  split
  · rename_i hnothing
    refine h.put .empty hopen (fun entries hat => ?_) ?_
    · rw [hnothing] at hat
      cases hat
    · rintro rfl
      have hfile := h.content
      rw [hnothing] at hfile
      cases hfile
  · exact h
  · exact h

/-- Making directories keeps all files, whether it succeeds or not. -/
theorem Holds.makeDirectories (h : tree.Holds path way content) (parts : List (List Char)) :
    (tree.makeDirectories parts).1.Holds path way content := by
  fun_induction FileTree.makeDirectories tree parts with
  | case1 => exact h
  | case2 => exact h
  | case3 _ _ _ _ ih => exact ih
  | case4 _ _ _ _ way' hlocate => exact h.ensureDirectory (isOpen_of_locate hlocate)
  | case5 _ _ _ _ _ made way' hmade way'' hstep ih =>
      rw [hmade] at ih
      exact ih.ensureDirectory (isOpen_of_step hstep)
  | case6 _ _ _ _ _ made way' hmade e hstep ih =>
      rw [hmade] at ih
      exact ih
  | case7 _ _ _ _ _ _ ih => exact ih
  | case8 => exact h

/-! ### Writing -/

/-- Directories are made, and then the file is put at the end of its way or the writing fails. -/
theorem write_cases (tree : FileTree) (path : String) (content : ByteArray) :
    (∃ e, tree.write path content = ((tree.makeDirectories (Path.parentParts path)).1, some e)) ∨
    ∃ way, (tree.makeDirectories (Path.parentParts path)).1.locate path = .ok way ∧
      (∀ entries, (tree.makeDirectories (Path.parentParts path)).1.at? way ≠ some (.directory entries)) ∧
      tree.write path content =
        ((tree.makeDirectories (Path.parentParts path)).1.put way (.file content), none) := by
  unfold FileTree.write
  rcases tree.makeDirectories (Path.parentParts path) with ⟨made, e | _⟩
  · exact .inl ⟨e, rfl⟩
  · dsimp only
    cases hwrite : made.writeInto path content with
    | error e => exact .inl ⟨e, rfl⟩
    | ok saved =>
        obtain ⟨way, hlocate, hput⟩ := bind_eq_ok_iff.1 hwrite
        split at hput
        · cases hput
        · rename_i hdirectory
          cases hput
          exact .inr ⟨way, hlocate, hdirectory, rfl⟩

/-- A file is kept when another one is written, whether this succeeds or not. -/
theorem Holds.write {target : String} {bytes : ByteArray} (h : tree.Holds path way content)
    (hne : ∀ tree : FileTree, tree.locate target ≠ .ok way) :
    (tree.write target bytes).1.Holds path way content := by
  have hmade := h.makeDirectories (Path.parentParts target)
  rcases tree.write_cases target bytes with ⟨e, hwrite⟩ | ⟨other, hlocate, hdirectory, hwrite⟩
  · rwa [hwrite]
  · rw [hwrite]
    refine hmade.put _ (isOpen_of_locate hlocate) hdirectory ?_
    rintro rfl
    exact hne _ hlocate

/-- The last name on the way to a file is its own. -/
theorem getLast?_of_locate {dir name : String} (hname : Path.IsName name)
    (h : tree.locate (Path.join dir name) = .ok way) : way.getLast? = some name := by
  obtain ⟨front, hnames⟩ := Path.names_join dir hname
  have hfold := foldlM_of_locate h
  rw [hnames, List.foldlM_append] at hfold
  obtain ⟨above, -, hlast⟩ := bind_eq_ok_iff.1 hfold
  rw [List.foldlM_cons] at hlast
  obtain ⟨way', hstep, hway⟩ := bind_eq_ok_iff.1 hlast
  cases hway
  obtain ⟨-, rfl⟩ := exists_of_step hstep
  rw [hname.enter, List.getLast?_concat]

/-- A file with another name is kept when a file is written, whether this succeeds or not. -/
theorem readBytes_write_of_ne {dir dir' name name' : String} {bytes : ByteArray}
    (hname : Path.IsName name) (hname' : Path.IsName name') (hne : name ≠ name')
    (h : tree.readBytes (Path.join dir name) = .ok content) :
    (tree.write (Path.join dir' name') bytes).1.readBytes (Path.join dir name) = .ok content := by
  obtain ⟨way, hfile⟩ := readBytes_eq_ok_iff.1 h
  refine readBytes_eq_ok_iff.2 ⟨way, hfile.write fun tree' hlocate => hne ?_⟩
  have hlast := getLast?_of_locate hname hfile.locate
  rw [getLast?_of_locate hname' hlocate] at hlast
  exact (Option.some.inj hlast).symm

/-- A file that is written again as it was is kept. -/
theorem readBytes_write_same (h : tree.readBytes path = .ok content) :
    (tree.write path content).1.readBytes path = .ok content := by
  obtain ⟨way, hfile⟩ := readBytes_eq_ok_iff.1 h
  rcases tree.write_cases path content with ⟨e, hwrite⟩ | ⟨_, -, -, hwrite⟩
  · rw [hwrite]
    exact readBytes_eq_ok_iff.2 ⟨way, hfile.makeDirectories _⟩
  · rw [hwrite]
    exact readBytes_of_write hwrite

end FileTree

end ClauseForest
