/-
**Trees of files**

The files that a program works on are a value: the working directory with all that lies in it.  The
directory above it and the root count as lying in it too, under the names `..` and `/`, and so on
upwards; they are always there.  Reading and writing follow a path name by name, so a path that leads
through a file, or through nothing, fails as it does on a disk, and also if it leads back later.

A file is written together with the directories on the way to it.  They are made one by one, from the
last that is there on; those made before a failure stay.

Main definitions:

* `FileError` — why a file could not be read or written;
* `FileTree` — a file, or a directory with all that lies in it;
* `FileTree.at?`, `FileTree.put` — what stands at the end of a way;
* `FileTree.locate` — the way to a path;
* `FileTree.readBytes`, `FileTree.readText` — the content of a file;
* `FileTree.makeDirectories` — a directory with all that it lies in;
* `FileTree.write` — a file written, with the directories on the way to it.

Main results:

* `FileTree.readBytes_of_write` — what is written is read back.
-/

import ClauseForest.Files.Path

set_option relaxedAutoImplicit false
set_option autoImplicit false

namespace ClauseForest

/-- Why a file could not be read or written. -/
inductive FileError where
  /-- Nothing has that path. -/
  | notFound
  /-- Something stands where a directory is to be made. -/
  | alreadyExists
  /-- The path leads through a file. -/
  | notDirectory
  /-- The path is that of a directory. -/
  | isDirectory
  /-- The path, or a name in it, is longer than paths and names may be. -/
  | nameTooLong
  /-- The content of the file is no text. -/
  | notText
deriving DecidableEq, Repr

/-- The wording of the operating system. -/
def FileError.message : FileError → String
  | .notFound => "No such file or directory (os error 2)"
  | .alreadyExists => "File exists (os error 17)"
  | .notDirectory => "Not a directory (os error 20)"
  | .isDirectory => "Is a directory (os error 21)"
  | .nameTooLong => "File name too long (os error 36)"
  | .notText => "stream did not contain valid UTF-8"

/-- What stands at a place. -/
inductive FileTree where
  | file (content : ByteArray)
  | directory (entries : List (String × FileTree))

namespace FileTree

/-- A directory in which nothing lies. -/
def empty : FileTree := .directory []

/-- What lies in a directory, by its name. -/
def entries : FileTree → List (String × FileTree)
  | .file _ => []
  | .directory entries => entries

/-- What has a name in a directory.  The directory above and the root are always there. -/
def child? : FileTree → String → Option FileTree
  | .file _, _ => none
  | .directory entries, name =>
    match entries.lookup name with
    | some tree => some tree
    | none => if name = ".." || name = "/" then some empty else none

/-- What stands at the end of a way, if anything does. -/
def at? : FileTree → List String → Option FileTree
  | tree, [] => some tree
  | tree, name :: way => (tree.child? name).bind fun tree => tree.at? way

/-- The tree with something at the end of a way, whatever was there. -/
def put : FileTree → List String → FileTree → FileTree
  | _, [], new => new
  | tree, name :: way, new =>
    .directory <| (name, put ((tree.child? name).getD empty) way new) ::
      tree.entries.filter fun entry => entry.1 ≠ name

@[simp] theorem at?_nil (tree : FileTree) : tree.at? [] = some tree := by
  cases tree <;> rfl

theorem at?_cons (tree : FileTree) (name : String) (way : List String) :
    tree.at? (name :: way) = (tree.child? name).bind fun tree => tree.at? way := by
  cases tree <;> rfl

@[simp] theorem put_nil (tree new : FileTree) : tree.put [] new = new := by
  cases tree <;> rfl

/-- The directory in which an entry was put has this entry. -/
theorem child?_put_self (tree : FileTree) (name : String) (way : List String) (new : FileTree) :
    (tree.put (name :: way) new).child? name =
      some (((tree.child? name).getD empty).put way new) := by
  cases tree <;> simp [put, child?]

/-- The other entries of the directory are left alone. -/
theorem child?_put_of_ne {name other : String} (h : other ≠ name)
    (entries : List (String × FileTree)) (way : List String) (new : FileTree) :
    ((directory entries).put (name :: way) new).child? other = (directory entries).child? other := by
  have hb : (other == name) = false := by simp [h]
  have hf : (entries.filter fun entry => entry.1 ≠ name).lookup other = entries.lookup other := by
    induction entries with
    | nil => rfl
    | cons entry entries ih =>
      by_cases hn : entry.1 = name
      · rw [List.filter_cons_of_neg (by simp [hn]), ih, List.lookup_cons, hn, hb]
      · rw [List.filter_cons_of_pos (by simpa using hn), List.lookup_cons, List.lookup_cons, ih]
  simp only [put, child?, FileTree.entries, List.lookup_cons, hb, hf]

/-- What was put somewhere stands there. -/
@[simp] theorem at?_put_self (tree : FileTree) (way : List String) (new : FileTree) :
    (tree.put way new).at? way = some new := by
  induction way generalizing tree with
  | nil => simp
  | cons name way ih => simp [at?_cons, child?_put_self, ih]

/-- Where there was no directory, something can be put without a loss of directories elsewhere. -/
theorem exists_at?_put {tree : FileTree} {way other : List String} (new : FileTree)
    (hw : ∀ entries, tree.at? way ≠ some (.directory entries))
    (ho : ∃ entries, tree.at? other = some (.directory entries)) :
    ∃ entries, (tree.put way new).at? other = some (.directory entries) := by
  induction way generalizing tree other with
  | nil =>
    cases tree with
    | directory entries => exact absurd (at?_nil _) (hw entries)
    | file content =>
      obtain ⟨entries, ho⟩ := ho
      cases other <;> simp [at?_cons, child?] at ho
  | cons name way ih =>
    cases other with
    | nil => exact ⟨_, by simp only [put, at?_nil]; rfl⟩
    | cons first others =>
      cases tree with
      | file content => simp [at?_cons, child?] at ho
      | directory entries =>
        by_cases hn : first = name
        · subst hn
          cases hc : (directory entries).child? first with
          | none => simp [at?_cons, hc] at ho
          | some child =>
            simp only [at?_cons, hc, Option.bind_some, child?_put_self, Option.getD_some] at hw ho ⊢
            exact ih hw ho
        · simpa only [at?_cons, child?_put_of_ne hn] using ho

/-! ### Following paths -/

/-- How many bytes a name may have. -/
def maxName : Nat := 255

/-- How many bytes a path may have. -/
def maxPath : Nat := 4095

/-- The way after one more name, which must be looked up in a directory. -/
def step (tree : FileTree) (way : List String) (name : String) : Except FileError (List String) :=
  match tree.at? way with
  | none => .error .notFound
  | some (.file _) => .error .notDirectory
  | some (.directory _) =>
    if maxName < name.utf8ByteSize then .error .nameTooLong else .ok (Path.enter way name)

/-- The way to a path.  Nothing needs to stand at its end, but the empty path leads nowhere. -/
def locate (tree : FileTree) (path : String) : Except FileError (List String) :=
  if path.isEmpty then .error .notFound
  else if maxPath < path.utf8ByteSize then .error .nameTooLong
  else (Path.names path).foldlM tree.step []

/-! ### Reading -/

/-- The content of a file. -/
def readBytes (tree : FileTree) (path : String) : Except FileError ByteArray := do
  match tree.at? (← tree.locate path) with
  | none => .error .notFound
  | some (.directory _) => .error .isDirectory
  | some (.file content) => return content

/-- The content of a text file. -/
def readText (tree : FileTree) (path : String) : Except FileError String := do
  match String.fromUTF8? (← tree.readBytes path) with
  | some text => return text
  | none => .error .notText

/-! ### Writing -/

/-- The tree with a directory at the end of a way, and this way. -/
def ensureDirectory (tree : FileTree) (way : List String) : FileTree × Except FileError (List String) :=
  match tree.at? way with
  | none => (tree.put way empty, .ok way)
  | some (.file _) => (tree, .error .alreadyExists)
  | some (.directory _) => (tree, .ok way)

/-- Makes a directory and all that it lies in, unless they are there, and returns the way to it.  The
parts of its path are given from the last to the first. -/
def makeDirectories (tree : FileTree) : List (List Char) → FileTree × Except FileError (List String)
  | [] => (tree, .ok [])
  | [[]] => (tree, .ok ["/"])
  | part :: above =>
    if Path.isHere part then tree.makeDirectories above
    else
      match tree.locate (Path.ofParts (part :: above).reverse) with
      | .ok way => tree.ensureDirectory way
      | .error .notFound =>
        match tree.makeDirectories above with
        | (tree, .ok way) =>
          match tree.step way (Path.nameOf part) with
          | .ok way => tree.ensureDirectory way
          | .error e => (tree, .error e)
        | failed => failed
      | .error e => (tree, .error e)

/-- Writes a file into a directory that is there. -/
def writeInto (tree : FileTree) (path : String) (content : ByteArray) : Except FileError FileTree := do
  let way ← tree.locate path
  match tree.at? way with
  | some (.directory _) => .error .isDirectory
  | _ => return tree.put way (.file content)

/-- The tree after a file was written, with the directories on the way to it, and what went wrong. -/
def write (tree : FileTree) (path : String) (content : ByteArray) : FileTree × Option FileError :=
  match tree.makeDirectories (Path.parentParts path) with
  | (tree, .error e) => (tree, some e)
  | (tree, .ok _) =>
    match tree.writeInto path content with
    | .ok tree => (tree, none)
    | .error e => (tree, some e)

/-! ### What is written is read back -/

/-- A step to where there is something to be put is possible afterwards too. -/
theorem step_put {tree : FileTree} {way : List String} (new : FileTree)
    (hw : ∀ entries, tree.at? way ≠ some (.directory entries)) {start next : List String}
    {name : String} (h : tree.step start name = .ok next) :
    (tree.put way new).step start name = .ok next := by
  unfold step at h ⊢
  cases hs : tree.at? start with
  | none => simp [hs] at h
  | some place =>
    cases place with
    | file content => simp [hs] at h
    | directory entries =>
      obtain ⟨others, ho⟩ := exists_at?_put new hw ⟨entries, hs⟩
      simpa only [hs, ho] using h

/-- A path leads the same way after something was put where there was no directory. -/
theorem locate_put {tree : FileTree} {way other : List String} (new : FileTree)
    (hw : ∀ entries, tree.at? way ≠ some (.directory entries)) {path : String}
    (h : tree.locate path = .ok other) : (tree.put way new).locate path = .ok other := by
  have follow : ∀ (names start : List String), names.foldlM tree.step start = .ok other →
      names.foldlM (tree.put way new).step start = .ok other := by
    intro names
    induction names with
    | nil => exact fun _ h => h
    | cons name names ih =>
      intro start h
      rw [List.foldlM_cons] at h ⊢
      cases hs : tree.step start name with
      | error e => simp [hs, bind, Except.bind] at h
      | ok next =>
        rw [step_put new hw hs]
        rw [hs] at h
        exact ih next h
  unfold locate at h ⊢
  split at h
  · simp at h
  · split at h
    · simp at h
    · rw [if_neg (by assumption), if_neg (by assumption)]
      exact follow _ _ h

/-- What is written into a directory that is there is read back. -/
theorem readBytes_of_writeInto {tree saved : FileTree} {path : String} {content : ByteArray}
    (h : tree.writeInto path content = .ok saved) : saved.readBytes path = .ok content := by
  unfold writeInto at h
  cases hl : tree.locate path with
  | error e => simp [hl, bind, Except.bind] at h
  | ok way =>
    simp only [hl, bind, Except.bind] at h
    split at h
    · simp at h
    · rename_i hd
      obtain rfl := Except.ok.inj h
      simp [readBytes, locate_put _ hd hl, bind, Except.bind]
      rfl

/-- **What is written is read back.** -/
theorem readBytes_of_write {tree saved : FileTree} {path : String} {content : ByteArray}
    (h : tree.write path content = (saved, none)) : saved.readBytes path = .ok content := by
  unfold write at h
  split at h
  · simp at h
  · split at h
    · rename_i hw
      simp only [Prod.mk.injEq, and_true] at h
      exact readBytes_of_writeInto (h ▸ hw)
    · simp at h

end FileTree

end ClauseForest
