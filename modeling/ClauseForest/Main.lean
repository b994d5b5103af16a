/-
**The program**

The files and directories that the command may touch are taken in, the command runs on them as a value,
and what it printed and saved is given out.

Main definitions:

* `takeIn`, `giveOut` — a tree of files read from the disk, and what is new in it written there;
* `main` — the program.
-/

import ClauseForest.Command.Run

set_option relaxedAutoImplicit false
set_option autoImplicit false

open ClauseForest

/-- A tree with what stands at the end of a way. -/
def takeInWay (files : FileTree) (way : List String) : IO FileTree := do
  if (files.at? way).isSome then return files
  match ← (IO.FS.readBinFile (Path.ofWay way)).toBaseIO with
  | .ok content => return files.put way (.file content)
  -- This is how the operating system refuses to read a directory.
  | .error (.inappropriateType _ 21 _) => return files.put way .empty
  | .error _ => return files

/-- What stands at paths and on the way to them. -/
def takeIn (paths : List String) : IO FileTree :=
  (paths.flatMap Path.trail).foldlM takeInWay .empty

/-- Makes or writes what stands at the end of a way in a tree but not in an earlier one. -/
def giveOutWay (files earlier : FileTree) (way : List String) : IO Unit :=
  match files.at? way, earlier.at? way with
  | some (.directory _), none => IO.FS.createDirAll (Path.ofWay way)
  | some (.file content), some (.file old) =>
    if content.data == old.data then return () else IO.FS.writeBinFile (Path.ofWay way) content
  | some (.file content), _ => IO.FS.writeBinFile (Path.ofWay way) content
  | _, _ => return ()

/-- Makes the directories and writes the files at paths and on the way to them. -/
def giveOut (files earlier : FileTree) (paths : List String) : IO Unit :=
  (paths.flatMap Path.trail).forM (giveOutWay files earlier)

/-- Runs the command on the command line. -/
def main (words : List String) : IO UInt32 := do
  let command := (Command.parse words).toOption
  let outputs := command.elim [] Command.outputs
  let files ← takeIn (command.elim [] Command.inputs ++ outputs)
  let outcome := runCommand files words
  IO.print outcome.output
  giveOut outcome.files files outputs
  if let some report := outcome.report then IO.eprint report
  return UInt32.ofNat outcome.exit
