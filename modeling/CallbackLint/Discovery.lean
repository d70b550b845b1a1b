import CallbackLint.Files.Listing
import CallbackLint.Ignoring.File
import CallbackLint.Pattern.Glob

namespace CallbackLint

/-!
# Finding scripts

The scripts below a folder are its files whose names have one of a few endings.
Ignore files take some of them away, and so do patterns for what is included
and what is excluded.  The result is in the order of the names that lead to the
scripts, joined by slashes.
-/

namespace Discovery

def endings : List String := [".js", ".mjs", ".cjs", ".jsx"]

/-- The ending of a name: the last dot and what comes after it.  A name has no
ending if the dot is its first or its last character. -/
def endingOf (name : String) : String :=
  let chars := name.toList
  let back := chars.reverse.takeWhile fun char => char != '.'
  if back.isEmpty || chars.length ≤ back.length + 1 then ""
  else String.ofList ('.' :: back.reverse)

def isScript (file : FoundFile) : Bool := endings.contains (endingOf file.name)

/-- Which files are selected by their names. -/
structure Selection where
  /-- Patterns of which a file must match one, unless there are none. -/
  included : List String := []
  /-- Patterns of which a file must not match any. -/
  excluded : List String := []
deriving DecidableEq, Repr

def Selection.has (selection : Selection) (file : FoundFile) : Bool :=
  (selection.included.isEmpty ||
    selection.included.any fun pattern => Glob.fits pattern file.text) &&
  !selection.excluded.any fun pattern => Glob.fits pattern file.text

/-- The ignore file in a folder, which is given by the names that lead there from
the root.  A listing has found it, or a lookup that follows links; only now is it
opened, and that may be denied. -/
def readIgnoreFile (files : FileTree) (root : Location) (folder : List String) :
    Except IgnoreFault IgnoreFile :=
  match files.read (root.below (folder ++ [IgnoreFile.fileName])) with
  | .ok bytes => IgnoreFile.read folder bytes
  | .error fault => .error (.unreadable fault)

/-- The ignore files below a folder: all of them, or the one right in it.  The
latter may be a link, the former may not.  If one of them gives no rules, then the
whole search fails. -/
def ignoreFiles (files : FileTree) (root : Location) (found : List FoundFile) (nested : Bool) :
    Except IgnoreFault (List IgnoreFile) :=
  if nested then
    (found.filter fun file => file.name = IgnoreFile.fileName).mapM fun file =>
      readIgnoreFile files root file.folder
  else if (files.file? (root.below [IgnoreFile.fileName])).isSome then do
    return [← readIgnoreFile files root []]
  else .ok []

/-- Those of some files that are not ignored, by a judgement of the names that lead to them.  The
first file without a judgement fails the search, even if no pattern would have selected it. -/
def keepUnignored (judge : List String → Except IgnoreFault Bool) :
    List FoundFile → Except IgnoreFault (List FoundFile)
  | [] => .ok []
  | file :: rest => do
    let ignored ← judge file.names
    let kept ← keepUnignored judge rest
    return if ignored then kept else file :: kept

/-- The scripts among some files, without those that are ignored and those that are not selected.
They are in the order of their texts, which is not that of a listing: there the files of a folder
come before those of its folders. -/
def select (judge : List String → Except IgnoreFault Bool) (selection : Selection)
    (found : List FoundFile) : Except IgnoreFault (List FoundFile) := do
  let kept ← keepUnignored judge (found.filter isScript)
  let selected := kept.filter selection.has
  return selected.mergeSort fun first second => first.text ≤ second.text

/-- The files below a location, in the order of a listing. -/
def filesBelow (files : FileTree) (root : Location) : List FoundFile :=
  match files.reach root with
  | .ok tree => FileTree.files tree
  | .error _ => []

/-- The scripts below a folder.  Neither the scripts nor the ignore files further down may be
links; only the ignore file right in the folder is found through one. -/
def find (files : FileTree) (root : Location) (selection : Selection) (nested : Bool) :
    Except IgnoreFault (List FoundFile) := do
  let found := filesBelow files root
  let ignoring ← ignoreFiles files root found nested
  select (IgnoreFile.judge ignoring) selection found

end Discovery

end CallbackLint
