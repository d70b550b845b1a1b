import CallbackLint.Files.Tree

namespace CallbackLint

/-!
# The files of a folder

The files below a folder are listed with the names that lead to them.  The
files right in a folder come first, in the order of their names, and then those
of its folders, again in the order of the names.  Links are not followed, and
folders of two names are never entered.
-/

/-- A file below a folder and the names that lead to it. -/
structure FoundFile where
  names : List String
  bytes : List UInt8
deriving DecidableEq, Repr

namespace FoundFile

def name (file : FoundFile) : String := file.names.getLastD ""

/-- The names that lead to the folder of a file. -/
def folder (file : FoundFile) : List String := file.names.dropLast

/-- The names that lead to a file, joined by slashes. -/
def text (file : FoundFile) : String := Location.join file.names

/-- The same file, seen from one folder further up. -/
def within (name : String) (file : FoundFile) : FoundFile :=
  { file with names := name :: file.names }

end FoundFile

namespace FileTree

def skippedFolders : List String := [".git", "node_modules"]

/-- What one part of a folder adds to its listing.  The name, and whether the part is a folder,
decide where its files go among those of the other parts. -/
structure Share where
  name : String
  isFolder : Bool
  files : List FoundFile

/-- Whether the share of one part comes before that of another: files come
before folders, and names in order. -/
def Share.precedes (first second : Share) : Bool :=
  if first.isFolder = second.isFolder then decide (first.name ≤ second.name)
  else second.isFolder

/-- The listing that some shares make. -/
def gather (shares : List Share) : List FoundFile :=
  (shares.mergeSort Share.precedes).flatMap Share.files

mutual

/-- What a part of a folder adds to the listing of the folder. -/
def share : FileTree → Share
  | .node entry children =>
    { name := entry.name
      isFolder := entry.content = .folder
      files := match entry.content with
        | .file bytes _ => [{ names := [entry.name], bytes }]
        | .link _ => []
        | .folder =>
          if skippedFolders.contains entry.name then []
          else (gather (shareAll children)).map (FoundFile.within entry.name) }

def shareAll : List FileTree → List Share
  | [] => []
  | child :: rest => share child :: shareAll rest

end

/-- The files below a folder, in the order of a listing.  What is no folder has
no files below it. -/
def files (tree : FileTree) : List FoundFile :=
  if tree.content = .folder then gather (shareAll tree.children) else []

end FileTree

end CallbackLint
