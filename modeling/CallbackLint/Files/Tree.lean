import CallbackLint.Files.Location
import CallbackLint.Rose
import CallbackLint.Text.Quoted

namespace CallbackLint

/-!
# File trees

A file tree holds everything that a run can look at: folders, files and links,
from the top folder downwards.  A link is a text that stands for a location.
It is read from the folder that the link is in.

Looking a location up follows links wherever they stand on the way.  A bound on
their number keeps links that lead in a circle from being followed forever.
-/

/-- What stands under a name.  A file that must not be opened keeps its bytes, since nothing that
only lists files may depend on whether they can be opened. -/
inductive Content where
  | folder
  | file (bytes : List UInt8) (readable : Bool := true)
  | link (target : String)
deriving DecidableEq, Repr

/-- A name and what stands under it.  The name is a text.  A file system may also hold names whose
bytes are not valid Unicode, which a program cannot print; trees with such names are left out. -/
structure Entry where
  name : String
  content : Content := .folder
deriving DecidableEq, Repr

/-- A folder with everything in it, or a single file or link. -/
abbrev FileTree := Rose Entry

/-- Why nothing can be read at a location. -/
inductive AccessFault where
  | missing
  | denied
  | notAFolder
  | isAFolder
  | tooManyLinks
deriving DecidableEq, Repr

namespace AccessFault

/-- The number under which the operating system knows a fault. -/
def number : AccessFault → Nat
  | missing => 2
  | denied => 13
  | notAFolder => 20
  | isAFolder => 21
  | tooManyLinks => 40

/-- What the operating system calls a fault. -/
def reason : AccessFault → String
  | missing => "No such file or directory"
  | denied => "Permission denied"
  | notAFolder => "Not a directory"
  | isAFolder => "Is a directory"
  | tooManyLinks => "Too many levels of symbolic links"

def message (fault : AccessFault) (location : Location) : String :=
  s!"[Errno {fault.number}] {fault.reason}: {quoted location.text}"

end AccessFault

namespace FileTree

def empty (name : String := "") : FileTree := .node { name } []

def content (tree : FileTree) : Content := tree.value.content

def child? (tree : FileTree) (name : String) : Option FileTree :=
  tree.children.find? fun child => child.value.name == name

/-- The part at the end of some names, none of which is a link. -/
def at? (tree : FileTree) : List String → Option FileTree
  | [] => some tree
  | name :: rest =>
    match child? tree name with
    | some child => at? child rest
    | none => none

/-- The same tree with something put at the end of some names, and with every
folder on the way. -/
def place (content : Content) : List String → FileTree → FileTree
  | [], tree => .node { tree.value with content } tree.children
  | name :: rest, tree =>
    let changed := place content rest ((child? tree name).getD (empty name))
    .node tree.value
      (changed :: tree.children.filter fun child => child.value.name != name)

/-! ## Following links -/

/-- Where some names lead if no link is followed. -/
inductive Arrival where
  /-- To the end of all names. -/
  | arrived (names : List String)
  /-- To a link in a folder, with some names still ahead. -/
  | diverted (folder : List String) (target : String) (ahead : List String)
  /-- Nowhere. -/
  | stuck (fault : AccessFault)

/-- Go along some names from a folder, up to the first link.  A strict walk
gets stuck where there is nothing or no folder to go on in; a lenient one goes
on as if there were folders. -/
def advance (files : FileTree) (strict : Bool) (folder : List String) :
    List String → Arrival
  | [] => .arrived folder
  | name :: rest =>
    let standing := (files.at? folder).map content
    if strict && standing.isNone then .stuck .missing
    else if strict && standing != some .folder then .stuck .notAFolder
    else if name = "" || name = "." then advance files strict folder rest
    else if name = ".." then advance files strict folder.dropLast rest
    else
      match (files.at? (folder ++ [name])).map content with
      | some (.link target) => .diverted folder target rest
      | some _ => advance files strict (folder ++ [name]) rest
      | none =>
        if strict then .stuck .missing else advance files strict (folder ++ [name]) rest

/-- The names without links at which some names from a folder arrive, when no
more than a given number of links is on the way. -/
def follow (files : FileTree) (strict : Bool) :
    (links : Nat) → (folder names : List String) → Except AccessFault (List String)
  | links, folder, names =>
    match advance files strict folder names with
    | .arrived names => .ok names
    | .stuck fault => .error fault
    | .diverted folder target ahead =>
      match links with
      | 0 => .error .tooManyLinks
      | links + 1 =>
        let folder := if Location.isWhole target then [] else folder
        follow files strict links folder
          ((piecesBetween '/' target.toList).map String.ofList ++ ahead)

def linkLimit : Nat := 40

/-- The location without links and without `..` that a location stands for.  What does not exist
stands for itself, so only links that lead in a circle are a fault. -/
def resolve (files : FileTree) (location : Location) : Except AccessFault Location :=
  match follow files false linkLimit [] location.names with
  | .ok names => .ok { names }
  | .error fault => .error fault

/-- What stands at a location, after all links on the way and at its end have been followed.
Every name but the last must be that of a folder, also in front of `..`. -/
def reach (files : FileTree) (location : Location) : Except AccessFault FileTree :=
  match follow files true linkLimit [] location.names with
  | .error fault => .error fault
  | .ok names =>
    match files.at? names with
    | some tree => .ok tree
    | none => .error .missing

/-- The bytes of the file at a location.  This is the only way to open a file, and so the only
place where it matters whether a file can be opened. -/
def read (files : FileTree) (location : Location) : Except AccessFault (List UInt8) :=
  match files.reach location with
  | .error fault => .error fault
  | .ok tree =>
    match tree.content with
    | .file bytes true => .ok bytes
    | .file _ false => .error .denied
    | .folder => .error .isAFolder
    | .link _ => .error .tooManyLinks

/-- The bytes of the file at a location, if there is one.  A link to a file counts, and so does a
file that cannot be opened: whoever asks this first may still be denied afterwards. -/
def file? (files : FileTree) (location : Location) : Option (List UInt8) :=
  match files.reach location with
  | .error _ => none
  | .ok tree =>
    match tree.content with
    | .file bytes _ => some bytes
    | _ => none

end FileTree

end CallbackLint
