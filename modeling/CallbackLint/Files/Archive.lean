import CallbackLint.Files.Tree
import CallbackLint.Text.Split
import CallbackLint.Text.Utf8

namespace CallbackLint

/-!
# Archives

A file tree can be handed over as a tape archive: blocks of 512 bytes, in which
a header block comes before the contents of each file.  The contents fill up
their last block, and the archive ends at a header without a name.  A name that
is too long for a header is in a record of its own before it.
-/

namespace Archive

def blockSize : Nat := 512

/-- Some bytes of a header as a text, up to the first zero. -/
def textAt (start size : Nat) (header : List UInt8) : String :=
  String.ofList (Utf8.decodeReplacing
    ((header.drop start |>.take size).takeWhile fun byte => byte != 0))

def octalAt (start size : Nat) (header : List UInt8) : Nat :=
  numberOf 8 ((textAt start size header).toList.filter Char.isDigit)

/-- A header with the long names that came before it. -/
structure Header where
  path : String
  target : String
  size : Nat
  kind : Char
  readable : Bool
deriving DecidableEq, Repr

/-- The long names that are waiting for their header. -/
structure LongNames where
  path : Option String := none
  target : Option String := none
deriving DecidableEq, Repr

def Header.read (names : LongNames) (block : List UInt8) : Header :=
  let front := if textAt 257 6 block = "ustar" then textAt 345 155 block else ""
  let name := textAt 0 100 block
  let path := if front.isEmpty then name else front ++ "/" ++ name
  { path := names.path.getD path
    target := names.target.getD (textAt 157 100 block)
    size := octalAt 124 12 block
    kind := ((textAt 156 1 block).toList.head?).getD '0'
    readable := octalAt 100 8 block / 0o400 % 2 = 1 }

/-- What a header puts into a tree, if it does. -/
def Header.content? (header : Header) (bytes : List UInt8) : Option Content :=
  match header.kind with
  | '0' => some (.file bytes header.readable)
  | '2' => some (.link header.target)
  | '5' => some .folder
  | _ => none

def LongNames.after (header : Header) (bytes : List UInt8) (names : LongNames) : LongNames :=
  match header.kind with
  | 'L' => { names with path := some (textAt 0 header.size bytes) }
  | 'K' => { names with target := some (textAt 0 header.size bytes) }
  | _ => {}

/-- Put what an archive holds below a folder of a tree, for at most `limit`
records. -/
def unpackUpTo (folder : Location) (names : LongNames) (files : FileTree) (archive : List UInt8) :
    (limit : Nat) → FileTree
  | 0 => files
  | limit + 1 =>
    let header := Header.read names (archive.take blockSize)
    if header.path.isEmpty then files
    else
      let contents := archive.drop blockSize
      let bytes := contents.take header.size
      let blocks := (header.size + blockSize - 1) / blockSize
      let location := folder.below (Location.namesIn header.path)
      let files := match header.content? bytes with
        | some content => FileTree.place content location.names files
        | none => files
      unpackUpTo folder (names.after header bytes) files (contents.drop (blocks * blockSize)) limit

/-- The file tree that has what an archive holds below a folder, and nothing
else. -/
def unpack (folder : Location) (archive : List UInt8) : FileTree :=
  unpackUpTo folder {} (FileTree.place .folder folder.names .empty) archive
    (archive.length / blockSize + 1)

end Archive

end CallbackLint
