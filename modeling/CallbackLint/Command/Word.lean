import CallbackLint.Text.Quoted

namespace CallbackLint

/-!
# Words of a command line

A word of a command line is a plain text or begins with a hyphen and is a flag.
A flag may be cut short as long as only one flag fits.  A text may be attached
to it, after an equals sign or, for a flag of a single letter, right away.
Numbers below zero and words with a space in them are plain.
-/

inductive Flag where
  | help
  | callbacks
  | format
  | verbose
deriving DecidableEq, Repr

inductive Arity where
  | none
  | one
  | oneOrMore
deriving DecidableEq, Repr

namespace Flag

def arity : Flag → Arity
  | help | verbose => .none
  | format => .one
  | callbacks => .oneOrMore

/-- The spellings of a flag, as they are mentioned in messages. -/
def spellings : Flag → List String
  | help => ["-h", "--help"]
  | callbacks => ["--callbacks"]
  | format => ["--format"]
  | verbose => ["--verbose", "-v"]

/-- A flag as it is mentioned in messages. -/
def title (flag : Flag) : String := "/".intercalate flag.spellings

end Flag

/-- The spellings that a command understands, in a fixed order. -/
abbrev Spellings := List (String × Flag)

def Spellings.ofFlags (flags : List Flag) : Spellings :=
  flags.flatMap fun flag => flag.spellings.map fun spelling => (spelling, flag)

def Spellings.find? (spellings : Spellings) (spelling : String) : Option Flag :=
  (List.find? (fun entry => entry.1 == spelling) spellings).map Prod.snd

/-- A text that is attached to a flag, and whether an equals sign is before it. -/
structure Attachment where
  afterEquals : Bool
  text : List Char
deriving DecidableEq, Repr

inductive Word where
  | plain (text : String)
  /-- The two hyphens after which every word is plain. -/
  | hyphens
  | flag (spelling : String) (flag : Flag) (attached : Option Attachment)
  /-- A flag that the command does not understand. -/
  | unknown (text : String)
  /-- A flag that is cut too short. -/
  | ambiguous (text : String) (candidates : List String)
deriving DecidableEq, Repr

namespace Word

/-- The text before the first equals sign of a word, and what is attached by
it. -/
def splitEquals (word : List Char) : List Char × Option Attachment :=
  let name := word.takeWhile fun char => char != '='
  match word.drop name.length with
  | _ :: text => (name, some { afterEquals := true, text })
  | [] => (name, none)

/-- The flags that a word may mean, if it is no spelling as it is. -/
def candidates (spellings : Spellings) (word : List Char) :
    List (String × Flag × Option Attachment) :=
  match word with
  | '-' :: '-' :: _ =>
    let (stem, attached) := splitEquals word
    spellings.filterMap fun entry =>
      if stem.isPrefixOf entry.1.toList then some (entry.1, entry.2, attached) else none
  | _ =>
    spellings.filterMap fun entry =>
      if entry.1.toList = word.take 2 then
        some (entry.1, entry.2, some { afterEquals := false, text := word.drop 2 })
      else if word.isPrefixOf entry.1.toList then some (entry.1, entry.2, none)
      else none

def isNegativeNumber : List Char → Bool
  | '-' :: rest =>
    let whole := rest.takeWhile Char.isDigit
    match rest.drop whole.length with
    | [] => !whole.isEmpty
    | '.' :: places => !places.isEmpty && places.all Char.isDigit
    | _ => false
  | _ => false

/-- A word that is no spelling as it is, neither with nor without a text
attached. -/
def ofUnlisted (spellings : Spellings) (text : String) : Word :=
  match candidates spellings text.toList with
  | [(spelling, found, attached)] => flag spelling found attached
  | [] =>
    if isNegativeNumber text.toList || text.toList.contains ' ' then plain text
    else unknown text
  | several => ambiguous text (several.map Prod.fst)

/-- A word that comes before the two hyphens. -/
def ofText (spellings : Spellings) (text : String) : Word :=
  match text.toList with
  | '-' :: _ :: _ =>
    match spellings.find? text with
    | some found => flag text found none
    | none =>
      let (name, attached) := splitEquals text.toList
      match attached.bind fun _ => spellings.find? (String.ofList name) with
      | some found => flag (String.ofList name) found attached
      | none => ofUnlisted spellings text
  | _ => plain text

def readAll (spellings : Spellings) : List String → List Word
  | [] => []
  | text :: rest =>
    if text = "--" then hyphens :: rest.map plain
    else ofText spellings text :: readAll spellings rest

end Word

end CallbackLint
