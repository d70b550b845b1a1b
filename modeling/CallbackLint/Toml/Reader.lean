namespace CallbackLint

/-!
# Reading TOML

A reader takes something off the front of a document, or fails.  Blanks are
spaces and tabs.  A comment runs from a hash to the end of its line and has no
control characters but tabs.
-/

namespace Toml

/-- A reader of some part of a document. -/
abbrev Reader := StateT (List Char) Option

def isBlank (char : Char) : Bool := char == ' ' || char == '\t'

/-- Whether a character may stand in a line of text or in a comment. -/
def isOrdinary (char : Char) : Bool :=
  char == '\t' || (decide (32 ≤ char.toNat) && char.toNat != 127)

namespace Reader

variable {α : Type}

def ensure (condition : Bool) : Reader Unit := if condition then pure () else failure

def peek? : Reader (Option Char) := do return (← get).head?

def advance : Reader Char := fun text =>
  match text with
  | [] => none
  | char :: rest => some (char, rest)

def sees (text : String) : Reader Bool := do return text.toList.isPrefixOf (← get)

def optional (text : String) : Reader Bool := do
  if ← sees text then
    modify fun rest => rest.drop text.length
    return true
  return false

def exactly (text : String) : Reader Unit := do ensure (← optional text)

def takeWhile (inClass : Char → Bool) : Reader (List Char) := fun text =>
  some (text.takeWhile inClass, text.dropWhile inClass)

/-- Take what a function finds at the front of the text. -/
def taking (found? : List Char → Option (α × List Char)) : Reader α := found?

def skipBlanks : Reader Unit := do
  let _ ← takeWhile isBlank

def skipComment : Reader Unit := do
  if ← sees "#" then
    let comment ← takeWhile fun char => char != '\n'
    ensure (comment.all isOrdinary)

/-- Skip blanks, line ends and comments, but at most `limit` of each. -/
def skipLinesUpTo : (limit : Nat) → Reader Unit
  | 0 => pure ()
  | limit + 1 => do
    let before := (← get).length
    let _ ← takeWhile fun char => isBlank char || char == '\n'
    skipComment
    if (← get).length < before then skipLinesUpTo limit

def skipLines : Reader Unit := do skipLinesUpTo (← get).length

end Reader

end Toml

end CallbackLint
