import CallbackLint.Settings.Datum
import CallbackLint.Settings.Problem

namespace CallbackLint

/-!
# Callback names

The names to check are a list of plain identifiers in ASCII.  Repetitions are
dropped, the first one stays.  A single line feed after the identifier passes,
because the end of a name is the end of its first line when nothing follows.
-/

namespace CallbackName

def isStart (char : Char) : Bool := char.isAlpha || char == '_' || char == '$'

def isPart (char : Char) : Bool := isStart char || char.isDigit

/-- Whether some characters are the rest of an identifier, up to their end or
to a last line feed. -/
def isTail : List Char → Bool
  | [] => true
  | ['\n'] => true
  | char :: rest => isPart char && isTail rest

def isAccepted : List Char → Bool
  | [] => false
  | char :: rest => isStart char && isTail rest

/-- The text of one name, or what is wrong with it. -/
def read : Datum → Except NamesFault String
  | .text name => if isAccepted name.toList then .ok name else .error (.notAnIdentifier name)
  | _ => .error .notText

/-- The names in a list, or what is wrong with the first bad one. -/
def readAll : List Datum → Except NamesFault (List String)
  | [] => .ok []
  | item :: rest =>
    match read item with
    | .error fault => .error fault
    | .ok name =>
      match readAll rest with
      | .error fault => .error fault
      | .ok names => .ok (name :: names)

end CallbackName

/-- The callback names that a value stands for; no value stands for none. -/
def readNames : Datum → Reading (List String)
  | .null => .ok []
  | .list items =>
    match CallbackName.readAll items with
    | .ok names => .ok names.eraseDups
    | .error fault => .fail (.names fault)
  | _ => .fail (.names .notAList)

end CallbackLint
