import CallbackLint.Text.Split

namespace CallbackLint

/-!
# Locations

A location is the way from the top folder to a file or a folder: the names to
go through, one after the other.  The name `..` goes back to the folder above,
but only when the location is looked up; until then it is a name like any
other.
-/

/-- The way from the top folder to a file or a folder. -/
structure Location where
  names : List String := []
deriving DecidableEq, Repr

namespace Location

/-- The names in a text, which stand between slashes.  Empty names and the name
of the folder itself do not count. -/
def namesIn (text : String) : List String :=
  ((piecesBetween '/' text.toList).map String.ofList).filter fun name =>
    name != "" && name != "."

/-- Whether a text says the whole way from the top folder. -/
def isWhole (text : String) : Bool := text.startsWith "/"

def join (names : List String) : String := "/".intercalate names

def text (location : Location) : String := "/" ++ join location.names

/-- The location at the end of some names that begin at a location. -/
def below (location : Location) (names : List String) : Location :=
  { names := location.names ++ names }

/-- The location that a text means to someone in a folder. -/
def ofText (folder : Location) (text : String) : Location :=
  if isWhole text then { names := namesIn text } else folder.below (namesIn text)

/-- The names that lead from a folder to a location, if the location begins
with the folder. -/
def namesFrom? (folder location : Location) : Option (List String) :=
  if folder.names.isPrefixOf location.names then
    some (location.names.drop folder.names.length)
  else none

/-- A location as it is shown to someone who looks at a folder: by the names
that lead there from the folder, and whole if none do. -/
def shownFrom (folder location : Location) : String :=
  match folder.namesFrom? location with
  | some [] => "."
  | some names => join names
  | none => location.text

/-- The names below a folder lead from it to what is below it. -/
theorem namesFrom?_below (folder : Location) (names : List String) :
    folder.namesFrom? (folder.below names) = some names := by
  simp [namesFrom?, below]

end Location

end CallbackLint
