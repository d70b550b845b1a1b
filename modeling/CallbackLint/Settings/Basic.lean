import CallbackLint.Settings.Names

namespace CallbackLint

/-!
# Settings

Settings say which files are looked at and which names are checked.  They are
read from a table whose keys are all optional; a key that is not known is a
problem.  The problems come in the order of the known keys, and those of
unknown keys after them, in the order of the table.
-/

structure Options where
  names : List String := ["callback"]
deriving DecidableEq, Repr

/-- The settings of a run. -/
structure Settings where
  /-- Patterns of which a file must match one, unless there are none. -/
  included : List String := []
  /-- Patterns of which a file must not match any. -/
  excluded : List String := []
  /-- Whether ignore files below the root count as well. -/
  nestedIgnoring : Bool := false
  options : Options := {}
deriving DecidableEq, Repr

namespace Datum

/-! ## Fields -/

/-- The texts in the part of a list that begins at a given place. -/
def readTextsFrom (place : Nat) : List Datum → Reading (List String)
  | [] => .ok []
  | item :: rest =>
    let head : Reading String :=
      match item with
      | text value => .ok value
      | _ => Reading.below (.index place) (.fail .notText)
    let tail := readTextsFrom (place + 1) rest
    match head, tail with
    | .ok value, .ok values => .ok (value :: values)
    | head, tail => .error (head.problems ++ tail.problems)

def readTexts : Datum → Reading (List String)
  | list items => readTextsFrom 0 items
  | _ => .fail .notAList

def affirmative : List String := ["1", "on", "t", "true", "y", "yes"]

def negative : List String := ["0", "off", "f", "false", "n", "no"]

def least64 : Int := -9223372036854775808

def greatest64 : Int := 9223372036854775807

def fits64 (value : Int) : Bool := decide (least64 ≤ value ∧ value ≤ greatest64)

def readTruth (value : Int) : Reading Bool :=
  if value = 0 then .ok false
  else if value = 1 then .ok true
  else .fail .unreadableBoolean

/-- A truth value, or a number or a word that stands for one.  Words are taken
in any case of ASCII letters. -/
def readBoolean : Datum → Reading Bool
  | boolean value => .ok value
  | integer value => if fits64 value then readTruth value else .fail .notABoolean
  | float (.whole value) =>
    if fits64 value && value != least64 then readTruth value else .fail .notABoolean
  | text word =>
    let lower := word.map Char.toLower
    if affirmative.contains lower then .ok true
    else if negative.contains lower then .ok false
    else .fail .unreadableBoolean
  | _ => .fail .notABoolean

/-! ## Tables -/

/-- The entries of a value that must be the table of a record. -/
def readTable (record : Record) : Datum → Reading (List (String × Datum))
  | table entries => .ok entries
  | _ => .fail (.notATable record)

/-- The field under a key, or a default if the table does not have the key. -/
def readField {α : Type} (key : String) (default : α) (reader : Datum → Reading α)
    (entries : List (String × Datum)) : Reading α :=
  match find? key entries with
  | some value => (reader value).below (.key key)
  | none => .ok default

/-- The problems of the keys of a table other than the given ones. -/
def unknownKeys (known : List String) (entries : List (String × Datum)) : List Problem :=
  (entries.filter fun entry => !known.contains entry.1).map fun entry =>
    { way := [.key entry.1], fault := .unknownKey }

end Datum

def Options.read (value : Datum) : Reading Options :=
  match value.readTable .options with
  | .error problems => .error problems
  | .ok entries =>
    let names := Datum.readField "names" ({} : Options).names readNames entries
    let unknown := Datum.unknownKeys ["names"] entries
    match names, unknown with
    | .ok names, [] => .ok { names }
    | names, unknown => .error (names.problems ++ unknown)

/-- The spelling of the key of the rule's table that counts in a given table:
the one with a hyphen if it is there, and the one with an underscore else. -/
def ruleTableKey (entries : List (String × Datum)) : String :=
  if (Datum.find? "callback-return" entries).isSome then "callback-return"
  else "callback_return"

/-- The options in a table with one table for each rule. -/
def Options.readAmongRules (value : Datum) : Reading Options :=
  match value.readTable .ruleTables with
  | .error problems => .error problems
  | .ok entries =>
    let key := ruleTableKey entries
    let options := Datum.readField key {} Options.read entries
    let unknown := Datum.unknownKeys [key] entries
    match options, unknown with
    | .ok options, [] => .ok options
    | options, unknown => .error (options.problems ++ unknown)

namespace Settings

def keys : List String := ["include", "exclude", "nested_gitignore", "rules"]

def read (value : Datum) : Reading Settings :=
  match value.readTable .settings with
  | .error problems => .error problems
  | .ok entries =>
    let included := Datum.readField "include" [] Datum.readTexts entries
    let excluded := Datum.readField "exclude" [] Datum.readTexts entries
    let nestedIgnoring := Datum.readField "nested_gitignore" false Datum.readBoolean entries
    let options := Datum.readField "rules" {} Options.readAmongRules entries
    let unknown := Datum.unknownKeys keys entries
    match included, excluded, nestedIgnoring, options, unknown with
    | .ok included, .ok excluded, .ok nestedIgnoring, .ok options, [] =>
      .ok { included, excluded, nestedIgnoring, options }
    | included, excluded, nestedIgnoring, options, unknown =>
      .error (included.problems ++ excluded.problems ++ nestedIgnoring.problems ++
        options.problems ++ unknown)

/-- Settings as a table that reads as the same settings. -/
def dump (settings : Settings) : Datum :=
  .table
    [("include", .list (settings.included.map .text)),
     ("exclude", .list (settings.excluded.map .text)),
     ("nested_gitignore", .boolean settings.nestedIgnoring),
     ("rules", .table
       [("callback_return", .table
         [("names", .list (settings.options.names.map .text))])])]

end Settings

end CallbackLint
