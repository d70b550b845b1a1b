import CallbackLint.Rule.Inspection
import CallbackLint.Settings.Basic
import CallbackLint.Text.Split

namespace CallbackLint

/-!
# Diagnostics from outside

A diagnostic may be handed over as a table and shown again.  Keys that mean
nothing are ignored.  The problems come in the order of the fields.

Its integers may be given as numbers, as truth values, or as texts: digits with
an optional sign, between blanks.  Single underscores may stand between digits,
and a point with zeros may follow them.
-/

/-! ## Integers -/

namespace IntegerText

/-- Whether a text after some digits adds nothing to them. -/
def isIdle : List Char → Bool
  | [] => true
  | '.' :: rest => rest.all fun char => char == '0'
  | _ => false

/-- The natural number that a text of digits stands for. -/
def unsigned? (text : List Char) : Option Nat :=
  let found := groupedDigits Char.isDigit text
  if found.1.isEmpty || !isIdle found.2 then none else some (numberOf 10 found.1)

def read? (text : List Char) : Option Int :=
  match trimBlanks text with
  | '-' :: rest => (unsigned? rest).map fun number => -(number : Int)
  | '+' :: rest => (unsigned? rest).map fun number => (number : Int)
  | rest => (unsigned? rest).map fun number => (number : Int)

end IntegerText

namespace Datum

def readInteger : Datum → Reading Int
  | integer value => .ok value
  | boolean value => .ok (if value then 1 else 0)
  | float (.whole value) =>
    if fits64 value && value != least64 then .ok value else .fail .oversizedInteger
  | float .fractional => .fail .fractionalInteger
  | float .nonFinite => .fail .nonFiniteNumber
  | text value =>
    match IntegerText.read? value.toList with
    | some number => .ok number
    | none => .fail .unreadableInteger
  | _ => .fail .notAnInteger

def readText : Datum → Reading String
  | text value => .ok value
  | _ => .fail .notText

def readOptionalText : Datum → Reading (Option String)
  | null => .ok none
  | value => (readText value).map some

/-- The field under a key that a table must have. -/
def readRequired {α : Type} (key : String) (reader : Datum → Reading α)
    (entries : List (String × Datum)) : Reading α :=
  match find? key entries with
  | some value => (reader value).below (.key key)
  | none => Reading.below (.key key) (.fail .missing)

end Datum

/-! ## Diagnostics -/

def Diagnostic.read (value : Datum) : Reading Diagnostic :=
  match value.readTable .diagnostic with
  | .error problems => .error problems
  | .ok entries =>
    let rule := Datum.readRequired "rule" Datum.readText entries
    let message := Datum.readRequired "message" Datum.readText entries
    let line := Datum.readRequired "line" Datum.readInteger entries
    let column := Datum.readRequired "column" Datum.readInteger entries
    let nodeType := Datum.readRequired "node_type" Datum.readText entries
    let path := Datum.readField "path" none Datum.readOptionalText entries
    match rule, message, line, column, nodeType, path with
    | .ok rule, .ok message, .ok line, .ok column, .ok nodeType, .ok path =>
      .ok { rule, message, line, column, nodeType, path }
    | rule, message, line, column, nodeType, path =>
      .error (rule.problems ++ message.problems ++ line.problems ++ column.problems ++
        nodeType.problems ++ path.problems)

end CallbackLint
