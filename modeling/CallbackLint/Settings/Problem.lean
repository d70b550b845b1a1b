namespace CallbackLint

/-!
# What is wrong with a value

A reader of dynamic values reports every fault that it finds.  A fault has a
cause and the way that leads to it from the outside of the value.
-/

/-- The records that are read from dynamic values. -/
inductive Record where
  | options
  | ruleTables
  | settings
  | diagnostic
deriving DecidableEq, Repr

/-- The name under which a record is mentioned in messages. -/
def Record.name : Record → String
  | options => "CallbackReturnOptions"
  | ruleTables => "RulesConfig"
  | settings => "LintConfig"
  | diagnostic => "Diagnostic"

/-- Why a value is no list of callback names. -/
inductive NamesFault where
  | notAList
  | notText
  | notAnIdentifier (name : String)
deriving DecidableEq, Repr

/-- The message for a fault of a list of names. -/
def NamesFault.message : NamesFault → String
  | notAList => "names must be a list of identifiers"
  | notText => "names must be a list of str"
  | notAnIdentifier name =>
    s!"Invalid callback name '{name}': only plain identifiers are matched " ++
      "(no member paths or wildcards)"

inductive Fault where
  | names (fault : NamesFault)
  | unknownKey
  | missing
  | notAList
  | notText
  | notABoolean
  | unreadableBoolean
  | notAnInteger
  | unreadableInteger
  | fractionalInteger
  | oversizedInteger
  | nonFiniteNumber
  | notATable (record : Record)
deriving DecidableEq, Repr

namespace Fault

def label : Fault → String
  | names _ => "value_error"
  | unknownKey => "extra_forbidden"
  | missing => "missing"
  | notAList => "list_type"
  | notText => "string_type"
  | notABoolean => "bool_type"
  | unreadableBoolean => "bool_parsing"
  | notAnInteger => "int_type"
  | unreadableInteger => "int_parsing"
  | fractionalInteger => "int_from_float"
  | oversizedInteger => "int_parsing_size"
  | nonFiniteNumber => "finite_number"
  | notATable _ => "model_type"

def message : Fault → String
  | names fault => "Value error, " ++ fault.message
  | unknownKey => "Extra inputs are not permitted"
  | missing => "Field required"
  | notAList => "Input should be a valid list"
  | notText => "Input should be a valid string"
  | notABoolean => "Input should be a valid boolean"
  | unreadableBoolean => "Input should be a valid boolean, unable to interpret input"
  | notAnInteger => "Input should be a valid integer"
  | unreadableInteger =>
    "Input should be a valid integer, unable to parse string as an integer"
  | fractionalInteger =>
    "Input should be a valid integer, got a number with a fractional part"
  | oversizedInteger => "Unable to parse input string as an integer, exceeded maximum size"
  | nonFiniteNumber => "Input should be a finite number"
  | notATable record =>
    s!"Input should be a valid dictionary or instance of {record.name}"

end Fault

/-- One step of the way into a value. -/
inductive Step where
  | key (name : String)
  | index (place : Nat)
deriving DecidableEq, Repr

def Step.text : Step → String
  | key name => name
  | index place => toString place

/-- A fault and the way that leads to it. -/
structure Problem where
  way : List Step := []
  fault : Fault
deriving DecidableEq, Repr

namespace Problem

/-- The same problem, seen from one step further out. -/
def below (step : Step) (problem : Problem) : Problem :=
  { problem with way := step :: problem.way }

/-- The lines that show a problem: the way to it, unless it is empty, and the
message. -/
def lines (problem : Problem) : List String :=
  let message := "  " ++ problem.fault.message
  if problem.way.isEmpty then [message]
  else [".".intercalate (problem.way.map Step.text), message]

/-- The lines that show all problems of a record. -/
def report (record : Record) (problems : List Problem) : List String :=
  let plural := if problems.length = 1 then "" else "s"
  s!"{problems.length} validation error{plural} for {record.name}" ::
    problems.flatMap lines

end Problem

/-- What reading a dynamic value gives: a result, or every problem found. -/
abbrev Reading (α : Type) := Except (List Problem) α

namespace Reading

variable {α : Type}

/-- The problems of a reading; a result has none. -/
def problems : Reading α → List Problem
  | .ok _ => []
  | .error problems => problems

/-- The same reading, seen from one step further out. -/
def below (step : Step) : Reading α → Reading α
  | .ok result => .ok result
  | .error problems => .error (problems.map (Problem.below step))

/-- A reading that fails with a single fault of the value itself. -/
def fail (fault : Fault) : Reading α := .error [{ fault }]

end Reading

end CallbackLint
