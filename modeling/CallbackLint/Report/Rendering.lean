import CallbackLint.Report.Json
import CallbackLint.Rule.Inspection

namespace CallbackLint

/-!
# Showing diagnostics

Diagnostics are shown either as text, one a line, or as a JSON document.  The
document can hold only integers of 64 bits, with or without a sign; the text
can hold any.
-/

namespace Diagnostic

def summary (diagnostic : Diagnostic) : String :=
  s!"{diagnostic.location}: {diagnostic.message} [{diagnostic.rule}]"

/-- A diagnostic as a JSON object, its keys in alphabetical order. -/
def toJson (diagnostic : Diagnostic) : Json :=
  .object
    [("column", .integer diagnostic.column),
     ("line", .integer diagnostic.line),
     ("message", .text diagnostic.message),
     ("node_type", .text diagnostic.nodeType),
     ("path", match diagnostic.path with
        | some path => .text path
        | none => .null),
     ("rule", .text diagnostic.rule)]

end Diagnostic

/-- Diagnostics as text, one a line.  Nothing is escaped, so a path with a line end in it goes over
two lines. -/
def renderText (diagnostics : List Diagnostic) : String :=
  String.join (diagnostics.map fun diagnostic => diagnostic.summary ++ "\n")

/-- A line or column that a document cannot hold. -/
structure IntegerOverflow where
  value : Int
deriving DecidableEq, Repr

/-- The least integer that a document can hold: the least one of 64 bits with a
sign. -/
def leastDocumentInteger : Int := -9223372036854775808

/-- The greatest integer that a document can hold: the greatest one of 64 bits
without a sign. -/
def greatestDocumentInteger : Int := 18446744073709551615

def isDocumentInteger (value : Int) : Bool :=
  decide (leastDocumentInteger ≤ value ∧ value ≤ greatestDocumentInteger)

/-- The integers of some diagnostics that a document cannot hold. -/
def overflows (diagnostics : List Diagnostic) : List Int :=
  diagnostics.flatMap fun diagnostic =>
    [diagnostic.column, diagnostic.line].filter fun value => !isDocumentInteger value

/-- Diagnostics as a JSON document with a line end behind it.  There is no document at all if one
integer does not fit; the first such integer is told. -/
def renderJson (diagnostics : List Diagnostic) : Except IntegerOverflow String :=
  match overflows diagnostics with
  | value :: _ => .error { value }
  | [] =>
    let document := Json.list (diagnostics.map Diagnostic.toJson)
    .ok (String.ofList (document.write 0 ++ ['\n']))

inductive Format where
  | text
  | json
deriving DecidableEq, Repr

def render : Format → List Diagnostic → Except IntegerOverflow String
  | .text, diagnostics => .ok (renderText diagnostics)
  | .json, diagnostics => renderJson diagnostics

end CallbackLint
