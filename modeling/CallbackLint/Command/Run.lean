import CallbackLint.Checking
import CallbackLint.Command.Arguments

namespace CallbackLint

/-!
# Running the program

A run is a function of its surroundings and of the words of the command line,
for any parser of scripts.
It comes to an exit status and two texts: the report, and the lines for the
user.  The status is 2 if nothing could be checked, 1 if there are diagnostics
and 0 if there are none.
-/

/-- What a run can see. -/
structure Surroundings where
  files : FileTree
  /-- The folder from which locations are read. -/
  current : Location
  /-- The user's own folder. -/
  home : Location

structure Outcome where
  status : Nat
  /-- The report. -/
  output : String := ""
  /-- The lines for the user. -/
  lines : List String := []
deriving DecidableEq, Repr

/-- Why a run breaks off. -/
inductive Breakdown where
  | ignoring (fault : IgnoreFault)
  | settingsNotText
  | settingsUnreadable (fault : AccessFault)
  /-- The folder cannot be found, because a link leads in a circle. -/
  | circularLinks
  /-- The folder is in that of a user who is not known. -/
  | unknownUser
  | oversizedInteger (value : Int)
deriving DecidableEq, Repr

def Breakdown.message : Breakdown → String
  | ignoring (.unreadable fault) => s!"an ignore file cannot be read: {fault.reason}"
  | ignoring .notText => "an ignore file is not UTF-8 text"
  | ignoring .emptyPattern => "a pattern of an ignore file is empty"
  | ignoring .badExpression => "a pattern of an ignore file has a bad range or set"
  | ignoring .outside => "an ignore file was asked about a file outside of its folder"
  | settingsNotText => "the settings file is not UTF-8 text"
  | settingsUnreadable fault => s!"the settings file cannot be read: {fault.reason}"
  | circularLinks => "a symbolic link leads in a circle"
  | unknownUser => "could not determine home directory"
  | oversizedInteger value => s!"{value} does not fit into 64 bits"

namespace Command

def programName : String := "callback-return"

def usage : List String :=
  ["usage: callback-return [-h] check ...",
   "",
   "check    report callbacks not followed by a return"]

def commandUsage : List String :=
  ["usage: callback-return check [-h] [--callbacks NAME [NAME ...]]",
   "                             [--format \x7btext,json\x7d] [--verbose] [root]",
   "",
   "root          the folder to check, by default the current one",
   "--callbacks   the names to check instead of those in the settings",
   "--format      the format of the report, by default text",
   "--verbose     say how each call was classified"]

def textOf (lines : List String) : String :=
  String.join (lines.map fun line => line ++ "\n")

def refuse (ofCommand : Bool) (misuse : Misuse) : Outcome :=
  let name := if ofCommand then programName ++ " check" else programName
  { status := 2, lines := [s!"{name}: error: {misuse.message}"] }

/-- The notes that are shown: all of them, or the warnings. -/
def shownNotes (verbose : Bool) (notes : List Note) : List String :=
  (notes.filter fun note => verbose || note.weight = .warning).map Note.shortLine

/-- The location that a text means.  A tilde as the first name stands for the user's own folder;
other users and their folders are not known. -/
def locate (surroundings : Surroundings) (text : String) : Except Breakdown Location :=
  match Location.isWhole text, Location.namesIn text with
  | true, names => .ok { names }
  | false, [] => .ok surroundings.current
  | false, first :: rest =>
    if first = "~" then .ok (surroundings.home.below rest)
    else if first.startsWith "~" then .error .unknownUser
    else .ok (surroundings.current.below (first :: rest))

def rootOf (surroundings : Surroundings) (text : String) : Except Breakdown Location := do
  let location ← locate surroundings text
  (surroundings.files.resolve location).mapError fun _ => .circularLinks

/-- The settings of a run: those of the folder, with the names of the command line if there are
any.  What is wrong with them is shown to the user, and names are not even looked at when the file
is bad. -/
def settingsFor (files : FileTree) (root : Location) (callbacks : Option (List String)) :
    Except Breakdown (Except (List String) Settings) :=
  match Settings.load files root with
  | .error .notText => .error .settingsNotText
  | .error (.unreadable fault) => .error (.settingsUnreadable fault)
  | .error fault => .ok (.error fault.lines)
  | .ok settings =>
    match callbacks with
    | none => .ok (.ok settings)
    | some names =>
      match Options.read (.table [("names", .list (names.map .text))]) with
      | .ok options => .ok (.ok { settings with options })
      | .error problems =>
        match Problem.report .options problems with
        | first :: rest => .ok (.error (s!"invalid --callbacks: {first}" :: rest))
        | [] => .ok (.error [])

def errorLines : List String → List String
  | [] => []
  | first :: rest => s!"error: {first}" :: rest

variable (parse : List UInt8 → Script)

/-- Check a folder as the arguments say. -/
def check (surroundings : Surroundings) (arguments : Arguments) : Except Breakdown Outcome := do
  let files := surroundings.files
  let root ← rootOf surroundings arguments.root
  let started := shownNotes arguments.verbose [.started root.text]
  match ← settingsFor files root arguments.callbacks with
  | .error lines => return { status := 2, lines := started ++ errorLines lines }
  | .ok settings =>
    let findings ← (Checking.checkFolder parse files settings root).mapError .ignoring
    let output ← (render arguments.format findings.diagnostics).mapError fun overflow =>
      .oversizedInteger overflow.value
    return {
      status := if findings.diagnostics.isEmpty then 0 else 1
      output
      lines := started ++ shownNotes arguments.verbose findings.notes }

/-- Do what a command line asks for. -/
def run (surroundings : Surroundings) (words : List String) : Except Breakdown Outcome :=
  match Arguments.read words with
  | .check arguments => check parse surroundings arguments
  | .help ofCommand =>
    .ok { status := 0, output := textOf (if ofCommand then commandUsage else usage) }
  | .misuse ofCommand misuse => .ok (refuse ofCommand misuse)

end Command

end CallbackLint
