import CallbackLint.Command.Word
import CallbackLint.Report.Rendering

namespace CallbackLint

/-!
# The command line

The program has one command, which checks the scripts below a folder.  Its words
are taken one after the other.  A flag waits for the words that belong to it.
The first plain word that belongs to no flag is the folder; further ones are not
understood.  All words are read before one that is not understood is reported.
-/

structure Arguments where
  root : String := "."
  /-- The names to check instead of those in the settings. -/
  callbacks : Option (List String) := none
  format : Format := .text
  verbose : Bool := false
deriving DecidableEq, Repr

inductive Misuse where
  | noCommand
  | unknownCommand (text : String)
  | unknownFormat (text : String)
  | missingWord (flag : Flag)
  | unusedText (flag : Flag) (text : String)
  | ambiguous (text : String) (candidates : List String)
  | notUnderstood (words : List String)
deriving DecidableEq, Repr

namespace Misuse

/-- What a flag expects to follow it. -/
def expectation : Arity → String
  | .oneOrMore => "expected at least one argument"
  | _ => "expected one argument"

def message : Misuse → String
  | noCommand => "the following arguments are required: command"
  | unknownCommand text =>
    s!"argument command: invalid choice: {quoted text} (choose from 'check')"
  | unknownFormat text =>
    s!"argument --format: invalid choice: {quoted text} (choose from 'text', 'json')"
  | missingWord flag => s!"argument {flag.title}: {expectation flag.arity}"
  | unusedText flag text =>
    s!"argument {flag.title}: ignored explicit argument {quoted text}"
  | ambiguous text candidates =>
    let shown := ", ".intercalate candidates
    s!"ambiguous option: {text} could match {shown}"
  | notUnderstood words =>
    let shown := " ".intercalate words
    s!"unrecognized arguments: {shown}"

end Misuse

inductive Request where
  | check (arguments : Arguments)
  /-- To be told how the program, or its command, is used. -/
  | help (ofCommand : Bool)
  /-- Nothing, because the program or its command is misused. -/
  | misuse (ofCommand : Bool) (misuse : Misuse)
deriving DecidableEq, Repr

namespace Arguments

/-- Why words are not read any further. -/
inductive Stop where
  | help
  | misuse (misuse : Misuse)
deriving DecidableEq, Repr

/-- What the next word is for. -/
inductive Awaiting where
  | nothing
  /-- The folder has just been taken, and two hyphens may follow it. -/
  | afterRoot
  | firstFor (flag : Flag)
  | moreNames (names : List String)
deriving DecidableEq, Repr

/-- The words of a command as far as they have been read. -/
structure Progress where
  arguments : Arguments := {}
  hasRoot : Bool := false
  awaiting : Awaiting := .nothing
  /-- The words that are not understood. -/
  strays : List String := []
deriving DecidableEq, Repr

def formatOf? : String → Option Format
  | "text" => some .text
  | "json" => some .json
  | _ => none

namespace Progress

def stray (progress : Progress) (text : String) : Progress :=
  { progress with awaiting := .nothing, strays := progress.strays ++ [text] }

/-- Give a text to a flag that takes a single one or begins to take several. -/
def supply (progress : Progress) (flag : Flag) (text : String) : Except Stop Progress :=
  match flag with
  | .format =>
    match formatOf? text with
    | some format =>
      .ok { progress with arguments := { progress.arguments with format }, awaiting := .nothing }
    | none => .error (.misuse (.unknownFormat text))
  | .callbacks => .ok { progress with awaiting := .moreNames [text] }
  | .help | .verbose => .ok progress

def switch (progress : Progress) : Flag → Except Stop Progress
  | .help => .error .help
  | .verbose =>
    .ok { progress with
      arguments := { progress.arguments with verbose := true }, awaiting := .nothing }
  | flag => .ok { progress with awaiting := .firstFor flag }

/-- Finish what the words before have begun. -/
def settle (progress : Progress) : Except Stop Progress :=
  match progress.awaiting with
  | .firstFor flag => .error (.misuse (.missingWord flag))
  | .moreNames names =>
    .ok { progress with
      arguments := { progress.arguments with callbacks := some names }, awaiting := .nothing }
  | .nothing | .afterRoot => .ok progress

end Progress

/-! ## Flags -/

/-- The flags that a single word stands for, and the part of it that is not
understood.  To a flag of a single letter that takes no text, the letters of
further flags may be attached. -/
structure Cluster where
  switches : List Flag := []
  last : Option (Flag × String) := none
  stray : Option String := none

/-- The flags in some letters that are attached to a flag without a text. -/
def letters (spellings : Spellings) (before : Flag) (afterEquals : Bool) :
    List Char → Except Stop Cluster
  | [] => .ok {}
  | letter :: rest =>
    let unused := Except.error (Stop.misuse (.unusedText before (String.ofList (letter :: rest))))
    if afterEquals || letter = '-' then unused
    else
      match spellings.find? (String.ofList ['-', letter]) with
      | none => .ok { stray := some (String.ofList ('-' :: letter :: rest)) }
      | some flag =>
        match rest with
        | '=' :: [] => .error (.misuse (.unusedText flag ""))
        | '=' :: text => .error (.misuse (.unusedText flag (String.ofList text)))
        | rest => do
          let cluster ← letters spellings flag false rest
          return { cluster with switches := flag :: cluster.switches }

/-- The flags that a word stands for. -/
def cluster (spellings : Spellings) (spelling : String) (flag : Flag)
    (attached : Option Attachment) : Except Stop Cluster :=
  match attached with
  | none => .ok { switches := [flag] }
  | some { afterEquals, text } =>
    if flag.arity != .none then .ok { last := some (flag, String.ofList text) }
    else if spelling.startsWith "--" || text.isEmpty then
      .error (.misuse (.unusedText flag (String.ofList text)))
    else do
      let cluster ← letters spellings flag afterEquals text
      return { cluster with switches := flag :: cluster.switches }

namespace Progress

def takeCluster (progress : Progress) (cluster : Cluster) : Except Stop Progress := do
  let progress ← cluster.switches.foldlM switch progress
  let progress ← match cluster.last with
    | some (flag, text) => (progress.supply flag text).bind settle
    | none => .ok progress
  match cluster.stray with
  | some text => return progress.stray text
  | none => return progress

def takePlain (progress : Progress) (text : String) : Except Stop Progress :=
  match progress.awaiting with
  | .firstFor flag => progress.supply flag text
  | .moreNames names => .ok { progress with awaiting := .moreNames (names ++ [text]) }
  | .nothing | .afterRoot =>
    if progress.hasRoot then .ok (progress.stray text)
    else
      .ok { progress with
        arguments := { progress.arguments with root := text }
        hasRoot := true
        awaiting := .afterRoot }

def take (spellings : Spellings) (progress : Progress) : Word → Except Stop Progress
  | .plain text => progress.takePlain text
  | .hyphens => do
    let progress ← progress.settle
    if progress.awaiting = .afterRoot || !progress.hasRoot then
      return { progress with awaiting := .nothing }
    return progress.stray "--"
  | .flag spelling flag attached => do
    let progress ← progress.settle
    progress.takeCluster (← cluster spellings spelling flag attached)
  | .unknown text => do
    let progress ← progress.settle
    return progress.stray text
  | .ambiguous text candidates => .error (.misuse (.ambiguous text candidates))

end Progress

/-! ## Commands -/

def commandFlags : Spellings := .ofFlags [.help, .callbacks, .format, .verbose]

def programFlags : Spellings := .ofFlags [.help]

/-- The first word that is cut too short. -/
def ambiguity? (words : List Word) : Option Misuse :=
  words.findSome? fun
    | .ambiguous text candidates => some (.ambiguous text candidates)
    | _ => none

/-- What the words of the command come to, and the words among them that are not
understood. -/
def readCommand (texts : List String) : Except Stop (Arguments × List String) :=
  let words := Word.readAll commandFlags texts
  match ambiguity? words with
  | some misuse => .error (.misuse misuse)
  | none => do
    let progress ← words.foldlM (Progress.take commandFlags) {}
    let progress ← progress.settle
    return (progress.arguments, progress.strays)

/-- What a command and its words come to, after some words that are not
understood. -/
def dispatch (strays : List String) (command : String) (texts : List String) : Request :=
  if command != "check" then .misuse false (.unknownCommand command)
  else
    match readCommand texts with
    | .error .help => .help true
    | .error (.misuse misuse) => .misuse true misuse
    | .ok (arguments, more) =>
      match strays ++ more with
      | [] => .check arguments
      | strays => .misuse false (.notUnderstood strays)

/-- What the words of a command line come to, after some that are not
understood. -/
def readAfter (strays : List String) : List String → Request
  | [] => .misuse false .noCommand
  | text :: rest =>
    if text = "--" then
      if rest.isEmpty then .misuse false .noCommand else dispatch strays text rest
    else
      match Word.ofText programFlags text with
      | .flag spelling flag attached =>
        match cluster programFlags spelling flag attached with
        | .error (.misuse misuse) => .misuse false misuse
        | _ => .help false
      | .unknown text => readAfter (strays ++ [text]) rest
      | _ => dispatch strays text rest

/-- What a command line comes to. -/
def read (texts : List String) : Request := readAfter [] texts

end Arguments

end CallbackLint
