import CallbackLint.Concrete.Lowering
import CallbackLint.Discovery
import CallbackLint.Settings.File

namespace CallbackLint

/-!
# Checking files

A file is read as a script and checked; its diagnostics say where it is, as seen
from the folder that is looked at.  To check a folder is to check the scripts
below it one after the other.  One that cannot be read is noted and left out,
and so changes nothing for the others.

What a source is as a script is for a parser to say, and a check is handed one.
Nothing that is said about checking files depends on how the parser works.
-/

namespace Checking

variable (parse : List UInt8 → Script)

/-- Check the script in a file, as seen from a folder if there is one.  The diagnostics have the
path that is seen from there, and the notes have the whole location. -/
def checkFile (files : FileTree) (names : List String) (folder : Option Location)
    (file : Location) : Except AccessFault Findings :=
  let shown := match folder with
    | some folder => folder.shownFrom file
    | none => file.text
  match files.read file with
  | .error fault => .error fault
  | .ok bytes =>
    let findings := (parse bytes).check names (some shown)
    .ok { findings with notes := .reading file.text :: findings.notes }

/-- What checking some files finds, together with how many could be read. -/
structure Progress where
  findings : Findings := {}
  checked : Nat := 0

def Progress.next (files : FileTree) (names : List String) (folder : Location)
    (progress : Progress) (file : Location) : Progress :=
  let before := progress.findings
  match checkFile parse files names (some folder) file with
  | .ok findings =>
    { findings :=
        { diagnostics := before.diagnostics ++ findings.diagnostics
          notes := before.notes ++ findings.notes }
      checked := progress.checked + 1 }
  | .error fault =>
    { progress with
      findings :=
        { before with
          notes := before.notes ++
            [.reading file.text, .unreadable file.text (fault.message file)] } }

def Progress.summary (progress : Progress) : Note :=
  .summary progress.checked progress.findings.diagnostics.length

/-- Check all scripts below a folder.  A search that fails is the only fault; a script that cannot
be read is noted, and the summary does not count it. -/
def checkFolder (files : FileTree) (settings : Settings) (folder : Location) :
    Except IgnoreFault Findings := do
  let selection := { included := settings.included, excluded := settings.excluded }
  let found ← Discovery.find files folder selection settings.nestedIgnoring
  let locations := found.map fun file => folder.below file.names
  let progress := locations.foldl (Progress.next parse files settings.options.names folder) {}
  let findings := progress.findings
  return { findings with notes := findings.notes ++ [progress.summary] }

end Checking

end CallbackLint
