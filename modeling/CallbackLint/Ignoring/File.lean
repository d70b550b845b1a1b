import CallbackLint.Files.Listing
import CallbackLint.Ignoring.Rule
import CallbackLint.Text.Split
import CallbackLint.Text.Utf8

namespace CallbackLint

/-!
# Ignore files

An ignore file has rules about the files below its own folder.  If none of them
makes exceptions, a file is ignored when some rule concerns it; otherwise the
last rule that concerns it decides.  To ask about a file elsewhere is a fault
as soon as there is a rule to ask.
-/

structure IgnoreFile where
  /-- The names that lead to the folder. -/
  folder : List String
  rules : List IgnoreRule
deriving DecidableEq, Repr

namespace IgnoreFile

def fileName : String := ".gitignore"

def rulesIn (lines : List (List Char)) : Except IgnoreFault (List IgnoreRule) := do
  let rules ← lines.mapM IgnoreRule.ofLine
  return rules.filterMap id

def read (folder : List String) (bytes : List UInt8) : Except IgnoreFault IgnoreFile :=
  match Utf8.decode? bytes with
  | none => .error .notText
  | some text => do
    let rules ← rulesIn (piecesBetween '\n' (unifyLineEnds text))
    return { folder, rules }

/-- Whether a rule concerns a file, given by names from the same folder as the
ignore file is. -/
def concerns (file : IgnoreFile) (names : List String) (rule : IgnoreRule) :
    Except IgnoreFault Bool :=
  if file.folder.isPrefixOf names then
    rule.concerns (Location.join (names.drop file.folder.length))
  else .error .outside

def firstConcerning (file : IgnoreFile) (names : List String) :
    List IgnoreRule → Except IgnoreFault (Option IgnoreRule)
  | [] => .ok none
  | rule :: rest => do
    if ← file.concerns names rule then return some rule
    file.firstConcerning names rest

def ignores (file : IgnoreFile) (names : List String) : Except IgnoreFault Bool := do
  if file.rules.any IgnoreRule.negated then
    match ← file.firstConcerning names file.rules.reverse with
    | some rule => return !rule.negated
    | none => return false
  else return (← file.firstConcerning names file.rules).isSome

/-- Whether some ignore files ignore a file.  Those that it is outside of do not count, while any
other fault of one of them is a fault of the whole question. -/
def anyIgnores (names : List String) : List IgnoreFile → Except IgnoreFault Bool
  | [] => .ok false
  | file :: rest =>
    match file.ignores names with
    | .ok true => .ok true
    | .ok false | .error .outside => anyIgnores names rest
    | .error fault => .error fault

/-- Whether all ignore files of a run together ignore a file.  A single one is asked as it is and
must have an answer about every file; several may each be unable to give one. -/
def judge (files : List IgnoreFile) (names : List String) : Except IgnoreFault Bool :=
  match files with
  | [file] => file.ignores names
  | files => anyIgnores names files

end IgnoreFile

end CallbackLint
