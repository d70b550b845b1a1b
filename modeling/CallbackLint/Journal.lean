import CallbackLint.Rule.Placement

namespace CallbackLint

/-!
# What a run tells about itself

Besides its result, a run notes what it does: each call that it looks at, each
file that it reads or has to skip, and a summary.  Every note has a weight, a
topic and a text.
-/

inductive Weight where
  | debug
  | info
  | warning
deriving DecidableEq, Repr

def Weight.name : Weight → String
  | debug => "DEBUG"
  | info => "INFO"
  | warning => "WARNING"

/-- One thing that a run notes. -/
inductive Note where
  /-- A call of a configured name was found and classified. -/
  | classified (callee : String) (position : Position) (placement : Placement)
  /-- A script is not well formed. -/
  | malformed
  /-- A file is about to be read. -/
  | reading (path : String)
  /-- A file could not be read. -/
  | unreadable (path reason : String)
  /-- All files are done. -/
  | summary (files problems : Nat)
  /-- A run over a directory begins. -/
  | started (root : String)
deriving DecidableEq, Repr

namespace Note

def weight : Note → Weight
  | classified .. | reading _ => .debug
  | malformed | unreadable .. => .warning
  | summary .. | started _ => .info

/-- The part of the program that a note is about. -/
def topic : Note → String
  | classified .. => "rules.callback_return"
  | malformed | reading _ => "parse.treesitter_js"
  | unreadable .. | summary .. => "check.runner"
  | started _ => "cli"

def text : Note → String
  | classified callee position placement =>
    s!"{callee}() at {position.line}:{position.column} classified as {placement.name}"
  | malformed => "Syntax errors found; analysing the recoverable parts of the tree"
  | reading path => s!"Parsing {path}"
  | unreadable path reason => s!"Skipping unreadable file {path}: {reason}"
  | summary files problems => s!"Checked {files} file(s), found {problems} problem(s)"
  | started root => s!"Checking {root}"

def line (note : Note) : String := s!"{note.weight.name} {note.topic}: {note.text}"

def shortLine (note : Note) : String := s!"{note.weight.name}: {note.text}"

end Note

end CallbackLint
