import CallbackLint.Text.Split
import CallbackLint.Toml.Number
import CallbackLint.Toml.Table
import CallbackLint.Toml.Text

namespace CallbackLint

/-!
# TOML documents

A document is a list of statements, one a line: a key with a value, or the
declaration of a table that the statements after it fill.  Keys may be paths.
What a path leads through by way of a key in a statement may not have been
declared, and cannot be declared once another table has been.
-/

namespace Toml

namespace Reader

/-! ## Keys -/

/-- Whether a character may stand in a key without quotes. -/
def isKeyChar (char : Char) : Bool := char.isAlphanum || char == '-' || char == '_'

def key : Reader String := do
  match ← peek? with
  | some char =>
    if isKeyChar char then return String.ofList (← takeWhile isKeyChar) else lineText
  | none => failure

/-- The keys of a path after the first one, at most `limit` of them. -/
def pathRest : (limit : Nat) → Reader (List String)
  | 0 => return []
  | limit + 1 => do
    skipBlanks
    if ← optional "." then
      skipBlanks
      let next ← key
      return next :: (← pathRest limit)
    return []

def path : Reader (List String) := do
  let first ← key
  return first :: (← pathRest (← get).length)

/-! ## Values -/

/-- A path and the value for it, read by a given reader. -/
def assignment (value : Reader Datum) : Reader (List String × Datum) := do
  let path ← path
  exactly "="
  skipBlanks
  return (path, ← value)

/-- The items of a list up to its closing bracket, at most `limit` of them. -/
def itemsUpTo (value : Reader Datum) : (limit : Nat) → Reader (List Datum)
  | 0 => failure
  | limit + 1 => do
    skipLines
    if ← optional "]" then return []
    let item ← value
    skipLines
    if ← optional "," then return item :: (← itemsUpTo value limit)
    exactly "]"
    return [item]

/-- Add what an assignment says to a table in braces. -/
def addInside (entries : Entries) (closed : Closed) (path : List String) (value : Datum) :
    Reader Entries := do
  ensure !closed.isComplete path
  let change := Entries.add (path.getLastD "") value
  match Entries.revise false change path.dropLast entries with
  | some entries => return entries
  | none => failure

/-- The rest of a table in braces, of at most `limit` assignments. -/
def assignmentsUpTo (value : Reader Datum) (entries : Entries) (closed : Closed) :
    (limit : Nat) → Reader Entries
  | 0 => failure
  | limit + 1 => do
    let (path, item) ← assignment value
    let entries ← addInside entries closed path item
    skipBlanks
    if ← optional "," then
      skipBlanks
      assignmentsUpTo value entries (closed.finish path item) limit
    else
      exactly "\x7d"
      return entries

def inlineTable (value : Reader Datum) : Reader Datum := do
  exactly "\x7b"
  skipBlanks
  if ← optional "\x7d" then return .table []
  return .table (← assignmentsUpTo value [] {} (← get).length)

def array (value : Reader Datum) : Reader Datum := do
  exactly "["
  return .list (← itemsUpTo value ((← get).length + 1))

def truth : Reader Datum := do
  if ← optional "true" then return .boolean true
  exactly "false"
  return .boolean false

/-- A value in which at most `depth` others are inside each other. -/
def value : (depth : Nat) → Reader Datum
  | 0 => failure
  | depth + 1 => do
    match ← peek? with
    | some '\x22' | some '\x27' => return .text (← text)
    | some '[' => array (value depth)
    | some '\x7b' => inlineTable (value depth)
    | some 't' | some 'f' => truth
    | _ => taking Moment.read? <|> taking Number.digits? <|> taking Number.special?

end Reader

/-! ## Statements -/

/-- A document as far as it has been read. -/
structure Draft where
  entries : Entries := []
  closed : Closed := {}
  /-- Tables that cannot be declared once another one has been. -/
  pending : List (List String) := []
  /-- The table that assignments fill. -/
  current : List String := []

namespace Draft

/-- Close the pending tables. -/
def settle (draft : Draft) : Draft :=
  { draft with closed := draft.pending.foldl Closed.declare draft.closed, pending := [] }

def declare (draft : Draft) (path : List String) : Option Draft := do
  if draft.closed.isDeclared path || draft.closed.isComplete path then failure
  let entries ← Entries.revise true some path draft.entries
  return { draft with entries, closed := draft.closed.declare path, current := path }

/-- Add a table to a list of tables and go on in it. -/
def extend (draft : Draft) (path : List String) : Option Draft := do
  if draft.closed.isComplete path then failure
  let change := Entries.addTable (path.getLastD "")
  let entries ← Entries.revise true change path.dropLast draft.entries
  let closed := (draft.closed.reopen path).declare path
  return { draft with entries, closed, current := path }

/-- The paths that lead to the tables that a path leads through. -/
def stems (path : List String) : List (List String) :=
  (List.range path.length).drop 1 |>.map fun size => path.take size

/-- Add what an assignment says to the current table. -/
def assign (draft : Draft) (path : List String) (value : Datum) : Option Draft := do
  let through := (stems path).map (draft.current ++ ·)
  if through.any draft.closed.isDeclared then failure
  let folder := draft.current ++ path.dropLast
  if draft.closed.isComplete folder then failure
  let change := Entries.add (path.getLastD "") value
  let entries ← Entries.revise true change folder draft.entries
  let closed := draft.closed.finish (draft.current ++ path) value
  return { draft with entries, closed, pending := draft.pending ++ through }

end Draft

namespace Reader

/-- Go on with a draft that there may be. -/
def require (draft? : Option Draft) : Reader Draft := StateT.lift draft?

def statement (draft : Draft) : Reader Draft := do
  if ← optional "[[" then
    skipBlanks
    let draft ← require (draft.settle.extend (← path))
    exactly "]]"
    return draft
  if ← optional "[" then
    skipBlanks
    let draft ← require (draft.settle.declare (← path))
    exactly "]"
    return draft
  match ← peek? with
  | none | some '\n' | some '#' => return draft
  | some _ =>
    let (path, value) ← assignment (value ((← get).length + 1))
    require (draft.assign path value)

/-- The statements of a document, in at most `limit` lines. -/
def statementsUpTo (draft : Draft) : (limit : Nat) → Reader Draft
  | 0 => failure
  | limit + 1 => do
    skipBlanks
    let draft ← statement draft
    skipBlanks
    skipComment
    if ← optional "\n" then statementsUpTo draft limit
    else
      ensure (← get).isEmpty
      return draft

end Reader

/-- The table that a document describes, unless the document is malformed. -/
def read? (document : List Char) : Option Datum :=
  let text := joinLineEnds document
  match (Reader.statementsUpTo {} (text.length + 1)).run text with
  | some (draft, _) => some (.table draft.entries)
  | none => none

end Toml

end CallbackLint
